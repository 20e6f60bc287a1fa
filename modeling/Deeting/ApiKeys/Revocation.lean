import Deeting.ApiKeys.Keys
import Deeting.Transition
import Mathlib.Algebra.Order.Ring.Int

/-! `validate_key` beside the transactions that revoke or delete keys. A call stops after each
cache command and after its SELECT; a transaction stops after its SELECT, after each row it
writes and each cache entry it drops, and before the commit of its caller. -/
namespace Deeting.ApiKeys
open Expiry Transition

inductive RowWrite where
  | revoke (id : KeyId) (at_ : ℤ) (reason : String)
  | delete (id : KeyId)

namespace RowWrite

def id : RowWrite → KeyId
  | .revoke id _ _ | .delete id => id

def apply (s : KeyStore) : RowWrite → KeyStore
  | .revoke id at_ reason =>
    s.update id { status := some .revoked, revokedAt := some at_, revokedReason := some reason }
  | .delete id => s.delete id

end RowWrite

inductive Removal where
  | revoke (reason : String)
  | delete

/-- `revoke_key`, `revoke_tenant_keys`, `revoke_user_keys` or `delete_key` under way: the rows
still to be written, the hash of the row just written, and all writes up to the commit. -/
structure Revocation where
  removal : Removal
  rows : List ApiKey
  written : Option KeyHash := none
  writes : List RowWrite := []

/-- `validate_key` under way, past its cache miss: before the SELECT, or with the principal
made from the row. -/
structure ValidateCall where
  hash : KeyHash
  principal : Option ApiPrincipal := none

structure KeyTraffic where
  now : ℤ
  store : KeyStore
  cache : KeyHash → Option (Entry ℤ ApiPrincipal) := fun _ => none
  calls : List ValidateCall := []
  revocations : List Revocation := []

inductive KeyAction where
  | tick (micros : ℕ)
  | lookup (hash : KeyHash)
  | check (call : ℕ)
  | fill (call : ℕ)
  | revokeKey (id : KeyId) (reason : String)
  | revokeTenantKeys (tenant : String) (reason : String)
  | revokeUserKeys (user : String) (reason : String)
  | deleteKey (id : KeyId)
  | write (revocation : ℕ)
  | invalidate (revocation : ℕ) (dropped : Bool)
  | commit (revocation : ℕ)
  | rollback (revocation : ℕ)

namespace Revocation

/-- The next row: `update` and its flush, or the DELETE, which may find the row gone. -/
def write (s : KeyStore) (now : ℤ) (r : Revocation) : Option Revocation :=
  match r.written, r.rows, r.removal with
  | none, k :: rest, .revoke reason =>
    some { r with
      rows := rest, written := some k.keyHash, writes := r.writes ++ [.revoke k.id now reason] }
  | none, k :: rest, .delete =>
    match s.getById k.id with
    | none => some { r with rows := rest }
    | some _ => some { r with
        rows := rest, written := some k.keyHash, writes := r.writes ++ [.delete k.id] }
  | _, _, _ => none

def Finished (r : Revocation) : Prop := r.rows = [] ∧ r.written = none

instance (r : Revocation) : Decidable r.Finished := inferInstanceAs (Decidable (_ ∧ _))

end Revocation

namespace KeyTraffic

def start (now : ℤ) (store : KeyStore) : KeyTraffic where
  now := now
  store := store

def begin (w : KeyTraffic) (removal : Removal) (rows : List ApiKey) : KeyTraffic :=
  { w with revocations := w.revocations ++ [{ removal, rows }] }

/-- `validate_key` up to its cache read; on a hit it returns. -/
def lookup (w : KeyTraffic) (hash : KeyHash) : KeyTraffic :=
  match live w.now (w.cache hash) with
  | some _ => w
  | none => { w with calls := w.calls ++ [{ hash }] }

/-- The SELECT and the check of its row; `none` ends the call. -/
def check (w : KeyTraffic) (call : ℕ) (c : ValidateCall) : KeyTraffic :=
  match checkRow w.now (w.store.getByKeyHash c.hash) with
  | none => { w with calls := w.calls.eraseIdx call }
  | some p => { w with calls := w.calls.set call { c with principal := some p } }

/-- `update_last_used` and `cache.set`; the call returns. -/
def fill (w : KeyTraffic) (call : ℕ) (c : ValidateCall) (p : ApiPrincipal) : KeyTraffic :=
  { w with
    store := w.store.updateLastUsed p.apiKeyId w.now
    cache := Function.update w.cache c.hash (some ⟨p, some (w.now + principalTtl)⟩)
    calls := w.calls.eraseIdx call }

def commit (w : KeyTraffic) (revocation : ℕ) (r : Revocation) : KeyTraffic :=
  { w with
    store := r.writes.foldl RowWrite.apply w.store
    revocations := w.revocations.eraseIdx revocation }

end KeyTraffic

def keyStep (w : KeyTraffic) : KeyAction → Option KeyTraffic
  | .tick micros => some { w with now := w.now + micros }
  | .lookup hash => some (w.lookup hash)
  | .check call =>
    match w.calls[call]? with
    | some ⟨hash, none⟩ => some (w.check call ⟨hash, none⟩)
    | _ => none
  | .fill call =>
    match w.calls[call]? with
    | some ⟨hash, some p⟩ => some (w.fill call ⟨hash, some p⟩ p)
    | _ => none
  | .revokeKey id reason =>
    some ((w.store.getById id).elim w fun k => w.begin (.revoke reason) [k])
  | .revokeTenantKeys tenant reason =>
    some (w.begin (.revoke reason) (w.store.listKeys fun k => k.tenantId = some tenant))
  | .revokeUserKeys user reason =>
    some (w.begin (.revoke reason) (w.store.listKeys fun k => k.userId = some user))
  | .deleteKey id => some ((w.store.getById id).elim w fun k => w.begin .delete [k])
  | .write i => do
    let r ← w.revocations[i]?
    let r ← r.write w.store w.now
    some { w with revocations := w.revocations.set i r }
  | .invalidate i dropped => do
    let r ← w.revocations[i]?
    let hash ← r.written
    some { w with
      cache := invalidateCache dropped hash w.cache
      revocations := w.revocations.set i { r with written := none } }
  | .commit i => do
    let r ← w.revocations[i]?
    if r.Finished then some (w.commit i r) else none
  | .rollback i => do
    let _ ← w.revocations[i]?
    some { w with revocations := w.revocations.eraseIdx i }

/-- What the step returns to the caller of `validate_key`, for which key. -/
def answer (w : KeyTraffic) : KeyAction → Option (KeyHash × ApiPrincipal)
  | .lookup hash => (live w.now (w.cache hash)).map fun e => (hash, e.value)
  | .fill call => w.calls[call]?.bind fun c => c.principal.map fun p => (c.hash, p)
  | _ => none

namespace KeyTraffic

def Admits (w : KeyTraffic) (hash : KeyHash) : Prop :=
  (checkRow w.now (w.store.getByKeyHash hash)).isSome

/-- Whatever happens next, no principal is returned for a key that is revoked, deleted or
expired. -/
def Sound (w : KeyTraffic) : Prop :=
  ∀ a hash p, answer w a = some (hash, p) → w.Admits hash

/-- `validate_key` could still return a principal for the key without its row. -/
def Held (w : KeyTraffic) (time : ℤ) (hash : KeyHash) : Prop :=
  (live time (w.cache hash)).isSome ∨ ∃ c ∈ w.calls, c.hash = hash ∧ c.principal.isSome

/-- No key expires while its principal is cached beyond that or is in the hands of a call, and
no revocation is committed while a principal of one of its keys is. -/
def Keeps (w : KeyTraffic) : KeyAction → Prop
  | .tick micros =>
    ∀ hash, ∀ k ∈ w.store.getByKeyHash hash, ∀ e ∈ k.expiresAt, e < w.now + micros →
      ¬ w.Held (w.now + micros) hash
  | .commit i =>
    ∀ r ∈ w.revocations[i]?, r.Finished → ∀ write ∈ r.writes,
      ∀ hash, ∀ k ∈ w.store.getByKeyHash hash, k.id = write.id → ¬ w.Held w.now hash
  | _ => True

end KeyTraffic

section Rows

variable {now : ℤ} {row : Option ApiKey} {s : KeyStore} {hash : KeyHash}

theorem checkRow_isSome : (checkRow now row).isSome ↔
    ∃ k ∈ row, k.status = .active ∧ ∀ e ∈ k.expiresAt, now ≤ e := by
  cases row with
  | none => simp [checkRow]
  | some k =>
    cases ends : k.expiresAt with
    | none => by_cases active : k.status = .active <;> simp [checkRow, active, ends]
    | some e =>
      by_cases active : k.status = .active
      · by_cases past : e < now
        · simp [checkRow, active, ends, past]
        · simp [checkRow, active, ends, past, not_lt.mp past]
      · simp [checkRow, active, ends]

theorem RowWrite.getByKeyHash_of_ne {write : RowWrite}
    (other : ∀ k ∈ s.getByKeyHash hash, k.id ≠ write.id) :
    (write.apply s).getByKeyHash hash = s.getByKeyHash hash := by
  cases write with
  | revoke id at_ reason =>
    rw [RowWrite.apply, KeyStore.getByKeyHash_update]
    cases found : s.getByKeyHash hash with
    | none => rfl
    | some k => exact congrArg some (if_neg (other k found))
  | delete id =>
    rw [RowWrite.apply, KeyStore.getByKeyHash_delete]
    cases found : s.getByKeyHash hash with
    | none => rfl
    | some k => exact if_pos (decide_eq_true (other k found))

theorem RowWrite.not_admitted {write : RowWrite} {k : ApiKey}
    (found : s.getByKeyHash hash = some k) (own : k.id = write.id) :
    ¬ (checkRow now ((write.apply s).getByKeyHash hash)).isSome := by
  rw [checkRow_isSome]
  rintro ⟨row, mem, active, -⟩
  cases write with
  | revoke id at_ reason =>
    rw [RowWrite.apply, KeyStore.getByKeyHash_update, found] at mem
    obtain rfl := Option.some.inj mem
    change k.id = id at own
    simp [own, KeyUpdate.apply] at active
  | delete id =>
    rw [RowWrite.apply, KeyStore.getByKeyHash_delete, found] at mem
    obtain ⟨same, other⟩ := Option.filter_eq_some_iff.mp mem
    obtain rfl := Option.some.inj same
    exact of_decide_eq_true other own

theorem admitted_writes (writes : List RowWrite) :
    (checkRow now ((writes.foldl RowWrite.apply s).getByKeyHash hash)).isSome ↔
      (checkRow now (s.getByKeyHash hash)).isSome ∧
        ∀ write ∈ writes, ∀ k ∈ s.getByKeyHash hash, k.id ≠ write.id := by
  induction writes generalizing s with
  | nil => simp
  | cons write rest ih =>
    rw [List.foldl_cons, ih, List.forall_mem_cons]
    by_cases other : ∀ k ∈ s.getByKeyHash hash, k.id ≠ write.id
    · rw [RowWrite.getByKeyHash_of_ne other]
      exact and_congr_right fun _ => (and_iff_right other).symm
    · refine iff_of_false (fun both => ?_) fun both => other both.2.1
      push Not at other
      obtain ⟨k, found, own⟩ := other
      exact RowWrite.not_admitted found own both.1

end Rows

section Steps

variable {w w' : KeyTraffic} {a : KeyAction} {hash : KeyHash} {time : ℤ}

namespace KeyTraffic

def Safe (w : KeyTraffic) : Prop := ∀ hash, w.Held w.now hash → w.Admits hash

theorem sound_iff_safe : w.Sound ↔ w.Safe := by
  constructor
  · rintro sound hash (cached | ⟨c, mem, rfl, checked⟩)
    · obtain ⟨e, found⟩ := Option.isSome_iff_exists.mp cached
      exact sound (.lookup hash) hash e.value (by simp [answer, found])
    · obtain ⟨p, made⟩ := Option.isSome_iff_exists.mp checked
      obtain ⟨i, at_⟩ := List.mem_iff_getElem?.mp mem
      exact sound (.fill i) c.hash p (by simp [answer, at_, made])
  · intro safe a hash p returned
    apply safe
    cases a with
    | lookup key =>
      simp only [answer, Option.map_eq_some_iff, Prod.mk.injEq] at returned
      obtain ⟨e, found, rfl, -⟩ := returned
      exact .inl (by simp [found])
    | fill i =>
      simp only [answer, Option.bind_eq_some_iff, Option.map_eq_some_iff, Prod.mk.injEq] at returned
      obtain ⟨c, at_, q, made, rfl, -⟩ := returned
      exact .inr ⟨c, List.mem_of_getElem? at_, rfl, by simp [made]⟩
    | _ => cases returned

/-- A step that leaves rows and clock alone is safe if all that is held after it was held
before or is admitted. -/
theorem Safe.of_held (safe : w.Safe) (admits : ∀ hash, w.Admits hash → w'.Admits hash)
    (held : ∀ hash, w'.Held w'.now hash → w.Held w.now hash ∨ w.Admits hash) : w'.Safe := by
  intro hash holds
  apply admits
  exact (held hash holds).elim (safe hash) id

theorem safe_tick (safe : w.Safe) (micros : ℕ) :
    Safe { w with now := w.now + micros } ↔ w.Keeps (.tick micros) := by
  constructor
  · intro after hash k found e ends past holds
    obtain ⟨row, same, -, lasts⟩ := checkRow_isSome.mp (after hash holds)
    obtain rfl := Option.some.inj (found.symm.trans same)
    exact absurd (lasts e ends) (not_le.mpr past)
  · intro keeps hash holds
    have before : w.Held w.now hash := by
      refine holds.imp_left fun cached => ?_
      obtain ⟨e, found⟩ := Option.isSome_iff_exists.mp cached
      have order : w.now ≤ w.now + micros := by omega
      rw [live_earlier order found]
      rfl
    obtain ⟨k, found, active, -⟩ := checkRow_isSome.mp (safe hash before)
    refine checkRow_isSome.mpr ⟨k, found, active, fun e ends => not_lt.mp fun past => ?_⟩
    exact keeps hash k found e ends past holds

theorem safe_commit (safe : w.Safe) {i : ℕ} {r : Revocation} (at_ : w.revocations[i]? = some r)
    (finished : r.Finished) : (w.commit i r).Safe ↔ w.Keeps (.commit i) := by
  constructor
  · intro after r' same _ write mem hash k found own holds
    obtain rfl := Option.some.inj (at_.symm.trans same)
    exact (admitted_writes r.writes).mp (after hash holds) |>.2 write mem k found own
  · intro keeps hash holds
    refine (admitted_writes r.writes).mpr ⟨safe hash holds, fun write mem k found own => ?_⟩
    exact keeps r at_ finished write mem hash k found own holds

theorem safe_lookup (safe : w.Safe) : (w.lookup hash).Safe := by
  rw [lookup]
  split
  · exact safe
  · refine safe.of_held (fun _ => id) fun key holds => ?_
    refine .inl (holds.imp_right ?_)
    rintro ⟨c, mem, named, checked⟩
    rcases List.mem_append.mp mem with old | new
    · exact ⟨c, old, named, checked⟩
    · rw [List.mem_singleton.mp new] at checked
      cases checked

theorem safe_check (safe : w.Safe) {i : ℕ} {c : ValidateCall} : (w.check i c).Safe := by
  rw [check]
  split
  · refine safe.of_held (fun _ => id) fun key holds => ?_
    refine .inl (holds.imp_right ?_)
    rintro ⟨d, mem, named⟩
    exact ⟨d, List.mem_of_mem_eraseIdx mem, named⟩
  · rename_i p passed
    refine safe.of_held (fun _ => id) fun key holds => ?_
    rcases holds with cached | ⟨d, mem, named, checked⟩
    · exact .inl (.inl cached)
    · rcases List.mem_or_eq_of_mem_set mem with old | rfl
      · exact .inl (.inr ⟨d, old, named, checked⟩)
      · refine .inr ?_
        subst named
        rw [Admits, passed]
        rfl

theorem admits_updateLastUsed {id : KeyId} {now : ℤ} :
    (checkRow time ((w.store.updateLastUsed id now).getByKeyHash hash)).isSome ↔
      (checkRow time (w.store.getByKeyHash hash)).isSome := by
  rw [KeyStore.updateLastUsed, KeyStore.getByKeyHash_modify]
  cases w.store.getByKeyHash hash with
  | none => exact Iff.rfl
  | some k =>
    rw [checkRow_isSome, checkRow_isSome]
    by_cases own : k.id = id
    · simp [own]
    · simp [own]

theorem safe_fill (safe : w.Safe) {i : ℕ} {c : ValidateCall} {p : ApiPrincipal}
    (at_ : w.calls[i]? = some c) (checked : c.principal = some p) : (w.fill i c p).Safe := by
  refine safe.of_held (fun _ => admits_updateLastUsed.mpr) fun key holds => .inl ?_
  rcases holds with cached | ⟨d, mem, named⟩
  · by_cases own : key = c.hash
    · exact .inr ⟨c, List.mem_of_getElem? at_, own.symm, by simp [checked]⟩
    · exact .inl (by simpa [fill, Function.update_of_ne own] using cached)
  · exact .inr ⟨d, List.mem_of_mem_eraseIdx mem, named⟩

theorem safe_invalidate (safe : w.Safe) (dropped : Bool) {revocations : List Revocation} :
    Safe { w with
      cache := invalidateCache dropped hash w.cache, revocations := revocations } := by
  refine safe.of_held (fun _ => id) fun key holds => .inl ?_
  refine holds.imp_left fun cached => ?_
  cases dropped with
  | false => exact cached
  | true =>
    by_cases own : key = hash
    · simp [invalidateCache, own] at cached
    · simpa [invalidateCache, Function.update_of_ne own] using cached

theorem safe_keyStep (safe : w.Safe) (taken : keyStep w a = some w') : w'.Safe ↔ w.Keeps a := by
  cases a with
  | tick micros =>
    cases taken
    exact safe_tick safe micros
  | lookup key =>
    cases taken
    exact iff_of_true (safe_lookup safe) trivial
  | check i =>
    refine iff_of_true ?_ trivial
    simp only [keyStep] at taken
    split at taken
    · cases taken
      exact safe_check safe
    · cases taken
  | fill i =>
    refine iff_of_true ?_ trivial
    simp only [keyStep] at taken
    split at taken
    · rename_i at_
      cases taken
      exact safe_fill safe at_ rfl
    · cases taken
  | revokeKey id reason | deleteKey id =>
    refine iff_of_true ?_ trivial
    cases taken
    cases w.store.getById id with
    | none => exact safe
    | some k => exact safe
  | revokeTenantKeys | revokeUserKeys =>
    cases taken
    exact iff_of_true safe trivial
  | write i =>
    refine iff_of_true ?_ trivial
    simp only [keyStep, Option.bind_eq_bind, Option.bind_eq_some_iff] at taken
    obtain ⟨_, -, _, -, done⟩ := taken
    cases done
    exact safe
  | invalidate i dropped =>
    refine iff_of_true ?_ trivial
    simp only [keyStep, Option.bind_eq_bind, Option.bind_eq_some_iff] at taken
    obtain ⟨_, -, _, -, done⟩ := taken
    cases done
    exact safe_invalidate safe dropped
  | commit i =>
    simp only [keyStep, Option.bind_eq_bind, Option.bind_eq_some_iff] at taken
    obtain ⟨r, at_, done⟩ := taken
    split at done
    · rename_i finished
      cases done
      exact safe_commit safe at_ finished
    · cases done
  | rollback i =>
    refine iff_of_true ?_ trivial
    simp only [keyStep, Option.bind_eq_bind, Option.bind_eq_some_iff] at taken
    obtain ⟨_, -, done⟩ := taken
    cases done
    exact safe

theorem keeps_of_stuck (stuck : keyStep w a = none) : w.Keeps a := by
  cases a with
  | tick => cases stuck
  | commit i =>
    intro r at_ finished
    simp [keyStep, Option.mem_def.mp at_, finished] at stuck
  | _ => trivial

theorem safe_start (now : ℤ) (store : KeyStore) : (start now store).Safe := by
  rintro hash (cached | ⟨c, mem, -⟩)
  · cases cached
  · cases mem

theorem run_validateKey (computeKeyHash : String → KeyHash) {raw : String} {p : ApiPrincipal}
    (given : raw ≠ "") (idle : w.calls = [])
    (miss : live w.now (w.cache (computeKeyHash raw)) = none)
    (passed : checkRow w.now (w.store.getByKeyHash (computeKeyHash raw)) = some p) :
    let alone := validateKey computeKeyHash ⟨w.store, w.cache⟩ w.now raw
    run keyStep w [.lookup (computeKeyHash raw), .check 0, .fill 0] =
      some { w with store := alone.1.store, cache := alone.1.cache } := by
  obtain ⟨now, store, cache, calls, revocations⟩ := w
  subst idle
  simp_all [run, keyStep, validateKey, KeyTraffic.lookup, KeyTraffic.check, KeyTraffic.fill]

end KeyTraffic

end Steps

section Runs

open KeyTraffic

/-- No step of a run, nor any other step in its place, returns a principal for a key that is
revoked, deleted or expired, just when every step meets its condition. -/
theorem sound_throughout (now : ℤ) (store : KeyStore) (actions : List KeyAction) :
    (∀ first, first <+: actions → ∀ w, run keyStep (start now store) first = some w → w.Sound) ↔
      Along keyStep KeyTraffic.Keeps (start now store) actions := by
  apply forall_prefix_iff_along (P := KeyTraffic.Safe)
  · exact sound_iff_safe.mpr
  · intro w a w' safe keeps taken
    exact (safe_keyStep safe taken).mpr keeps
  · intro w a w' safe taken sound
    exact (safe_keyStep safe taken).mp (sound_iff_safe.mp sound)
  · exact keeps_of_stuck
  · exact safe_start now store

/-- A call that has read its row when a revocation is committed returns a principal after it; so
does a lookup after a revocation by a service without `redis`; and a cached principal is returned
a second after its key has expired. -/
theorem revoked_key_returned :
    ∃ store k revoked kept expired,
      generateKey id .empty
        { keyType := .external, name := "prod", createdBy := "ann", expiresAt := some 1000000 }
        ⟨"k1", "abc", "s1"⟩ = some (store, k) ∧
      run keyStep (start 0 store) [.lookup k.keyHash, .check 0, .revokeKey k.id "leaked",
        .write 0, .invalidate 0 true, .commit 0] = some revoked ∧
      run keyStep (start 0 store) [.lookup k.keyHash, .check 0, .fill 0, .revokeKey k.id "leaked",
        .write 0, .invalidate 0 false, .commit 0] = some kept ∧
      run keyStep (start 0 store) [.lookup k.keyHash, .check 0, .fill 0, .tick 2000000] =
        some expired ∧
      (revoked.store.getByKeyHash k.keyHash).map ApiKey.status = some .revoked ∧
      answer revoked (.fill 0) = some (k.keyHash, principalOf k) ∧
      (kept.store.getByKeyHash k.keyHash).map ApiKey.status = some .revoked ∧
      answer kept (.lookup k.keyHash) = some (k.keyHash, principalOf k) ∧
      answer expired (.lookup k.keyHash) = some (k.keyHash, principalOf k) ∧
      ¬ revoked.Sound ∧ ¬ kept.Sound ∧ ¬ expired.Sound := by
  refine ⟨_, _, _, _, _, rfl, rfl, rfl, rfl, rfl, rfl, rfl, rfl, rfl, fun sound => ?_,
    fun sound => ?_, fun sound => ?_⟩
  · have admitted := sound (.fill 0) _ _ rfl
    cases admitted
  · have admitted := sound (.lookup "sk-ext-abc") _ _ rfl
    cases admitted
  · have admitted := sound (.lookup "sk-ext-abc") _ _ rfl
    cases admitted

end Runs

end Deeting.ApiKeys
