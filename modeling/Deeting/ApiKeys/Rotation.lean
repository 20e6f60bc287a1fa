import Deeting.ApiKeys.Keys
import Mathlib.Algebra.Order.Ring.Int

/-! What a rotation leaves of the access by the old key and of its restrictions. -/
namespace Deeting.ApiKeys
open Expiry

def ApiKey.owner (k : ApiKey) : ApiKeyType × Option String × Option String × String :=
  (k.type, k.tenantId, k.userId, k.createdBy)

structure Restrictions where
  scopes : List ApiKeyScope
  rateLimit : Option ApiKeyRateLimit
  rateLimitRpm : Option ℤ
  quotas : List (QuotaType × ℤ × QuotaResetPeriod)
  allowedModels : List String
  allowedIps : List String
  ipWhitelist : List ApiKeyIpWhitelist
  budgetLimit : Option ℚ

def ApiKey.restrictions (k : ApiKey) : Restrictions where
  scopes := k.scopes
  rateLimit := k.rateLimit
  rateLimitRpm := orLimit k.rateLimitRpm (k.rateLimit.bind ApiKeyRateLimit.rpm)
  quotas := k.quotas.map fun q => (q.quotaType, q.totalQuota, q.resetPeriod)
  allowedModels := k.allowedModels.getD []
  allowedIps := k.allowedIps.getD []
  ipWhitelist := k.ipWhitelist
  budgetLimit := k.budgetLimit

section Rotation

variable (computeKeyHash : String → KeyHash)

/-- After the rotation at `now` the old key is accepted until the end of the grace period or
its own expiry, and the new key has its owner, its restrictions and its expiry. -/
structure AccessPreserved (old : ApiKey) (raw : String) (now gracePeriodHours : ℤ)
    (after : KeyWorld) (new : ApiKey) : Prop where
  accepted : ∀ time, now ≤ time → ((validateKey computeKeyHash after time raw).2.isSome ↔
    time ≤ now + hours gracePeriodHours ∧ ∀ e ∈ old.expiresAt, time ≤ e)
  owner : new.owner = old.owner
  restrictions : new.restrictions = old.restrictions
  expiresAt : new.expiresAt = old.expiresAt

/-- The cached principal of the key that the rotation leaves. -/
def keptPrincipal (w : KeyWorld) (dropped : Bool) (raw : String) : Option (Entry ℤ ApiPrincipal) :=
  if dropped = true ∨ raw = "" then none else w.cache (computeKeyHash raw)

/-- A principal that is kept exactly until the grace period is over, or none after a period that
is negative. -/
def CachedThrough (now graceHours : ℤ) (kept : Option (Entry ℤ ApiPrincipal)) : Prop :=
  if graceHours < 0 then live now kept = none
  else ∃ e, kept = some e ∧ e.deadline = some (now + hours graceHours + 1)

variable {computeKeyHash} {w after : KeyWorld} {dropped : Bool} {now graceHours time : ℤ} {id : KeyId}
  {m : KeyMaterial} {old : ApiKey} {r : Rotated} {raw : String}

/-- The old row as `rotate_key` leaves it. -/
def rotatedOut (old : ApiKey) (now graceHours : ℤ) : ApiKey :=
  { old with status := .expiring, expiresAt := some (now + hours graceHours) }

theorem rotateKey_spec (found : w.store.getById id = some old)
    (rotated : rotateKey computeKeyHash w dropped now id graceHours m = some (after, some r)) :
    after.store.getByKeyHash old.keyHash = some (rotatedOut old now graceHours) ∧
    after.cache = invalidateCache dropped old.keyHash w.cache ∧
    r.newKey = copyChildren (rotatedOut old now graceHours)
      (newRow computeKeyHash (rotationRequest (rotatedOut old now graceHours)) m) := by
  simp only [rotateKey, found, generateKey, Option.bind_eq_bind, Option.bind_eq_some_iff,
    Option.map_eq_some_iff] at rotated
  obtain ⟨_, ⟨store, created, rfl⟩, done⟩ := rotated
  cases done
  obtain ⟨fresh, -, rows⟩ := KeyStore.create_eq_some created
  obtain ⟨present, rfl⟩ := KeyStore.getById_eq_some.mp found
  refine ⟨KeyStore.getByKeyHash_eq_some.mpr ⟨?_, rfl⟩, rfl, rfl⟩
  · have kept : rotatedOut old now graceHours ∈ (w.store.update old.id
        ⟨some .expiring, some (now + hours graceHours), none, none⟩).keys.rows :=
      KeyStore.mem_modify.mpr ⟨old, present, if_pos rfl⟩
    have entered : rotatedOut old now graceHours ∈ store.keys.rows := by
      rw [rows]
      exact List.mem_cons_of_mem _ kept
    exact KeyStore.mem_modify_of_ne (f := copyChildren (rotatedOut old now graceHours))
      (fun _ => rfl) (fun _ => rfl) entered (KeyStore.getById_eq_none.mp fresh _ kept)

/-- Only a principal that is still cached lets the old key pass. -/
theorem validateKey_rotatedOut
    (stored : after.store.getByKeyHash old.keyHash = some (rotatedOut old now graceHours))
    (cached : after.cache = invalidateCache dropped old.keyHash w.cache)
    (hashed : computeKeyHash raw = old.keyHash) :
    (validateKey computeKeyHash after time raw).2.isSome ↔
      (live time (keptPrincipal computeKeyHash w dropped raw)).isSome := by
  rw [validateKey, keptPrincipal, cached, hashed]
  by_cases empty : raw = ""
  · simp [empty]
  cases dropped with
  | true => simp [empty, invalidateCache, stored, checkRow, rotatedOut]
  | false =>
    cases found : live time (w.cache old.keyHash) with
    | some e => simp [empty, invalidateCache, found]
    | none => simp [empty, invalidateCache, found, stored, checkRow, rotatedOut]

theorem cachedThrough_iff {kept : Option (Entry ℤ ApiPrincipal)} :
    (∀ time, now ≤ time → ((live time kept).isSome ↔ time ≤ now + hours graceHours)) ↔
      CachedThrough now graceHours kept := by
  rw [CachedThrough]
  split
  · rename_i past
    have gone : hours graceHours < 0 := by rw [hours]; omega
    constructor
    · intro lasts
      have refused := mt (lasts now le_rfl).mp (by omega)
      simpa using refused
    · intro absent time later
      refine iff_of_false (fun alive => ?_) (by omega)
      obtain ⟨e, found⟩ := Option.isSome_iff_exists.mp alive
      rw [live_earlier later found] at absent
      cases absent
  · rename_i lasting
    have length : 0 ≤ hours graceHours := by rw [hours]; omega
    constructor
    · intro lasts
      obtain ⟨e, found⟩ := Option.isSome_iff_exists.mp ((lasts now le_rfl).mpr (by omega))
      obtain ⟨rfl, -⟩ := live_eq_some.mp found
      refine ⟨e, rfl, ?_⟩
      have last := (lasts (now + hours graceHours) (by omega)).mpr le_rfl
      have past := mt (lasts (now + hours graceHours + 1) (by omega)).mp (by omega)
      obtain ⟨v, deadline⟩ := e
      cases deadline with
      | none => simp [live] at past
      | some d =>
        simp only [live, Option.filter_some, Entry.alive, decide_eq_true_eq,
          Option.isSome_ite] at last past
        rw [show d = now + hours graceHours + 1 by omega]
    · rintro ⟨⟨v, _⟩, rfl, rfl⟩ time later
      simp only [live, Option.filter_some, Entry.alive, decide_eq_true_eq, Option.isSome_ite]
      omega

theorem orLimit_orLimit (a b : Option ℤ) : orLimit (orLimit a none) b = orLimit a b := by
  cases a with
  | none => rfl
  | some n =>
    by_cases zero : n = 0
    · simp [orLimit, zero]
    · simp [orLimit, zero]

theorem orList_nil {α : Type} (a : Option (List α)) : orList a [] = a.getD [] := by
  match a with
  | none | some [] | some (x :: xs) => rfl

theorem updateRateLimit_copy (rl : ApiKeyRateLimit) :
    updateRateLimit none
      { rpm := rl.rpm, tpm := rl.tpm, rpd := rl.rpd, tpd := rl.tpd
        concurrentLimit := rl.concurrentLimit, burstLimit := rl.burstLimit
        isWhitelist := some rl.isWhitelist } = rl := by
  simp [updateRateLimit]

theorem restrictions_rotated (k : ApiKey) :
    (copyChildren k (newRow computeKeyHash (rotationRequest k) m)).restrictions =
      { k.restrictions with quotas := [] } := by
  have limits : (copyChildren k (newRow computeKeyHash (rotationRequest k) m)).rateLimit =
      k.rateLimit := by
    cases limit : k.rateLimit with
    | none => simp [copyChildren, newRow, rotationRequest, limit]
    | some rl => simp [copyChildren, newRow, rotationRequest, limit, updateRateLimit_copy]
  simp only [ApiKey.restrictions, limits]
  simp [copyChildren, newRow, rotationRequest, orLimit_orLimit, orList_nil]

theorem expiresAt_rotated (old : ApiKey) :
    (copyChildren (rotatedOut old now graceHours)
      (newRow computeKeyHash (rotationRequest (rotatedOut old now graceHours)) m)).expiresAt =
      some (now + hours graceHours) := rfl

/-- Access is preserved by the rotations of a key without quotas that expires with the grace period,
where a cached principal of it lasts exactly as long: its row is refused at once, and the new key
expires when the old one should have. -/
theorem access_preserved_iff (found : w.store.getById id = some old)
    (hashed : computeKeyHash raw = old.keyHash)
    (rotated : rotateKey computeKeyHash w dropped now id graceHours m = some (after, some r)) :
    AccessPreserved computeKeyHash old raw now graceHours after r.newKey ↔
      CachedThrough now graceHours (keptPrincipal computeKeyHash w dropped raw) ∧
        old.expiresAt = some (now + hours graceHours) ∧ old.quotas = [] := by
  obtain ⟨stored, cached, new⟩ := rotateKey_spec found rotated
  have expiry : r.newKey.expiresAt = some (now + hours graceHours) := by
    rw [new, expiresAt_rotated]
  have limits : r.newKey.restrictions = { old.restrictions with quotas := [] } := by
    rw [new, restrictions_rotated]
    rfl
  have accepts (time : ℤ) : (validateKey computeKeyHash after time raw).2.isSome ↔ _ :=
    validateKey_rotatedOut stored cached hashed
  rw [← cachedThrough_iff]
  constructor
  · intro preserved
    have ends : old.expiresAt = some (now + hours graceHours) := preserved.expiresAt ▸ expiry
    refine ⟨fun time later => ?_, ends, ?_⟩
    · rw [← accepts, preserved.accepted time later]
      simp [ends]
    · have same := congrArg Restrictions.quotas (limits.symm.trans preserved.restrictions)
      exact List.map_eq_nil_iff.mp same.symm
  · rintro ⟨lasts, ends, none⟩
    refine ⟨fun time later => ?_, ?_, ?_, expiry.trans ends.symm⟩
    · rw [accepts, lasts time later]
      simp [ends]
    · rw [new]
      rfl
    · rw [limits]
      simp [ApiKey.restrictions, none]

end Rotation

section Instances

/-- The world after the first key is issued, with a quota and no expiry, and that key. -/
def issued (computeKeyHash : String → KeyHash) : Option (KeyWorld × ApiKey) :=
  (generateKey computeKeyHash .empty
    { keyType := .external, name := "prod", createdBy := "ann", tenantId := some "acme"
      quotas := [{ total := some 1000 }] } ⟨"k1", "abc", "s1"⟩).map fun (store, k) =>
    (⟨store, fun _ => none⟩, k)

/-- A rotation with a day of grace: the key that was accepted is refused in the same instant,
and its successor has no quota and ends with that day. -/
theorem access_lost :
    ∃ w old after r, issued id = some (w, old) ∧
      rotateKey id w true 0 old.id 24 ⟨"k2", "def", "s2"⟩ = some (after, some r) ∧
      (validateKey id w 0 "sk-ext-abc").2.isSome ∧
      (validateKey id after 0 "sk-ext-abc").2 = none ∧
      r.newKey.quotas ≠ old.quotas.map (fun q => { q with usedQuota := 0 }) ∧
      old.expiresAt = none ∧ r.newKey.expiresAt = some (hours 24) ∧
      ¬ AccessPreserved id old "sk-ext-abc" 0 24 after r.newKey := by
  refine ⟨_, _, _, _, rfl, rfl, by decide, by decide, by decide, rfl, rfl, fun preserved => ?_⟩
  cases preserved.expiresAt

theorem exists_rotation :
    ∃ w old after r, issued id = some (w, old) ∧ w.store.getById old.id = some old ∧
      id "sk-ext-abc" = old.keyHash ∧
      rotateKey id w true 0 old.id 24 ⟨"k2", "def", "s2"⟩ = some (after, some r) :=
  ⟨_, _, _, _, rfl, by decide, by decide, rfl⟩

theorem access_preserved_iff_issued :
    ∃ w old after r, issued id = some (w, old) ∧
      rotateKey id w true 0 old.id 24 ⟨"k2", "def", "s2"⟩ = some (after, some r) ∧
      (AccessPreserved id old "sk-ext-abc" 0 24 after r.newKey ↔
        CachedThrough 0 24 (keptPrincipal id w true "sk-ext-abc") ∧
          old.expiresAt = some (0 + hours 24) ∧ old.quotas = []) := by
  obtain ⟨w, old, after, r, issue, found, hashed, rotated⟩ := exists_rotation
  exact ⟨w, old, after, r, issue, rotated, access_preserved_iff found hashed rotated⟩

end Instances

end Deeting.ApiKeys
