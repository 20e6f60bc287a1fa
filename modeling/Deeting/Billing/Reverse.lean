import Deeting.Billing.Ledger

/-! Concurrent `reverse` calls that name one transaction, one step per read and per
commit. The checks of a call read what is committed at that point; the refund and the
credit are committed inside `add_balance`, before the original is marked. A call may
die between any two steps, and a retry is a call of its own. -/
namespace Deeting.Billing
open Deeting.Quota Deeting.Transition

structure ReverseRequest where
  reverseTraceId : TraceId
  description : Option String := none

/-- Where a call stands, with the original as it was read. `entered` is a refund row
committed by the reset inside `add_balance`, ahead of the credit. -/
inductive ReverseCall where
  | start
  | checked (original : BillingTransaction)
  | unclaimed (original : BillingTransaction)
  | prepared (original refund : BillingTransaction)
  | entered (original : BillingTransaction)
  | credited (original : BillingTransaction)
  | returned
  | raised

/-- The calls under way, with the number of credits so far and whether a call has
returned since the first one. -/
structure Reversal where
  store : Store
  call : ℕ → ReverseCall
  dead : ℕ → Bool
  credits : ℕ
  confirmed : Bool

inductive ReverseAct where
  | readOriginal (i : ℕ)
  | readExisting (i : ℕ)
  | prepare (i : ℕ) (env : Env)
  | enter (i : ℕ) (env : Env)
  | credit (i : ℕ) (env : Env)
  | finish (i : ℕ)
  | die (i : ℕ)

def ReverseAct.call : ReverseAct → ℕ
  | .readOriginal i | .readExisting i | .prepare i _ | .enter i _ | .credit i _ | .finish i
  | .die i => i

/-- Whether `get_or_create` commits: the row is created or reset. -/
def getOrCreateCommits (env : Env) (a : Account) : Bool :=
  a.row.elim true fun q => resetDue env.today q

def Reversal.advance (s : Reversal) (i : ℕ) (c : ReverseCall) : Reversal :=
  { s with call := Function.update s.call i c }

/-- The credit of `add_balance`, with the ledger committed along with it. -/
def Reversal.pay (s : Reversal) (i : ℕ) (env : Env) (original : BillingTransaction)
    (ledger : Ledger) : Reversal :=
  { s.advance i (.credited original) with
    store := (s.store.setAccount original.tenantId
      (addBalance env original.amount (s.store.account original.tenantId)).2).setLedger ledger
    credits := s.credits + 1 }

section Steps
variable (originalTraceId : TraceId) (requests : ℕ → ReverseRequest)

def liveStep (s : Reversal) : ReverseAct → Option Reversal
  | .readOriginal i =>
      match s.call i with
      | .start =>
          match reversible originalTraceId (s.store.ledger.find? originalTraceId) with
          | .error _ => some (s.advance i .raised)
          | .ok original => some (s.advance i (.checked original))
      | _ => none
  | .readExisting i =>
      match s.call i with
      | .checked original =>
          match s.store.ledger.find? (requests i).reverseTraceId with
          | none => some (s.advance i (.unclaimed original))
          | some existing =>
              if existing.status = .committed then
                some { s.advance i .returned with
                  confirmed := s.confirmed || decide (0 < s.credits) }
              else some (s.advance i .raised)
      | _ => none
  | .prepare i env =>
      match s.call i with
      | .unclaimed original =>
          let (quota, a) := getOrCreate env true (s.store.account original.tenantId)
          let refund :=
            refundOf original (requests i).reverseTraceId quota (requests i).description
          some { s.advance i (.prepared original refund) with
            store := s.store.setAccount original.tenantId a }
      | _ => none
  | .enter i env =>
      match s.call i with
      | .prepared original refund =>
          let a := s.store.account original.tenantId
          if getOrCreateCommits env a then
            match s.store.ledger.insert? refund with
            | none => some (s.advance i .raised)
            | some ledger =>
                some { s.advance i (.entered original) with
                  store :=
                    (s.store.setAccount original.tenantId (getOrCreate env true a).2).setLedger
                      ledger }
          else none
      | _ => none
  | .credit i env =>
      match s.call i with
      | .prepared original refund =>
          match s.store.ledger.insert? refund with
          | none => some (s.advance i .raised)
          | some ledger => some (s.pay i env original ledger)
      | .entered original => some (s.pay i env original s.store.ledger)
      | _ => none
  | .finish i =>
      match s.call i with
      | .credited _ =>
          let reverseTraceId := (requests i).reverseTraceId
          some { s.advance i .returned with
            store := (s.store.rewrite originalTraceId (markReversed reverseTraceId)
              (markReversed_traceId reverseTraceId)).rewrite reverseTraceId commitStatus
              commitStatus_traceId
            confirmed := true }
      | _ => none
  | .die i => some { s with dead := Function.update s.dead i true }

def reverseStep (s : Reversal) (act : ReverseAct) : Option Reversal :=
  if s.dead act.call then none else liveStep originalTraceId requests s act

end Steps

/-- No call has begun, and the transaction named by them all is a committed deduction. -/
structure Reversal.Fresh (s : Reversal) (original : BillingTransaction) : Prop where
  found : s.store.ledger.find? original.traceId = some original
  type : original.type = .deduct
  status : original.status = .committed
  start : ∀ i, s.call i = .start
  credits : s.credits = 0
  confirmed : s.confirmed = false

def ReverseCall.isCredited : ReverseCall → Bool
  | .credited _ => true
  | _ => false

def Reversal.Reversed (originalTraceId : TraceId) (s : Reversal) : Prop :=
  ∃ tx ∈ s.store.ledger.find? originalTraceId, tx.status = .reversed

/-- A reversal under another id than that of call `i` is half finished: credited, and
the original not yet marked by it. -/
def HalfFinished (requests : ℕ → ReverseRequest) (s : Reversal) (i : ℕ) : Prop :=
  ∃ j, (requests j).reverseTraceId ≠ (requests i).reverseTraceId ∧
    (s.call j).isCredited = true

/-- The next credit of call `i` will be made: its refund row is its own to insert, or
inserted already. -/
def Pays (requests : ℕ → ReverseRequest) (s : Reversal) (i : ℕ) : Prop :=
  match s.call i with
  | .prepared .. => s.store.ledger.find? (requests i).reverseTraceId = none
  | .entered _ => True
  | _ => False

/-- What the checks of a call have found still holds when it matters: at a credit the
original is not reversed, and neither there nor at the answer to a used reverse id is
another reversal half finished. -/
def ChecksHold (originalTraceId : TraceId) (requests : ℕ → ReverseRequest) (s : Reversal) :
    ReverseAct → Prop
  | .credit i _ =>
      Pays requests s i → ¬ s.Reversed originalTraceId ∧ ¬ HalfFinished requests s i
  | .readExisting i =>
      (∃ existing ∈ s.store.ledger.find? (requests i).reverseTraceId,
        existing.status = .committed) → ¬ HalfFinished requests s i
  | _ => True

def SameCharge (original tx : BillingTransaction) : Prop :=
  tx.tenantId = original.tenantId ∧ tx.amount = original.amount

/-- What a call carries fits the original and its own reverse id. -/
def ReverseCall.Fits (original : BillingTransaction) (reverseTraceId : TraceId) :
    ReverseCall → Prop
  | .checked tx | .unclaimed tx | .entered tx | .credited tx => SameCharge original tx
  | .prepared tx refund =>
      SameCharge original tx ∧ refund.traceId = reverseTraceId ∧ refund.status = .pending
  | .start | .returned | .raised => True

def ReverseCall.owns : ReverseCall → Bool
  | .entered _ | .credited _ => true
  | _ => false

theorem ReverseCall.owns_of_isCredited {c : ReverseCall} (credited : c.isCredited = true) :
    c.owns = true := by
  cases c <;> simp_all [isCredited, owns]

theorem update_congr (f : ReverseCall → Bool) {call : ℕ → ReverseCall} {i : ℕ} {c : ReverseCall}
    (kept : f c = f (call i)) (j : ℕ) : f (Function.update call i c j) = f (call j) := by
  by_cases same : j = i
  · rw [same, Function.update_self, kept]
  · rw [Function.update_of_ne same]

structure Refunded (original : BillingTransaction) (requests : ℕ → ReverseRequest)
    (initial : ℚ) (s : Reversal) : Prop where
  found : ∃ tx, s.store.ledger.find? original.traceId = some tx ∧ SameCharge original tx ∧
    tx.type = .deduct ∧ tx.status ≠ .pending
  fits : ∀ i, (s.call i).Fits original (requests i).reverseTraceId
  entered : ∀ i, (s.call i).owns = true →
    ∃ tx, s.store.ledger.find? (requests i).reverseTraceId = some tx ∧ tx.status = .pending
  owner : ∀ i j, (s.call i).owns = true → (s.call j).owns = true →
    (requests i).reverseTraceId = (requests j).reverseTraceId → i = j
  unpaid : s.credits = 0 → ¬ s.Reversed original.traceId ∧ ∀ i, (s.call i).isCredited = false
  paid : s.credits ≠ 0 → s.credits = 1 ∧
    (s.Reversed original.traceId ∨ ∃ i, (s.call i).isCredited = true)
  confirmed : s.confirmed = true → s.Reversed original.traceId
  balance : s.store.balance original.tenantId = initial + s.credits * original.amount

namespace Refunded
variable {original : BillingTransaction} {requests : ℕ → ReverseRequest} {initial : ℚ}
  {s : Reversal} {i : ℕ} {env : Env}

theorem of_fresh (fresh : s.Fresh original) :
    Refunded original requests (s.store.balance original.tenantId) s where
  found := ⟨original, fresh.found, ⟨rfl, rfl⟩, fresh.type, by simp [fresh.status]⟩
  fits j := by rw [fresh.start j]; trivial
  entered j owns := by simp [fresh.start j, ReverseCall.owns] at owns
  owner j k owns := by simp [fresh.start j, ReverseCall.owns] at owns
  unpaid _ := by
    refine ⟨?_, fun j => by rw [fresh.start j]; rfl⟩
    rintro ⟨tx, mem, reversed⟩
    rw [fresh.found] at mem
    cases mem
    simp [fresh.status] at reversed
  paid credits := absurd fresh.credits credits
  confirmed := by simp [fresh.confirmed]
  balance := by simp [fresh.credits]

theorem fits_update (sound : Refunded original requests initial s) {c : ReverseCall}
    (fits : c.Fits original (requests i).reverseTraceId) (j : ℕ) :
    (Function.update s.call i c j).Fits original (requests j).reverseTraceId := by
  by_cases same : j = i
  · rwa [same, Function.update_self]
  · rw [Function.update_of_ne same]
    exact sound.fits j

/-- A call that has no row yet moves on without one; the accounts may be rewritten
with the same balances. -/
theorem advance (sound : Refunded original requests initial s) {c : ReverseCall} {t : Reversal}
    (ledger : t.store.ledger = s.store.ledger) (call : t.call = Function.update s.call i c)
    (credits : t.credits = s.credits)
    (balance : t.store.balance original.tenantId = s.store.balance original.tenantId)
    (before : (s.call i).owns = false) (after : c.owns = false)
    (fits : c.Fits original (requests i).reverseTraceId)
    (confirmed : t.confirmed = true → s.Reversed original.traceId) :
    Refunded original requests initial t := by
  have idle {d : ReverseCall} (free : d.owns = false) : d.isCredited = false := by
    cases d <;> simp_all [ReverseCall.owns, ReverseCall.isCredited]
  have owns (j : ℕ) : (t.call j).owns = (s.call j).owns := by
    rw [call, update_congr _ (after.trans before.symm)]
  have isCredited (j : ℕ) : (t.call j).isCredited = (s.call j).isCredited := by
    rw [call, update_congr _ ((idle after).trans (idle before).symm)]
  have reversed : t.Reversed original.traceId ↔ s.Reversed original.traceId := by
    simp only [Reversal.Reversed, ledger]
  refine ⟨by rw [ledger]; exact sound.found, ?_, ?_, ?_, ?_, ?_, ?_, ?_⟩
  · intro j
    exact call ▸ sound.fits_update fits j
  · intro j
    rw [owns, ledger]
    exact sound.entered j
  · intro j k
    rw [owns, owns]
    exact sound.owner j k
  · simpa only [credits, reversed, isCredited] using sound.unpaid
  · simpa only [credits, reversed, isCredited] using sound.paid
  · exact fun answered => reversed.mpr (confirmed answered)
  · rw [balance, credits, sound.balance]

theorem traceId_ne (sound : Refunded original requests initial s) {tx : BillingTransaction}
    (found : s.store.ledger.find? (requests i).reverseTraceId = some tx)
    (pending : tx.status = .pending) : original.traceId ≠ (requests i).reverseTraceId := by
  intro same
  obtain ⟨stored, mem, _, _, settled⟩ := sound.found
  rw [same, found] at mem
  cases mem
  exact settled pending

theorem enter (sound : Refunded original requests initial s) {t : Reversal}
    {tx refund : BillingTransaction} (prepared : s.call i = .prepared tx refund)
    (inserted : s.store.ledger.insert? refund = some t.store.ledger)
    (call : t.call = Function.update s.call i (.entered tx)) (credits : t.credits = s.credits)
    (confirmed : t.confirmed = s.confirmed)
    (balance : t.store.balance original.tenantId = s.store.balance original.tenantId) :
    Refunded original requests initial t := by
  obtain ⟨charge, traceId, pending⟩ : SameCharge original tx ∧
      refund.traceId = (requests i).reverseTraceId ∧ refund.status = .pending := by
    have fits := sound.fits i
    rwa [prepared] at fits
  have fresh : s.store.ledger.find? (requests i).reverseTraceId = none := by
    rw [← traceId]
    exact (Table.insert?_eq_some.mp inserted).1
  have unused {j : ℕ} (owns : (s.call j).owns = true) :
      (requests j).reverseTraceId ≠ (requests i).reverseTraceId := by
    intro same
    obtain ⟨row, found, _⟩ := sound.entered j owns
    rw [same, fresh] at found
    cases found
  have find (k : TraceId) : t.store.ledger.find? k =
      if k = (requests i).reverseTraceId then some refund else s.store.ledger.find? k := by
    rw [Table.find?_insert inserted, traceId]
  obtain ⟨stored, found, same, type, settled⟩ := sound.found
  have other : original.traceId ≠ (requests i).reverseTraceId := by
    intro same
    rw [same, fresh] at found
    cases found
  have reversed : t.Reversed original.traceId ↔ s.Reversed original.traceId := by
    simp only [Reversal.Reversed, find, if_neg other]
  have isCredited (j : ℕ) : (t.call j).isCredited = (s.call j).isCredited := by
    rw [call, update_congr ReverseCall.isCredited (by rw [prepared]; rfl)]
  refine ⟨⟨stored, by rw [find, if_neg other, found], same, type, settled⟩, fun j => ?_,
    fun j owns => ?_, fun j k left right equal => ?_, ?_, ?_, ?_,
    by rw [balance, credits, sound.balance]⟩
  · exact call ▸ sound.fits_update (c := .entered tx) charge j
  · rw [find]
    by_cases same : j = i
    · subst same
      exact ⟨refund, if_pos rfl, pending⟩
    · rw [call, Function.update_of_ne same] at owns
      rw [if_neg (unused owns)]
      exact sound.entered j owns
  · rw [call] at left right
    by_cases first : j = i
    · by_cases second : k = i
      · rw [first, second]
      · rw [Function.update_of_ne second] at right
        exact absurd (equal.symm.trans (by rw [first])) (unused right)
    · rw [Function.update_of_ne first] at left
      by_cases second : k = i
      · exact absurd (equal.trans (by rw [second])) (unused left)
      · rw [Function.update_of_ne second] at right
        exact sound.owner j k left right equal
  · simpa only [credits, reversed, isCredited] using sound.unpaid
  · simpa only [credits, reversed, isCredited] using sound.paid
  · rw [confirmed, reversed]
    exact sound.confirmed

/-- A credit that finds the original unreversed and no other reversal half finished is
the first one. -/
theorem first (sound : Refunded original requests initial s) (pays : Pays requests s i)
    (open_ : ¬ s.Reversed original.traceId) (alone : ¬ HalfFinished requests s i) :
    s.credits = 0 := by
  by_contra credits
  obtain ⟨_, reversed | ⟨j, credited⟩⟩ := sound.paid credits
  · exact open_ reversed
  have owns := ReverseCall.owns_of_isCredited credited
  have same : (requests j).reverseTraceId = (requests i).reverseTraceId := by
    by_contra other
    exact alone ⟨j, other, credited⟩
  rw [Pays] at pays
  split at pays
  · obtain ⟨row, found, _⟩ := sound.entered j owns
    rw [same, pays] at found
    cases found
  · rename_i entered
    cases sound.owner j i owns (by rw [entered]; rfl) same
    rw [entered] at credited
    cases credited
  · exact pays

theorem credit (sound : Refunded original requests initial s) {t : Reversal}
    {tx : BillingTransaction} (entered : s.call i = .entered tx) (first : s.credits = 0)
    (ledger : t.store.ledger = s.store.ledger)
    (call : t.call = Function.update s.call i (.credited tx))
    (credits : t.credits = s.credits + 1) (confirmed : t.confirmed = s.confirmed)
    (balance : t.store.balance original.tenantId =
      s.store.balance original.tenantId + original.amount) :
    Refunded original requests initial t := by
  have owns (j : ℕ) : (t.call j).owns = (s.call j).owns := by
    rw [call, update_congr ReverseCall.owns (by rw [entered]; rfl)]
  have reversed : t.Reversed original.traceId ↔ s.Reversed original.traceId := by
    simp only [Reversal.Reversed, ledger]
  refine ⟨by rw [ledger]; exact sound.found, fun j => ?_, fun j => ?_, fun j k => ?_, ?_, ?_, ?_, ?_⟩
  · have fits := sound.fits i
    rw [entered] at fits
    exact call ▸ sound.fits_update (c := .credited tx) fits j
  · rw [owns, ledger]
    exact sound.entered j
  · rw [owns, owns]
    exact sound.owner j k
  · intro none
    omega
  · exact fun _ => ⟨by omega, .inr ⟨i, by rw [call, Function.update_self]; rfl⟩⟩
  · rw [confirmed, reversed]
    exact sound.confirmed
  · rw [balance, credits, sound.balance]
    push_cast
    ring

theorem finish (sound : Refunded original requests initial s) {t : Reversal}
    {tx : BillingTransaction} (credited : s.call i = .credited tx)
    (store : t.store = (s.store.rewrite original.traceId
      (markReversed (requests i).reverseTraceId)
      (markReversed_traceId (requests i).reverseTraceId)).rewrite (requests i).reverseTraceId
      commitStatus commitStatus_traceId)
    (call : t.call = Function.update s.call i .returned) (credits : t.credits = s.credits) :
    Refunded original requests initial t := by
  have paying : (s.call i).isCredited = true := by rw [credited]; rfl
  have holding := ReverseCall.owns_of_isCredited paying
  obtain ⟨row, held, pending⟩ := sound.entered i holding
  have other := sound.traceId_ne held pending
  obtain ⟨stored, found, same, type, _⟩ := sound.found
  have marked : t.store.ledger.find? original.traceId =
      some (markReversed (requests i).reverseTraceId stored) := by
    rw [store]
    simp only [Store.rewrite, Store.setLedger, Table.find?_modify, if_neg other, if_true, found,
      Option.map_some]
  have reversed : t.Reversed original.traceId := ⟨_, marked, rfl⟩
  have owns {j : ℕ} (holds : (t.call j).owns = true) : j ≠ i ∧ (s.call j).owns = true := by
    rw [call] at holds
    by_cases same : j = i
    · rw [same, Function.update_self] at holds
      cases holds
    · rw [Function.update_of_ne same] at holds
      exact ⟨same, holds⟩
  have paid := sound.paid fun none => by
    rw [(sound.unpaid none).2 i] at paying
    cases paying
  refine ⟨⟨_, marked, same, type, by simp [markReversed]⟩, fun j => ?_, fun j holds => ?_,
    fun j k left right => sound.owner j k (owns left).2 (owns right).2, fun none => ?_,
    fun _ => ⟨credits.trans paid.1, .inl reversed⟩, fun _ => reversed, ?_⟩
  · exact call ▸ sound.fits_update (c := .returned) trivial j
  · obtain ⟨different, before⟩ := owns holds
    obtain ⟨r, entered, open_⟩ := sound.entered j before
    refine ⟨r, ?_, open_⟩
    have apart : (requests j).reverseTraceId ≠ (requests i).reverseTraceId := fun same =>
      different (sound.owner j i before holding same)
    have elsewhere := sound.traceId_ne entered open_
    rw [store]
    simp only [Store.rewrite, Store.setLedger, Table.find?_modify, if_neg apart,
      if_neg elsewhere.symm, entered]
  · rw [credits, paid.1] at none
    cases none
  · rw [credits, ← sound.balance, store]
    rfl

theorem balance_pay {tx : BillingTransaction} (charge : SameCharge original tx) (ledger : Ledger) :
    (s.pay i env tx ledger).store.balance original.tenantId =
      s.store.balance original.tenantId + original.amount := by
  obtain ⟨tenant, amount⟩ := charge
  have moves : Moves s.store (s.pay i env tx ledger).store tx.tenantId tx.amount :=
    Moves.setAccount (rowBalance_addBalance env tx.amount _)
  rw [← tenant, moves tx.tenantId, share, if_pos rfl, amount]

theorem pay (sound : Refunded original requests initial s) {tx : BillingTransaction}
    (entered : s.call i = .entered tx)
    (checks : ChecksHold original.traceId requests s (.credit i env)) :
    Refunded original requests initial (s.pay i env tx s.store.ledger) := by
  have pays : Pays requests s i := by simp only [Pays, entered]
  obtain ⟨open_, alone⟩ := checks pays
  have charge : SameCharge original tx := by
    have fits := sound.fits i
    rwa [entered] at fits
  exact sound.credit entered (sound.first pays open_ alone) rfl rfl rfl rfl (balance_pay charge _)

theorem enter_pay (sound : Refunded original requests initial s) {tx refund : BillingTransaction}
    {ledger : Ledger} (prepared : s.call i = .prepared tx refund)
    (inserted : s.store.ledger.insert? refund = some ledger)
    (checks : ChecksHold original.traceId requests s (.credit i env)) :
    Refunded original requests initial (s.pay i env tx ledger) := by
  obtain ⟨charge, traceId, _⟩ : SameCharge original tx ∧
      refund.traceId = (requests i).reverseTraceId ∧ refund.status = .pending := by
    have fits := sound.fits i
    rwa [prepared] at fits
  have pays : Pays requests s i := by
    simp only [Pays, prepared, ← traceId]
    exact (Table.insert?_eq_some.mp inserted).1
  obtain ⟨open_, alone⟩ := checks pays
  have between : Refunded original requests initial
      { s.advance i (.entered tx) with store := s.store.setLedger ledger } :=
    sound.enter prepared inserted rfl rfl rfl rfl
  refine between.credit (t := s.pay i env tx ledger) (i := i)
    (Function.update_self ..) (sound.first pays open_ alone) rfl
    (Function.update_idem ..).symm rfl rfl (balance_pay charge _)

theorem answered (sound : Refunded original requests initial s) {existing : BillingTransaction}
    (found : s.store.ledger.find? (requests i).reverseTraceId = some existing)
    (committed : existing.status = .committed)
    (checks : ChecksHold original.traceId requests s (.readExisting i))
    (credits : s.credits ≠ 0) : s.Reversed original.traceId := by
  obtain ⟨_, reversed | ⟨j, credited⟩⟩ := sound.paid credits
  · exact reversed
  have same : (requests j).reverseTraceId = (requests i).reverseTraceId := by
    by_contra other
    exact checks ⟨existing, found, committed⟩ ⟨j, other, credited⟩
  obtain ⟨row, entered, pending⟩ := sound.entered j (ReverseCall.owns_of_isCredited credited)
  rw [same, found] at entered
  cases entered
  rw [committed] at pending
  cases pending

theorem step (sound : Refunded original requests initial s) {act : ReverseAct} {t : Reversal}
    (checks : ChecksHold original.traceId requests s act)
    (taken : reverseStep original.traceId requests s act = some t) :
    Refunded original requests initial t := by
  rw [reverseStep] at taken
  split at taken
  · cases taken
  cases act with
  | readOriginal i =>
    simp only [liveStep] at taken
    split at taken
    · rename_i start
      split at taken
      · cases taken
        exact sound.advance rfl rfl rfl rfl (by rw [start]; rfl) rfl trivial sound.confirmed
      · rename_i read checked
        cases taken
        obtain ⟨tx, found, charge, _⟩ := sound.found
        rw [(reversible_eq_ok checked).1] at found
        cases found
        exact sound.advance (c := .checked read) rfl rfl rfl rfl (by rw [start]; rfl) rfl charge
          sound.confirmed
    · cases taken
  | readExisting i =>
    simp only [liveStep] at taken
    split at taken
    · rename_i tx read
      have charge : SameCharge original tx := by
        have fits := sound.fits i
        rwa [read] at fits
      split at taken
      · cases taken
        exact sound.advance (c := .unclaimed tx) rfl rfl rfl rfl (by rw [read]; rfl) rfl charge
          sound.confirmed
      · rename_i existing found
        split at taken <;> rename_i committed <;> cases taken
        · refine sound.advance (c := .returned) rfl rfl rfl rfl (by rw [read]; rfl) rfl trivial
            fun confirmed => ?_
          rcases Bool.or_eq_true_iff.mp confirmed with before | now
          · exact sound.confirmed before
          · exact sound.answered found committed checks (of_decide_eq_true now).ne'
        · exact sound.advance rfl rfl rfl rfl (by rw [read]; rfl) rfl trivial sound.confirmed
    · cases taken
  | prepare i env =>
    simp only [liveStep] at taken
    split at taken
    · rename_i tx unclaimed
      cases taken
      have charge : SameCharge original tx := by
        have fits := sound.fits i
        rwa [unclaimed] at fits
      refine sound.advance (c := .prepared tx _) rfl rfl rfl ?_ (by rw [unclaimed]; rfl) rfl
        ⟨charge, rfl, rfl⟩ sound.confirmed
      exact balance_setAccount (rowBalance_getOrCreate env true _) _
    · cases taken
  | enter i env =>
    simp only [liveStep] at taken
    split at taken
    · rename_i tx refund prepared
      split at taken
      · split at taken <;> rename_i inserted <;> cases taken
        · exact sound.advance rfl rfl rfl rfl (by rw [prepared]; rfl) rfl trivial sound.confirmed
        · refine sound.enter prepared inserted rfl rfl rfl ?_
          exact balance_setAccount (rowBalance_getOrCreate env true _) _
      · cases taken
    · cases taken
  | credit i env =>
    simp only [liveStep] at taken
    split at taken
    · rename_i tx refund prepared
      split at taken <;> rename_i inserted <;> cases taken
      · exact sound.advance rfl rfl rfl rfl (by rw [prepared]; rfl) rfl trivial sound.confirmed
      · exact sound.enter_pay prepared inserted checks
    · rename_i tx entered
      cases taken
      exact sound.pay entered checks
    · cases taken
  | finish i =>
    simp only [liveStep] at taken
    split at taken
    · rename_i tx credited
      cases taken
      exact sound.finish credited rfl rfl rfl
    · cases taken
  | die i =>
    cases taken
    exact ⟨sound.found, sound.fits, sound.entered, sound.owner, sound.unpaid, sound.paid,
      sound.confirmed, sound.balance⟩

end Refunded

theorem run_alone {originalTraceId : TraceId} {requests : ℕ → ReverseRequest} {s : Reversal}
    {i : ℕ} {env : Env} {original : BillingTransaction} (start : s.call i = .start)
    (alive : s.dead i = false)
    (checked : reversible originalTraceId (s.store.ledger.find? originalTraceId) = .ok original)
    (unused : s.store.ledger.find? (requests i).reverseTraceId = none) :
    ∃ t, run (reverseStep originalTraceId requests) s
        [.readOriginal i, .readExisting i, .prepare i env, .credit i env, .finish i] = some t ∧
      t.store = (reverse env originalTraceId (requests i).reverseTraceId (requests i).description
        s.store).2 := by
  obtain ⟨ledger, inserted⟩ := Table.insert?_of_fresh
    (r := refundOf original (requests i).reverseTraceId
      (currentRow env.today (s.store.account original.tenantId).row) (requests i).description) unused
  have untouched (a : Account) : (s.store.setAccount original.tenantId a).ledger = s.store.ledger :=
    rfl
  simp only [run, reverseStep, liveStep, ReverseAct.call, alive, start, checked, unused,
    Reversal.advance, Reversal.pay, Bool.false_eq_true, if_false, Option.bind_some,
    Function.update_self, getOrCreate_fst, untouched, inserted]
  refine ⟨_, rfl, ?_⟩
  simp only [reverse, checked, unused, getOrCreate_fst, inserted, Store.setAccount,
    Function.update_idem, Function.update_self, Store.rewrite, Store.setLedger]

/-- In a run in which the checks of the calls hold when they matter, at most one refund
is credited, the balance shows it, and a return after it finds the original reversed. -/
theorem at_most_one_refund {original : BillingTransaction} {requests : ℕ → ReverseRequest}
    {s t : Reversal} {acts : List ReverseAct} (fresh : s.Fresh original)
    (checks : Along (reverseStep original.traceId requests)
      (ChecksHold original.traceId requests) s acts)
    (reached : run (reverseStep original.traceId requests) s acts = some t) :
    t.credits ≤ 1 ∧
      t.store.balance original.tenantId =
        s.store.balance original.tenantId + t.credits * original.amount ∧
      (t.confirmed = true → t.Reversed original.traceId) := by
  have sound : Refunded original requests (s.store.balance original.tenantId) t :=
    run_invariant (fun sound checks taken => Refunded.step sound checks taken)
      (Refunded.of_fresh fresh) checks reached
  refine ⟨?_, sound.balance, sound.confirmed⟩
  by_cases none : t.credits = 0
  · omega
  · exact (sound.paid none).1.le

/-- A charge of three credits, recorded on a balance of ten. -/
def threeCharged : BillingTransaction :=
  { traceId := "trace", tenantId := 1, type := .deduct, status := .committed, amount := 3
    balanceBefore := 13, balanceAfter := 10 }

def charged : Reversal :=
  ⟨(storeOf 10).setLedger ⟨[threeCharged], List.nodup_singleton _⟩, fun _ => .start,
    fun _ => false, 0, false⟩

theorem charged_fresh : charged.Fresh threeCharged :=
  ⟨by decide +kernel, rfl, rfl, fun _ => rfl, rfl, rfl⟩

/-- The worked calls: each its own reverse id, or all the same one. -/
def ownIds : ℕ → ReverseRequest
  | 0 => ⟨"refund", none⟩
  | _ => ⟨"second refund", none⟩

def oneId : ℕ → ReverseRequest := fun _ => ⟨"refund", none⟩

/-- A call that dies after its credit, and a retry under the same id. -/
theorem one_refund_after_crash :
    ∃ t, run (reverseStep threeCharged.traceId oneId) charged
        [.readOriginal 0, .readExisting 0, .prepare 0 scriptEnv, .credit 0 scriptEnv, .die 0,
          .readOriginal 1, .readExisting 1] = some t ∧ t.credits ≤ 1 := by
  have alone (s : Reversal) (i : ℕ) : ¬ HalfFinished oneId s i := fun ⟨_, other, _⟩ => other rfl
  have unmarked {s : Reversal} (found : s.store.ledger.find? "trace" = some threeCharged) :
      ¬ s.Reversed threeCharged.traceId := by
    rintro ⟨tx, mem, reversed⟩
    rw [show s.store.ledger.find? threeCharged.traceId = some threeCharged from found] at mem
    cases mem
    cases reversed
  have checks : Along (reverseStep threeCharged.traceId oneId)
      (ChecksHold threeCharged.traceId oneId) charged
      [.readOriginal 0, .readExisting 0, .prepare 0 scriptEnv, .credit 0 scriptEnv, .die 0,
        .readOriginal 1, .readExisting 1] := by
    refine (along_cons_of_step rfl).mpr ⟨trivial, ?_⟩
    refine (along_cons_of_step rfl).mpr ⟨fun _ => alone _ 0, ?_⟩
    refine (along_cons_of_step rfl).mpr ⟨trivial, ?_⟩
    refine (along_cons_of_step rfl).mpr ⟨fun _ => ⟨unmarked (by decide +kernel), alone _ 0⟩, ?_⟩
    refine (along_cons_of_step rfl).mpr ⟨trivial, ?_⟩
    refine (along_cons_of_step rfl).mpr ⟨trivial, ?_⟩
    exact (along_cons_of_step rfl).mpr ⟨fun _ => alone _ 1, trivial⟩
  exact ⟨_, rfl, (at_most_one_refund charged_fresh checks rfl).1⟩

/-- Two calls read the transaction before either has reversed it: both refund it. -/
theorem racing_reversals_refund_twice :
    charged.Fresh threeCharged ∧
      ∃ t, run (reverseStep threeCharged.traceId ownIds) charged
          [.readOriginal 0, .readOriginal 1, .readExisting 0, .readExisting 1,
            .prepare 0 scriptEnv, .prepare 1 scriptEnv, .credit 0 scriptEnv, .finish 0,
            .credit 1 scriptEnv, .finish 1] = some t ∧
        t.credits = 2 ∧ t.store.balance 1 = 16 := by
  refine ⟨charged_fresh, _, rfl, ?_⟩
  decide +kernel

end Deeting.Billing
