import Deeting.Billing.Pipeline

/-! `record_and_adjust` under a trace id that has been seen before: the same call
again, and a call for one tenant under the trace id of another. The transaction is
keyed by the trace id alone, the settlement of the estimate by nothing. -/
namespace Deeting.Billing
open Deeting.Quota

variable {env : Env} {call : UsageCall} {s : Store} {tenant : TenantId}

def replay (env : Env) (call : UsageCall) (s : Store) : Store := (recordAndAdjust env call s).2

/-- Any number of calls leave the ledger and the Redis balances of one. -/
def Idempotent (env : Env) (call : UsageCall) (s : Store) : Prop :=
  ∀ k, 1 ≤ k → ((replay env call)^[k] s).ledger = (replay env call s).ledger ∧
    ∀ x, ((replay env call)^[k] s).redisBalance x = (replay env call s).redisBalance x

/-- A trace id recorded for one tenant neither answers a call for another with that
tenant's balance nor keeps the other's charge from being recorded. -/
def KeepsTenantsApart (env : Env) (call : UsageCall) (s : Store) : Prop :=
  ∀ tenant existing, call.Billable tenant → s.ledger.find? call.traceId = some existing →
    existing.tenantId ≠ tenant →
      (recordAndAdjust env call s).1 ≠ .ok (some existing.balanceAfter) ∧
      ∃ tx ∈ (replay env call s).ledger.rows, tx ∉ s.ledger.rows ∧ tx.tenantId = tenant ∧
        tx.amount = call.total

structure Settling (env : Env) (call : UsageCall) (s : Store) (tenant : TenantId) : Prop where
  billable : call.Billable tenant
  settles : Settles env call.costDiff
  accepted : ∀ existing ∈ s.ledger.find? call.traceId, existing.status = .committed

/-- A call that changes the hash when it is made again: the hash is there, and the second
settlement is not lost in the rounding. -/
structure Resettles (env : Env) (call : UsageCall) (s : Store) (tenant : TenantId) : Prop
    extends Settling env call s tenant where
  moves : ∃ b, s.redisBalance tenant = some b ∧
    adjusted (adjusted b call.costDiff) call.costDiff ≠ adjusted b call.costDiff

/-- The trace id of a call with a cost is another tenant's. -/
def TakenByOther (call : UsageCall) (s : Store) (tenant : TenantId) : Prop :=
  call.Billable tenant ∧ ∃ existing, s.ledger.find? call.traceId = some existing ∧
    existing.tenantId ≠ tenant

theorem replay_found (env : Env) (billable : call.Billable tenant) :
    ∃ existing, (replay env call s).ledger.find? call.traceId = some existing ∧
      (existing.status = .committed ∨ s.ledger.find? call.traceId = some existing ∧
        existing.status ≠ .committed) := by
  cases found : s.ledger.find? call.traceId with
  | none =>
    obtain ⟨tx, t, called, inserted, traceId, _, _, committed, _⟩ :=
      recordAndAdjust_fresh env billable found
    refine ⟨tx, ?_, .inl committed⟩
    simp only [replay, called, settleEstimate_ledger, Table.find?_insert inserted, traceId, if_true]
  | some existing =>
    by_cases committed : existing.status = .committed
    · refine ⟨existing, ?_, .inl committed⟩
      simp only [replay, recordAndAdjust_committed _ billable found committed, settleEstimate_ledger,
        found]
    · refine ⟨existing, ?_, .inr ⟨rfl, committed⟩⟩
      simp only [replay, recordAndAdjust_duplicate _ billable found committed, found]

theorem replay_ledger {existing : BillingTransaction} (billable : call.Billable tenant)
    (found : s.ledger.find? call.traceId = some existing) :
    (replay env call s).ledger = s.ledger := by
  by_cases committed : existing.status = .committed
  · simp only [replay, recordAndAdjust_committed _ billable found committed, settleEstimate_ledger]
  · simp only [replay, recordAndAdjust_duplicate _ billable found committed]

/-- With an accepted trace id the difference is taken once more each time. -/
theorem Settling.replay_redisBalance (settling : Settling env call s tenant) :
    (replay env call s).redisBalance tenant =
      (s.redisBalance tenant).map fun balance => adjusted balance call.costDiff := by
  cases found : s.ledger.find? call.traceId with
  | none =>
    obtain ⟨tx, t, called, _, _, _, _, _, _, hashes⟩ :=
      recordAndAdjust_fresh env settling.billable found
    simp only [replay, called, redisBalance_settleEstimate settling.settles]
    simp only [Store.redisBalance, hashes]
  | some existing =>
    have committed := settling.accepted existing found
    simp only [replay, recordAndAdjust_committed _ settling.billable found committed,
      redisBalance_settleEstimate settling.settles]

theorem Settling.again (settling : Settling env call s tenant) :
    Settling env call (replay env call s) tenant := by
  refine ⟨settling.billable, settling.settles, ?_⟩
  intro existing found
  obtain ⟨tx, stored, status⟩ := replay_found env (s := s) settling.billable
  rw [stored] at found
  cases found
  rcases status with committed | ⟨earlier, open_⟩
  · exact committed
  · exact absurd (settling.accepted existing earlier) open_

theorem Resettles.not_idempotent (resettles : Resettles env call s tenant) :
    ¬ Idempotent env call s := by
  intro idempotent
  obtain ⟨balance, present, moves⟩ := resettles.moves
  have twice := (idempotent 2 (by omega)).2 tenant
  have second : (replay env call)^[2] s = replay env call (replay env call s) := rfl
  rw [second, resettles.again.replay_redisBalance, resettles.replay_redisBalance, present] at twice
  exact moves (Option.some.inj twice)

/-- What a settlement finds after the first one, it leaves. -/
theorem settle_again (inert : ¬ Resettles env call s tenant) (billable : call.Billable tenant)
    (accepted : ∀ existing ∈ s.ledger.find? call.traceId, existing.status = .committed) {t : Store}
    (same : ∀ x, t.redisBalance x = (replay env call s).redisBalance x) (x : TenantId) :
    (settleEstimate env tenant call.costDiff t).redisBalance x =
      (replay env call s).redisBalance x := by
  by_cases other : x = tenant
  · subst other
    by_cases settles : Settles env call.costDiff
    · have settling : Settling env call s x := ⟨billable, settles, accepted⟩
      rw [redisBalance_settleEstimate settles, same, settling.replay_redisBalance]
      cases present : s.redisBalance x with
      | none => rfl
      | some b =>
        have still := not_not.mp fun moves => inert ⟨settling, b, present, moves⟩
        exact congrArg some still
    · rw [redisBalance_settleEstimate_of_not settles, same]
  · rw [redisBalance_settleEstimate_of_ne other, same]

theorem idempotent_of_not_resettles (inert : ∀ tenant, ¬ Resettles env call s tenant) :
    Idempotent env call s := by
  intro k positive
  by_cases known : ∃ tenant, call.Billable tenant
  · obtain ⟨tenant, billable⟩ := known
    obtain ⟨existing, stored, status⟩ := replay_found env (s := s) billable
    induction k, positive using Nat.le_induction with
    | base => exact ⟨rfl, fun _ => rfl⟩
    | succ k _ ih =>
      have found : ((replay env call)^[k] s).ledger.find? call.traceId = some existing :=
        ih.1 ▸ stored
      rw [Function.iterate_succ_apply']
      refine ⟨(replay_ledger billable found).trans ih.1, ?_⟩
      intro x
      by_cases committed : existing.status = .committed
      · have accepted : ∀ first ∈ s.ledger.find? call.traceId, first.status = .committed := by
          intro first earlier
          have kept : (replay env call s).ledger = s.ledger := replay_ledger billable earlier
          rw [kept, earlier] at stored
          exact Option.some.inj stored ▸ committed
        have again : replay env call ((replay env call)^[k] s) =
            settleEstimate env tenant call.costDiff ((replay env call)^[k] s) := by
          simp only [replay, recordAndAdjust_committed _ billable found committed]
        rw [again]
        exact settle_again (inert tenant) billable accepted ih.2 x
      · have same : replay env call ((replay env call)^[k] s) = (replay env call)^[k] s := by
          simp only [replay, recordAndAdjust_duplicate _ billable found committed]
        rw [same, ih.2 x]
  · have nothing (t : Store) : replay env call t = t := by
      simp only [replay, recordAndAdjust_unbillable _ fun tenant billable => known ⟨tenant, billable⟩]
    rw [Function.iterate_fixed (nothing s), nothing s]
    exact ⟨rfl, fun _ => rfl⟩

theorem keepsTenantsApart_iff :
    KeepsTenantsApart env call s ↔ ∀ tenant, ¬ TakenByOther call s tenant := by
  constructor
  · rintro apart tenant ⟨billable, existing, found, other⟩
    obtain ⟨_, tx, mem, new, _⟩ := apart tenant existing billable found other
    rw [replay_ledger billable found] at mem
    exact new mem
  · intro free tenant existing billable found other
    exact absurd ⟨billable, existing, found, other⟩ (free tenant)

/-- The exact conditions: no settlement is repeated on a live hash, and no trace id is
shared between tenants. -/
theorem record_and_adjust_replay_iff :
    Idempotent env call s ∧ KeepsTenantsApart env call s ↔
      (∀ tenant, ¬ Resettles env call s tenant) ∧ ∀ tenant, ¬ TakenByOther call s tenant := by
  refine and_congr ⟨fun idempotent tenant resettles => ?_, idempotent_of_not_resettles⟩
    keepsTenantsApart_iff
  exact resettles.not_idempotent idempotent

def quarterCall (tenant : TenantId) : UsageCall :=
  { tenantId := some tenant, traceId := "trace", inputTokens := 250, outputTokens := 0,
    pricing := some ⟨some 1, none⟩, estimatedCost := 0 }

/-- The second call takes the quarter again; another tenant's call is answered with the
first one's balance and recorded nowhere. -/
theorem replay_charges_twice :
    ¬ Idempotent scriptEnv (quarterCall 1) (storeOf 1) ∧
      ¬ KeepsTenantsApart scriptEnv (quarterCall 2) (replay scriptEnv (quarterCall 1) (storeOf 1)) := by
  constructor
  · intro idempotent
    have twice := (idempotent 2 (by omega)).2 1
    have differs : ((replay scriptEnv (quarterCall 1))^[2] (storeOf 1)).redisBalance 1 ≠
        (replay scriptEnv (quarterCall 1) (storeOf 1)).redisBalance 1 := by decide +kernel
    exact differs twice
  · intro apart
    have known : (quarterCall 2).Billable 2 := ⟨rfl, by decide +kernel⟩
    have rows : (replay scriptEnv (quarterCall 2)
        (replay scriptEnv (quarterCall 1) (storeOf 1))).ledger.rows =
          (replay scriptEnv (quarterCall 1) (storeOf 1)).ledger.rows := by decide +kernel
    have owner : ((replay scriptEnv (quarterCall 1) (storeOf 1)).ledger.find? "trace").map
        BillingTransaction.tenantId = some 1 := by decide +kernel
    obtain ⟨existing, found, first⟩ := Option.map_eq_some_iff.mp owner
    obtain ⟨_, tx, mem, new, _⟩ := apart 2 existing known found (first ▸ by decide)
    rw [rows] at mem
    exact new mem

end Deeting.Billing
