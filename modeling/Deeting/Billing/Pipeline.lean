import Deeting.Billing.Repository
import Mathlib.Logic.Function.Iterate

/-! `billing_pipeline`: the estimate, the cost of a usage, and `record_and_adjust`.
A pricing is a non-empty `pricing_config`, of which only the two prices are read;
an empty one is `none`. The last section is about repeated and colliding trace ids. -/
namespace Deeting.Billing
open Deeting.Quota

structure Pricing where
  inputPer1k : Option ℚ := none
  outputPer1k : Option ℚ := none
  deriving DecidableEq, Repr

def Pricing.inputPrice (p : Pricing) : ℚ := p.inputPer1k.getD 0

def Pricing.outputPrice (p : Pricing) : ℚ := p.outputPer1k.getD 0

def estimateCost (pricing : Option Pricing) (maxTokens : ℤ) : ℚ :=
  match pricing with
  | none => 0
  | some p => (maxTokens * 2 : ℚ) / 1000 * ((p.inputPrice + p.outputPrice) / 2)

/-- `max_tokens or 4096`. -/
def effectiveMaxTokens (maxTokens : Option ℤ) : ℤ :=
  match maxTokens with
  | none | some 0 => 4096
  | some given => given

/-- `_cost` of `calculate_cost`. -/
def tokenCost (tokens : ℕ) (pricePer1k : ℚ) : ℚ :=
  if tokens = 0 ∨ pricePer1k ≤ 0 then 0 else Decimal.quantize6 (tokens / 1000 * pricePer1k)

/-- `calculate_cost`: input, output and total cost. -/
def calculateCost (inputTokens outputTokens : ℕ) (pricing : Option Pricing) : ℚ × ℚ × ℚ :=
  let inputCost := tokenCost inputTokens ((pricing.map Pricing.inputPrice).getD 0)
  let outputCost := tokenCost outputTokens ((pricing.map Pricing.outputPrice).getD 0)
  (inputCost, outputCost, inputCost + outputCost)

def totalCost (inputTokens outputTokens : ℕ) (pricing : Option Pricing) : ℚ :=
  (calculateCost inputTokens outputTokens pricing).2.2

theorem tokenCost_nonneg (tokens : ℕ) (pricePer1k : ℚ) : 0 ≤ tokenCost tokens pricePer1k := by
  rw [tokenCost]
  split
  · exact le_rfl
  · rename_i priced
    have price : 0 ≤ pricePer1k := le_of_not_ge fun free => priced (.inr free)
    exact Decimal.quantize6_nonneg (mul_nonneg (by positivity) price)

theorem totalCost_nonneg (inputTokens outputTokens : ℕ) (pricing : Option Pricing) :
    0 ≤ totalCost inputTokens outputTokens pricing :=
  add_nonneg (tokenCost_nonneg _ _) (tokenCost_nonneg _ _)

theorem totalCost_unpriced (inputTokens outputTokens : ℕ) :
    totalCost inputTokens outputTokens none = 0 := by
  simp [totalCost, calculateCost, tokenCost]

/-- The arguments of `record_and_adjust`; `tenantId` is `none` for an empty id. -/
structure UsageCall where
  tenantId : Option TenantId
  traceId : TraceId
  inputTokens : ℕ
  outputTokens : ℕ
  pricing : Option Pricing
  estimatedCost : ℚ
  attribution : Attribution := {}
  description : Option String := none

def UsageCall.total (call : UsageCall) : ℚ :=
  totalCost call.inputTokens call.outputTokens call.pricing

def UsageCall.costDiff (call : UsageCall) : ℚ := call.total - call.estimatedCost

/-- The transaction `record_and_adjust` asks for. -/
def UsageCall.charge (call : UsageCall) (tenant : TenantId) (p : Pricing) : Charge where
  tenantId := tenant
  amount := call.total
  traceId := call.traceId
  inputTokens := call.inputTokens
  outputTokens := call.outputTokens
  inputPrice := p.inputPrice
  outputPrice := p.outputPrice
  attribution := call.attribution
  description := call.description

def settleEstimate (env : Env) (tenant : TenantId) (costDiff : ℚ) (s : Store) : Store :=
  if 1 / 1000000 < |costDiff| then s.adjustRedisBalance env tenant costDiff else s

def recordAndAdjust (env : Env) (call : UsageCall) (s : Store) :
    Except BillingError (Option ℚ) × Store :=
  match call.tenantId, call.pricing with
  | some tenant, some p =>
      if call.total ≤ 0 then (.ok none, s)
      else
        match recordTransaction env (call.charge tenant p) s with
        | (.error e, s) => (.error e, s)
        | (.ok tx, s) => (.ok (some tx.balanceAfter), settleEstimate env tenant call.costDiff s)
  | _, _ => (.ok none, s)

def Store.redisBalance (s : Store) (tenant : TenantId) : Option ℚ :=
  (s.account tenant).hash.map QuotaHash.balance

section Record
variable (env : Env) {c : Charge} {s : Store}

theorem recordTransaction_fresh (fresh : s.ledger.find? c.traceId = none) :
    ∃ tx t, recordTransaction env c s = (.ok tx, t) ∧ s.ledger.insert? tx = some t.ledger ∧
      tx.traceId = c.traceId ∧ tx.tenantId = c.tenantId ∧ tx.type = .deduct ∧
      tx.status = .committed ∧ tx.amount = c.amount ∧
      ∀ x, (t.account x).hash = (s.account x).hash := by
  obtain ⟨ledger, inserted⟩ := Table.insert?_of_fresh
    (r := recordedDeduct c (currentRow env.today (s.account c.tenantId).row)) fresh
  refine ⟨_, (s.setAccount c.tenantId (getOrCreate env false (s.account c.tenantId)).2).setLedger
    ledger, ?_, inserted, rfl, rfl, rfl, rfl, rfl, fun x => ?_⟩
  · simp only [recordTransaction, fresh, getOrCreate_fst, inserted]
  · simp only [Store.setAccount, Store.setLedger]
    by_cases same : x = c.tenantId
    · subst same
      simp
    · simp [same]

theorem recordTransaction_committed {existing : BillingTransaction}
    (found : s.ledger.find? c.traceId = some existing) (committed : existing.status = .committed) :
    recordTransaction env c s = (.ok existing, s) := by
  simp only [recordTransaction, found, committed, if_true]

theorem recordTransaction_duplicate {existing : BillingTransaction}
    (found : s.ledger.find? c.traceId = some existing) (open_ : existing.status ≠ .committed) :
    recordTransaction env c s = (.error (.duplicateTransaction c.traceId), s) := by
  simp only [recordTransaction, found, open_, if_false]

end Record

section Settle
variable {env : Env} {tenant : TenantId} {costDiff : ℚ} {s : Store}

@[simp] theorem settleEstimate_ledger : (settleEstimate env tenant costDiff s).ledger = s.ledger := by
  rw [settleEstimate]
  split <;> rfl

/-- Whether `record_and_adjust` changes a hash that is there. -/
def Settles (env : Env) (costDiff : ℚ) : Prop := 1 / 1000000 < |costDiff| ∧ env.redis = true

instance (env : Env) (costDiff : ℚ) : Decidable (Settles env costDiff) :=
  inferInstanceAs (Decidable (_ ∧ _))

theorem redisBalance_settleEstimate (settles : Settles env costDiff) :
    (settleEstimate env tenant costDiff s).redisBalance tenant =
      (s.redisBalance tenant).map fun balance => adjusted balance costDiff := by
  have above : ¬ |costDiff| < 1 / 1000000 := not_lt.mpr settles.1.le
  rw [settleEstimate]
  rw [if_pos settles.1]
  simp only [Store.adjustRedisBalance, adjustRedisBalance, if_neg above, settles.2,
    Bool.true_eq_false, if_false, Store.redisBalance, Store.setAccount, Function.update_self]
  cases (s.account tenant).hash <;> rfl

theorem redisBalance_settleEstimate_of_not (settles : ¬ Settles env costDiff) (x : TenantId) :
    (settleEstimate env tenant costDiff s).redisBalance x = s.redisBalance x := by
  rw [settleEstimate]
  split
  · rename_i large
    have down : env.redis = false := by
      by_contra up
      exact settles ⟨large, by simpa using up⟩
    have same : s.adjustRedisBalance env tenant costDiff = s := by
      simp [Store.adjustRedisBalance, adjustRedisBalance, down, Store.setAccount]
    rw [same]
  · rfl

theorem redisBalance_settleEstimate_of_ne {x : TenantId} (other : x ≠ tenant) :
    (settleEstimate env tenant costDiff s).redisBalance x = s.redisBalance x := by
  rw [settleEstimate]
  split
  · simp [Store.adjustRedisBalance, Store.setAccount, Store.redisBalance, other]
  · rfl

end Settle

section RecordAndAdjust
variable (env : Env) {call : UsageCall} {s : Store} {tenant : TenantId}

structure UsageCall.Billable (call : UsageCall) (tenant : TenantId) : Prop where
  known : call.tenantId = some tenant
  costs : 0 < call.total

theorem UsageCall.Billable.priced (billable : call.Billable tenant) :
    ∃ p, call.pricing = some p := by
  cases priced : call.pricing with
  | some p => exact ⟨p, rfl⟩
  | none =>
    have costs := billable.costs
    rw [UsageCall.total, priced, totalCost_unpriced] at costs
    exact absurd costs (lt_irrefl 0)

theorem recordAndAdjust_unbillable (unbillable : ∀ tenant, ¬ call.Billable tenant) :
    recordAndAdjust env call s = (.ok none, s) := by
  rw [recordAndAdjust]
  split
  · rename_i tenant p known priced
    have free : call.total ≤ 0 := le_of_not_gt fun costs => unbillable tenant ⟨known, costs⟩
    rw [if_pos free]
  · rfl

theorem recordAndAdjust_billable (billable : call.Billable tenant) :
    ∃ p, recordAndAdjust env call s =
      match recordTransaction env (call.charge tenant p) s with
      | (.error e, s) => (.error e, s)
      | (.ok tx, s) => (.ok (some tx.balanceAfter), settleEstimate env tenant call.costDiff s) := by
  obtain ⟨p, priced⟩ := billable.priced
  refine ⟨p, ?_⟩
  simp only [recordAndAdjust, billable.known, priced, if_neg (not_le.mpr billable.costs)]

theorem recordAndAdjust_fresh (billable : call.Billable tenant)
    (fresh : s.ledger.find? call.traceId = none) :
    ∃ tx t, recordAndAdjust env call s =
        (.ok (some tx.balanceAfter), settleEstimate env tenant call.costDiff t) ∧
      s.ledger.insert? tx = some t.ledger ∧ tx.traceId = call.traceId ∧ tx.tenantId = tenant ∧
      tx.type = .deduct ∧ tx.status = .committed ∧ tx.amount = call.total ∧
      ∀ x, (t.account x).hash = (s.account x).hash := by
  obtain ⟨p, called⟩ := recordAndAdjust_billable env (s := s) billable
  obtain ⟨tx, t, recorded, rest⟩ :=
    recordTransaction_fresh env (c := call.charge tenant p) fresh
  refine ⟨tx, t, ?_, rest⟩
  rw [called, recorded]

/-- A trace id with a committed row: nothing recorded, the estimate settled all the same. -/
theorem recordAndAdjust_committed {existing : BillingTransaction} (billable : call.Billable tenant)
    (found : s.ledger.find? call.traceId = some existing) (committed : existing.status = .committed) :
    recordAndAdjust env call s =
      (.ok (some existing.balanceAfter), settleEstimate env tenant call.costDiff s) := by
  obtain ⟨p, called⟩ := recordAndAdjust_billable env (s := s) billable
  rw [called, recordTransaction_committed env (c := call.charge tenant p) found committed]

theorem recordAndAdjust_duplicate {existing : BillingTransaction} (billable : call.Billable tenant)
    (found : s.ledger.find? call.traceId = some existing) (open_ : existing.status ≠ .committed) :
    recordAndAdjust env call s = (.error (.duplicateTransaction call.traceId), s) := by
  obtain ⟨p, called⟩ := recordAndAdjust_billable env (s := s) billable
  rw [called, recordTransaction_duplicate env (c := call.charge tenant p) found open_]
  rfl

/-- `record_transaction` does not raise: the trace id is unused or its row committed. -/
def recordable (traceId : TraceId) (s : Store) : Bool :=
  (s.ledger.find? traceId).all fun existing => existing.status = .committed

def Adjusted (env : Env) (usage : UsageCall) (s : Store) : Prop :=
  Settles env usage.costDiff ∧ recordable usage.traceId s = true

instance (env : Env) (usage : UsageCall) (s : Store) : Decidable (Adjusted env usage s) :=
  inferInstanceAs (Decidable (_ ∧ _))

def adjustment (env : Env) (usage : UsageCall) (s : Store) : ℚ → ℚ :=
  if Adjusted env usage s then fun balance => adjusted balance usage.costDiff else id

theorem settleEstimate_adjustment {t : Store} (same : t.redisBalance tenant = s.redisBalance tenant)
    (recorded : recordable call.traceId s = true) :
    (settleEstimate env tenant call.costDiff t).redisBalance tenant =
      (s.redisBalance tenant).map (adjustment env call s) := by
  by_cases settles : Settles env call.costDiff
  · have adjusts : Adjusted env call s := ⟨settles, recorded⟩
    rw [redisBalance_settleEstimate settles, same, adjustment, if_pos adjusts]
  · have idle : ¬ Adjusted env call s := fun adjusts => settles adjusts.1
    rw [redisBalance_settleEstimate_of_not settles, same, adjustment, if_neg idle, Option.map_id, id]

theorem recordAndAdjust_redisBalance (billable : call.Billable tenant) :
    (recordAndAdjust env call s).2.redisBalance tenant =
      (s.redisBalance tenant).map (adjustment env call s) := by
  cases found : s.ledger.find? call.traceId with
  | none =>
    obtain ⟨tx, t, called, _, _, _, _, _, _, hashes⟩ :=
      recordAndAdjust_fresh env billable found
    rw [called]
    exact settleEstimate_adjustment env (by simp only [Store.redisBalance, hashes])
      (by simp [recordable, found])
  | some existing =>
    by_cases status : existing.status = .committed
    · rw [recordAndAdjust_committed _ billable found status]
      exact settleEstimate_adjustment env rfl (by simp [recordable, found, status])
    · have refused : ¬ Adjusted env call s := fun adjusts => by
        simpa [recordable, found, status] using adjusts.2
      rw [recordAndAdjust_duplicate _ billable found status, adjustment, if_neg refused,
        Option.map_id, id]

end RecordAndAdjust

end Deeting.Billing
