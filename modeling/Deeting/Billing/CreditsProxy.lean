import Deeting.Billing.Pipeline

/-! `credits_chat_completions_proxy` from its pre-check on: the estimate is taken from
the quota hash, the request is forwarded, and one of several exits is reached. Only
`record_and_adjust` looks at the estimate again. -/
namespace Deeting.Billing
open Deeting.Quota

structure StreamUsage where
  promptTokens : Option ℕ := none
  completionTokens : Option ℕ := none

/-- A line of a decoded chunk; `event` is JSON, with a usage that is an object or none. -/
inductive StreamLine where
  | done
  | event (usage : Option StreamUsage)
  | other

structure StreamUsageAccumulator where
  inputTokens : ℕ := 0
  outputTokens : ℕ := 0
  isCompleted : Bool := false
  error : Option String := none
  chunks : ℕ := 0

namespace StreamUsageAccumulator

def feedLine (acc : StreamUsageAccumulator) : StreamLine → StreamUsageAccumulator
  | .done => { acc with isCompleted := true }
  | .event none => { acc with chunks := acc.chunks + 1 }
  | .event (some usage) =>
      { acc with
        chunks := acc.chunks + 1
        inputTokens := usage.promptTokens.getD 0
        outputTokens := usage.completionTokens.getD 0 }
  | .other => acc

/-- `feed`; `none` is a chunk that is not UTF-8. -/
def feed (acc : StreamUsageAccumulator) (chunk : Option (List StreamLine)) :
    StreamUsageAccumulator :=
  (chunk.getD []).foldl feedLine acc

end StreamUsageAccumulator

inductive StreamEnding where
  | exhausted
  | raised (text : String)
  | cut

/-- What the client's connection makes of the stream: the chunks passed on and the end.
The body of a response that is never iterated does not start. -/
structure StreamRun where
  started : Bool := true
  chunks : List (Option (List StreamLine))
  ending : StreamEnding

def StreamRun.accumulate (r : StreamRun) : StreamUsageAccumulator :=
  let acc := r.chunks.foldl StreamUsageAccumulator.feed {}
  match r.ending with
  | .raised text => { acc with error := some text }
  | _ => acc

inductive Upstream where
  | unreachable
  | failure (status : ℕ) (detail : String)
  | undecodable
  /-- The token counts of the canonical usage, 0 where there is none. -/
  | answer (inputTokens outputTokens : ℕ)

inductive Exchange where
  | whole (upstream : Upstream)
  | stream (run : StreamRun)

/-- Where the billing of a call is stopped by an exception or a cancellation: up to
`record_transaction`, or between the settlement and the commit. -/
inductive Interruption where
  | none
  | recording
  | committing
  deriving DecidableEq

structure PlatformModel where
  pricing : Option Pricing
  provider : String
  responsesBacked : Bool := false

structure ProxyCall where
  env : Env
  /-- `current_user`. -/
  tenantId : Option TenantId
  model : String
  maxTokens : Option ℤ := none
  /-- `trace_id` of the body, when something is left of it after `strip`. -/
  clientTraceId : Option TraceId := none
  generatedTraceId : TraceId
  platform : PlatformModel
  /-- Whether profile, canonical request and upstream request are built. -/
  built : Bool := true
  exchange : Exchange
  interruption : Interruption := .none

inductive ProxyReply where
  | insufficientCredits (e : QuotaExceededError)
  | streamingNotSupported
  | upstreamError (status : ℕ) (detail : String)
  | raised
  | streaming
  | answered

namespace ProxyCall

def traceId (call : ProxyCall) : TraceId := call.clientTraceId.getD call.generatedTraceId

def estimated (call : ProxyCall) : ℚ :=
  estimateCost call.platform.pricing (effectiveMaxTokens call.maxTokens)

/-- The call of `record_and_adjust` for a usage. -/
def usageCall (call : ProxyCall) (inputTokens outputTokens : ℕ) (description : String) : UsageCall :=
  { tenantId := call.tenantId, traceId := call.traceId, inputTokens, outputTokens
    pricing := call.platform.pricing, estimatedCost := call.estimated
    attribution := { provider := some call.platform.provider, model := some call.model }
    description := some description }

end ProxyCall

/-- `record_and_adjust` and the commit, with the rollback or the closing of the session
when they fail. -/
def bill (env : Env) (interruption : Interruption) (usage : UsageCall) (committed s : Store) :
    Store :=
  match interruption with
  | .recording => committed.rollback s
  | .committing => committed.rollback (recordAndAdjust env usage s).2
  | .none =>
      match recordAndAdjust env usage s with
      | (.ok _, t) => t
      | (.error _, t) => committed.rollback t

/-- `wrap_stream_with_billing`: the `finally` block bills whatever was accumulated. -/
def wrapStreamWithBilling (call : ProxyCall) (run : StreamRun) (committed s : Store) : Store :=
  if run.started then
    bill call.env call.interruption
      (call.usageCall run.accumulate.inputTokens run.accumulate.outputTokens
        "Credits proxy stream billing") committed s
  else committed.rollback s

/-- Steps 5 to 9. An exit without a commit closes the session on `committed`. -/
def forward (call : ProxyCall) (committed s : Store) : ProxyReply × Store :=
  if !call.built then (.raised, committed.rollback s)
  else
    match call.exchange with
    | .stream run =>
        if call.platform.responsesBacked then (.streamingNotSupported, committed.rollback s)
        else (.streaming, wrapStreamWithBilling call run committed s)
    | .whole .unreachable => (.raised, committed.rollback s)
    | .whole (.failure status detail) => (.upstreamError status detail, committed.rollback s)
    | .whole .undecodable => (.raised, committed.rollback s)
    | .whole (.answer inputTokens outputTokens) =>
        if call.tenantId.isSome ∧ (0 < inputTokens ∨ 0 < outputTokens) then
          (.answered, bill call.env call.interruption
            (call.usageCall inputTokens outputTokens ("Credits proxy model=" ++ call.model))
            committed s)
        else (.answered, committed.rollback s)

def precheckCommitted (env : Env) (before after : Store) : Store :=
  if env.usesScript then after else before

/-- `credits_chat_completions_proxy`, with the model, the preset and the credential at
hand. -/
def creditsChatCompletionsProxy (call : ProxyCall) (s : Store) : ProxyReply × Store :=
  match call.tenantId, call.platform.pricing with
  | some tenant, some _ =>
      match quotaPrecheck call.env call.estimated (s.account tenant) with
      | (.error e, a) =>
          (.insufficientCredits e, (precheckCommitted call.env s (s.setAccount tenant a)).rollback
            (s.setAccount tenant a))
      | (.ok _, a) =>
          forward call (precheckCommitted call.env s (s.setAccount tenant a)) (s.setAccount tenant a)
  | _, _ => forward call s s

def recordedAmount (traceId : TraceId) (before after : Store) : ℚ :=
  match before.ledger.find? traceId with
  | some _ => 0
  | none => ((after.ledger.find? traceId).map BillingTransaction.amount).getD 0

theorem recordedAmount_of_same {traceId : TraceId} {before after : Store}
    (same : after.ledger = before.ledger) : recordedAmount traceId before after = 0 := by
  cases found : before.ledger.find? traceId with
  | some _ => simp only [recordedAmount, found]
  | none => simp only [recordedAmount, same, found, Option.map_none, Option.getD_none]

@[simp] theorem redisBalance_rollback (committed t : Store) (tenant : TenantId) :
    (committed.rollback t).redisBalance tenant = t.redisBalance tenant := rfl

section Bill
variable {env : Env} {interruption : Interruption} {usage : UsageCall} {committed s : Store}
  {tenant : TenantId}

/-- What a billing makes of a balance in the hash: nothing if it is stopped early. -/
def billed (env : Env) (interruption : Interruption) (usage : UsageCall) (s : Store) : ℚ → ℚ :=
  if interruption = .recording then id else adjustment env usage s

theorem bill_unbillable (env : Env) (interruption : Interruption)
    (unbillable : ∀ tenant, ¬ usage.Billable tenant)
    (ledger : committed.ledger = s.ledger) :
    (bill env interruption usage committed s).ledger = s.ledger ∧
      (bill env interruption usage committed s).redisBalance = s.redisBalance := by
  have called := recordAndAdjust_unbillable env (s := s) unbillable
  cases interruption with
  | none => simp only [bill, called, and_self]
  | recording => exact ⟨ledger, rfl⟩
  | committing =>
    simp only [bill, called]
    exact ⟨ledger, rfl⟩

theorem bill_redisBalance (billable : usage.Billable tenant) :
    (bill env interruption usage committed s).redisBalance tenant =
      (s.redisBalance tenant).map (billed env interruption usage s) := by
  have adjusts := recordAndAdjust_redisBalance env (s := s) billable
  cases interruption with
  | recording => simp only [billed, if_true, Option.map_id, id, bill, redisBalance_rollback]
  | committing => simp only [billed, reduceCtorEq, if_false, bill, redisBalance_rollback, adjusts]
  | none =>
    simp only [billed, reduceCtorEq, if_false, ← adjusts, bill]
    split <;> rename_i called <;> simp only [called, redisBalance_rollback]

theorem bill_recorded (billable : usage.Billable tenant) (ledger : committed.ledger = s.ledger) :
    recordedAmount usage.traceId s (bill env interruption usage committed s) =
      if interruption = .none ∧ s.ledger.find? usage.traceId = none then usage.total else 0 := by
  cases found : s.ledger.find? usage.traceId with
  | some existing => simp [recordedAmount, found]
  | none =>
    cases interruption with
    | recording =>
      rw [if_neg (by simp)]
      exact recordedAmount_of_same ledger
    | committing =>
      rw [if_neg (by simp)]
      exact recordedAmount_of_same ledger
    | none =>
      obtain ⟨tx, t, called, inserted, traceId, _, _, _, amount, _⟩ :=
        recordAndAdjust_fresh env billable found
      have entered : t.ledger.find? usage.traceId = some tx := by
        rw [Table.find?_insert inserted, if_pos traceId.symm]
      simp [recordedAmount, found, bill, called, entered, amount]

end Bill

namespace ProxyCall

def usage (call : ProxyCall) : Option UsageCall :=
  if !call.built then none
  else
    match call.exchange with
    | .stream run =>
        if call.platform.responsesBacked ∨ run.started = false then none
        else some (call.usageCall run.accumulate.inputTokens run.accumulate.outputTokens
          "Credits proxy stream billing")
    | .whole (.answer inputTokens outputTokens) =>
        if call.tenantId.isSome ∧ (0 < inputTokens ∨ 0 < outputTokens) then
          some (call.usageCall inputTokens outputTokens ("Credits proxy model=" ++ call.model))
        else none
    | .whole _ => none

/-- The cost of the usage that is billed, 0 on the other exits. -/
def total (call : ProxyCall) : ℚ := (call.usage.map UsageCall.total).getD 0

def Records (call : ProxyCall) (s : Store) : Prop :=
  0 < call.total ∧ s.ledger.find? call.traceId = none ∧ call.interruption = .none

/-- A positive cost that is not within the tolerance of the estimate reaches the hash. -/
def Settled (call : ProxyCall) (s : Store) : Prop :=
  0 < call.total ∧ Settles call.env (call.total - call.estimated) ∧
    recordable call.traceId s = true ∧ call.interruption ≠ .recording

instance (call : ProxyCall) (s : Store) : Decidable (call.Records s) :=
  inferInstanceAs (Decidable (_ ∧ _))

instance (call : ProxyCall) (s : Store) : Decidable (call.Settled s) :=
  inferInstanceAs (Decidable (_ ∧ _))

def settlement (call : ProxyCall) (s : Store) : ℚ → ℚ :=
  if call.Settled s then fun b => adjusted b (call.total - call.estimated) else id

def recorded (call : ProxyCall) (s : Store) : ℚ := if call.Records s then call.total else 0

theorem forward_store (call : ProxyCall) (committed s : Store) :
    (forward call committed s).2 =
      match call.usage with
      | none => committed.rollback s
      | some usage => bill call.env call.interruption usage committed s := by
  rw [forward, usage]
  cases call.built with
  | false => rfl
  | true =>
    cases call.exchange with
    | stream run =>
      cases responses : call.platform.responsesBacked with
      | true => simp
      | false => cases started : run.started <;> simp [wrapStreamWithBilling, started]
    | whole upstream =>
      cases upstream with
      | answer inputTokens outputTokens =>
        by_cases counted : call.tenantId.isSome ∧ (0 < inputTokens ∨ 0 < outputTokens)
        · simp [counted]
        · simp [counted]
      | _ => rfl

theorem usage_eq_some {call : ProxyCall} {usage : UsageCall} (billed : call.usage = some usage) :
    ∃ inputTokens outputTokens description,
      usage = call.usageCall inputTokens outputTokens description := by
  rw [ProxyCall.usage] at billed
  split at billed
  · cases billed
  split at billed
  · split at billed
    · cases billed
    · exact ⟨_, _, _, (Option.some.inj billed).symm⟩
  · split at billed
    · exact ⟨_, _, _, (Option.some.inj billed).symm⟩
    · cases billed
  · cases billed

section Forward
variable {call : ProxyCall} {committed s : Store} {tenant : TenantId}

theorem forward_effect (call : ProxyCall) (known : call.tenantId = some tenant)
    (ledger : committed.ledger = s.ledger) :
    (forward call committed s).2.redisBalance tenant =
        (s.redisBalance tenant).map (call.settlement s) ∧
      recordedAmount call.traceId s (forward call committed s).2 = call.recorded s := by
  rw [forward_store]
  cases reached : call.usage with
  | none =>
    have free : ¬ 0 < call.total := by simp [total, reached]
    rw [settlement, if_neg fun settled : call.Settled s => free settled.1, recorded,
      if_neg fun records : call.Records s => free records.1, Option.map_id, id]
    exact ⟨rfl, recordedAmount_of_same ledger⟩
  | some usage =>
    obtain ⟨inputTokens, outputTokens, description, rfl⟩ := usage_eq_some reached
    have total : call.total = (call.usageCall inputTokens outputTokens description).total := by
      simp [ProxyCall.total, reached]
    by_cases costs : 0 < call.total
    · have billable : (call.usageCall inputTokens outputTokens description).Billable tenant :=
        ⟨known, total ▸ costs⟩
      have settled : call.settlement s = billed call.env call.interruption
          (call.usageCall inputTokens outputTokens description) s := by
        have diff : (call.usageCall inputTokens outputTokens description).costDiff =
            call.total - call.estimated := by
          rw [total]
          rfl
        simp only [settlement, Settled, billed, adjustment, Adjusted, costs, true_and, diff]
        by_cases stopped : call.interruption = .recording
        · simp [stopped]
        · simp only [stopped, ne_eq, not_false_eq_true, and_true, if_false]
          rfl
      have records : call.Records s ↔
          call.interruption = .none ∧ s.ledger.find? call.traceId = none := by
        simp only [Records, costs, true_and, and_comm]
      refine ⟨(bill_redisBalance billable).trans ?_, (bill_recorded billable ledger).trans ?_⟩
      · rw [settled]
      · simp only [recorded, records, total]
        rfl
    · have unbillable : ∀ x, ¬ (call.usageCall inputTokens outputTokens description).Billable x :=
        fun _ billable => costs (total ▸ billable.costs)
      obtain ⟨kept, balances⟩ := bill_unbillable call.env call.interruption unbillable ledger
      rw [settlement, if_neg fun settled : call.Settled s => costs settled.1, recorded,
        if_neg fun records : call.Records s => costs records.1, Option.map_id, id]
      exact ⟨congrFun balances tenant, recordedAmount_of_same kept⟩

end Forward

/-- `quota_precheck` accepts the estimate of a known tenant on a priced model. -/
structure Accepted (call : ProxyCall) (tenant : TenantId) (s : Store) : Prop where
  known : call.tenantId = some tenant
  priced : call.platform.pricing.isSome = true
  accepts : (quotaPrecheck call.env call.estimated (s.account tenant)).1.isOk = true

def balanceBefore (call : ProxyCall) (tenant : TenantId) (s : Store) : Option ℚ :=
  if call.env.usesScript then some (foundHash call.env (s.account tenant)).balance
  else s.redisBalance tenant

def taken (call : ProxyCall) : ℚ → ℚ :=
  if call.env.usesScript then fun b => call.env.less b call.estimated else id

section Admission
variable {call : ProxyCall} {s : Store} {tenant : TenantId}

theorem precheckDb_hash (env : Env) (estimatedCost : ℚ) (a : Account) :
    (precheckDb env estimatedCost a).2.hash = a.hash := by
  rw [precheckDb]
  by_cases accepts : RowAccepts
      { balanceAmount := estimatedCost, dailyRequests := 1, monthlyRequests := 1 }
      (currentRow env.today a.row)
  · simp [checkAndDeduct_of_accepts accepts]
  · obtain ⟨e, refused⟩ : ∃ e, checkAndDeduct env false false
        { balanceAmount := estimatedCost, dailyRequests := 1, monthlyRequests := 1 } a =
          (.error e, (getOrCreate env false a).2) := checkAndDeduct_of_refuses accepts
    simp [refused]

theorem precheck_redisBalance (accepted : call.Accepted tenant s) :
    (s.setAccount tenant (quotaPrecheck call.env call.estimated (s.account tenant)).2).redisBalance
        tenant = (call.balanceBefore tenant s).map call.taken := by
  cases usable : call.env.usesScript with
  | false =>
    simp only [Store.redisBalance, Store.setAccount, Function.update_self, quotaPrecheck, usable,
      if_true, precheckDb_hash, balanceBefore, taken, Bool.false_eq_true, if_false, Option.map_id, id]
  | true =>
    rcases quotaPrecheck_cases usable call.estimated (s.account tenant) with
      ⟨_, _, charged⟩ | ⟨_, refused, _⟩
    · simp only [Store.redisBalance, Store.setAccount, Function.update_self, charged, balanceBefore,
        taken, usable, if_true, Option.map_some]
      rfl
    · rw [accepted.accepts] at refused
      cases refused

theorem proxy_of_accepted (accepted : call.Accepted tenant s) :
    let charged :=
      s.setAccount tenant (quotaPrecheck call.env call.estimated (s.account tenant)).2
    creditsChatCompletionsProxy call s =
      forward call (precheckCommitted call.env s charged) charged := by
  intro charged
  obtain ⟨p, priced⟩ := Option.isSome_iff_exists.mp accepted.priced
  cases checked : quotaPrecheck call.env call.estimated (s.account tenant) with
  | mk verdict a =>
    cases verdict with
    | error e =>
      have accepts := accepted.accepts
      rw [checked] at accepts
      cases accepts
    | ok info =>
      simp only [creditsChatCompletionsProxy, accepted.known, priced, checked, charged]

/-- The balance falls by exactly the amount recorded for the call. -/
def Balanced (call : ProxyCall) (tenant : TenantId) (s : Store) : Prop :=
  let after := (creditsChatCompletionsProxy call s).2
  ∀ b, call.balanceBefore tenant s = some b →
    after.redisBalance tenant = some (b - recordedAmount call.traceId s after)

/-- The balance `b` is right in the end. Each script takes its amount in doubles: with the
pre-check's script a recorded cost is settled against the estimate or the estimate is the cost,
or nothing is recorded and nothing taken. Without it a settlement must be the whole cost. -/
def Covers (call : ProxyCall) (s : Store) (b : ℚ) : Prop :=
  let due := call.total - call.estimated
  if call.env.usesScript then
    let left := call.env.less b call.estimated
    call.Records s ∧ (1 / 1000000 < |due| ∧ adjusted left due = b - call.total ∨
        ¬ 1 / 1000000 < |due| ∧ left = b - call.total) ∨
      ¬ call.Records s ∧ (call.Settled s ∧ adjusted left due = b ∨ ¬ call.Settled s ∧ left = b)
  else
    call.Records s ∧ call.Settled s ∧ adjusted b due = b - call.total ∨
      ¬ call.Records s ∧ (call.Settled s → adjusted b due = b)

/-- The balance that the call finds is one that it covers. -/
def Covered (call : ProxyCall) (tenant : TenantId) (s : Store) : Prop :=
  ∀ b, call.balanceBefore tenant s = some b → call.Covers s b

theorem balanced_iff_left (accepted : call.Accepted tenant s) :
    call.Balanced tenant s ↔ ∀ b, call.balanceBefore tenant s = some b →
      call.settlement s (call.taken b) = b - call.recorded s := by
  have ledger : (precheckCommitted call.env s (s.setAccount tenant
      (quotaPrecheck call.env call.estimated (s.account tenant)).2)).ledger = s.ledger := by
    rw [precheckCommitted]
    split <;> rfl
  obtain ⟨balance, recorded⟩ := forward_effect call (s := s.setAccount tenant
    (quotaPrecheck call.env call.estimated (s.account tenant)).2) accepted.known ledger
  rw [← proxy_of_accepted accepted, precheck_redisBalance accepted] at balance
  rw [← proxy_of_accepted accepted] at recorded
  -- neither condition looks at the accounts
  have recorded : recordedAmount call.traceId s (creditsChatCompletionsProxy call s).2 =
    call.recorded s := recorded
  have balance : (creditsChatCompletionsProxy call s).2.redisBalance tenant =
    ((call.balanceBefore tenant s).map call.taken).map (call.settlement s) := balance
  simp only [Balanced, recorded, balance]
  refine forall₂_congr fun b before => ?_
  rw [before]
  simp only [Option.map_some, Option.some.injEq]

theorem left_iff_covers_of_script (usable : call.env.usesScript = true) (b : ℚ) :
    call.settlement s (call.env.less b call.estimated) = b - call.recorded s ↔ call.Covers s b := by
  have redis : call.env.redis = true := (Bool.and_eq_true_iff.mp usable).1
  by_cases records : call.Records s
  · have recordable : recordable call.traceId s = true := by
      simp [Billing.recordable, records.2.1]
    have settled : call.Settled s ↔ 1 / 1000000 < |call.total - call.estimated| :=
      ⟨fun settled => settled.2.1.1, fun large =>
        ⟨records.1, ⟨large, redis⟩, recordable, by simp [records.2.2]⟩⟩
    by_cases large : 1 / 1000000 < |call.total - call.estimated|
    · simp [-one_div, Covers, usable, recorded, settlement, records, settled, large]
    · simp [-one_div, Covers, usable, recorded, settlement, records, settled, large]
  · by_cases settled : call.Settled s
    · simp [Covers, usable, recorded, settlement, records, settled]
    · simp [Covers, usable, recorded, settlement, records, settled]

theorem left_iff_covers_of_fallback (fallback : call.env.usesScript = false) (b : ℚ) :
    call.settlement s b = b - call.recorded s ↔ call.Covers s b := by
  by_cases records : call.Records s
  · by_cases settled : call.Settled s
    · simp [Covers, fallback, recorded, settlement, records, settled]
    · have charged : b ≠ b - call.total := by linarith [records.1]
      simp [Covers, fallback, recorded, settlement, records, settled, charged]
  · by_cases settled : call.Settled s
    · simp [Covers, fallback, recorded, settlement, records, settled]
    · simp [Covers, fallback, recorded, settlement, records, settled]

/-- The balance is right after exactly the covered calls. -/
theorem proxy_balanced_iff (accepted : call.Accepted tenant s) :
    call.Balanced tenant s ↔ call.Covered tenant s := by
  rw [balanced_iff_left accepted]
  refine forall₂_congr fun b _ => ?_
  rw [taken]
  cases usable : call.env.usesScript with
  | true => exact left_iff_covers_of_script usable b
  | false => exact left_iff_covers_of_fallback usable b

end Admission

/-- A call for a model at one credit per thousand input tokens: 4.096 are estimated. -/
def pricedCall (upstream : Upstream) : ProxyCall :=
  { env := scriptEnv, tenantId := some 1, model := "model", generatedTraceId := "trace"
    platform := ⟨some ⟨some 1, none⟩, "provider", false⟩, exchange := .whole upstream }

theorem pricedCall_accepted (upstream : Upstream) :
    (pricedCall upstream).Accepted 1 (storeOf 10) := by
  have accepts : (quotaPrecheck scriptEnv (estimateCost (some ⟨some 1, none⟩) 4096)
      ((storeOf 10).account 1)).1.isOk = true := by decide +kernel
  exact ⟨rfl, rfl, accepts⟩

theorem answered_call_balanced : (pricedCall (.answer 250 0)).Balanced 1 (storeOf 10) := by
  have covers : (pricedCall (.answer 250 0)).Covers (storeOf 10) 10 := by
    unfold Covers
    decide +kernel
  refine (proxy_balanced_iff (pricedCall_accepted (.answer 250 0))).mpr fun b before => ?_
  have ten : (pricedCall (.answer 250 0)).balanceBefore 1 (storeOf 10) = some 10 := by decide +kernel
  rw [ten] at before
  cases before
  exact covers

/-- An upstream error leaves the estimate charged and nothing recorded. -/
theorem failed_call_stays_charged :
    (pricedCall (.failure 500 "")).Accepted 1 (storeOf 10) ∧
      ¬ (pricedCall (.failure 500 "")).Balanced 1 (storeOf 10) := by
  refine ⟨pricedCall_accepted _, ?_⟩
  intro balanced
  have after := balanced 10 (by decide +kernel)
  revert after
  decide +kernel

end ProxyCall

end Deeting.Billing
