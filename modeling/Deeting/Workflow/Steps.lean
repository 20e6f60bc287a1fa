import Deeting.Billing.Pipeline
import Deeting.Orchestrator.Engine

/-! The steps of the chat workflows as far as charging goes: `QuotaCheckStep` and
`BillingStep` in full, of the others what they leave in the context for these two and how
they end. A scenario fixes a request and everything its surroundings do. -/
namespace Deeting.Workflow
open Deeting.Quota Deeting.Billing Deeting.Orchestrator

inductive StepName where
  | requestAdapter
  | validation
  | conversationLoad
  | assistantPromptInjection
  | signatureVerify
  | resolveAssets
  | mcpDiscovery
  | quotaCheck
  | rateLimit
  | routing
  | templateRender
  | agentExecutor
  | upstreamCall
  | providerExecution
  | responseTransform
  | memoryWrite
  | sanitize
  | billing
  | auditLog
  deriving DecidableEq, Repr

/-- `depends_on` of the step classes. -/
def dependsOn : StepName → List StepName
  | .requestAdapter | .validation => []
  | .conversationLoad | .signatureVerify | .resolveAssets | .mcpDiscovery | .quotaCheck
  | .rateLimit | .routing => [.validation]
  | .assistantPromptInjection => [.validation, .conversationLoad]
  | .templateRender => [.routing, .assistantPromptInjection]
  | .agentExecutor => [.templateRender]
  | .upstreamCall | .providerExecution => [.routing]
  | .responseTransform => [.upstreamCall]
  | .memoryWrite | .sanitize | .billing => [.responseTransform]
  | .auditLog => [.billing]

/-- The three `_align_…_dependencies` of `GatewayOrchestrator`. -/
def alignedDependsOn (names : List StepName) : StepName → List StepName
  | .templateRender =>
      [StepName.routing, .assistantPromptInjection].filter fun dep => names.contains dep
  | .upstreamCall =>
      if names.contains .templateRender then [.templateRender]
      else if names.contains .routing then [.routing]
      else []
  | .responseTransform =>
      if names.contains .agentExecutor then [.agentExecutor]
      else if names.contains .providerExecution then [.providerExecution]
      else if names.contains .upstreamCall then [.upstreamCall]
      else []
  | name => dependsOn name

/-- `max_retries` of the step configs of `EXTERNAL_CHAT_WORKFLOW`. -/
def maxRetries : StepName → ℕ
  | .routing => 1
  | .agentExecutor => 2
  | .billing => 3
  | _ => 0

/-- `_check_api_key_quota`: budget and quotas of the key leave room, are used up, or
cannot be read. -/
inductive ApiKeyCheck where
  | passes
  | exceeded (e : QuotaExceededError)
  | raises

inductive StepEnding where
  | returns (r : StepResult)
  | raises (e : StepError)

/-- The parts of `WorkflowContext` that the charging steps read and write, with the stores
behind it; the rows are those the run's session sees. -/
structure ChatContext where
  /-- `routing.pricing_config`; missing and empty are the same to its readers. -/
  pricingConfig : Option Pricing := none
  /-- `quota_check.remaining_balance` and the other two. -/
  remainingBalance : Option ℚ := none
  dailyRemaining : Option ℤ := none
  monthlyRemaining : Option ℤ := none
  /-- `upstream_call.stream`. -/
  stream : Bool := false
  inputTokens : ℕ := 0
  outputTokens : ℕ := 0
  inputCost : ℚ := 0
  outputCost : ℚ := 0
  totalCost : ℚ := 0
  balanceAfter : Option ℚ := none
  pendingTraceId : Option TraceId := none
  skipReason : Option String := none
  store : Store

structure Scenario where
  env : Env
  tenantId : TenantId
  traceId : TraceId
  maxTokens : Option ℤ
  attribution : Attribution := {}
  /-- `external_auth.enable_logging`. -/
  enableLogging : Option Bool := none
  apiKeyCheck : ApiKeyCheck := .passes
  /-- Whether the pre-check raises before its script, at a read of the database. -/
  precheckRaises : Bool := false
  /-- Whether a statement of `record_transaction` or the commit of `BillingStep` raises. -/
  recordRaises : Bool := false
  commitRaises : Bool := false
  deductFault : Fault := .none
  /-- How the other steps end, by attempt. -/
  ending : StepName → ℕ → StepEnding := fun _ _ => .returns {}
  /-- The pricing an attempt of routing leaves behind. -/
  routed : ℕ → Option Pricing
  usage : ℕ × ℕ
  /-- A timeout of `quota_check` or `billing`, with what is done by then. -/
  cutShort : StepName → Option (ChatContext → ChatContext) := fun _ => none

namespace Scenario

/-- The estimate of `quota_check`: a `max_tokens` of `None` is fit for an empty pricing
only, and 0 is taken as it is. -/
def precheckEstimate (sc : Scenario) (pricing : Option Pricing) : Option ℚ :=
  match pricing, sc.maxTokens with
  | none, _ => some 0
  | some _, none => none
  | some p, some maxTokens => some (estimateCost (some p) maxTokens)

/-- The estimate `BillingStep` settles against. -/
def settledEstimate (sc : Scenario) (pricing : Option Pricing) : ℚ :=
  estimateCost pricing (effectiveMaxTokens sc.maxTokens)

/-- `QuotaCheckStep.execute` for a known tenant. Everything but an exhausted quota lets
the request pass. -/
def quotaCheck (sc : Scenario) (c : ChatContext) : StepResult × ChatContext :=
  let degraded : StepResult := { message := some "quota check degraded" }
  match sc.apiKeyCheck with
  | .exceeded e => ({ status := .failed, message := some e.quotaType }, c)
  | .raises => (degraded, c)
  | .passes =>
      match sc.precheckEstimate c.pricingConfig, sc.precheckRaises with
      | some estimated, false =>
          match quotaPrecheck sc.env estimated (c.store.account sc.tenantId) with
          | (.error e, a) =>
              ({ status := .failed, message := some e.quotaType },
                { c with store := c.store.setAccount sc.tenantId a })
          | (.ok info, a) =>
              ({}, { c with
                remainingBalance := some info.balance
                dailyRemaining := info.dailyRemaining
                monthlyRemaining := info.monthlyRemaining
                store := c.store.setAccount sc.tenantId a })
      | _, _ => (degraded, c)

def createPendingForStream (sc : Scenario) (c : ChatContext) : StepResult × ChatContext :=
  match c.pricingConfig with
  | none => ({}, { c with skipReason := some "no_pricing_or_tenant" })
  | some p =>
      let failed : StepResult :=
        { status := .failed, message := some "Create pending billing failed" }
      match sc.maxTokens with
      | none => (failed, c)
      | some maxTokens =>
          let (created, store) := createPendingTransaction sc.env
            { tenantId := sc.tenantId, traceId := sc.traceId, estimatedTokens := maxTokens.toNat
              inputPer1k := some p.inputPrice, attribution := sc.attribution } c.store
          match created with
          | .error _ => (failed, { c with store })
          | .ok _ =>
              let c := { c with store, pendingTraceId := some sc.traceId }
              (if sc.commitRaises then failed else {}, c)

/-- The charge `_deduct_balance` asks `deduct` for. -/
def charge (sc : Scenario) (c : ChatContext) (p : Pricing) : Charge :=
  { tenantId := sc.tenantId, amount := c.totalCost, traceId := sc.traceId
    inputTokens := c.inputTokens, outputTokens := c.outputTokens
    inputPrice := p.inputPrice, outputPrice := p.outputPrice, attribution := sc.attribution }

/-- The call of `record_and_adjust` in `_record_usage`. -/
def usageCall (sc : Scenario) (c : ChatContext) : UsageCall :=
  { tenantId := some sc.tenantId, traceId := sc.traceId, inputTokens := c.inputTokens
    outputTokens := c.outputTokens, pricing := c.pricingConfig
    estimatedCost := sc.settledEstimate c.pricingConfig, attribution := sc.attribution }

/-- `quota_check` has left none of its values. -/
def unchecked (c : ChatContext) : Bool :=
  c.remainingBalance.isNone && c.dailyRemaining.isNone && c.monthlyRemaining.isNone

/-- The `try` block of `_deduct_for_non_stream`, for a pricing: `deduct` when the
pre-check is missing, else `record_and_adjust`. -/
def chargeUsage (sc : Scenario) (c : ChatContext) (p : Pricing) :
    Except BillingError Hook × ChatContext :=
  if 0 < c.totalCost ∧ unchecked c = true then
    match deduct sc.env sc.deductFault (sc.charge c p) false c.store with
    | (.error e, _, store) => (.error e, { c with store })
    | (.ok tx, hook, store) => (.ok hook, { c with store, balanceAfter := some tx.balanceAfter })
  else if sc.recordRaises = true then (.error .fault, c)
  else
    match recordAndAdjust sc.env (sc.usageCall c) c.store with
    | (.error e, store) => (.error e, { c with store })
    | (.ok none, store) => (.ok none, { c with store })
    | (.ok (some balance), store) => (.ok none, { c with store, balanceAfter := some balance })

/-- `_deduct_for_non_stream` on the external channel; without a pricing the commit is
not guarded. -/
def deductForNonStream (sc : Scenario) (c : ChatContext) :
    Except StepError StepResult × ChatContext :=
  let (inputCost, outputCost, totalCost) := calculateCost c.inputTokens c.outputTokens c.pricingConfig
  let c := { c with inputCost, outputCost, totalCost }
  match c.pricingConfig with
  | none =>
      let c := { c with skipReason := some "no_pricing_or_tenant" }
      (if sc.commitRaises then .error (.exception "commit") else .ok {}, c)
  | some p =>
      match sc.chargeUsage c p with
      | (.error (.insufficientBalance ..), c) =>
          (.ok { status := .failed, message := some "Payment required" }, c)
      | (.error _, c) => (.ok { status := .failed, message := some "billing failed" }, c)
      | (.ok hook, c) =>
          if sc.commitRaises then
            (.ok { status := .failed, message := some "billing failed" }, c)
          else (.ok {}, { c with store := c.store.commit sc.env hook })

/-- `BillingStep.execute`. -/
def bill (sc : Scenario) (c : ChatContext) : Except StepError StepResult × ChatContext :=
  if c.stream then
    let (r, c) := sc.createPendingForStream c
    (.ok r, c)
  else sc.deductForNonStream c

/-- What an attempt of another step writes for the charging steps. `agent_executor` asks
for one answer in whole whatever the client asked for. -/
def writes (sc : Scenario) (name : StepName) (attempt : ℕ) (c : ChatContext) : ChatContext :=
  match name with
  | .routing => { c with pricingConfig := sc.routed attempt }
  | .agentExecutor => { c with stream := false }
  | .responseTransform => { c with inputTokens := sc.usage.1, outputTokens := sc.usage.2 }
  | _ => c

def executeOther (sc : Scenario) (name : StepName) (attempt : ℕ) (c : ChatContext) :
    Except StepError StepResult × ChatContext :=
  let c := sc.writes name attempt c
  match sc.ending name attempt with
  | .returns r => (.ok r, c)
  | .raises e => (.error e, c)

def executeStep (sc : Scenario) (name : StepName) (attempt : ℕ) (c : ChatContext) :
    Except StepError StepResult × ChatContext :=
  match name, sc.cutShort name with
  | .quotaCheck, some done | .billing, some done => (.error .timeout, done c)
  | .quotaCheck, none =>
      let (r, c) := sc.quotaCheck c
      (.ok r, c)
  | .billing, none => sc.bill c
  | name, _ => sc.executeOther name attempt c

/-- `on_failure`: routing is tried twice, an agent that timed out degrades, and nothing
else is retried, as no class names an exception in `retry_on`. -/
def onFailure (name : StepName) (e : StepError) (attempt : ℕ) : FailureAction :=
  match name with
  | .routing => if attempt ≤ 1 then .retry else .abort
  | .agentExecutor =>
      if e = .timeout then .degrade
      else baseOnFailure (fun _ => false) (maxRetries .agentExecutor) e attempt
  | name => baseOnFailure (fun _ => false) (maxRetries name) e attempt

/-- `should_skip`: only `audit_log`, for a key that has turned logging off. -/
def shouldSkip (sc : Scenario) (name : StepName) : Bool :=
  name = .auditLog && sc.enableLogging = some false

def step (sc : Scenario) (names : List StepName) (name : StepName) : Step StepName ChatContext where
  name := name
  dependsOn := alignedDependsOn names name
  maxRetries := maxRetries name
  shouldSkip _ := sc.shouldSkip name
  execute := sc.executeStep name
  onFailure _ := onFailure name
  onDegrade _ c := ({ status := .degraded }, c)

end Scenario

end Deeting.Workflow
