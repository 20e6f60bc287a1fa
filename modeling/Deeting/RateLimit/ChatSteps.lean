import Deeting.Cache.Keys
import Deeting.RateLimit.SlidingWindow
import Deeting.Workflow.ExternalChat

/-! `RateLimitStep` in the two chat workflows. It takes the limits of the model from
`routing.limit_config`, which `RoutingStep` writes; the engine puts both steps in one layer
and, with a database session, executes them one after the other, the limit first. How the
token bucket of the TPM check ends is a field of the request. -/
namespace Deeting.RateLimit
open Deeting.Orchestrator Deeting.Workflow
open Deeting.Cache.CacheKeys (rateLimitRpm rateLimitTpm)

inductive Channel where
  | external
  | internal
  deriving DecidableEq, Repr

inductive ChatStep where
  | common (name : StepName)
  | jitPersonaToolInjection
  | semanticKernel
  | knowledgeSelectionInjection
  | specAgentDetector
  | conversationAppend
  deriving DecidableEq, Repr

/-- `steps` of `EXTERNAL_CHAT_WORKFLOW` and of `INTERNAL_CHAT_WORKFLOW`. -/
def chatSteps : Channel → List ChatStep
  | .external => externalChatSteps.map .common
  | .internal =>
      [.common .requestAdapter, .common .validation, .common .conversationLoad,
        .common .assistantPromptInjection, .common .resolveAssets, .common .mcpDiscovery,
        .jitPersonaToolInjection, .semanticKernel, .knowledgeSelectionInjection,
        .common .quotaCheck, .common .rateLimit, .common .routing, .common .templateRender,
        .common .agentExecutor, .common .responseTransform, .specAgentDetector,
        .conversationAppend, .common .memoryWrite, .common .sanitize, .common .billing,
        .common .auditLog]

def ChatStep.common? : ChatStep → Option StepName
  | .common name => some name
  | _ => none

/-- `depends_on` of the step classes, as `GatewayOrchestrator` aligns them. -/
def chatDependsOn (names : List ChatStep) : ChatStep → List ChatStep
  | .common name => (alignedDependsOn (names.filterMap ChatStep.common?) name).map .common
  | .jitPersonaToolInjection | .semanticKernel => [.common .validation, .common .mcpDiscovery]
  | .knowledgeSelectionInjection => [.semanticKernel]
  | .specAgentDetector => [.common .responseTransform]
  | .conversationAppend => [.common .responseTransform, .specAgentDetector]

/-- `max_retries` of the step configs of the two workflows. -/
def chatRetries : Channel → ChatStep → ℕ
  | .internal, .common .routing => 0
  | _, .common name => maxRetries name
  | _, _ => 0

structure Settings where
  externalRpm : ℕ := 60
  internalRpm : ℕ := 600
  externalTpm : ℕ := 100000
  internalTpm : ℕ := 1000000
  windowSeconds : ℕ := 60
  ipDefaultRpm : ℕ := 600

def Settings.defaultRpm (st : Settings) : Channel → ℕ
  | .external => st.externalRpm
  | .internal => st.internalRpm

structure LimitConfig where
  rpm : Option ℕ := none
  tpm : Option ℕ := none
  window : Option ℕ := none
  deriving DecidableEq, Repr

structure Spec where
  key : String
  rpm : ℕ
  window : ℕ
  scope : String
  tpm : Option ℕ := none

structure TpmSpec where
  tpm : ℕ
  tpmKey : Option String
  window : ℕ
  scope : String

/-- `_check_tpm` lets the request pass, refuses it, or raises (a window of 0). -/
inductive TpmEnd where
  | passes
  | refuses (retryAfter : ℕ)
  | raises (text : String)

/-- How far `rate_limit` has come when its timeout cuts it short. -/
inductive LimitCut where
  | atStart
  | afterScript

/-- A request as `RateLimitStep` finds it, and what its surroundings do. -/
structure Request where
  channel : Channel
  apiKeyId : Option String
  tenantId : Option String := none
  clientIp : Option String := none
  /-- `is_whitelist`, `rate_limit_rpm` and `rate_limit_tpm` of `signature_verify`. -/
  isWhitelist : Bool := false
  keyRpm : Option ℕ := none
  keyTpm : Option ℕ := none
  /-- The time in milliseconds and the `uuid4` that the script is given. -/
  now : ℕ
  requestId : ℕ
  tpmEnd : TpmSpec → TpmEnd := fun _ => .passes
  timeout : Option LimitCut := none
  /-- The `limit_config` that an attempt of routing writes when it selects a candidate. -/
  routed : ℕ → Option LimitConfig
  /-- How the other steps end, by attempt, and which of them are skipped. -/
  ending : ChatStep → ℕ → StepEnding := fun _ _ => .returns {}
  skipped : ChatStep → Bool := fun _ => false

structure LimitContext where
  limitConfig : Option LimitConfig := none
  rpmRemaining : Option ℤ := none
  resetAfter : Option ℕ := none
  tpmRemaining : Option ℕ := none
  retryAfter : Option ℕ := none
  detail : Option String := none
  limiter : Limiter String ℕ

namespace Request

def present (value : Option String) : Option String := value.filter (· ≠ "")

def windowOf (st : Settings) (limits : LimitConfig) : ℕ :=
  (limits.window.filter (· ≠ 0)).getD st.windowSeconds

def keySpecs (st : Settings) (req : Request) (limits : LimitConfig) : List Spec :=
  match present req.apiKeyId, (req.keyRpm.or limits.rpm).filter (· ≠ 0) with
  | some id, some rpm =>
      [{ key := rateLimitRpm ("ak:" ++ id) "chat", rpm, window := windowOf st limits
         scope := "apikey", tpm := req.keyTpm.or limits.tpm }]
  | _, _ => []

def ipSpecs (st : Settings) (req : Request) (limits : LimitConfig) : List Spec :=
  match present req.clientIp, decide (0 < st.ipDefaultRpm) with
  | some ip, true =>
      [{ key := rateLimitRpm ("ip:" ++ ip) "chat", rpm := st.ipDefaultRpm
         window := windowOf st limits, scope := "ip" }]
  | _, _ => []

def globalSpecs (st : Settings) (req : Request) (limits : LimitConfig) : List Spec :=
  if 0 < st.defaultRpm req.channel then
    [{ key := rateLimitRpm "global" "chat", rpm := st.defaultRpm req.channel
       window := windowOf st limits, scope := "global" }]
  else []

def buildRateLimitSpecs (st : Settings) (req : Request) (limits : LimitConfig) : List Spec :=
  keySpecs st req limits ++ ipSpecs st req limits ++ globalSpecs st req limits

/-- One turn of the loop of `_select_strict_tpm_spec`. -/
def stricter (target : Option (ℕ × Spec)) (spec : Spec) : Option (ℕ × Spec) :=
  match spec.tpm, target with
  | none, target => target
  | some t, none => some (t, spec)
  | some t, some (least, chosen) => if t < least then some (t, spec) else some (least, chosen)

def selectStrictTpmSpec (st : Settings) (req : Request) (specs : List Spec)
    (limits : LimitConfig) : Option TpmSpec :=
  match specs.foldl stricter none with
  | some (tpm, spec) =>
      let key := (present req.apiKeyId).map fun id => rateLimitTpm ("ak:" ++ id) "chat"
      some ⟨tpm, if tpm = 0 then none else key, spec.window, spec.scope⟩
  | none =>
      limits.tpm.map fun tpm =>
        let (subject, scope) :=
          match present req.apiKeyId, present req.tenantId with
          | some id, _ => ("ak:" ++ id, "apikey")
          | none, some id => ("tenant:" ++ id, "tenant")
          | none, none => ("global", "global")
        ⟨tpm, some (rateLimitTpm subject "chat"), windowOf st limits, scope⟩

end Request

def limitsOf (specs : List Spec) : Limits String :=
  ⟨fun key => ((specs.find? (·.key = key)).map Spec.window).getD 0,
    fun key => ((specs.find? (·.key = key)).map Spec.rpm).getD 0⟩

/-- `str(RateLimitExceededError)`. -/
def exceededText (scope limitType : String) (limit retryAfter : ℕ) : String :=
  "Rate limit exceeded: " ++ scope ++ "." ++ limitType ++ "=" ++ toString limit ++
    ", retry_after=" ++ toString retryAfter ++ "s"

namespace Request

def refuse (c : LimitContext) (scope limitType : String) (limit retryAfter : ℕ) :
    Except StepError StepResult × LimitContext :=
  let detail := exceededText scope limitType limit retryAfter
  (.ok { status := .failed, message := some detail },
    { c with retryAfter := some retryAfter, detail := some detail })

def accept (req : Request) (tpm : Option TpmSpec) (c : LimitContext) :
    Except StepError StepResult × LimitContext :=
  match tpm with
  | none => (.ok {}, c)
  | some spec =>
      match req.tpmEnd spec with
      | .passes => (.ok {}, c)
      | .refuses retryAfter => refuse c spec.scope "tpm" spec.tpm retryAfter
      | .raises text => (.error (.exception text), c)

/-- `_check_multi_level_rpm` with Redis, and the rest of `RateLimitStep.execute`. -/
def checkLimits (req : Request) (specs : List Spec) (tpm : Option TpmSpec) (c : LimitContext) :
    Except StepError StepResult × LimitContext :=
  let call : Call String ℕ := ⟨specs.map Spec.key, req.now, req.requestId⟩
  let limiter := c.limiter.serve (limitsOf specs) call
  match ((limitsOf specs).slidingWindow call c.limiter.db).1 with
  | .rejected index limit retryAfter =>
      let scope := ((specs[index - 1]?).or specs.head?).elim "" Spec.scope
      refuse { c with limiter } scope "rpm" limit retryAfter
  | .allowed remaining reset =>
      req.accept tpm { c with limiter, rpmRemaining := some remaining, resetAfter := some reset }

/-- `RateLimitStep.execute`. -/
def rateLimit (st : Settings) (req : Request) (c : LimitContext) :
    Except StepError StepResult × LimitContext :=
  if req.isWhitelist then
    let (rpm, tpm) :=
      match req.channel with
      | .external => (st.externalRpm, st.externalTpm)
      | .internal => (st.internalRpm, st.internalTpm)
    let orOne (n : ℕ) : ℕ := if n = 0 then 1 else n
    (.ok {}, { c with rpmRemaining := some (orOne rpm), tpmRemaining := some (orOne tpm) })
  else
    let limits := c.limitConfig.getD {}
    let specs := req.buildRateLimitSpecs st limits
    let tpm := req.selectStrictTpmSpec st specs limits
    match specs with
    | [] => req.accept tpm c
    | _ :: _ => req.checkLimits specs tpm c

def executeOther (req : Request) (name : ChatStep) (attempt : ℕ) (c : LimitContext) :
    Except StepError StepResult × LimitContext :=
  match req.ending name attempt with
  | .returns r => (.ok r, c)
  | .raises e => (.error e, c)

def execute (st : Settings) (req : Request) (name : ChatStep) (attempt : ℕ) (c : LimitContext) :
    Except StepError StepResult × LimitContext :=
  match name with
  | .common .rateLimit =>
      match req.timeout with
      | none => req.rateLimit st c
      | some .atStart => (.error .timeout, c)
      | some .afterScript => (.error .timeout, (req.rateLimit st c).2)
  | .common .routing =>
      req.executeOther name attempt
        { c with limitConfig := (req.routed attempt).or c.limitConfig }
  | name => req.executeOther name attempt c

def onFailure : ChatStep → StepError → ℕ → FailureAction
  | .common name, e, attempt => Scenario.onFailure name e attempt
  | _, e, attempt => baseOnFailure (fun _ => false) 0 e attempt

def step (st : Settings) (req : Request) (name : ChatStep) : Step ChatStep LimitContext where
  name := name
  dependsOn := chatDependsOn (chatSteps req.channel) name
  maxRetries := chatRetries req.channel name
  shouldSkip _ := name ≠ .common .rateLimit && req.skipped name
  execute := req.execute st name
  onFailure _ := onFailure name
  onDegrade _ c := ({ status := .degraded }, c)

end Request

/-- The sorted sets, and the requests that got past the step, in order. -/
structure World where
  limiter : Limiter String ℕ
  passed : List Request

def World.initial : World := ⟨.initial, []⟩

/-- A request through the workflow of its channel, with a database session. -/
def World.serve (st : Settings) (w : World) (req : Request) : World :=
  let done := (Orchestrator.execute ((chatSteps req.channel).map (req.step st))
    { limiter := w.limiter }).progress
  { limiter := done.ctx.limiter
    passed :=
      if (done.results (.common .rateLimit)).any fun r => r.status = .success then
        w.passed ++ [req]
      else w.passed }

def World.after (st : Settings) (run : List Request) : World := run.foldl (World.serve st) .initial

section Engine
variable {st : Settings} {req : Request} {w : World}

/-- The steps that stand before `rate_limit` in its layer, those after it, and the later
layers. -/
def beforeLimit : Channel → List ChatStep
  | .external => [StepName.signatureVerify, .resolveAssets, .mcpDiscovery, .quotaCheck].map .common
  | .internal =>
      [StepName.conversationLoad, .resolveAssets, .mcpDiscovery, .quotaCheck].map .common

def afterLimit : List ChatStep := [.common .routing]

def laterLayers (channel : Channel) : List (List ChatStep) :=
  (executionLayers ((chatSteps channel).map fun name =>
    (name, chatDependsOn (chatSteps channel) name))).drop 2

theorem executionLayers_chat (channel : Channel) :
    executionLayers ((chatSteps channel).map fun name =>
      (name, chatDependsOn (chatSteps channel) name)) =
    [.common .requestAdapter, .common .validation] ::
      (beforeLimit channel ++ .common .rateLimit :: afterLimit) :: laterLayers channel := by
  cases channel <;> decide

theorem rateLimit_not_later (channel : Channel) :
    ∀ layer ∈ laterLayers channel, .common .rateLimit ∉ layer := by
  cases channel <;> decide

theorem known_of_layer (channel : Channel) :
    ∀ layer ∈ executionLayers ((chatSteps channel).map fun name =>
      (name, chatDependsOn (chatSteps channel) name)), ∀ name ∈ layer, name ∈ chatSteps channel := by
  cases channel <;> decide

theorem stepsOf_map {names layer : List ChatStep} (known : ∀ name ∈ layer, name ∈ names) :
    stepsOf (names.map (req.step st)) layer = layer.map (req.step st) := by
  have found : ∀ name ∈ layer, (names.map (req.step st)).find? (fun step => step.name = name) =
      some (req.step st name) := by
    intro name mem
    have here : names.find? (fun other => other = name) = some name := by
      cases found : names.find? fun other => other = name with
      | none => simpa using List.find?_eq_none.mp found name (known name mem)
      | some other =>
        have same : other = name := by simpa using List.find?_some found
        rw [same]
    have named : ((fun step : Step ChatStep LimitContext => decide (step.name = name)) ∘
        req.step st) = fun other => decide (other = name) := rfl
    rw [List.find?_map, named, here]
    rfl
  calc
    stepsOf (names.map (req.step st)) layer = layer.filterMap (some ∘ req.step st) :=
      List.filterMap_congr found
    _ = layer.map (req.step st) := congrFun List.filterMap_eq_map layer

theorem execute_chat (st : Settings) (req : Request) (c : LimitContext) :
    Orchestrator.execute ((chatSteps req.channel).map (req.step st)) c =
      executeLayers (([.common .requestAdapter, .common .validation] ::
        (beforeLimit req.channel ++ .common .rateLimit :: afterLimit) ::
        laterLayers req.channel).map fun layer => layer.map (req.step st)) ⟨c, fun _ => none⟩ := by
  have graph : graphOf ((chatSteps req.channel).map (req.step st)) =
      (chatSteps req.channel).map fun name =>
        (name, chatDependsOn (chatSteps req.channel) name) := by
    simp only [graphOf, List.map_map]
    rfl
  rw [Orchestrator.execute, graph, ← executionLayers_chat]
  congr 1
  exact List.map_congr_left fun layer mem => stepsOf_map (known_of_layer req.channel layer mem)

/-- Every step but `rate_limit` leaves the sorted sets alone, and only `routing` writes
anything. -/
theorem keeps_limiter {name : ChatStep} (other : name ≠ .common .rateLimit)
    (l : Limiter String ℕ) : Keeps (req.step st name) fun c => c.limiter = l := by
  refine ⟨fun attempt c held => ?_, fun _ _ held => held⟩
  simp only [Request.step, Request.execute]
  split
  · contradiction
  · rw [Request.executeOther]
    split <;> exact held
  · rw [Request.executeOther]
    split <;> exact held

theorem keeps_context {name : ChatStep} (other : name ≠ .common .rateLimit)
    (routing : name ≠ .common .routing) (c₀ : LimitContext) :
    Keeps (req.step st name) fun c => c = c₀ := by
  refine ⟨fun attempt c held => ?_, fun _ _ held => held⟩
  simp only [Request.step, Request.execute, Request.executeOther]
  split <;> exact held

structure Quiet (req : Request) : Prop where
  timeout : req.timeout = none
  ending : ∀ name attempt, req.ending name attempt = .returns {}
  skipped : ∀ name, req.skipped name = false

def World.context (w : World) : LimitContext := { limiter := w.limiter }

def World.gated (st : Settings) (w : World) (req : Request) : World :=
  match req.execute st (.common .rateLimit) 1 w.context with
  | (.ok r, c) => ⟨c.limiter, if r.status = .success then w.passed ++ [req] else w.passed⟩
  | (.error _, c) => ⟨c.limiter, w.passed⟩

/-- What is kept of a request of which this is the progress. -/
def World.outcome (w : World) (req : Request) (p : Progress ChatStep LimitContext) : World :=
  ⟨p.ctx.limiter,
    if (p.results (.common .rateLimit)).any fun r => r.status = .success then w.passed ++ [req]
    else w.passed⟩

theorem outcome_later {layers : List (List ChatStep)}
    (absent : ∀ layer ∈ layers, .common .rateLimit ∉ layer)
    (p : Progress ChatStep LimitContext) :
    w.outcome req (executeLayers (layers.map fun layer => layer.map (req.step st)) p).progress =
      w.outcome req p := by
  have others : ∀ layer ∈ layers.map fun layer => layer.map (req.step st), ∀ step ∈ layer,
      ∃ name ≠ .common .rateLimit, step = req.step st name := by
    intro layer mem step listed
    obtain ⟨names, there, rfl⟩ := List.mem_map.mp mem
    obtain ⟨name, here, rfl⟩ := List.mem_map.mp listed
    refine ⟨name, ?_, rfl⟩
    rintro rfl
    exact absent names there here
  rw [World.outcome, executeLayers_results, World.outcome,
    Keeps.executeLayers (A := fun c => c.limiter = p.ctx.limiter) (p := p) _ rfl]
  · intro layer mem step listed
    obtain ⟨name, other, rfl⟩ := others layer mem step listed
    exact keeps_limiter other _
  · intro layer mem step listed same
    obtain ⟨name, other, rfl⟩ := others layer mem step listed
    exact other same.symm

theorem outcome_serial {names : List ChatStep} (absent : .common .rateLimit ∉ names)
    (p : Progress ChatStep LimitContext) :
    w.outcome req (executeSerial (names.map (req.step st)) p).2 = w.outcome req p := by
  have others : ∀ step ∈ names.map (req.step st),
      ∃ name ≠ .common .rateLimit, step = req.step st name := by
    intro step listed
    obtain ⟨name, here, rfl⟩ := List.mem_map.mp listed
    exact ⟨name, fun same => absent (same ▸ here), rfl⟩
  rw [World.outcome, executeSerial_results, World.outcome,
    Keeps.executeSerial (A := fun c => c.limiter = p.ctx.limiter) (p := p) _ rfl]
  · intro step listed
    obtain ⟨name, other, rfl⟩ := others step listed
    exact keeps_limiter other _
  · intro step listed same
    obtain ⟨name, other, rfl⟩ := others step listed
    exact other same.symm

theorem aborts_rateLimit (c : LimitContext) (e : StepError) (attempt : ℕ) :
    (req.step st (.common .rateLimit)).onFailure c e attempt = .abort :=
  baseOnFailure_never (maxRetries .rateLimit) e attempt

theorem outcome_step {p : Progress ChatStep LimitContext} (found : p.ctx = w.context) :
    w.outcome req (executeStep (req.step st (.common .rateLimit)) p).2 = w.gated st req := by
  have once : attempts (req.step st (.common .rateLimit)) 0 1 p.ctx =
      req.execute st (.common .rateLimit) 1 w.context := by
    rw [found, attempts]
    split <;> rename_i executed
    · exact executed.symm
    · rw [aborts_rateLimit]
      exact executed.symm
  have retries : (req.step st (.common .rateLimit)).maxRetries = 0 := by
    cases channel : req.channel <;> simp [Request.step, chatRetries, channel, maxRetries]
  rw [executeStep, retries, once, World.gated]
  have name : (req.step st (.common .rateLimit)).name = .common .rateLimit := rfl
  split <;> rename_i executed <;> simp [World.outcome, Progress.record, name, executed]

theorem executeStep_quiet (st : Settings) (quiet : Quiet req) (name : ChatStep)
    (other : name ≠ .common .rateLimit) (routing : name ≠ .common .routing)
    (p : Progress ChatStep LimitContext) :
    executeStep (req.step st name) p = (true, p.record name {}) := by
  have returned : (req.step st name).execute 1 p.ctx = (.ok {}, p.ctx) := by
    simp only [Request.step, Request.execute, Request.executeOther, quiet.ending]
  have done : attempts (req.step st name) (req.step st name).maxRetries 1 p.ctx =
      (.ok {}, p.ctx) := by
    unfold attempts
    split <;> rw [returned]
  rw [executeStep, done]
  rfl

theorem executeSerial_quiet (quiet : Quiet req) {names : List ChatStep}
    (others : .common .rateLimit ∉ names) (routing : .common .routing ∉ names)
    (p : Progress ChatStep LimitContext) :
    (executeSerial (names.map (req.step st)) p).1 = true := by
  induction names generalizing p with
  | nil => rfl
  | cons name rest ih =>
    obtain ⟨first, others⟩ := not_or.mp (List.mem_cons.not.mp others)
    obtain ⟨unrouted, routing⟩ := not_or.mp (List.mem_cons.not.mp routing)
    rw [List.map_cons, executeSerial, executeStep_quiet st quiet _ (Ne.symm first) (Ne.symm unrouted)]
    exact ih others routing _

theorem passed_quiet (st : Settings) (quiet : Quiet req) (p : Progress ChatStep LimitContext) :
    (executeLayer ([ChatStep.common .requestAdapter, .common .validation].map (req.step st)) p).1 =
      .passed := by
  have active (name : ChatStep) : (req.step st name).shouldSkip p.ctx = false := by
    simp [Request.step, quiet.skipped]
  have named (name : ChatStep) : (req.step st name).name = name := rfl
  have adapter := executeStep_quiet st quiet (.common .requestAdapter)
    (by decide) (by decide)
  have validation := executeStep_quiet st quiet (.common .validation)
    (by decide) (by decide)
  simp [executeLayer, executeSerial, active, adapter, validation, hasFailed, named, Progress.record]

theorem outcome_idle {p : Progress ChatStep LimitContext} (same : p.ctx = w.context)
    (unset : p.results (.common .rateLimit) = none) : w.outcome req p = w := by
  rw [World.outcome, same, unset]
  rfl

theorem other_of_beforeLimit {channel : Channel} :
    ∀ name ∈ beforeLimit channel, name ≠ .common .rateLimit ∧ name ≠ .common .routing := by
  cases channel <;> decide

theorem markSkipped_rateLimit {names : List ChatStep} {p : Progress ChatStep LimitContext}
    (unset : p.results (.common .rateLimit) = none) :
    (markSkipped (names.map (req.step st)) p).results (.common .rateLimit) = none := by
  refine List.foldlRecOn _ _ (motive := fun q : Progress ChatStep LimitContext =>
    q.results (.common .rateLimit) = none) unset fun q before step mem => ?_
  obtain ⟨listed, skips⟩ := List.mem_filter.mp mem
  obtain ⟨name, _, rfl⟩ := List.mem_map.mp listed
  have other : .common .rateLimit ≠ name := by
    rintro rfl
    cases skips
  exact (Function.update_of_ne other ..).trans before

theorem executeSerial_before (st : Settings) {names : List ChatStep}
    {p : Progress ChatStep LimitContext} (before : ∀ name ∈ names, name ∈ beforeLimit req.channel)
    (same : p.ctx = w.context) (unset : p.results (.common .rateLimit) = none) :
    (executeSerial (names.map (req.step st)) p).2.ctx = w.context ∧
      (executeSerial (names.map (req.step st)) p).2.results (.common .rateLimit) = none := by
  constructor
  · refine Keeps.executeSerial (A := fun c => c = w.context) (fun step mem => ?_) same
    obtain ⟨name, listed, rfl⟩ := List.mem_map.mp mem
    obtain ⟨other, routing⟩ := other_of_beforeLimit name (before name listed)
    exact keeps_context other routing _
  · rw [executeSerial_results, unset]
    intro step mem equal
    obtain ⟨name, listed, rfl⟩ := List.mem_map.mp mem
    exact (other_of_beforeLimit name (before name listed)).1 equal.symm

/-- The serial steps of the second layer come to the step or end before it; routing only
follows. -/
theorem outcome_serial_second (st : Settings) {names : List ChatStep}
    {p : Progress ChatStep LimitContext} (same : p.ctx = w.context)
    (unset : p.results (.common .rateLimit) = none)
    (before : ∀ name ∈ names, name ∈ beforeLimit req.channel) (later : List ChatStep)
    (after : ∀ name ∈ later, name ∈ afterLimit) :
    ∃ reached : Bool, (Quiet req → reached = true) ∧
      w.outcome req (executeSerial ((names ++ .common .rateLimit :: later).map (req.step st)) p).2 =
        if reached then w.gated st req else w := by
  have others (name : ChatStep) (listed : name ∈ names) := other_of_beforeLimit name (before name listed)
  have quietly (quiet : Quiet req) : (executeSerial (names.map (req.step st)) p).1 = true :=
    executeSerial_quiet quiet (fun listed => (others _ listed).1 rfl)
      (fun listed => (others _ listed).2 rfl) p
  have kept := executeSerial_before st before same unset
  rw [List.map_append, executeSerial_append]
  cases ended : executeSerial (names.map (req.step st)) p with
  | mk returned q =>
    rw [ended] at kept quietly
    cases returned with
    | false => exact ⟨false, fun quiet => (by cases quietly quiet), outcome_idle kept.1 kept.2⟩
    | true =>
      refine ⟨true, fun _ => rfl, ?_⟩
      rw [if_pos rfl, ← outcome_step kept.1]
      have absent : .common .rateLimit ∉ later := by
        intro listed
        cases List.mem_singleton.mp (after _ listed)
      simp only [List.map_cons, executeSerial]
      split <;> rename_i executed <;> rw [executed]
      exact outcome_serial absent _

theorem outcome_second (st : Settings) {p : Progress ChatStep LimitContext} (same : p.ctx = w.context)
    (unset : p.results (.common .rateLimit) = none) :
    ∃ reached : Bool, (Quiet req → reached = true) ∧
      w.outcome req (executeLayer ((beforeLimit req.channel ++ .common .rateLimit ::
        afterLimit).map (req.step st)) p).2 = if reached then w.gated st req else w := by
  let active (name : ChatStep) : Bool := !(req.step st name).shouldSkip p.ctx
  have split : (beforeLimit req.channel ++ .common .rateLimit :: afterLimit).filter active =
      (beforeLimit req.channel).filter active ++ .common .rateLimit :: afterLimit.filter active := by
    rw [List.filter_append, List.filter_cons_of_pos rfl]
  have filtered : ((fun step : Step ChatStep LimitContext => !step.shouldSkip p.ctx) ∘
      req.step st) = active := rfl
  rw [executeLayer_snd, List.filter_map, filtered, split]
  refine outcome_serial_second st ?_ (markSkipped_rateLimit unset) ?_ _ ?_
  · rw [markSkipped_ctx, same]
  · intro name listed
    exact (List.mem_filter.mp listed).1
  · intro name listed
    exact (List.mem_filter.mp listed).1

theorem serve_eq (st : Settings) (w : World) (req : Request) :
    ∃ reached : Bool, (Quiet req → reached = true) ∧
      w.serve st req = if reached then w.gated st req else w := by
  let first := [ChatStep.common .requestAdapter, .common .validation].map (req.step st)
  let second := (beforeLimit req.channel ++ .common .rateLimit :: afterLimit).map (req.step st)
  let start : Progress ChatStep LimitContext := ⟨w.context, fun _ => none⟩
  have untouched : ∀ step ∈ first, Keeps step fun c => c = w.context := by
    intro step mem
    obtain ⟨name, listed, rfl⟩ := List.mem_map.mp mem
    refine keeps_context ?_ ?_ _ <;> rintro rfl <;> revert listed <;> decide
  have same := Keeps.executeLayer (p := start) untouched rfl
  have unset : (executeLayer first start).2.results (.common .rateLimit) = none :=
    executeLayer_results (by simp [first, Request.step])
  have serve : w.serve st req = w.outcome req (executeLayers (first :: second ::
      (laterLayers req.channel).map fun layer => layer.map (req.step st)) start).progress := by
    have run := execute_chat st req w.context
    rw [World.serve, ← World.context, run]
    rfl
  have passes (quiet : Quiet req) : (executeLayer first start).1 = .passed := passed_quiet st quiet _
  rw [serve, executeLayers]
  cases ended : executeLayer first start with
  | mk fin p =>
    rw [ended] at same unset passes
    cases fin with
    | failed name => exact ⟨false, fun quiet => (by cases passes quiet), outcome_idle same unset⟩
    | raised => exact ⟨false, fun quiet => (by cases passes quiet), outcome_idle same unset⟩
    | passed =>
      obtain ⟨reached, always, outcome⟩ := outcome_second st same unset
      refine ⟨reached, always, ?_⟩
      rw [← outcome]
      simp only [executeLayers]
      split <;> rename_i q ended
      · rw [outcome_later (rateLimit_not_later req.channel), ended]
      · rw [ended]
      · rw [ended]

end Engine

end Deeting.RateLimit
