import Deeting.Routing.Selector
import Deeting.Transition

/-! `UpstreamCallStep.execute` up to the request it sends, and `on_degrade`, which moves to the
next candidate and executes again. A candidate has the fields of the `routing` namespace; the
`template_render` namespace is filled by an earlier step or by the first call. -/
namespace Deeting.Upstream

open Routing (deepMerge)
open Deeting.Stream (orElse)
open Transition

structure Candidate where
  presetId : Option String := none
  instanceId : Option String := none
  providerModelId : Option String := none
  provider : String
  upstreamUrl : String
  protocolProfile : Json := .obj []
  routingConfig : Json := .obj []
  asyncConfig : Json := .obj []
  configOverride : Json := .obj []
  outputMapping : Json := .obj []
  limitConfig : Json := .obj []
  pricingConfig : Json := .obj []
  authType : String := "bearer"
  authConfig : Json := .obj []

/-- `template_render`; what is absent is empty. -/
structure TemplateRender where
  upstreamUrl : String := ""
  requestBody : Json := .null
  headers : Json := .null

structure WorkflowContext where
  routing : Candidate
  candidates : List Candidate
  candidateIndex : ℕ := 0
  templateRender : TemplateRender := {}

/-- What a call finds around it: the stored secrets, the URL check, the circuit breaker, the
body built from the request, `render_value`, `float` and the timeout of the step. -/
structure Surroundings where
  secret : String → String → Option String
  safe : String → Bool
  circuitOpen : Bool
  body : Json
  renderValue : Json → Json → Json
  float : Json → Option ℚ
  defaultTimeout : Json

abbrev AuthHeaders := List (String × String)

/-- What is sent: `base` are the rendered headers with those of an asynchronous submit. -/
structure Request where
  url : String
  method : String
  base : Json
  auth : AuthHeaders
  body : Json
  asyncConfig : Json
  timeout : ℚ

inductive Outcome where
  | failed (message : String)
  | raised (message : String)
  | degraded (message : String)
  | sent (request : Request)

/-- `dict.update`. -/
def updateHeaders (base : Json) (auth : AuthHeaders) : Json :=
  auth.foldl (fun headers h => headers.set h.1 (.str h.2)) base

def Request.headers (r : Request) : Json := updateHeaders r.base r.auth

namespace Candidate

variable (c : Candidate)

/-- `defaults.headers` of the protocol profile. -/
def defaultHeaders : Json := orElse ((c.protocolProfile.get "defaults").get "headers") (.obj [])

def method : String :=
  match orElse ((c.protocolProfile.get "transport").get "method") (.str "POST") with
  | .str method => method.map Char.toUpper
  | _ => ""

end Candidate

def asyncEnabled (asyncConfig : Json) : Bool := asyncConfig.get "enabled" matches .bool true

def maskSecretRef (secretRef : String) : String :=
  let chars := secretRef.toList
  if chars.length ≤ 8 then .ofList (List.replicate chars.length '*')
  else .ofList (chars.take 4) ++ "..." ++ .ofList (chars.drop (chars.length - 4))

section Call

variable (env : Surroundings)

def getAuthHeaders (provider authType : String) (authConfig : Json) : Except String AuthHeaders :=
  let authType := if authType = "" then "bearer" else authType
  let provider := if provider = "" then (authConfig.get "provider").string? else some provider
  let secretRef := (orElse (authConfig.get "secret_ref_id") (authConfig.get "secret")).string?
  let secret := (secretRef.bind (env.secret (provider.getD ""))).filter (· ≠ "")
  if secret.isNone ∧ authType ≠ "none" then
    .error ("Upstream auth secret missing provider=" ++ provider.getD "None" ++
      " auth_type=" ++ authType ++ " secret_ref_id=" ++ maskSecretRef (secretRef.getD ""))
  else if authType = "api_key" then
    .ok [((((authConfig.get? "header").getD (.str "x-api-key")).string?).getD "",
      secret.getD "")]
  else if authType = "basic" then .ok [("Authorization", "Basic " ++ secret.getD "")]
  else if authType = "none" then .ok []
  else .ok [("Authorization", "Bearer " ++ secret.getD "")]

def Candidate.authHeaders (c : Candidate) : Except String AuthHeaders :=
  getAuthHeaders env c.provider c.authType c.authConfig

/-- `float(limit_config.get("timeout") or self.config.timeout)`. -/
def timeoutOf (limitConfig : Json) : Option ℚ :=
  env.float (orElse (limitConfig.get "timeout") env.defaultTimeout)

def submitHeaders (asyncConfig body : Json) : Json :=
  env.renderValue (orElse (asyncConfig.get "submit_headers") (.obj []))
    (.obj [("request", body), ("input", body)])

def withSubmitHeaders (asyncConfig body headers : Json) : Json :=
  if asyncEnabled asyncConfig then deepMerge headers (submitHeaders env asyncConfig body)
  else headers

namespace WorkflowContext

def ensureTemplateRenderState (ctx : WorkflowContext) : WorkflowContext :=
  let t := ctx.templateRender
  if t.requestBody.isObj ∧ t.requestBody.truthy then ctx
  else
    { ctx with
      templateRender :=
        { requestBody := if env.body.truthy then env.body else t.requestBody
          upstreamUrl := if t.upstreamUrl = "" then ctx.routing.upstreamUrl else t.upstreamUrl
          headers := if t.headers.truthy then t.headers else ctx.routing.defaultHeaders } }

def body (ctx : WorkflowContext) : Json := orElse ctx.templateRender.requestBody (.obj [])

def headers (ctx : WorkflowContext) : Json := orElse ctx.templateRender.headers (.obj [])

def baseHeaders (ctx : WorkflowContext) : Json :=
  withSubmitHeaders env ctx.routing.asyncConfig ctx.body ctx.headers

def Merges (ctx : WorkflowContext) : Prop :=
  asyncEnabled ctx.routing.asyncConfig → ctx.headers.isObj ∧
    (submitHeaders env ctx.routing.asyncConfig ctx.body).isObj

instance (ctx : WorkflowContext) : Decidable (ctx.Merges env) :=
  inferInstanceAs (Decidable (_ → _))

/-- The request of a context whose `template_render` is filled. -/
def request (ctx : WorkflowContext) (auth : AuthHeaders) (timeout : ℚ) : Request :=
  let body := ctx.body
  let stream := (body.get "stream").truthy
  { url := ctx.templateRender.upstreamUrl
    method := if stream ∧ ¬ asyncEnabled ctx.routing.asyncConfig then "POST" else ctx.routing.method
    base := ctx.baseHeaders env
    auth := auth
    body :=
      if stream ∧ asyncEnabled ctx.routing.asyncConfig then body.set "stream" (.bool false) else body
    asyncConfig := ctx.routing.asyncConfig
    timeout := timeout }

/-- What the call leaves in `template_render`: the headers are updated in place, unless a merge
has made a new dict of them, and so is the body. -/
def after (ctx : WorkflowContext) (r : Request) : WorkflowContext :=
  let t := ctx.templateRender
  { ctx with
    templateRender :=
      { t with
        requestBody := if t.requestBody.truthy then r.body else t.requestBody
        headers :=
          if t.headers.truthy ∧ ¬ asyncEnabled ctx.routing.asyncConfig then r.headers else t.headers } }

/-- `execute` as far as the request. -/
def execute (ctx : WorkflowContext) : Outcome × WorkflowContext :=
  let ctx := ctx.ensureTemplateRenderState env
  let url := ctx.templateRender.upstreamUrl
  if ¬ ctx.Merges env then (.raised "no mapping to merge", ctx)
  else if url = "" then (.failed "No upstream URL provided", ctx)
  else if ¬ env.safe url then (.failed "Upstream URL blocked by security policy", ctx)
  else if env.circuitOpen then (.failed "Upstream circuit open", ctx)
  else
    match getAuthHeaders env ctx.routing.provider ctx.routing.authType ctx.routing.authConfig with
    | .error message => (.raised message, ctx)
    | .ok auth =>
      if ¬ (ctx.baseHeaders env).isObj then (.raised "no attribute 'update'", ctx)
      else
        match timeoutOf env ctx.routing.limitConfig with
        | none => (.raised "could not convert to float", ctx.after (ctx.request env auth 0))
        | some timeout =>
          (.sent (ctx.request env auth timeout), ctx.after (ctx.request env auth timeout))

/-- What `on_degrade` sets in `routing`; the other fields keep the values they had. -/
def switch (ctx : WorkflowContext) (index : ℕ) (backup : Candidate) : WorkflowContext :=
  { ctx with
    candidateIndex := index
    routing :=
      { ctx.routing with
        presetId := backup.presetId
        upstreamUrl := backup.upstreamUrl
        provider := backup.provider
        protocolProfile := orElse backup.protocolProfile (.obj [])
        routingConfig := backup.routingConfig
        instanceId := backup.instanceId
        providerModelId := backup.providerModelId } }

def entered (ctx : WorkflowContext) (index : ℕ) (backup : Candidate) : WorkflowContext :=
  (ctx.switch index backup).ensureTemplateRenderState env

def onDegrade (ctx : WorkflowContext) (error : String) : Outcome × WorkflowContext :=
  match ctx.candidates[ctx.candidateIndex + 1]? with
  | some backup => (ctx.switch (ctx.candidateIndex + 1) backup).execute env
  | none => (.degraded ("All upstreams failed: " ++ error), ctx)

/-- The context as `RoutingStep` leaves it, with any rendered template. -/
def routed (primary : Candidate) (backups : List Candidate) (t : TemplateRender) :
    WorkflowContext where
  routing := primary
  candidates := primary :: backups
  templateRender := t

end WorkflowContext

end Call

/-- What becomes of a call: each may find other surroundings. -/
inductive CallAction where
  | execute (env : Surroundings)
  | degrade (env : Surroundings) (error : String)

namespace WorkflowContext

def step (ctx : WorkflowContext) : CallAction → WorkflowContext
  | .execute env => (ctx.execute env).2
  | .degrade env error => (ctx.onDegrade env error).2

def moves (ctx : WorkflowContext) : List CallAction → List ℕ
  | [] => []
  | .execute env :: rest => (ctx.step (.execute env)).moves rest
  | .degrade env error :: rest =>
    let later := (ctx.step (.degrade env error)).moves rest
    if ctx.candidateIndex + 1 < ctx.candidates.length then (ctx.candidateIndex + 1) :: later
    else later

end WorkflowContext

/-- The request goes to the candidate, with its own credential, default headers, asynchronous
settings, timeout and prices, and with no credential of the one before. The default headers are
compared as they stand once the headers of `body`'s submit and of the credential are set. -/
structure SwitchesTo (env : Surroundings) (previous next : Candidate) (body : Json) (r : Request)
    (pricing : Json) : Prop where
  url : r.url = next.upstreamUrl
  credential : next.authHeaders env = .ok r.auth
  clean : ∀ old, previous.authHeaders env = .ok old → ∀ h ∈ old,
    r.headers.get? h.1 = some (.str h.2) → h ∈ r.auth
  asyncConfig : r.asyncConfig = next.asyncConfig
  defaults : ∀ name, (next.defaultHeaders.get? name).isSome → r.headers.get? name =
    (updateHeaders (withSubmitHeaders env next.asyncConfig body next.defaultHeaders) r.auth).get?
      name
  timeout : timeoutOf env next.limitConfig = some r.timeout
  pricing : pricing = next.pricingConfig

structure AlreadySet (env : Surroundings) (previous next : Candidate) (ctx : WorkflowContext) :
    Prop where
  url : ctx.templateRender.upstreamUrl = next.upstreamUrl
  credential : next.authHeaders env = ctx.routing.authHeaders env
  clean : ∀ old auth, previous.authHeaders env = .ok old → next.authHeaders env = .ok auth →
    ∀ h ∈ old, h.1 ∉ auth.map Prod.fst → (ctx.baseHeaders env).get? h.1 ≠ some (.str h.2)
  asyncConfig : ctx.routing.asyncConfig = next.asyncConfig
  defaults : ∀ auth, next.authHeaders env = .ok auth → ∀ name,
    (next.defaultHeaders.get? name).isSome → name ∉ auth.map Prod.fst →
    (ctx.baseHeaders env).get? name =
      (withSubmitHeaders env next.asyncConfig ctx.body next.defaultHeaders).get? name
  timeout : timeoutOf env ctx.routing.limitConfig = timeoutOf env next.limitConfig
  pricing : ctx.routing.pricingConfig = next.pricingConfig

section Headers

variable {env : Surroundings} {base : Json} {auth : AuthHeaders} {name : String}

theorem get?_updateHeaders_of_not_mem (absent : name ∉ auth.map Prod.fst) :
    (updateHeaders base auth).get? name = base.get? name := by
  induction auth generalizing base with
  | nil => rfl
  | cons h rest ih =>
    rw [List.map_cons, List.mem_cons, not_or] at absent
    rw [updateHeaders, List.foldl_cons, ← updateHeaders, ih absent.2,
      Json.get?_set_of_ne _ (Ne.symm absent.1)]

theorem authHeaders_cases {provider authType : String} {authConfig : Json}
    (known : getAuthHeaders env provider authType authConfig = .ok auth) :
    auth = [] ∨ ∃ header value, auth = [(header, value)] := by
  unfold getAuthHeaders at known
  grind

theorem exists_of_isObj {j : Json} (object : j.isObj) : ∃ entries, j = .obj entries := by
  cases j with
  | obj entries => exact ⟨entries, rfl⟩
  | _ => cases object

theorem isObj_of_isSome {j : Json} (has : (j.get? name).isSome) : j.isObj := by
  cases j with
  | obj entries => rfl
  | _ => cases has

theorem get?_updateHeaders_of_mem {header value : String} (object : base.isObj) :
    (updateHeaders base [(header, value)]).get? header = some (.str value) := by
  obtain ⟨entries, rfl⟩ := exists_of_isObj object
  exact Json.get?_set

theorem withSubmitHeaders_isObj {asyncConfig body : Json} (object : base.isObj) :
    (withSubmitHeaders env asyncConfig body base).isObj := by
  obtain ⟨entries, rfl⟩ := exists_of_isObj object
  unfold withSubmitHeaders deepMerge
  split
  · split <;> rfl
  · rfl

end Headers

structure Ready (env : Surroundings) (ctx : WorkflowContext) (auth : AuthHeaders) (timeout : ℚ) :
    Prop where
  merges : ctx.Merges env
  url : ctx.templateRender.upstreamUrl ≠ ""
  safe : env.safe ctx.templateRender.upstreamUrl
  closed : ¬ env.circuitOpen
  credential : ctx.routing.authHeaders env = .ok auth
  object : (ctx.baseHeaders env).isObj
  timeout : timeoutOf env ctx.routing.limitConfig = some timeout

section Steps

variable {env : Surroundings} {s after : WorkflowContext} {r : Request} {previous next : Candidate}

theorem execute_sent (sent : s.execute env = (.sent r, after)) :
    ∃ auth timeout, Ready env (s.ensureTemplateRenderState env) auth timeout ∧
      r = (s.ensureTemplateRenderState env).request env auth timeout ∧
      after = (s.ensureTemplateRenderState env).after r := by
  unfold WorkflowContext.execute at sent
  simp only at sent
  split at sent
  · cases sent
  rename_i merges
  split at sent
  · cases sent
  rename_i url
  split at sent
  · cases sent
  rename_i safe
  split at sent
  · cases sent
  rename_i closed
  split at sent
  · cases sent
  rename_i auth credential
  split at sent
  · cases sent
  rename_i object
  split at sent
  · cases sent
  rename_i timeout known
  obtain ⟨rfl, rfl⟩ : _ = r ∧ _ = after := by simpa using sent
  exact ⟨auth, timeout,
    ⟨by simpa using merges, url, by simpa using safe, closed, credential, by simpa using object, known⟩,
    rfl, rfl⟩

theorem execute_of_ready {auth : AuthHeaders} {timeout : ℚ}
    (ready : Ready env (s.ensureTemplateRenderState env) auth timeout) :
    s.execute env = (.sent ((s.ensureTemplateRenderState env).request env auth timeout),
      (s.ensureTemplateRenderState env).after
        ((s.ensureTemplateRenderState env).request env auth timeout)) := by
  have credential := ready.credential
  rw [Candidate.authHeaders] at credential
  simp [WorkflowContext.execute, ready.merges, ready.url, ready.safe, ready.closed, credential,
    ready.object, ready.timeout]

theorem ensure_frame (env : Surroundings) (s : WorkflowContext) :
    ∃ t, s.ensureTemplateRenderState env = { s with templateRender := t } := by
  unfold WorkflowContext.ensureTemplateRenderState
  by_cases rendered : s.templateRender.requestBody.isObj ∧ s.templateRender.requestBody.truthy
  · exact ⟨s.templateRender, if_pos rendered⟩
  · exact ⟨_, if_neg rendered⟩

theorem execute_frame (env : Surroundings) (s : WorkflowContext) :
    ∃ t, (s.execute env).2 = { s with templateRender := t } := by
  obtain ⟨t, ensured⟩ := ensure_frame env s
  unfold WorkflowContext.execute
  rw [ensured]
  simp only
  repeat' split
  all_goals exact ⟨_, rfl⟩

/-- The request goes to the candidate where the settings it goes by are the candidate's. -/
theorem request_switches_iff {auth : AuthHeaders} {timeout : ℚ} (ready : Ready env s auth timeout) :
    SwitchesTo env previous next s.body (s.request env auth timeout) s.routing.pricingConfig ↔
      AlreadySet env previous next s := by
  have same (name : String) (absent : name ∉ auth.map Prod.fst) :
      (s.request env auth timeout).headers.get? name = (s.baseHeaders env).get? name :=
    get?_updateHeaders_of_not_mem absent
  constructor
  · intro switches
    have credential : next.authHeaders env = .ok auth := switches.credential
    refine ⟨switches.url, credential.trans ready.credential.symm, ?_, switches.asyncConfig, ?_,
      ready.timeout.trans switches.timeout.symm, switches.pricing⟩
    · intro old mine oldOk mineOk h mem absent stays
      obtain rfl : auth = mine := by simpa [credential] using mineOk
      have kept := switches.clean old oldOk h mem (by rw [same _ absent, stays])
      exact absent (List.mem_map_of_mem kept)
    · intro mine mineOk name default absent
      obtain rfl : auth = mine := by simpa [credential] using mineOk
      have set := switches.defaults name default
      rwa [same _ absent, show (s.request env auth timeout).auth = auth from rfl,
        get?_updateHeaders_of_not_mem absent] at set
  · intro already
    have credential : next.authHeaders env = .ok auth :=
      already.credential.trans ready.credential
    refine ⟨already.url, credential, ?_, already.asyncConfig, ?_,
      already.timeout.symm.trans ready.timeout, already.pricing⟩
    · intro old oldOk h mem stays
      by_cases present : h.1 ∈ auth.map Prod.fst
      · obtain rfl | ⟨header, value, rfl⟩ := authHeaders_cases ready.credential
        · cases present
        · obtain rfl : h.1 = header := by simpa using present
          rw [Request.headers, WorkflowContext.request,
            get?_updateHeaders_of_mem ready.object] at stays
          obtain rfl : value = h.2 := by simpa using stays
          exact List.mem_singleton.mpr rfl
      · exact absurd (same _ present ▸ stays) (already.clean old auth oldOk credential h mem present)
    · intro name default
      show (updateHeaders (s.baseHeaders env) auth).get? name = (updateHeaders _ auth).get? name
      by_cases present : name ∈ auth.map Prod.fst
      · obtain rfl | ⟨header, value, rfl⟩ := authHeaders_cases ready.credential
        · cases present
        · obtain rfl : name = header := by simpa using present
          rw [get?_updateHeaders_of_mem ready.object,
            get?_updateHeaders_of_mem (withSubmitHeaders_isObj (isObj_of_isSome default))]
      · rw [get?_updateHeaders_of_not_mem present, get?_updateHeaders_of_not_mem present]
        exact already.defaults auth credential name default present

end Steps

section Runs

def SwitchesCompletely (s : WorkflowContext) : CallAction → Prop
  | .execute _ => True
  | .degrade env error =>
    match s.candidates[s.candidateIndex + 1]? with
    | some next => ∀ previous r after, s.candidates[s.candidateIndex]? = some previous →
        s.onDegrade env error = (.sent r, after) →
        SwitchesTo env previous next (s.entered env (s.candidateIndex + 1) next).body r
          after.routing.pricingConfig
    | none => s.onDegrade env error = (.degraded ("All upstreams failed: " ++ error), s)

/-- Where the switch leads to a request, all it goes by is the next candidate's already. -/
def StaysSet (s : WorkflowContext) : CallAction → Prop
  | .execute _ => True
  | .degrade env _ => ∀ previous next auth timeout, s.candidates[s.candidateIndex]? = some previous →
      s.candidates[s.candidateIndex + 1]? = some next →
      Ready env (s.entered env (s.candidateIndex + 1) next) auth timeout →
      AlreadySet env previous next (s.entered env (s.candidateIndex + 1) next)

structure Complete (start : WorkflowContext) (actions : List CallAction) : Prop where
  switches : Along (total WorkflowContext.step) SwitchesCompletely start actions
  once : (start.candidateIndex :: start.moves actions).Nodup
  within : ∀ index ∈ start.moves actions, index < start.candidates.length

variable {s : WorkflowContext}

theorem switchesCompletely_iff {a : CallAction} : SwitchesCompletely s a ↔ StaysSet s a := by
  cases a with
  | execute env => exact Iff.rfl
  | degrade env error =>
    cases at_ : s.candidates[s.candidateIndex + 1]? with
    | none => simp [SwitchesCompletely, StaysSet, WorkflowContext.onDegrade, at_]
    | some next =>
      have degrades : s.onDegrade env error =
          (s.switch (s.candidateIndex + 1) next).execute env := by
        simp [WorkflowContext.onDegrade, at_]
      simp only [SwitchesCompletely, StaysSet, at_, degrades]
      constructor
      · rintro switches previous next auth timeout here ⟨⟩ ready
        have switched := switches previous _ _ here (execute_of_ready ready)
        exact (request_switches_iff ready).mp switched
      · intro already previous r after here sent
        obtain ⟨auth, timeout, ready, rfl, rfl⟩ := execute_sent sent
        exact (request_switches_iff ready).mpr (already previous next auth timeout here rfl ready)

theorem step_candidates (a : CallAction) : (s.step a).candidates = s.candidates := by
  cases a with
  | execute env =>
    obtain ⟨t, frame⟩ := execute_frame env s
    rw [WorkflowContext.step, frame]
  | degrade env error =>
    rw [WorkflowContext.step, WorkflowContext.onDegrade]
    split
    · rename_i next _
      obtain ⟨t, frame⟩ := execute_frame env (s.switch (s.candidateIndex + 1) next)
      rw [frame]
      rfl
    · rfl

theorem step_execute_candidateIndex (env : Surroundings) :
    (s.step (.execute env)).candidateIndex = s.candidateIndex := by
  obtain ⟨t, frame⟩ := execute_frame env s
  rw [WorkflowContext.step, frame]

theorem step_degrade_candidateIndex (env : Surroundings) (error : String) :
    (s.step (.degrade env error)).candidateIndex =
      if s.candidateIndex + 1 < s.candidates.length then s.candidateIndex + 1
      else s.candidateIndex := by
  rw [WorkflowContext.step, WorkflowContext.onDegrade]
  split
  · rename_i next at_
    obtain ⟨t, frame⟩ := execute_frame env (s.switch (s.candidateIndex + 1) next)
    rw [frame, if_pos (List.getElem?_eq_some_iff.mp at_).1]
    rfl
  · rename_i last
    rw [if_neg (by simpa using last)]

theorem moves_increase (actions : List CallAction) :
    (s.candidateIndex :: s.moves actions).Pairwise (· < ·) ∧
      ∀ index ∈ s.moves actions, index < s.candidates.length := by
  induction actions generalizing s with
  | nil => simp [WorkflowContext.moves]
  | cons a rest ih =>
    have later := ih (s := s.step a)
    rw [step_candidates] at later
    cases a with
    | execute env =>
      rwa [step_execute_candidateIndex] at later
    | degrade env error =>
      rw [step_degrade_candidateIndex] at later
      by_cases more : s.candidateIndex + 1 < s.candidates.length
      · rw [if_pos more, List.pairwise_cons] at later
        obtain ⟨⟨above, ordered⟩, within⟩ := later
        simp only [WorkflowContext.moves, if_pos more, List.pairwise_cons, List.mem_cons,
          forall_eq_or_imp]
        exact ⟨⟨⟨by omega, fun index mem => (Nat.lt_succ_self _).trans (above index mem)⟩,
          above, ordered⟩, more, within⟩
      · rw [if_neg more] at later
        simpa only [WorkflowContext.moves, if_neg more] using later

/-- Failover is complete in the runs in which each switch that sends a request finds every
setting to be the next candidate's already. -/
theorem failover_complete_iff (primary : Candidate) (backups : List Candidate) (t : TemplateRender)
    (actions : List CallAction) :
    Complete (.routed primary backups t) actions ↔
      Along (total WorkflowContext.step) StaysSet (.routed primary backups t) actions := by
  have same : SwitchesCompletely = StaysSet :=
    funext fun _ => funext fun _ => propext switchesCompletely_iff
  constructor
  · intro complete
    exact same ▸ complete.switches
  · intro set
    obtain ⟨ordered, within⟩ := moves_increase actions
    exact ⟨same ▸ set, ordered.imp Nat.ne_of_lt, within⟩

def alpha : Candidate where
  provider := "openai"
  upstreamUrl := "https://alpha.example/v1/chat/completions"
  authConfig := .obj [("secret_ref_id", .str "alpha")]

def beta : Candidate where
  provider := "openai"
  upstreamUrl := "https://beta.example/v1/chat/completions"
  authConfig := .obj [("secret_ref_id", .str "beta")]

/-- No template is rendered before; the timeout of the step holds. -/
def plain : Surroundings where
  secret := fun _ ref => some ("sk-" ++ ref)
  safe := fun _ => true
  circuitOpen := false
  body := .obj [("model", .str "gpt-4o"), ("messages", .arr [])]
  renderValue := fun value _ => value
  float := fun _ => some 120
  defaultTimeout := .int 120

/-- The first candidate times out, and what is meant for the second goes to the first again,
with the credential of the first. -/
theorem switch_resends_to_first :
    ¬ Complete (.routed alpha [beta] {}) [.execute plain, .degrade plain "timeout"] ∧
      ∃ r after, ((WorkflowContext.routed alpha [beta] {}).step (.execute plain)).onDegrade plain
        "timeout" = (.sent r, after) ∧
        r.url = alpha.upstreamUrl ∧ r.auth = [("Authorization", "Bearer sk-alpha")] := by
  refine ⟨fun complete => ?_, _, _, rfl, rfl, by decide +kernel⟩
  have second := complete.switches.2 _ rfl
  have switched := second.1 alpha _ _ rfl rfl
  exact absurd switched.url (by decide +kernel)

end Runs

end Deeting.Upstream
