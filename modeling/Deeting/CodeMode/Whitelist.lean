import Deeting.Agent.ToolLoop
import Deeting.CodeMode.ToolPlan
import Deeting.Transition
import Mathlib.Data.Bool.AllAny

/-! The whitelist of a monitor run. The loop asks it before it dispatches a call; the steps of
a plan and the calls of the sandbox reach their tools past it. -/
namespace Deeting.CodeMode.Whitelist

open Agent (Builtins stripText stripText_of_plain stripText_stripText)
open Transition

structure Config where
  settings : Agent.AgentSettings := {}
  session : Agent.Session
  userId : Uuid
  /-- Whether `CODE_MODE_BRIDGE_ENDPOINT` is set. -/
  endpoint : Bool

/-- The loop, what the database knows, and what the calls of the run have left behind: the
users in the claims of its tokens and the names of the tools executed. -/
structure World where
  loop : Agent.Loop
  registry : Registry
  /-- The keys of `user_mcp_tool_map`. -/
  toolMap : List String
  snapshot : Option (List String) := none
  tokens : List Uuid := []
  executed : List String := []

/-- How a dispatched call goes: whether the core plugin is there and for whom it was last
initialized, how the steps of a plan end, whether a token can be issued, and the names that
`search_sdk` finds. -/
structure Handling where
  core : Bool := true
  pluginUser : Uuid
  answers : List Answer := []
  issues : Bool := false
  snapshot : Option (List String) := none

/-- `granted` says whether address, token and onboarding let the bridge call pass. -/
inductive Action where
  | agent (action : Agent.Action) (handling : Handling)
  | call (n : ℕ) (toolName : String) (granted : Bool) (answer : Answer)
  | change (registry : Registry)

def coreHandlers : List String :=
  ["search_sdk", "consult_expert_network", "activate_assistant", "deactivate_assistant",
    "execute_code_plan"]

/-- `core_plugin_candidate_names`, as far as there is a handler. -/
def coreHandles (b : Builtins) (settings : Agent.AgentSettings) (toolName : String) : Bool :=
  (Agent.codeModeToolNames ++ Agent.directAllowlist b settings).contains toolName &&
    coreHandlers.contains toolName

def entries : Json → List (String × Json)
  | .obj entries => entries
  | _ => []

namespace World

def execute (w : World) (names : List String) : World :=
  { w with executed := w.executed ++ names }

def token (w : World) (issued : Bool) (userId : Uuid) : World :=
  { w with tokens := w.tokens ++ if issued then [userId] else [] }

variable (p : Python) (cfg : Config)

/-- `handle_execute_code_plan`, with the names it discovers where there was no search. -/
def codePlan (w : World) (arguments : Json) (h : Handling) : World :=
  let ran := handleExecuteCodePlan p cfg.endpoint w.registry h.pluginUser w.snapshot
    (entries arguments) h.answers h.issues
  (((w.execute ran.executed).token ran.issued h.pluginUser).token ran.bridged cfg.userId)

def core (w : World) (toolName : String) (arguments : Json) (h : Handling) : World :=
  if toolName = "execute_code_plan" then
    { w.codePlan p cfg arguments h with snapshot := w.snapshot <|> h.snapshot }
  else if toolName = "search_sdk" then { w with snapshot := h.snapshot <|> w.snapshot }
  else w

def skill (w : World) (toolName : String) (h : Handling) : World :=
  match w.registry.skillFor toolName with
  | some skill =>
      (w.execute [toolName]).token (cfg.endpoint && skill.opens p.toBuiltins && h.issues) cfg.userId
  | none => w

/-- `_dispatch_tool_inner` past its two checks. -/
def dispatch (w : World) (call : Agent.ToolCall) (h : Handling) : World :=
  let toolName := stripText call.name
  if toolName ∈ w.toolMap then w.execute [toolName]
  else if cfg.userId.int = 0 then w
  else if coreHandles p.toBuiltins cfg.settings toolName = true ∧ h.core = true then
    (w.execute [toolName]).core p cfg toolName call.arguments h
  else w.skill p cfg toolName h

/-- What the call of a `tool` step does, if it gets past the checks. -/
def handle (w : World) (action : Agent.Action) (h : Handling) : World :=
  match action, w.loop.phase with
  | .tool _, .answering (call :: _) =>
      if (Agent.refusal p.toBuiltins cfg.settings cfg.session (w.loop.body.tools.getD .null)
          call.toolCall).isNone then w.dispatch p cfg call.toolCall h
      else w
  | _, _ => w

/-- `code_mode_call_tool`, with a token of the user. -/
def bridgeCall (w : World) (userId : Uuid) (toolName : String) (answer : Answer) : World :=
  let toolName := stripText toolName
  if toolName ≠ "" ∧ toolName ∉ ownTools then
    let done := w.registry.dispatchRealTool p.toBuiltins cfg.endpoint userId toolName answer
    (w.execute done.executed).token done.issued userId
  else w

end World

def start (p : Python) (cfg : Config) (registry : Registry) (request : Agent.RequestBody)
    (assistantId : Json) : World where
  loop := Agent.start p.toBuiltins cfg.settings request assistantId
  registry := registry
  toolMap := registry.mcpTools cfg.userId

/-- `possible` says what the database may know of tools. -/
def step (p : Python) (cfg : Config) (possible : Registry → Bool) (w : World) :
    Action → Option World
  | .agent action h =>
      (Agent.step p.toBuiltins cfg.settings cfg.session w.loop action).map fun loop =>
        { w.handle p cfg action h with loop }
  | .call n toolName granted answer =>
      w.tokens[n]?.map fun userId =>
        if granted then w.bridgeCall p cfg userId toolName answer else w
  | .change registry => if possible registry then some { w with registry } else none

section Statement
variable (p : Python) (cfg : Config) (possible : Registry → Bool) (allowed : List String)

/-- `execute_code_plan` can be dispatched to the core plugin. -/
def Planned : Prop :=
  "execute_code_plan" ∈ allowed ∧ cfg.userId.int ≠ 0 ∧
    ∃ registry, possible registry = true ∧
      "execute_code_plan" ∉ registry.mcpTools cfg.userId

def Bridged : Prop :=
  cfg.endpoint = true ∧ cfg.userId.int ≠ 0 ∧ ∃ first later toolName,
    possible first = true ∧ possible later = true ∧ toolName ∈ allowed ∧
      toolName ∉ first.mcpTools cfg.userId ∧
      (later.skillFor toolName).any (·.opens p.toBuiltins) = true

/-- The whitelist holds whatever its own tools can reach. -/
structure Closed : Prop where
  planned : Planned cfg possible allowed → ∀ registry userId toolName,
    possible registry = true → registry.Reaches userId toolName → toolName ∈ allowed
  bridged : Bridged p cfg possible allowed → ∀ registry toolName,
    possible registry = true → registry.Reaches cfg.userId toolName → toolName ∈ allowed

def World.Confined (w : World) : Prop := ∀ toolName ∈ w.executed, toolName ∈ allowed

structure Derived (w : World) : Prop where
  registry : possible w.registry = true
  mapped : ∃ registry, possible registry = true ∧ w.toolMap = registry.mcpTools cfg.userId
  tokens : ∀ userId ∈ w.tokens,
    Planned cfg possible allowed ∨ userId = cfg.userId ∧ Bridged p cfg possible allowed

@[simp] theorem execute_executed {w : World} (names : List String) :
    (w.execute names).executed = w.executed ++ names := rfl

@[simp] theorem token_executed {w : World} (issued : Bool) (userId : Uuid) :
    (w.token issued userId).executed = w.executed := rfl

end Statement

section Gains
variable {p : Python} {cfg : Config} {w t : World} {names : String → Prop} {users : Uuid → Prop}

structure Gains (names : String → Prop) (users : Uuid → Prop) (w t : World) : Prop where
  registry : t.registry = w.registry
  toolMap : t.toolMap = w.toolMap
  executed : ∀ toolName ∈ t.executed, toolName ∈ w.executed ∨ names toolName
  tokens : ∀ userId ∈ t.tokens, userId ∈ w.tokens ∨ users userId

namespace Gains

theorem refl (w : World) : Gains names users w w :=
  ⟨rfl, rfl, fun _ => .inl, fun _ => .inl⟩

theorem execute {executed : List String} (gains : Gains names users w t)
    (named : ∀ toolName ∈ executed, names toolName) : Gains names users w (t.execute executed) := by
  refine ⟨gains.registry, gains.toolMap, fun toolName mem => ?_, gains.tokens⟩
  rcases List.mem_append.mp mem with before | now
  · exact gains.executed toolName before
  · exact .inr (named toolName now)

theorem token {issued : Bool} {userId : Uuid} (gains : Gains names users w t)
    (known : issued = true → users userId) : Gains names users w (t.token issued userId) := by
  refine ⟨gains.registry, gains.toolMap, gains.executed, fun other mem => ?_⟩
  rcases List.mem_append.mp mem with before | now
  · exact gains.tokens other before
  · split at now
    · rename_i issued
      exact .inr (List.mem_singleton.mp now ▸ known issued)
    · cases now

theorem trans {u : World} (first : Gains names users w t) (second : Gains names users t u) :
    Gains names users w u := by
  refine ⟨second.registry.trans first.registry, second.toolMap.trans first.toolMap, ?_, ?_⟩
  · intro toolName mem
    exact (second.executed toolName mem).elim (first.executed toolName) .inr
  · intro userId mem
    exact (second.tokens userId mem).elim (first.tokens userId) .inr

theorem aside (snapshot : Option (List String)) (loop : Agent.Loop)
    (gains : Gains names users w t) : Gains names users w { t with snapshot, loop } :=
  ⟨gains.registry, gains.toolMap, gains.executed, gains.tokens⟩

end Gains

end Gains

section Steps
variable {p : Python} {cfg : Config} {possible : Registry → Bool} {allowed : List String}
  {w t : World} {h : Handling}

attribute [local simp] World.handle World.dispatch World.bridgeCall step

def Within (cfg : Config) (possible : Registry → Bool) (allowed : List String) (w : World)
    (toolName : String) : Prop :=
  toolName ∈ allowed ∨ Planned cfg possible allowed ∧ ∃ userId, w.registry.Reaches userId toolName

def Bearer (p : Python) (cfg : Config) (possible : Registry → Bool) (allowed : List String)
    (userId : Uuid) : Prop :=
  Planned cfg possible allowed ∨ userId = cfg.userId ∧ Bridged p cfg possible allowed

theorem gains_core {toolName : String} {arguments : Json} {names : String → Prop}
    {users : Uuid → Prop}
    (reached : toolName = "execute_code_plan" →
      (∀ userId name, w.registry.Reaches userId name → names name) ∧ ∀ userId, users userId) :
    Gains names users w (w.core p cfg toolName arguments h) := by
  unfold World.core
  split
  · rename_i plan
    obtain ⟨within, bearer⟩ := reached plan
    apply Gains.aside
    unfold World.codePlan
    refine (((Gains.refl w).execute fun name mem => ?_).token fun _ => bearer _).token
      fun _ => bearer _
    exact within _ name (handleExecuteCodePlan_reaches _ _ name mem)
  · split
    · exact (Gains.refl w).aside _ _
    · exact Gains.refl w

theorem gains_skill {toolName : String} {names : String → Prop} {users : Uuid → Prop}
    (named : names toolName)
    (known : cfg.endpoint = true →
      (w.registry.skillFor toolName).any (·.opens p.toBuiltins) = true → users cfg.userId) :
    Gains names users w (w.skill p cfg toolName h) := by
  unfold World.skill
  split
  · rename_i skill found
    refine ((Gains.refl w).execute (by simpa using named)).token fun issued => ?_
    simp only [Bool.and_eq_true] at issued
    exact known issued.1.1 (by simpa [found] using issued.1.2)
  · exact Gains.refl w

theorem mem_of_dispatched {tools : Json} {call : Agent.ToolCall}
    (monitor : Agent.monitorAllowedTools p.toBuiltins cfg.session = some allowed)
    (passed : Agent.refusal p.toBuiltins cfg.settings cfg.session tools call = none) :
    stripText call.name ∈ allowed := by
  unfold Agent.refusal at passed
  dsimp only at passed
  split at passed
  · cases passed
  · rw [monitor] at passed
    by_contra missing
    simp [missing] at passed

theorem gains_dispatch {call : Agent.ToolCall} (derived : Derived p cfg possible allowed w)
    (named : stripText call.name ∈ allowed) :
    Gains (Within cfg possible allowed w) (Bearer p cfg possible allowed) w
      (w.dispatch p cfg call h) := by
  have own : Gains (Within cfg possible allowed w) (Bearer p cfg possible allowed) w
      (w.execute [stripText call.name]) :=
    (Gains.refl w).execute (by simpa using .inl named)
  obtain ⟨first, known, mapped⟩ := derived.mapped
  simp only [World.dispatch]
  split
  · exact own
  · rename_i unmapped
    rw [mapped] at unmapped
    split
    · exact Gains.refl w
    · rename_i real
      split
      · apply own.trans
        apply gains_core
        intro plan
        rw [plan] at named unmapped
        have planned : Planned cfg possible allowed := ⟨named, real, first, known, unmapped⟩
        exact ⟨fun userId _ reaches => .inr ⟨planned, userId, reaches⟩, fun _ => .inl planned⟩
      · apply gains_skill (.inl named)
        intro endpoint opens
        exact .inr ⟨rfl, endpoint, real, first, w.registry, _, known, derived.registry, named,
          unmapped, opens⟩

theorem gains_handle (action : Agent.Action) (h : Handling)
    (derived : Derived p cfg possible allowed w)
    (monitor : Agent.monitorAllowedTools p.toBuiltins cfg.session = some allowed) :
    Gains (Within cfg possible allowed w) (Bearer p cfg possible allowed) w
      (w.handle p cfg action h) := by
  unfold World.handle
  split
  · split
    · rename_i passed
      exact gains_dispatch derived (mem_of_dispatched monitor (Option.isNone_iff_eq_none.mp passed))
    · exact Gains.refl w
  · exact Gains.refl w

theorem gains_bridgeCall (p : Python) (cfg : Config) (w : World) (userId : Uuid)
    (toolName : String) (answer : Answer) :
    Gains (w.registry.Reaches userId) (· = userId) w
      (w.bridgeCall p cfg userId toolName answer) := by
  simp only [World.bridgeCall]
  split
  · rename_i admitted
    refine ((Gains.refl w).execute fun name mem => ?_).token fun _ => rfl
    obtain ⟨rfl, had⟩ := w.registry.mem_dispatchRealTool mem
    exact ⟨stripText_stripText toolName, admitted.1, admitted.2, had⟩
  · exact Gains.refl w

theorem Derived.gains {names : String → Prop} {users : Uuid → Prop}
    (derived : Derived p cfg possible allowed w) (gains : Gains names users w t)
    (bearers : ∀ userId, users userId → Bearer p cfg possible allowed userId) :
    Derived p cfg possible allowed t := by
  refine ⟨gains.registry ▸ derived.registry, gains.toolMap ▸ derived.mapped, fun userId mem => ?_⟩
  exact (gains.tokens userId mem).elim (derived.tokens userId) (bearers userId)

theorem Confined.gains {names : String → Prop} {users : Uuid → Prop} (confined : w.Confined allowed)
    (gains : Gains names users w t) (within : ∀ toolName, names toolName → toolName ∈ allowed) :
    t.Confined allowed :=
  fun toolName mem => (gains.executed toolName mem).elim (confined toolName) (within toolName)

theorem confined_step {action : Action}
    (monitor : Agent.monitorAllowedTools p.toBuiltins cfg.session = some allowed)
    (closed : Closed p cfg possible allowed)
    (held : Derived p cfg possible allowed w ∧ w.Confined allowed)
    (taken : step p cfg possible w action = some t) :
    Derived p cfg possible allowed t ∧ t.Confined allowed := by
  obtain ⟨derived, confined⟩ := held
  cases action with
  | agent action h =>
    obtain ⟨loop, _, rfl⟩ := Option.map_eq_some_iff.mp taken
    have gains := (gains_handle action h derived monitor).aside
      (w.handle p cfg action h).snapshot loop
    refine ⟨derived.gains gains fun _ => id, Confined.gains confined gains ?_⟩
    rintro toolName (named | ⟨planned, userId, reaches⟩)
    · exact named
    · exact closed.planned planned _ userId toolName derived.registry reaches
  | call n toolName granted answer =>
    obtain ⟨userId, there, rfl⟩ := Option.map_eq_some_iff.mp taken
    have bearer := derived.tokens userId (List.mem_of_getElem? there)
    split
    · have gains := gains_bridgeCall p cfg w userId toolName answer
      refine ⟨derived.gains gains fun _ same => same ▸ bearer, Confined.gains confined gains ?_⟩
      intro name reaches
      rcases bearer with planned | ⟨rfl, bridged⟩
      · exact closed.planned planned _ userId name derived.registry reaches
      · exact closed.bridged bridged _ name derived.registry reaches
    · exact ⟨derived, confined⟩
  | change registry =>
    simp only [step] at taken
    split at taken
    · rename_i known
      cases taken
      exact ⟨⟨known, derived.mapped, derived.tokens⟩, confined⟩
    · cases taken

end Steps

section Breach

/-- The arguments of `execute_code_plan` for a plan of one step. -/
def planArguments (toolName : String) : List (String × Json) :=
  [("code", .str "pass"), ("tool_plan", .arr [.obj [("tool_name", .str toolName)]])]

structure Lawful (p : Python) : Prop where
  loads : ∀ toolName, ∃ text, p.loads text = .value (.obj (planArguments toolName))
  lower : p.lower "stop" = "stop"
  accepts : p.accepts "pass" = true

def asks (toolName text : String) : Json :=
  .obj [("choices", .arr [.obj [("message", .obj [("tool_calls", .arr [.obj [
    ("id", .str "call"),
    ("function", .obj [("name", .str toolName), ("arguments", .str text)])]])])]])]

def bareRequest : Agent.RequestBody := { messages := [] }

variable {p : Python} {cfg : Config} {possible : Registry → Bool} {allowed : List String}
  {w t : World} {h : Handling}

theorem plain_of_allowed {toolName : String}
    (monitor : Agent.monitorAllowedTools p.toBuiltins cfg.session = some allowed)
    (mem : toolName ∈ allowed) : stripText toolName = toolName ∧ toolName ≠ "" := by
  unfold Agent.monitorAllowedTools at monitor
  split at monitor
  · cases monitor
    obtain ⟨named, filled⟩ := List.mem_filter.mp mem
    obtain ⟨name, _, rfl⟩ := List.mem_map.mp named
    exact ⟨stripText_stripText _, by simpa using filled⟩
  · cases monitor

theorem text_of_plain {b : Builtins} {toolName : String} (plain : stripText toolName = toolName)
    (filled : toolName ≠ "") : b.text (.str toolName) = toolName := by
  simp [Builtins.text, Builtins.str, Deeting.Stream.orElse, Json.truthy, filled, plain]

theorem prepareCalls_asks {b : Builtins} {toolName text : String} {arguments : List (String × Json)}
    {turn : ℕ} (plain : stripText toolName = toolName) (filled : toolName ≠ "")
    (loads : b.loads text = .value (.obj arguments)) :
    Agent.prepareCalls b turn (.arr [.obj [("id", .str "call"),
      ("function", .obj [("name", .str toolName), ("arguments", .str text)])]]) =
      some [⟨⟨"call", toolName, .obj arguments⟩, text, none⟩] := by
  have named := text_of_plain (b := b) plain filled
  simp [Agent.prepareCalls, Agent.iterate, Agent.prepareToolCall, Agent.objectOrEmpty, Json.isObj,
    Json.get, Json.get?, Agent.toolCallId, Json.truthy, Builtins.str, Agent.toolCallName,
    Deeting.Stream.orElse, filled, named, Agent.rawArguments, Agent.argumentsText, loads]

theorem exists_answering {b : Builtins} (settings : Agent.AgentSettings) (session : Agent.Session)
    {toolName text : String} {arguments : List (String × Json)}
    (plain : stripText toolName = toolName) (filled : toolName ≠ "")
    (loads : b.loads text = .value (.obj arguments)) :
    ∃ l, run (Agent.step b settings session) (Agent.start b settings bareRequest .null)
        [.upstream (.success (asks toolName text)), .analyse] = some l ∧
      l.phase = .answering [⟨⟨"call", toolName, .obj arguments⟩, text, none⟩] ∧
      l.body.tools = none := by
  have calling := Agent.start_phase b settings bareRequest .null
  have tools : (Agent.start b settings bareRequest .null).body.tools = none := by
    rw [Agent.start, Agent.Loop.toTurn]
    split <;> rfl
  obtain ⟨l, started⟩ : ∃ l, Agent.start b settings bareRequest .null = l := ⟨_, rfl⟩
  rw [started] at calling tools ⊢
  refine ⟨(l.callUpstream (.success (asks toolName text))).analyse b, ?_, ?_, ?_⟩
  · simp [run, Agent.step, calling, Agent.Loop.callUpstream, Agent.Loop.receive]
  · simp [Agent.Loop.analyse, Agent.Loop.callUpstream, Agent.Loop.snapshot, Agent.Loop.send,
      Agent.Loop.receive, asks, Json.truthy, Agent.firstMessage, Json.get?, Json.get,
      Agent.Loop.takeCalls, prepareCalls_asks plain filled loads, Agent.Loop.say]
  · simp [Agent.Loop.analyse, Agent.Loop.callUpstream, Agent.Loop.snapshot, Agent.Loop.send,
      Agent.Loop.receive, asks, Json.truthy, Agent.firstMessage, Json.get?, Json.get,
      Agent.Loop.takeCalls, prepareCalls_asks plain filled loads, Agent.Loop.say, tools]

def arrived (cfg : Config) (first later : Registry) (l : Agent.Loop) : World where
  loop := l
  registry := later
  toolMap := first.mcpTools cfg.userId

theorem exists_dispatched {first later : Registry} {toolName text : String}
    {arguments : List (String × Json)} (h : Handling)
    (monitor : Agent.monitorAllowedTools p.toBuiltins cfg.session = some allowed)
    (known : possible later = true) (named : toolName ∈ allowed)
    (loads : p.loads text = .value (.obj arguments)) :
    ∃ l m actions, run (step p cfg possible) (start p cfg first bareRequest .null) actions =
      some { (arrived cfg first later l).dispatch p cfg ⟨"call", toolName, .obj arguments⟩ h with
        loop := m } := by
  obtain ⟨plain, filled⟩ := plain_of_allowed monitor named
  obtain ⟨l, called, answering, tools⟩ := exists_answering (b := p.toBuiltins)
    cfg.settings cfg.session plain filled loads
  obtain ⟨asked, first_, rest⟩ := run_cons_eq_some.mp called
  obtain ⟨looked, second, ended⟩ := run_cons_eq_some.mp rest
  cases ended
  have passed : Agent.refusal p.toBuiltins cfg.settings cfg.session (l.body.tools.getD .null)
      ⟨"call", toolName, .obj arguments⟩ = none := by
    simp [Agent.refusal, Agent.shouldBlockDirectToolCall, Agent.codeModeAvailable, tools,
      Json.items, Agent.codeModeRequiredToolNames, monitor, plain, named]
  have handled : (arrived cfg first later l).handle p cfg (.tool ⟨.json .null, none, none⟩) h =
      (arrived cfg first later l).dispatch p cfg ⟨"call", toolName, .obj arguments⟩ h := by
    simp only [World.handle, arrived, answering, passed, Option.isNone_none, if_true]
  obtain ⟨m, answered⟩ : ∃ m, Agent.step p.toBuiltins cfg.settings cfg.session l
      (.tool ⟨.json .null, none, none⟩) = some m := by
    simp [Agent.step, answering]
  refine ⟨l, m, [.agent (.upstream (.success (asks toolName text))) h, .agent .analyse h,
    .change later, .agent (.tool ⟨.json .null, none, none⟩) h], ?_⟩
  refine run_cons_eq_some.mpr ⟨{ start p cfg first bareRequest .null with loop := asked }, ?_, ?_⟩
  · simp [step, start, first_, World.handle]
  refine run_cons_eq_some.mpr ⟨{ start p cfg first bareRequest .null with loop := l }, ?_, ?_⟩
  · simp [step, second, World.handle]
  refine run_cons_eq_some.mpr ⟨arrived cfg first later l, ?_, ?_⟩
  · simp [step, known, arrived, start]
  rw [run, ← handled]
  simp [step, arrived, answered, run]

theorem planToExecute_planArguments {toolName : String} (lawful : Lawful p)
    (plain : stripText toolName = toolName) (filled : toolName ≠ "")
    (foreign : toolName ∉ ownTools) :
    planToExecute p none (planArguments toolName) =
      some [.obj [("tool_name", .str toolName)]] := by
  have named : planToolName p.toBuiltins (.obj [("tool_name", .str toolName)]) = toolName :=
    text_of_plain plain filled
  have pass : stripText "pass" = "pass" := stripText_of_plain (List.all_iff_forall_prop.mp (by decide))
  have stop : stripText "stop" = "stop" := stripText_of_plain (List.all_iff_forall_prop.mp (by decide))
  have stops : onError p.toBuiltins (.obj [("tool_name", .str toolName)]) = "stop" := by
    simp [onError, Json.get, Json.get?, Deeting.Stream.orElse, Json.truthy, Builtins.str, stop,
      lawful.lower]
  have valid : stepValid p.toBuiltins (.obj [("tool_name", .str toolName)]) = true := by
    simp [stepValid, named, stops, filled, foreign, Json.isObj, Json.get, Json.get?]
  have short : "pass".length ≤ maxCodeChars := by decide
  simp [planToExecute, planArguments, Json.get, Json.get?, Json.items, strippedText, Json.truthy,
    Json.string?, pass, planParameters, short, lawful.accepts, planValid, maxToolPlanSteps, valid]

theorem mem_handleExecuteCodePlan {registry : Registry} {userId : Uuid} {toolName : String}
    {endpoint issues : Bool} {answers : List Answer} (lawful : Lawful p)
    (reaches : registry.Reaches userId toolName) :
    toolName ∈ (handleExecuteCodePlan p endpoint registry userId none (planArguments toolName)
      answers issues).executed := by
  obtain ⟨plain, filled, foreign, had⟩ := reaches
  have tool : planToolName p.toBuiltins (.obj [("tool_name", .str toolName)]) = toolName :=
    text_of_plain plain filled
  simp only [handleExecuteCodePlan, planToExecute_planArguments lawful plain filled foreign]
  rw [executeToolPlan]
  simp only [tool, Registry.dispatchRealTool, had, if_true]
  split <;> simp

theorem core_executed (arguments : Json) :
    (w.core p cfg "execute_code_plan" arguments h).executed = w.executed ++
      (handleExecuteCodePlan p cfg.endpoint w.registry h.pluginUser w.snapshot (entries arguments)
        h.answers h.issues).executed := by
  simp [World.core, World.codePlan]

/-- Whoever the core plugin was last initialized for, a plan reaches the tools of that user. -/
theorem plan_breach {first later : Registry} {userId : Uuid} {toolName : String}
    (lawful : Lawful p)
    (monitor : Agent.monitorAllowedTools p.toBuiltins cfg.session = some allowed)
    (known : possible later = true) (named : "execute_code_plan" ∈ allowed)
    (real : cfg.userId.int ≠ 0) (unmapped : "execute_code_plan" ∉ first.mcpTools cfg.userId)
    (reaches : later.Reaches userId toolName) :
    ∃ actions t, run (step p cfg possible) (start p cfg first bareRequest .null) actions = some t ∧
      toolName ∈ t.executed := by
  obtain ⟨text, loads⟩ := lawful.loads toolName
  obtain ⟨l, m, actions, ran⟩ :=
    exists_dispatched { pluginUser := userId } monitor known named loads
  refine ⟨actions, _, ran, ?_⟩
  have plain : stripText "execute_code_plan" = "execute_code_plan" :=
    stripText_of_plain (List.all_iff_forall_prop.mp (by decide))
  have handles : coreHandles p.toBuiltins cfg.settings "execute_code_plan" = true := by
    simp [coreHandles, Agent.codeModeToolNames, coreHandlers]
  simp only [World.dispatch, plain, arrived, unmapped, real, handles, if_true, if_false, and_self,
    core_executed]
  exact List.mem_append_right _ (mem_handleExecuteCodePlan lawful reaches)

theorem mem_bridgeCall {userId : Uuid} {toolName : String} {answer : Answer}
    (reaches : w.registry.Reaches userId toolName) :
    toolName ∈ (w.bridgeCall p cfg userId toolName answer).executed := by
  obtain ⟨plain, filled, foreign, had⟩ := reaches
  simp [World.bridgeCall, plain, filled, foreign, Registry.dispatchRealTool, had]

/-- A skill of the sandbox on the whitelist leaves a token, and the token reaches every tool. -/
theorem bridge_breach {first later last : Registry} {toolName target : String}
    (lawful : Lawful p)
    (monitor : Agent.monitorAllowedTools p.toBuiltins cfg.session = some allowed)
    (known : possible later = true) (finally_ : possible last = true) (named : toolName ∈ allowed)
    (endpoint : cfg.endpoint = true) (real : cfg.userId.int ≠ 0)
    (unmapped : toolName ∉ first.mcpTools cfg.userId)
    (opens : (later.skillFor toolName).any (·.opens p.toBuiltins) = true)
    (reaches : last.Reaches cfg.userId target) :
    ∃ actions t, run (step p cfg possible) (start p cfg first bareRequest .null) actions = some t ∧
      target ∈ t.executed := by
  obtain ⟨text, loads⟩ := lawful.loads toolName
  obtain ⟨l, m, actions, ran⟩ := exists_dispatched
    { core := false, pluginUser := cfg.userId, issues := true } monitor known named loads
  obtain ⟨w, dispatched⟩ : ∃ w, (arrived cfg first later l).dispatch p cfg
      ⟨"call", toolName, .obj (planArguments toolName)⟩
      { core := false, pluginUser := cfg.userId, issues := true } = w := ⟨_, rfl⟩
  have token : w.tokens = [cfg.userId] := by
    obtain ⟨skill, found⟩ : ∃ skill, later.skillFor toolName = some skill := by
      apply Option.isSome_iff_exists.mp
      cases found : later.skillFor toolName with
      | none => simp [found] at opens
      | some skill => rfl
    have opened : skill.opens p.toBuiltins = true := by simpa [found] using opens
    simp [← dispatched, World.dispatch, (plain_of_allowed monitor named).1, arrived, unmapped, real,
      World.skill, found, World.token, World.execute, endpoint, opened]
  rw [dispatched] at ran
  refine ⟨actions ++ [.change last, .call 0 target true {}],
    ({ w with loop := m, registry := last } : World).bridgeCall p cfg cfg.userId target {}, ?_, ?_⟩
  · rw [run_append, ran]
    simp [run, step, finally_, token]
  · exact mem_bridgeCall reaches

end Breach

/-- Every tool executed in every monitor run is on the whitelist if and only if the whitelist
holds what its own tools reach: nothing when it has neither `execute_code_plan` nor a skill that
is given a token. -/
theorem confined_throughout_iff (p : Python) (lawful : Lawful p) (cfg : Config)
    (possible : Registry → Bool) (allowed : List String)
    (monitor : Agent.monitorAllowedTools p.toBuiltins cfg.session = some allowed) :
    (∀ first request assistantId actions t, possible first = true →
      run (step p cfg possible) (start p cfg first request assistantId) actions = some t →
        t.Confined allowed) ↔
      Closed p cfg possible allowed := by
  constructor
  · intro confined
    constructor
    · rintro ⟨named, real, first, known, unmapped⟩ later userId toolName possibly reaches
      obtain ⟨actions, t, ran, executed⟩ :=
        plan_breach lawful monitor possibly named real unmapped reaches
      exact confined first _ _ actions t known ran toolName executed
    · rintro ⟨endpoint, real, first, later, toolName, known, known', named, unmapped, opens⟩
        last target possibly reaches
      obtain ⟨actions, t, ran, executed⟩ := bridge_breach lawful monitor known' possibly named
        endpoint real unmapped opens reaches
      exact confined first _ _ actions t known ran target executed
  · intro closed first request assistantId actions t known ran
    have held := run_preserves (fun held taken => confined_step monitor closed held taken)
      (show Derived p cfg possible allowed (start p cfg first request assistantId) ∧
          (start p cfg first request assistantId).Confined allowed from
        ⟨⟨known, ⟨first, known, rfl⟩, by simp [start]⟩, by simp [World.Confined, start]⟩) ran
    exact held.2

section Instance

def planOpening : List Char :=
  "\x7b\"code\": \"pass\", \"tool_plan\": [\x7b\"tool_name\": \"".toList

def planClosing : List Char := "\"\x7d]\x7d".toList

/-- `json.loads` on the arguments of plans of one step, for plain names. -/
def planLoads (text : String) : Agent.Loaded :=
  let inner := text.toList.drop planOpening.length
  let toolName := inner.take (inner.length - planClosing.length)
  if text.toList = planOpening ++ toolName ++ planClosing then
    .value (.obj (planArguments (String.ofList toolName)))
  else .malformed "Expecting value: line 1 column 1 (char 0)"

/-- Built-in functions that read such arguments, and a check that takes one program. -/
def planPython : Python :=
  { Agent.flatBuiltins with loads := planLoads, accepts := fun code => code = "pass" }

theorem lawful_planPython : Lawful planPython := by
  refine ⟨fun toolName => ⟨String.ofList (planOpening ++ toolName.toList ++ planClosing), ?_⟩,
    by decide +kernel, by decide +kernel⟩
  have inner : (planOpening ++ toolName.toList ++ planClosing).drop planOpening.length =
      toolName.toList ++ planClosing := by rw [List.append_assoc, List.drop_left]
  have name : (toolName.toList ++ planClosing).take
      ((toolName.toList ++ planClosing).length - planClosing.length) = toolName.toList := by
    rw [List.length_append, Nat.add_sub_cancel, List.take_left]
  simp only [planPython, planLoads, String.toList_ofList, inner, name, if_true,
    String.ofList_toList]

/-- A monitor whose whitelist is `execute_code_plan`. -/
def planMonitor : Config where
  session := ⟨"monitor:1", .arr [.str "execute_code_plan"]⟩
  userId := .repeated 1
  endpoint := true

/-- A plan of one step is executed, and the code calls a tool through the bridge. -/
def planRun : List Action :=
  let h : Handling :=
    { pluginUser := .repeated 1, answers := [{ result := some (.obj []) }], issues := true }
  [.agent (.upstream (.success (asks "execute_code_plan"
      (String.ofList (planOpening ++ "sys_refine_asset_metadata".toList ++ planClosing))))) h,
    .agent .analyse h, .agent (.tool ⟨.json (.obj []), none, none⟩) h,
    .call 0 "sys_submit_onboarding_request" true {}]

theorem executes_outside : ∃ t,
    run (step planPython planMonitor fun _ => true)
      (start planPython planMonitor {} bareRequest .null) planRun = some t ∧
    t.executed = ["execute_code_plan", "sys_refine_asset_metadata",
      "sys_submit_onboarding_request"] ∧
    ¬ t.Confined ["execute_code_plan"] := by
  have reached : (run (step planPython planMonitor fun _ => true)
      (start planPython planMonitor {} bareRequest .null) planRun).map World.executed =
      some ["execute_code_plan", "sys_refine_asset_metadata",
        "sys_submit_onboarding_request"] := by decide +kernel
  obtain ⟨t, ran, executed⟩ := Option.map_eq_some_iff.mp reached
  refine ⟨t, ran, executed, fun confined => ?_⟩
  have outside := confined "sys_refine_asset_metadata" (by simp [executed])
  simp at outside

/-- A monitor whose whitelist is `search_sdk`. -/
def searchMonitor : Config :=
  { planMonitor with session := ⟨"monitor:1", .arr [.str "search_sdk"]⟩ }

/-- The plan is asked for, and in the next turn `search_sdk`. -/
def searchRun : List Action :=
  let h : Handling := { pluginUser := .repeated 1 }
  planRun.take 3 ++ [.agent (.nextTurn none) h,
    .agent (.upstream (.success (asks "search_sdk"
      (String.ofList (planOpening ++ "pass".toList ++ planClosing))))) h,
    .agent .analyse h, .agent (.tool ⟨.json (.obj []), none, none⟩) h]

/-- With that whitelist and no skills only the search is executed. -/
theorem confined_searching : ∃ t,
    run (step planPython searchMonitor fun registry => registry.skills.isEmpty)
      (start planPython searchMonitor {} bareRequest .null) searchRun = some t ∧
    t.executed = ["search_sdk"] ∧ t.Confined ["search_sdk"] := by
  have reached : (run (step planPython searchMonitor fun registry => registry.skills.isEmpty)
      (start planPython searchMonitor {} bareRequest .null) searchRun).map World.executed =
      some ["search_sdk"] := by decide +kernel
  obtain ⟨t, ran, executed⟩ := Option.map_eq_some_iff.mp reached
  refine ⟨t, ran, executed, (confined_throughout_iff planPython lawful_planPython searchMonitor
    (fun registry => registry.skills.isEmpty) ["search_sdk"] (by decide +kernel)).mpr ?_
    {} bareRequest .null _ t rfl ran⟩
  constructor
  · rintro ⟨named, -⟩
    simp at named
  · rintro ⟨-, -, first, later, toolName, -, empty, -, -, opens⟩
    have none : later.skillFor toolName = none := by
      simp [Registry.skillFor, List.isEmpty_iff.mp empty]
    simp [none] at opens

end Instance

end Deeting.CodeMode.Whitelist
