import Deeting.Agent.ToolCalls
import Deeting.Uuid

/-! What `execute_code_plan` executes of a plan. A step is dispatched to a local tool, to a skill
or to an MCP server, whichever knows its name; the arguments of the tools are left out. -/
namespace Deeting.CodeMode

open Agent (Builtins stripText stripText_stripText)
open Deeting.Stream (orElse)

/-- An active row of `skill_registry`: the names in `manifest_json.tools`, the runtime and the
two places of a source repository. -/
structure Skill where
  toolNames : List String
  runtime : String := ""
  sourceRepo : String := ""
  manifestRepo : String := ""

/-- `UserMcpServer`, with the names in its `tools_cache`. -/
structure McpServer where
  userId : Uuid
  isEnabled : Bool := true
  serverType : String := "sse"
  sseUrl : String := ""
  disabledTools : List String := []
  toolsCache : List String := []

structure Registry where
  skills : List Skill := []
  servers : List McpServer := []

/-- The built-in functions, and whether `_validate_python_code` finds nothing in a text. -/
structure Python extends Builtins where
  accepts : String → Bool

namespace Skill

def sandboxed (b : Builtins) (skill : Skill) : Bool :=
  ! (["backend_task", "builtin"].contains (b.lower (stripText skill.runtime)))

/-- `_ensure_user_skill_access`, with the name of the tool as the intent. -/
def admits (skill : Skill) (toolName : String) : Bool :=
  skill.sourceRepo = "" || toolName = "dry_run"

/-- Whether `SandboxRuntimeStrategy` comes to `_issue_runtime_bridge_context`. -/
def opens (b : Builtins) (skill : Skill) : Bool :=
  skill.sandboxed b && (skill.sourceRepo ≠ "" || skill.manifestRepo ≠ "")

end Skill

def McpServer.tools (server : McpServer) (userId : Uuid) : List String :=
  if server.userId = userId ∧ server.isEnabled = true ∧
      server.serverType ∈ ["sse", "streamable-http"] ∧ server.sseUrl ≠ "" then
    server.toolsCache.filter fun name => name ≠ "" ∧ name ∉ server.disabledTools
  else []

def localTools : List String := ["sys_refine_asset_metadata", "sys_submit_onboarding_request"]

/-- How a tool ends: `result` is `none` where it raises or is cancelled; `issues` says whether
a skill gets as far as its token. -/
structure Answer where
  result : Option Json := none
  issues : Bool := false

/-- What a dispatch has done, with the result it returns. -/
structure Dispatched where
  executed : List String := []
  issued : Bool := false
  result : Option Json

namespace Registry

/-- The keys of `_build_user_mcp_tool_map`. -/
def mcpTools (registry : Registry) (userId : Uuid) : List String :=
  registry.servers.flatMap fun server => server.tools userId

/-- `get_by_tool_name`, where the executor takes the skill. -/
def skillFor (registry : Registry) (toolName : String) : Option Skill :=
  (registry.skills.find? fun skill => skill.toolNames.contains toolName).filter
    fun skill => skill.admits toolName

/-- Whether one of the three dispatchers of `_dispatch_real_tool` has a tool of that name. -/
def has (registry : Registry) (userId : Uuid) (toolName : String) : Bool :=
  localTools.contains toolName || (registry.skillFor toolName).isSome ||
    (registry.mcpTools userId).contains toolName

def dispatchRealTool (b : Builtins) (endpoint : Bool) (registry : Registry) (userId : Uuid)
    (toolName : String) (answer : Answer) : Dispatched :=
  if registry.has userId toolName = true then
    { executed := [toolName]
      issued := endpoint && (registry.skillFor toolName).any (·.opens b) && answer.issues
      result := answer.result }
  else
    { result := some (.obj [("error",
        .str s!"Tool '{toolName}' not found in local plugins or MCP servers")]) }

end Registry

section Plan

variable (b : Builtins)

def planToolName (step : Json) : String := b.text (step.get "tool_name")

def onError (step : Json) : String :=
  b.lower (stripText (b.str (orElse (step.get "on_error") (.str "stop"))))

def ownTools : List String := ["search_sdk", "execute_code_plan"]

def stepValid (step : Json) : Bool :=
  let arguments := step.get "arguments"
  step.isObj && planToolName b step ≠ "" && !ownTools.contains (planToolName b step) &&
    (arguments.isObj || (arguments matches .null)) &&
    ["stop", "continue"].contains (onError b step)

def maxToolPlanSteps : ℕ := 20

def maxCodeChars : ℕ := 12000

/-- `_validate_tool_plan` and `_validate_tool_plan_allowed_tools`, with the names of the last
`search_sdk`. -/
def planValid (snapshot : Option (List String)) (steps : List Json) : Bool :=
  decide (steps.length ≤ maxToolPlanSteps) && steps.all (stepValid b) &&
    snapshot.all fun names => steps.all fun step => names.contains (planToolName b step)

structure PlanRun where
  executed : List String := []
  issued : Bool := false
  succeeded : Bool := true

def goesOn (step : Json) (done : Dispatched) : Bool :=
  done.result.any fun result => !(result.get "error").truthy || onError b step = "continue"

/-- `_execute_tool_plan`, with one answer for each step. -/
def executeToolPlan (endpoint : Bool) (registry : Registry) (userId : Uuid) :
    List Json → List Answer → PlanRun
  | [], _ => {}
  | step :: steps, answers =>
      let done := registry.dispatchRealTool b endpoint userId (planToolName b step)
        (answers.headD {})
      if goesOn b step done then
        let later := executeToolPlan endpoint registry userId steps answers.tail
        ⟨done.executed ++ later.executed, done.issued || later.issued, later.succeeded⟩
      else ⟨done.executed, done.issued, false⟩

/-- `(value or "").strip()`, `none` where it raises. -/
def strippedText (value : Json) : Option String :=
  if value.truthy then value.string?.map stripText else some ""

def planParameters : List String :=
  ["code", "session_id", "language", "execution_timeout", "dry_run", "tool_plan", "__context__"]

/-- The plan that `handle_execute_code_plan` goes on to execute, if its arguments bind and
pass its checks. -/
def planToExecute (p : Python) (snapshot : Option (List String))
    (arguments : List (String × Json)) : Option (List Json) :=
  let given := Json.obj arguments
  let steps := (given.get "tool_plan").items
  let binds := arguments.all (fun entry => planParameters.contains entry.1) &&
    (given.get? "code").isSome
  match strippedText (given.get "code"), strippedText (given.get "language") with
  | some source, some language =>
      if binds = true ∧ source ≠ "" ∧ source.length ≤ maxCodeChars ∧
          (language = "" ∨ p.lower language = "python") ∧ p.accepts source = true ∧
          (given.get "dry_run").truthy = false ∧ planValid p.toBuiltins snapshot steps = true then
        some steps
      else none
  | _, _ => none

/-- What `handle_execute_code_plan` has done: `issued` is about skills in the plan, `bridged`
about the token of the code. -/
structure CodeRun where
  executed : List String := []
  issued : Bool := false
  bridged : Bool := false

/-- `handle_execute_code_plan`; `issues` says whether the token can be issued. -/
def handleExecuteCodePlan (p : Python) (endpoint : Bool) (registry : Registry) (userId : Uuid)
    (snapshot : Option (List String)) (arguments : List (String × Json)) (answers : List Answer)
    (issues : Bool) : CodeRun :=
  match planToExecute p snapshot arguments with
  | none => {}
  | some steps =>
      let ran := executeToolPlan p.toBuiltins endpoint registry userId steps answers
      ⟨ran.executed, ran.issued, ran.succeeded && endpoint && issues⟩

end Plan

def Registry.Reaches (registry : Registry) (userId : Uuid) (toolName : String) : Prop :=
  stripText toolName = toolName ∧ toolName ≠ "" ∧ toolName ∉ ownTools ∧
    registry.has userId toolName = true

section Reach

variable {b : Builtins} {endpoint : Bool} {registry : Registry} {userId : Uuid}

theorem stripText_planToolName (step : Json) :
    stripText (planToolName b step) = planToolName b step := stripText_stripText _

theorem Registry.mem_dispatchRealTool {toolName name : String} {answer : Answer}
    (mem : name ∈ (registry.dispatchRealTool b endpoint userId toolName answer).executed) :
    name = toolName ∧ registry.has userId toolName = true := by
  rw [dispatchRealTool] at mem
  split at mem
  · rename_i had
    exact ⟨List.mem_singleton.mp mem, had⟩
  · cases mem

theorem Registry.reaches_of_stepValid {step : Json} {answer : Answer} {name : String}
    (valid : stepValid b step = true)
    (mem : name ∈ (registry.dispatchRealTool b endpoint userId (planToolName b step)
      answer).executed) : registry.Reaches userId name := by
  obtain ⟨rfl, had⟩ := registry.mem_dispatchRealTool mem
  simp only [stepValid, Bool.and_eq_true, decide_eq_true_eq, Bool.not_eq_true'] at valid
  have fresh : planToolName b step ∉ ownTools := by simpa using valid.1.1.2
  exact ⟨stripText_planToolName step, valid.1.1.1.2, fresh, had⟩

theorem executeToolPlan_reaches {steps : List Json}
    (valid : ∀ step ∈ steps, stepValid b step = true) (answers : List Answer) :
    ∀ name ∈ (executeToolPlan b endpoint registry userId steps answers).executed,
      registry.Reaches userId name := by
  induction steps generalizing answers with
  | nil => simp [executeToolPlan]
  | cons step steps ih =>
    obtain ⟨here, later⟩ := List.forall_mem_cons.mp valid
    intro name mem
    rw [executeToolPlan] at mem
    dsimp only at mem
    split at mem <;> dsimp only at mem
    · rcases List.mem_append.mp mem with first | rest
      · exact registry.reaches_of_stepValid here first
      · exact ih later answers.tail name rest
    · exact registry.reaches_of_stepValid here mem

variable {p : Python} {snapshot : Option (List String)} {arguments : List (String × Json)}

theorem valid_of_planToExecute {steps : List Json}
    (planned : planToExecute p snapshot arguments = some steps) :
    ∀ step ∈ steps, stepValid p.toBuiltins step = true := by
  simp only [planToExecute] at planned
  split at planned
  · split at planned
    · rename_i passed
      cases planned
      have checked := passed.2.2.2.2.2.2
      simp only [planValid, Bool.and_eq_true, List.all_eq_true] at checked
      exact checked.1.2
    · cases planned
  · cases planned

theorem handleExecuteCodePlan_reaches (answers : List Answer) (issues : Bool) :
    ∀ name ∈ (handleExecuteCodePlan p endpoint registry userId snapshot arguments answers
      issues).executed, registry.Reaches userId name := by
  intro name mem
  unfold handleExecuteCodePlan at mem
  split at mem
  · cases mem
  · rename_i steps planned
    exact executeToolPlan_reaches (valid_of_planToExecute planned) answers name mem

end Reach

end Deeting.CodeMode
