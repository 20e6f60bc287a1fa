import Deeting.Stream.Stripping

/-! Single tool calls of `AgentExecutorStep`: how a raw call of a response is made fit for the
history, which calls are not dispatched, and what a result becomes as a message. -/
namespace Deeting.Agent
open Deeting.Stream (strip strip_strip strip_of_plain orElse)

/-- What `json.loads` makes of a text: a value, a `JSONDecodeError`, another exception. -/
inductive Loaded where
  | value (j : Json)
  | malformed (error : String)
  | raises

/-- Built-in functions, as any functions of their kinds: `str` of what is no text, `str.lower`,
`int` of a text, `json.loads` and `json.dumps`. -/
structure Builtins where
  repr : Json → String
  lower : String → String
  int : String → Option ℤ
  loads : String → Loaded
  dumps : Json → String

structure AgentSettings where
  /-- `config.max_turns` of the step. -/
  maxTurns : ℤ := 10
  /-- `AGENT_EXECUTOR_MAX_TURNS_HARD_LIMIT`. -/
  maxTurnsHardLimit : ℤ := 60
  /-- `AGENT_TOOL_RESULT_MAX_CHARS`. -/
  toolResultMaxChars : ℤ := 12000
  /-- `CODE_MODE_DIRECT_TOOL_ALLOWLIST`. -/
  directAllowlist : String := "consult_expert_network"

def stripText (text : String) : String := String.ofList (strip text.toList)

theorem stripText_stripText (text : String) : stripText (stripText text) = stripText text := by
  rw [stripText, stripText, String.toList_ofList, strip_strip]

theorem stripText_of_plain {text : String} (plain : ∀ c ∈ text.toList, Stream.isSpace c = false) :
    stripText text = text := by
  rw [stripText, strip_of_plain plain, String.ofList_toList]

/-- `for … in`, `none` where it raises. -/
def iterate : Json → Option (List Json)
  | .arr items => some items
  | .str text => some (text.toList.map fun c => .str (String.singleton c))
  | .obj entries => some (entries.map fun entry => .str entry.1)
  | _ => none

def objectOrEmpty (j : Json) : Json := if j.isObj then j else .obj []

namespace Builtins

variable (b : Builtins)

/-- `str(j)`. -/
def str : Json → String
  | .str text => text
  | j => b.repr j

/-- `str(j or "").strip()`. -/
def text (j : Json) : String := stripText (b.str (orElse j (.str "")))

/-- `int(j)`, `none` where it raises. -/
def toInt : Json → Option ℤ
  | .bool value => some (if value then 1 else 0)
  | .int value => some value
  | .float value => some (value.num.tdiv value.den)
  | .str text => b.int text
  | _ => none

def coercePositiveInt (value : Json) (fallback : ℤ) : ℤ :=
  match b.toInt value with
  | some parsed => if 0 < parsed then parsed else fallback
  | none => fallback

end Builtins

section Prepare

structure ToolCall where
  id : String
  name : String
  arguments : Json

structure PreparedCall where
  toolCall : ToolCall
  argsStr : String
  parseError : Option String

def PreparedCall.historyToolCall (p : PreparedCall) : Json :=
  .obj [("id", .str p.toolCall.id), ("type", .str "function"),
    ("function", .obj [("name", .str p.toolCall.name), ("arguments", .str p.argsStr)])]

variable (b : Builtins)

def toolCallId (turn index : ℕ) (rawCall : Json) : String :=
  let id := rawCall.get "id"
  if id.truthy then b.str id else s!"tool_call_{turn}_{index}"

def toolCallName (rawCall function : Json) : String :=
  let name := b.text (orElse (function.get "name") (rawCall.get "name"))
  if name = "" then "__invalid_tool_name__" else name

def rawArguments (rawCall function : Json) : Json :=
  match function.get "arguments" with
  | .null => (rawCall.get? "arguments").getD (.obj [])
  | arguments => arguments

def argumentsText : Json → String
  | .str text => text
  | .null => b.dumps (.obj [])
  | arguments => b.dumps arguments

/-- `_prepare_tool_call`, `none` where it raises. -/
def prepareToolCall (turn index : ℕ) (tcRaw : Json) : Option PreparedCall :=
  let rawCall := objectOrEmpty tcRaw
  let function := objectOrEmpty (rawCall.get "function")
  let id := toolCallId b turn index rawCall
  let name := toolCallName b rawCall function
  let argsStr := argumentsText b (rawArguments rawCall function)
  match b.loads argsStr with
  | .value (.obj entries) => some ⟨⟨id, name, .obj entries⟩, argsStr, none⟩
  | .value loaded =>
      -- arguments must be an object for the handlers
      let parsed := Json.obj [("value", loaded)]
      some ⟨⟨id, name, parsed⟩, b.dumps parsed, none⟩
  | .malformed error => some ⟨⟨id, name, .obj []⟩, "\x7b\x7d", some error⟩
  | .raises => none

/-- The loop over `tool_calls` of a message. -/
def prepareCalls (turn : ℕ) (toolCallsRaw : Json) : Option (List PreparedCall) :=
  (iterate toolCallsRaw).bind fun raw =>
    raw.zipIdx.mapM fun (tcRaw, index) => prepareToolCall b turn index tcRaw

end Prepare

section Dispatch

/-- The session a run belongs to, and the tools a monitor allows it. -/
structure Session where
  sessionId : String := ""
  /-- `monitor.allowed_tools`. -/
  allowedTools : Json := .null

def codeModeToolNames : List String :=
  ["search_sdk", "execute_code_plan", "activate_assistant", "deactivate_assistant"]

def codeModeRequiredToolNames : List String := ["search_sdk", "execute_code_plan"]

variable (b : Builtins) (settings : AgentSettings)

/-- `_resolve_code_mode_direct_allowlist`. -/
def directAllowlist : List String :=
  let values := (settings.directAllowlist.splitOn ",").map stripText
  let normalized := (values.filter (· ≠ "")).map b.lower
  if normalized = [] then ["consult_expert_network"] else normalized

/-- The names `_is_code_mode_available` finds in one entry of `tools`. -/
def offeredNames (tool : Json) : List String :=
  if tool.isObj then
    let functionName := b.text ((tool.get "function").get "name")
    let name := b.text (tool.get "name")
    if (tool.get "function").isObj ∧ functionName ≠ "" then [functionName]
    else if name ≠ "" then [name] else []
  else []

/-- `_is_code_mode_available`. -/
def codeModeAvailable (tools : Json) : Bool :=
  let names := tools.items.flatMap (offeredNames b)
  codeModeRequiredToolNames.all names.contains

def shouldBlockDirectToolCall (tools : Json) (toolName : String) : Bool :=
  let name := b.lower (stripText toolName)
  name ≠ "" && codeModeAvailable b tools && !codeModeToolNames.contains name &&
    !(directAllowlist b settings).contains name

/-- `_resolve_monitor_allowed_tools`. -/
def monitorAllowedTools (session : Session) : Option (List String) :=
  if session.sessionId.startsWith "monitor:" then
    some ((session.allowedTools.items.map fun name => stripText (b.str name)).filter (· ≠ ""))
  else none

/-- `sorted` of a set. -/
def sortedNames (names : List String) : List String :=
  names.dedup.mergeSort fun x y => decide (x ≤ y)

def blockedResult (toolName : String) : Json :=
  let allowed := sortedNames (codeModeToolNames ++ directAllowlist b settings)
  let allowedStr := ", ".intercalate (allowed.map fun name => "`" ++ name ++ "`")
  .obj [("error", .str (s!"Direct tool call '{toolName}' is blocked while code mode is " ++
      s!"available. Allowed direct tools: {allowedStr}. " ++
      "Use `search_sdk` first, then execute once with `execute_code_plan`.")),
    ("error_code", .str "CODE_MODE_DIRECT_TOOL_BLOCKED")]

def notAllowedResult (toolName : String) (allowed : List String) : Json :=
  let allowedStr := if allowed = [] then "(empty)" else ", ".intercalate (sortedNames allowed)
  .obj [("error", .str (s!"Tool '{toolName}' is not allowed for this monitor task. " ++
      s!"Allowed tools: {allowedStr}")),
    ("error_code", .str "MONITOR_TOOL_NOT_ALLOWED")]

def refusal (session : Session) (tools : Json) (call : ToolCall) : Option Json :=
  let toolName := stripText call.name
  if shouldBlockDirectToolCall b settings tools toolName then
    some (blockedResult b settings toolName)
  else
    match monitorAllowedTools b session with
    | some allowed =>
        if toolName ∈ allowed then none else some (notAllowedResult toolName allowed)
    | none => none

end Dispatch

section Results

inductive ToolResult where
  | json (value : Json)
  | content (blocks : List (Option String))

variable (b : Builtins)

def itemText (item : Json) : Option Json :=
  if item.isObj then
    match item.get "type" with
    | .str "text" => some ((item.get? "text").getD (.str ""))
    | .str "image" => some (.str "[Image Content]")
    | _ => none
  else none

/-- `_format_tool_result`, `none` where it raises: on a text that is none, or on blocks of which
none is text. -/
def formatToolResult : ToolResult → Option String
  | .json .null => some "null"
  | .json (.arr items) =>
      let texts := items.filterMap itemText
      if texts = [] then some (b.dumps (.arr items))
      else (texts.mapM Json.string?).map "\n".intercalate
  | .json (.obj entries) => some (b.dumps (.obj entries))
  | .json value => some (b.str value)
  | .content blocks =>
      let texts := blocks.filterMap id
      if texts ≠ [] then some ("\n".intercalate texts)
      else if blocks = [] then some (b.dumps (.arr [])) else none

/-- The text `_trim_tool_result_for_history` keeps. -/
def trimToolResultForHistory (settings : AgentSettings) (result : String) : String :=
  let limit := (max 512 settings.toolResultMaxChars).toNat
  let length := result.length
  if length ≤ limit then result
  else
    let omitted := length - limit
    String.ofList (result.toList.take limit) ++
      s!"\n\n[tool_result_truncated omitted_chars={omitted} original_chars={length}]"

def toolMessage (call : ToolCall) (content : String) : Json :=
  .obj [("role", .str "tool"), ("tool_call_id", .str call.id), ("name", .str call.name),
    ("content", .str content)]

def malformedContent (error : String) : String :=
  s!"Error: Failed to parse tool call arguments as JSON: {error}. " ++
    "Please fix the JSON syntax and try again."

def assistantMessageForHistory (message : Json) (calls : List PreparedCall) : Json :=
  (message.set "role" (.str "assistant")).set "tool_calls"
    (.arr (calls.map PreparedCall.historyToolCall))

end Results

end Deeting.Agent
