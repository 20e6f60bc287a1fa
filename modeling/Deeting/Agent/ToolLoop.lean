import Deeting.Agent.Assistants

/-! `AgentExecutorStep.execute` as a machine: one action for each upstream call, for the look at
its response, for each tool call and for the end of a turn, and an exception at any point.
`on_failure` and `on_degrade` are what an exception leads to, as the step is never retried. -/
namespace Deeting.Agent

inductive Ending where
  /-- The result of the last upstream call is returned, a success. -/
  | finished
  | failed
  | degraded
  | aborted
  deriving DecidableEq, Repr

inductive Phase where
  | calling
  /-- The response is in the context and not looked at yet. -/
  | received
  | answering (calls : List PreparedCall)
  | ended (ending : Ending)

def Phase.running : Phase → Bool
  | .ended _ => false
  | _ => true

/-- The variables of `execute` and what it reads and writes of the context; the last four are
records of the run. -/
structure Loop where
  body : RequestBody
  baseTools : Json
  originalStream : Json
  maxTurns : ℤ
  turn : ℕ := 0
  injectedAssistantId : Json := .null
  phase : Phase := .calling
  /-- `assistant_activation.pending` and `.active`. -/
  pending : Json := .null
  active : Json := .null
  /-- `assistant.id`. -/
  assistantId : Json := .null
  /-- `upstream_call.response`. -/
  response : Json := .null
  /-- `_last_good_response`. -/
  lastGoodResponse : Json := .null
  /-- The message lists sent upstream. -/
  sent : List (List Json) := []
  /-- The responses looked at, and the one not looked at yet. -/
  read : List Json := []
  unread : Option Json := none
  /-- A transition was applied while calls of its turn had no answer. -/
  interrupted : Bool := false

/-- How `UpstreamCallStep.execute` ends: some failures and exceptions come before anything is
sent. -/
inductive UpstreamAnswer where
  | success (response : Json)
  | failed (sent : Bool)
  | raises (sent timeout : Bool)

structure ToolOutcome where
  result : ToolResult
  pending : Option Json := none
  assistantId : Option Json := none

inductive Action where
  | upstream (answer : UpstreamAnswer)
  | analyse
  | refuse
  | tool (outcome : ToolOutcome)
  | nextTurn (row : Option AssistantRow)
  | raises (timeout : Bool)

def requestedMaxTurns (b : Builtins) (own : ℤ) : Json → ℤ
  | .null => own
  | requested => b.coercePositiveInt requested own

def resolveMaxTurns (b : Builtins) (settings : AgentSettings) (request : RequestBody) : ℤ :=
  let own := b.coercePositiveInt (.int settings.maxTurns) 10
  let effective := requestedMaxTurns b own request.maxTurns
  let hardLimit := b.coercePositiveInt (.int settings.maxTurnsHardLimit) 60
  if hardLimit < effective then hardLimit else effective

/-- The response `on_degrade` makes up. -/
def timeoutResponse : Json :=
  .obj [("choices", .arr [.obj [
    ("index", .int 0),
    ("message", .obj [
      ("role", .str "assistant"),
      ("content", .str ("抱歉，处理您的请求时超时了。" ++
        "这可能是由于外部工具响应缓慢导致的，请稍后重试。"))]),
    ("finish_reason", .str "timeout")]])]

/-- `response["choices"][0]["message"]`, `none` where it raises. -/
def firstMessage (response : Json) : Option Json :=
  match response.get? "choices" with
  | some (.arr (choice :: _)) => choice.get? "message"
  | _ => none

namespace Loop

def finish (l : Loop) : Loop :=
  { l with body := { l.body with stream := l.originalStream }, phase := .ended .finished }

def toTurn (l : Loop) : Loop :=
  if l.turn < l.maxTurns then { l with phase := .calling } else l.finish

/-- `on_degrade`. -/
def degrade (l : Loop) : Loop :=
  { l with
    response := if l.lastGoodResponse.truthy then l.lastGoodResponse else timeoutResponse
    phase := .ended .degraded }

/-- `on_failure`. -/
def raise (l : Loop) (timeout : Bool) : Loop :=
  if timeout then l.degrade else { l with phase := .ended .aborted }

def send (l : Loop) : Loop := { l with sent := l.sent ++ [l.body.messages] }

def receive (l : Loop) (response : Json) : Loop :=
  { l with response, unread := some response, phase := .received }

def callUpstream (l : Loop) (answer : UpstreamAnswer) : Loop :=
  let l := { l with turn := l.turn + 1 }
  match answer with
  | .success response => l.send.receive response
  | .failed true => { l.send with phase := .ended .failed }
  | .failed false => { l with phase := .ended .failed }
  | .raises true timeout => l.send.raise timeout
  | .raises false timeout => l.raise timeout

def snapshot (l : Loop) : Loop :=
  { l with
    read := l.read ++ l.unread.toList
    unread := none
    lastGoodResponse := if l.response.truthy then l.response else l.lastGoodResponse }

def say (l : Loop) (message : Json) (calls : List PreparedCall) : Loop :=
  { l with
    body := { l.body with messages := l.body.messages ++ [message] }
    phase := .answering calls }

variable (b : Builtins)

def takeCalls (l : Loop) (message : Json) : Loop :=
  match prepareCalls b l.turn (message.get "tool_calls") with
  | none => l.raise false
  | some calls => l.say (assistantMessageForHistory message calls) calls

/-- The part of a turn between the response and the tools. -/
def analyse (l : Loop) : Loop :=
  let l := l.snapshot
  if l.response.truthy then
    match firstMessage l.response with
    | none => l.finish
    | some (.obj entries) =>
        if ((Json.obj entries).get "tool_calls").truthy then l.takeCalls b (.obj entries)
        else l.finish
    | some _ => l.raise false
  else l.finish

def refuse (l : Loop) (call : ToolCall) (error : String) (rest : List PreparedCall) : Loop :=
  l.say (toolMessage call (malformedContent error)) rest

/-- `_consume_pending_assistant_transition`, with `rest` of the calls still unanswered. -/
def consumePending (l : Loop) (rest : List PreparedCall) : Loop :=
  match transitionAction b l.pending with
  | some .activated =>
      { l with
        body := applyActivation b l.baseTools l.pending l.body
        active := l.pending
        injectedAssistantId := activatedId b l.pending
        pending := .null
        interrupted := l.interrupted || !rest.isEmpty }
  | some .deactivated =>
      { l with
        body := applyDeactivation l.baseTools l.body
        active := .null
        injectedAssistantId := .null
        pending := .null
        interrupted := l.interrupted || !rest.isEmpty }
  | none => { l with pending := if l.pending.isObj then .null else l.pending }

def affect (l : Loop) (outcome : ToolOutcome) : Loop :=
  { l with
    pending := outcome.pending.getD l.pending
    assistantId := outcome.assistantId.getD l.assistantId }

variable (settings : AgentSettings) (session : Session)

def record (l : Loop) (call : ToolCall) (rest : List PreparedCall) (result : ToolResult) : Loop :=
  match formatToolResult b result with
  | none => l.raise false
  | some text =>
      (l.say (toolMessage call (trimToolResultForHistory settings text)) rest).consumePending b rest

/-- One call of a turn; a tool that is not allowed leaves nothing behind. -/
def answer (l : Loop) (call : ToolCall) (rest : List PreparedCall) (outcome : ToolOutcome) :
    Loop :=
  match refusal b settings session (l.body.tools.getD .null) call with
  | some error => l.record b settings call rest (.json error)
  | none => (l.affect outcome).record b settings call rest outcome.result

def inject (l : Loop) (row : Option AssistantRow) : Loop :=
  if l.assistantId.truthy ∧ ¬ l.assistantId.same l.injectedAssistantId then
    { l with
      injectedAssistantId := l.assistantId
      body := injectAssistantMidLoop row l.body }
  else l

end Loop

section Run

variable (b : Builtins) (settings : AgentSettings) (session : Session)

def step (l : Loop) : Action → Option Loop
  | .upstream answer =>
      match l.phase with
      | .calling => some (l.callUpstream answer)
      | _ => none
  | .analyse =>
      match l.phase with
      | .received => some (l.analyse b)
      | _ => none
  | .refuse =>
      match l.phase with
      | .answering (call :: rest) =>
          call.parseError.map fun error => l.refuse call.toolCall error rest
      | _ => none
  | .tool outcome =>
      match l.phase with
      | .answering (call :: rest) =>
          if call.parseError = none then
            some (l.answer b settings session call.toolCall rest outcome)
          else none
      | _ => none
  | .nextTurn row =>
      match l.phase with
      | .answering [] => some (l.inject row).toTurn
      | _ => none
  | .raises timeout =>
      match l.phase with
      | .ended _ => none
      | _ => some (l.raise timeout)

inductive Steps (l : Loop) : Action → Loop → Prop where
  | upstream (answer : UpstreamAnswer) (phase : l.phase = .calling) :
      Steps l (.upstream answer) (l.callUpstream answer)
  | analyse (phase : l.phase = .received) : Steps l .analyse (l.analyse b)
  | refuse {call : PreparedCall} {rest : List PreparedCall} (error : String)
      (phase : l.phase = .answering (call :: rest)) :
      Steps l .refuse (l.refuse call.toolCall error rest)
  | tool {call : PreparedCall} {rest : List PreparedCall} (outcome : ToolOutcome)
      (phase : l.phase = .answering (call :: rest)) :
      Steps l (.tool outcome) (l.answer b settings session call.toolCall rest outcome)
  | nextTurn (row : Option AssistantRow) (phase : l.phase = .answering []) :
      Steps l (.nextTurn row) (l.inject row).toTurn
  | raises (timeout : Bool) (phase : ∀ ending, l.phase ≠ .ended ending) :
      Steps l (.raises timeout) (l.raise timeout)

variable {b settings session} in
theorem Steps.of_step {l m : Loop} {a : Action} (taken : step b settings session l a = some m) :
    Steps b settings session l a m := by
  cases a with
  | upstream answer =>
    rw [step] at taken
    split at taken
    · rename_i phase
      cases taken
      exact .upstream answer phase
    · cases taken
  | analyse =>
    rw [step] at taken
    split at taken
    · rename_i phase
      cases taken
      exact .analyse phase
    · cases taken
  | refuse =>
    rw [step] at taken
    split at taken
    · rename_i call rest phase
      obtain ⟨error, _, rfl⟩ := Option.map_eq_some_iff.mp taken
      exact .refuse error phase
    · cases taken
  | tool outcome =>
    rw [step] at taken
    split at taken
    · rename_i call rest phase
      split at taken
      · cases taken
        exact .tool outcome phase
      · cases taken
    · cases taken
  | nextTurn row =>
    rw [step] at taken
    split at taken
    · rename_i phase
      cases taken
      exact .nextTurn row phase
    · cases taken
  | raises timeout =>
    rw [step] at taken
    split at taken
    · cases taken
    · rename_i phase
      cases taken
      exact .raises timeout phase

def start (request : RequestBody) (assistantId : Json) : Loop :=
  Loop.toTurn
    { body := { request with stream := .bool false }
      baseTools := request.tools.getD (.arr [])
      originalStream := request.stream
      maxTurns := resolveMaxTurns b settings request
      assistantId }

end Run

section Turns

variable (b : Builtins) (settings : AgentSettings)

theorem Builtins.coercePositiveInt_pos {value : Json} {fallback : ℤ} (pos : 0 < fallback) :
    0 < b.coercePositiveInt value fallback := by
  rw [coercePositiveInt]
  split
  · split
    · assumption
    · exact pos
  · exact pos

theorem Builtins.requestedMaxTurns_pos {own : ℤ} {requested : Json} (pos : 0 < own) :
    0 < requestedMaxTurns b own requested := by
  unfold requestedMaxTurns
  split
  · exact pos
  · exact b.coercePositiveInt_pos pos

theorem resolveMaxTurns_pos (request : RequestBody) : 0 < resolveMaxTurns b settings request := by
  rw [resolveMaxTurns]
  split
  · exact b.coercePositiveInt_pos (by decide)
  · apply b.requestedMaxTurns_pos
    exact b.coercePositiveInt_pos (by decide)

theorem start_phase (request : RequestBody) (assistantId : Json) :
    (start b settings request assistantId).phase = .calling := by
  have pos := resolveMaxTurns_pos b settings request
  rw [start, Loop.toTurn, if_pos (by exact_mod_cast pos)]

/-- What only an upstream call and the look at its response write. -/
structure Loop.Keeps (l m : Loop) : Prop where
  sent : m.sent = l.sent
  read : m.read = l.read
  unread : m.unread = l.unread
  lastGood : m.lastGoodResponse = l.lastGoodResponse

namespace Loop

variable {l : Loop}

theorem Keeps.trans {m k : Loop} (first : l.Keeps m) (second : m.Keeps k) : l.Keeps k :=
  ⟨second.sent.trans first.sent, second.read.trans first.read, second.unread.trans first.unread,
    second.lastGood.trans first.lastGood⟩

theorem raise_keeps (timeout : Bool) : l.Keeps (l.raise timeout) := by
  unfold raise degrade
  split <;> exact ⟨rfl, rfl, rfl, rfl⟩

theorem finish_keeps : l.Keeps l.finish := ⟨rfl, rfl, rfl, rfl⟩

theorem toTurn_keeps : l.Keeps l.toTurn := by
  unfold toTurn
  split
  · exact ⟨rfl, rfl, rfl, rfl⟩
  · exact finish_keeps

theorem consumePending_keeps (rest : List PreparedCall) : l.Keeps (l.consumePending b rest) := by
  unfold consumePending
  split <;> exact ⟨rfl, rfl, rfl, rfl⟩

theorem consumePending_phase (rest : List PreparedCall) :
    (l.consumePending b rest).phase = l.phase ∧ (l.consumePending b rest).response = l.response := by
  unfold consumePending
  split <;> exact ⟨rfl, rfl⟩

variable {session : Session} {call : ToolCall} {rest : List PreparedCall}

theorem say_keeps (message : Json) (calls : List PreparedCall) : l.Keeps (l.say message calls) :=
  ⟨rfl, rfl, rfl, rfl⟩

theorem affect_keeps (outcome : ToolOutcome) : l.Keeps (l.affect outcome) := ⟨rfl, rfl, rfl, rfl⟩

theorem inject_keeps (row : Option AssistantRow) : l.Keeps (l.inject row) := by
  unfold inject
  split <;> exact ⟨rfl, rfl, rfl, rfl⟩

theorem record_keeps (result : ToolResult) : l.Keeps (l.record b settings call rest result) := by
  unfold record
  split
  · exact raise_keeps false
  · exact (say_keeps _ _).trans (consumePending_keeps b rest)

theorem answer_keeps (outcome : ToolOutcome) :
    l.Keeps (l.answer b settings session call rest outcome) := by
  unfold answer
  split
  · exact record_keeps b settings _
  · exact (affect_keeps outcome).trans (record_keeps b settings _)

theorem takeCalls_keeps (message : Json) : l.Keeps (l.takeCalls b message) := by
  unfold takeCalls
  split
  · exact raise_keeps false
  · exact say_keeps _ _

theorem analyse_keeps : l.snapshot.Keeps (l.analyse b) := by
  unfold analyse
  dsimp only
  split
  · split
    · exact finish_keeps
    · split
      · exact takeCalls_keeps b _
      · exact finish_keeps
    · exact raise_keeps false
  · exact finish_keeps

end Loop

end Turns

section Plain

/-- `json.dumps` on flat objects of plain texts. -/
def flatDumps : Json → String
  | .obj entries =>
      let field := fun (key, value) => "\"" ++ key ++ "\": \"" ++ (Json.string? value).getD "" ++ "\""
      "\x7b" ++ ", ".intercalate (entries.map field) ++ "\x7d"
  | _ => "null"

/-- Built-in functions that read back one set of arguments. -/
def flatBuiltins : Builtins where
  repr := flatDumps
  lower := String.toLower
  int := String.toInt?
  loads text :=
    if text = flatDumps (.obj [("reason", .str "tone")]) then
      .value (.obj [("reason", .str "tone")])
    else .malformed "Expecting value: line 1 column 1 (char 0)"
  dumps := flatDumps

def rawCall (id name : String) : Json :=
  .obj [("id", .str id), ("function", .obj [("name", .str name),
    ("arguments", .str (flatDumps (.obj [("reason", .str "tone")])))])]

def responseWith (message : List (String × Json)) (promptTokens completionTokens : ℤ) : Json :=
  .obj [("choices", .arr [.obj [("message", .obj message)]]),
    ("usage", .obj [("prompt_tokens", .int promptTokens),
      ("completion_tokens", .int completionTokens)])]

def asking (calls : List Json) : ℤ → ℤ → Json :=
  responseWith [("role", .str "assistant"), ("tool_calls", .arr calls)]

def saying (text : String) : ℤ → ℤ → Json :=
  responseWith [("role", .str "assistant"), ("content", .str text)]

def twoTurns (first second : Json) (outcomes : List ToolOutcome) : List Action :=
  [.upstream (.success first), .analyse] ++ outcomes.map .tool ++
    [.nextTurn none, .upstream (.success second), .analyse]

end Plain

end Deeting.Agent
