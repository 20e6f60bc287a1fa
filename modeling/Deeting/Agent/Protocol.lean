import Deeting.Agent.ToolLoop
import Deeting.Transcript

/-! The message lists sent upstream in a run of `AgentExecutorStep`, against the protocol of tool
calls: a message with tool calls is followed by their answers, and by nothing before them. -/
namespace Deeting.Agent
open Transition Transcript

def view (message : Json) : Message (Option String) :=
  let role := (message.get "role").string?
  if role = some "assistant" then
    .ask ((message.get "tool_calls").items.map fun call => (call.get "id").string?)
  else if role = some "tool" then .answer (message.get "tool_call_id").string?
  else .other

def Paired (messages : List Json) : Prop := WellFormed (messages.map view)

structure PairedRequest extends RequestBody where
  paired : Paired messages

def Action.sends : Action → Bool
  | .upstream (.success _) | .upstream (.failed true) | .upstream (.raises true _) => true
  | _ => false

/-- Nothing is sent once a transition has come between a call and its answer. -/
def Uninterrupted (l : Loop) (a : Action) : Prop := a.sends = true → l.interrupted = false

instance (l : Loop) (a : Action) : Decidable (Uninterrupted l a) :=
  inferInstanceAs (Decidable (_ → _))

section Views

variable {call : ToolCall} {content : String}

@[simp] theorem view_toolMessage : view (toolMessage call content) = .answer (some call.id) := by
  simp [view, toolMessage, Json.get, Json.get?, Json.string?]

@[simp] theorem view_systemMessage : view (systemMessage content) = .other := by
  simp [view, systemMessage, Json.get, Json.get?, Json.string?]

theorem get_historyToolCall (call : PreparedCall) :
    (call.historyToolCall.get "id").string? = some call.toolCall.id := by
  simp [PreparedCall.historyToolCall, Json.get, Json.get?, Json.string?]

def callIds (calls : List PreparedCall) : List (Option String) :=
  calls.map fun call => some call.toolCall.id

theorem view_assistantMessage (entries : List (String × Json)) (calls : List PreparedCall) :
    view (assistantMessageForHistory (.obj entries) calls) = .ask (callIds calls) := by
  obtain ⟨withRole, eq⟩ : ∃ e, (Json.obj entries).set "role" (.str "assistant") = .obj e := ⟨_, rfl⟩
  have role : (assistantMessageForHistory (.obj entries) calls).get "role" = .str "assistant" := by
    rw [assistantMessageForHistory, eq, Json.get_set_of_ne (by decide), ← eq, Json.get_set]
  have toolCalls : (assistantMessageForHistory (.obj entries) calls).get "tool_calls" =
      .arr (calls.map PreparedCall.historyToolCall) := by
    rw [assistantMessageForHistory, eq, Json.get_set]
  unfold view
  rw [role]
  change Message.ask _ = _
  rw [toolCalls, Json.items, List.map_map]
  exact congrArg _ (List.map_congr_left fun call _ => get_historyToolCall call)

end Views

section Standing

def Loop.standing (l : Loop) : Option (List (Option String)) :=
  run owing [] (l.body.messages.map view)

def Phase.owed : Phase → List (Option String)
  | .answering calls => callIds calls
  | _ => []

def Loop.Owes (l : Loop) (owed : List (Option String)) : Prop :=
  l.standing = if l.interrupted then none else some owed

def Loop.Standing (l : Loop) : Prop := l.phase.running = true → l.Owes l.phase.owed

theorem paired_iff_standing {l : Loop} : Paired l.body.messages ↔ l.standing = some [] :=
  wellFormed_iff_scan

variable {l : Loop}

theorem Loop.Standing.ended {ending : Ending} (phase : l.phase = .ended ending) : l.Standing := by
  intro running
  rw [phase] at running
  cases running

theorem standing_append {message : Json} {later : Loop}
    (messages : later.body.messages = l.body.messages ++ [message]) :
    later.standing = l.standing.bind fun owed => owing owed (view message) := by
  rw [Loop.standing, messages, List.map_append, List.map_singleton, run_concat]
  rfl

theorem raise_standing (timeout : Bool) : (l.raise timeout).Standing := by
  unfold Loop.raise
  split
  · exact .ended rfl
  · exact .ended rfl

theorem toTurn_standing (standing : l.Owes []) : l.toTurn.Standing := by
  unfold Loop.toTurn
  split
  · exact fun _ => standing
  · exact .ended rfl

variable (b : Builtins)

theorem takeCalls_standing {entries : List (String × Json)}
    (standing : l.Owes []) :
    (l.takeCalls b (.obj entries)).Standing := by
  unfold Loop.takeCalls
  split
  · exact raise_standing false
  · rename_i calls prepared
    intro _
    rw [Loop.Owes, standing_append (l := l) rfl, standing, view_assistantMessage]
    change _ = if l.interrupted then none else some (callIds calls)
    split <;> rfl

theorem analyse_standing (standing : l.Owes []) :
    (l.analyse b).Standing := by
  unfold Loop.analyse
  dsimp only
  split
  · split
    · exact .ended rfl
    · split
      · exact takeCalls_standing b standing
      · exact .ended rfl
    · exact raise_standing false
  · exact .ended rfl

theorem say_standing {call : PreparedCall} {rest : List PreparedCall} {content : String}
    (standing : l.Owes (callIds (call :: rest))) :
    (l.say (toolMessage call.toolCall content) rest).Standing := by
  intro _
  rw [Loop.Owes, standing_append (l := l) rfl, standing, view_toolMessage]
  change _ = if l.interrupted then none else some (callIds rest)
  split
  · rfl
  · simp [callIds, owing]

theorem standing_transition {rest : List PreparedCall} {content : String} {later : Loop}
    (standing : l.Owes (callIds rest))
    (messages : later.body.messages = l.body.messages ++ [systemMessage content])
    (interrupted : later.interrupted = (l.interrupted || !rest.isEmpty))
    (phase : later.phase = .answering rest) : later.Standing := by
  intro _
  rw [Loop.Owes, standing_append messages, standing, view_systemMessage, interrupted, phase]
  cases rest with
  | nil => cases l.interrupted <;> rfl
  | cons call rest => cases l.interrupted <;> rfl

theorem consumePending_standing {rest : List PreparedCall} (phase : l.phase = .answering rest)
    (held : l.Standing) : (l.consumePending b rest).Standing := by
  have standing : l.Owes (callIds rest) := by
    have now := held (by rw [phase]; rfl)
    rwa [phase] at now
  unfold Loop.consumePending
  split
  · exact standing_transition standing rfl rfl phase
  · exact standing_transition standing rfl rfl phase
  · exact held

variable {settings : AgentSettings} {session : Session} {call : PreparedCall}
  {rest : List PreparedCall}

theorem record_standing (result : ToolResult)
    (standing : l.Owes (callIds (call :: rest))) :
    (l.record b settings call.toolCall rest result).Standing := by
  unfold Loop.record
  split
  · exact raise_standing false
  · apply consumePending_standing b rfl
    exact say_standing standing

theorem answer_standing (outcome : ToolOutcome)
    (standing : l.Owes (callIds (call :: rest))) :
    (l.answer b settings session call.toolCall rest outcome).Standing := by
  unfold Loop.answer
  split
  · exact record_standing b _ standing
  · exact record_standing (l := l.affect outcome) b _ standing

theorem inject_standing (row : Option AssistantRow) (standing : l.Owes []) :
    (l.inject row).Owes [] := by
  unfold Loop.inject
  split
  · rcases injectAssistantMidLoop_messages row l.body with same | ⟨content, added⟩
    · rw [Loop.Owes, Loop.standing, same]
      exact standing
    · rw [Loop.Owes, standing_append (l := l) added, standing, view_systemMessage]
      change _ = if l.interrupted then none else some []
      split <;> rfl
  · exact standing

end Standing

section Runs

variable {b : Builtins} {settings : AgentSettings} {session : Session} {l m : Loop} {a : Action}

theorem callUpstream_standing (answer : UpstreamAnswer) (standing : l.Owes []) :
    (l.callUpstream answer).Standing := by
  unfold Loop.callUpstream
  cases answer with
  | success response => exact fun _ => standing
  | failed sent => cases sent <;> exact .ended rfl
  | raises sent timeout => cases sent <;> exact raise_standing timeout

theorem step_standing (held : l.Standing) (taken : step b settings session l a = some m) :
    m.Standing := by
  have owes : ∀ {phase}, l.phase = phase → phase.running = true → l.Owes phase.owed := by
    rintro _ rfl running
    exact held running
  cases Steps.of_step taken with
  | upstream answer phase => exact callUpstream_standing answer (owes phase rfl)
  | analyse phase => exact analyse_standing b (owes phase rfl)
  | refuse error phase => exact say_standing (owes phase rfl)
  | tool outcome phase => exact answer_standing b outcome (owes phase rfl)
  | nextTurn row phase => exact toTurn_standing (inject_standing row (owes phase rfl))
  | raises timeout phase => exact raise_standing timeout

theorem step_sent (taken : step b settings session l a = some m) :
    (a.sends = true → l.phase = .calling) ∧
      m.sent = if a.sends then l.sent ++ [l.body.messages] else l.sent := by
  cases Steps.of_step taken with
  | upstream answer phase =>
    refine ⟨fun _ => phase, ?_⟩
    unfold Loop.callUpstream
    cases answer with
    | success response => rfl
    | failed sent => cases sent <;> rfl
    | raises sent timeout => cases sent <;> exact (Loop.raise_keeps timeout).sent
  | analyse phase => exact ⟨nofun, (Loop.analyse_keeps b).sent⟩
  | refuse error phase => exact ⟨nofun, rfl⟩
  | tool outcome phase => exact ⟨nofun, (Loop.answer_keeps b settings outcome).sent⟩
  | nextTurn row phase =>
    exact ⟨nofun, ((Loop.inject_keeps row).trans Loop.toTurn_keeps).sent⟩
  | raises timeout phase => exact ⟨nofun, (Loop.raise_keeps timeout).sent⟩

def Loop.AllPaired (l : Loop) : Prop := ∀ messages ∈ l.sent, Paired messages

theorem step_allPaired (held : l.Standing) (taken : step b settings session l a = some m) :
    m.AllPaired ↔ l.AllPaired ∧ Uninterrupted l a := by
  obtain ⟨calling, sent⟩ := step_sent taken
  rw [Loop.AllPaired, sent, Uninterrupted]
  cases sends : a.sends with
  | false => simp [Loop.AllPaired]
  | true =>
    have phase := calling sends
    have standing : l.Owes [] := by
      have now := held (by rw [phase]; rfl)
      rwa [phase] at now
    have current : Paired l.body.messages ↔ l.interrupted = false := by
      rw [paired_iff_standing, standing]
      cases l.interrupted <;> simp
    rw [if_pos rfl, List.forall_mem_append, List.forall_mem_singleton, current]
    exact and_congr_right fun _ => ⟨fun now _ => now, fun now => now rfl⟩

theorem start_standing (request : PairedRequest) (assistantId : Json) :
    (start b settings request.toRequestBody assistantId).Standing := by
  apply toTurn_standing
  exact paired_iff_standing.mp request.paired

/-- Every message list sent in a run is paired exactly when nothing is sent once a transition
has come between a call of a turn and its answer. -/
theorem allPaired_iff (request : PairedRequest) (assistantId : Json) (actions : List Action)
    (l : Loop) (reached : run (step b settings session)
      (start b settings request.toRequestBody assistantId) actions = some l) :
    (∀ messages ∈ l.sent, Paired messages) ↔
      Along (step b settings session) Uninterrupted
        (start b settings request.toRequestBody assistantId) actions := by
  have standing : (start b settings request.toRequestBody assistantId).Standing :=
    start_standing request assistantId
  constructor
  · intro paired
    refine (along_of_end (Q := Loop.AllPaired) step_standing ?_ standing reached paired).2
    exact fun held taken => (step_allPaired held taken).mp
  · intro admitted
    have kept : l.Standing ∧ l.AllPaired := by
      refine run_invariant (P := fun l => l.Standing ∧ l.AllPaired) ?_ ?_ admitted reached
      · rintro s a t ⟨held, paired⟩ ok taken
        exact ⟨step_standing held taken, (step_allPaired held taken).mpr ⟨paired, ok⟩⟩
      · refine ⟨standing, ?_⟩
        rw [Loop.AllPaired, start, Loop.toTurn_keeps.sent]
        exact List.forall_mem_nil _
    exact kept.2

end Runs

section Activation

def userRequest : PairedRequest where
  messages := [.obj [("role", .str "user"), ("content", .str "hello")]]
  paired := by
    rw [Paired]
    decide

/-- What the tool `activate_assistant` leaves and returns. -/
def activation : ToolOutcome :=
  let payload := Json.obj [("action", .str "activated"), ("assistant_id", .str "a1"),
    ("assistant_name", .str "Coach"), ("system_prompt", .str "Be brief.")]
  { result := .json payload, pending := some payload }

def activatingLast : List Action :=
  twoTurns (asking [rawCall "c1" "search_sdk", rawCall "c2" "activate_assistant"] 0 0)
    (saying "done" 0 0) [{ result := .json (.str "found") }, activation]

def activatingFirst : List Action :=
  twoTurns (asking [rawCall "c1" "activate_assistant", rawCall "c2" "search_sdk"] 0 0)
    (saying "done" 0 0) [activation, { result := .json (.str "found") }]

theorem allPaired_activatingLast : ∃ l, run (step flatBuiltins {} {})
    (start flatBuiltins {} userRequest.toRequestBody .null) activatingLast = some l ∧
    l.sent.length = 2 ∧ ∀ messages ∈ l.sent, Paired messages := by
  have sent : (run (step flatBuiltins {} {})
      (start flatBuiltins {} userRequest.toRequestBody .null) activatingLast).map
        (·.sent.length) = some 2 := by
    decide +kernel
  obtain ⟨l, reached, two⟩ := Option.map_eq_some_iff.mp sent
  exact ⟨l, reached, two, (allPaired_iff userRequest .null _ l reached).mpr (by decide +kernel)⟩

/-- The second list sent has the prompt of the assistant between the two answers. -/
theorem prompt_between_answers : ∃ l, run (step flatBuiltins {} {})
    (start flatBuiltins {} userRequest.toRequestBody .null) activatingFirst = some l ∧
    ¬ ∀ messages ∈ l.sent, Paired messages := by
  have sent : (run (step flatBuiltins {} {})
      (start flatBuiltins {} userRequest.toRequestBody .null) activatingFirst).map
        (fun l => l.sent.map (List.map view)) =
      some [[.other], [.other, .ask [some "c1", some "c2"], .answer (some "c1"), .other,
        .answer (some "c2")]] := by
    decide +kernel
  obtain ⟨l, reached, views⟩ := Option.map_eq_some_iff.mp sent
  refine ⟨l, reached, fun paired => ?_⟩
  obtain ⟨messages, listed, view⟩ := List.mem_map.mp (views ▸ List.mem_cons_of_mem _ (.head _))
  have wf := paired messages listed
  rw [Paired, view] at wf
  revert wf
  decide

end Activation

end Deeting.Agent
