import Deeting.Agent.ToolLoop
import Deeting.Transition
import Mathlib.Algebra.BigOperators.Group.List.Basic
import Mathlib.Algebra.Group.Prod
import Mathlib.Algebra.Ring.Int.Defs

/-! The tokens a run of `AgentExecutorStep` is billed for: `ResponseTransformStep` reads them off
the one response it finds in the context, and `BillingStep` charges for them. -/
namespace Deeting.Agent
open Transition
open Deeting.Stream (orElse)

/-- How a response is brought to the common form, `none` where this raises: a decoder, or the
template of the provider. -/
abbrev Transform := Json → Option Json

structure Usage where
  promptTokens : ℤ
  completionTokens : ℤ
  totalTokens : ℤ
  deriving DecidableEq, Repr

/-- The token fields of `ctx.billing`. -/
structure BillingInfo where
  inputTokens : ℤ := 0
  outputTokens : ℤ := 0
  totalTokens : ℤ := 0
  deriving DecidableEq, Repr

section Extraction

variable (b : Builtins)

/-- `int(usage.get(key, default) or 0)`, `none` where it raises. -/
def tokenCount (usage : Json) (key : String) (default : ℤ) : Option ℤ :=
  b.toInt (orElse ((usage.get? key).getD (.int default)) (.int 0))

def openaiUsage (usage : Json) : Option Usage := do
  let promptTokens ← tokenCount b usage "prompt_tokens" 0
  let completionTokens ← tokenCount b usage "completion_tokens" 0
  let totalTokens ← tokenCount b usage "total_tokens" (promptTokens + completionTokens)
  return ⟨promptTokens, completionTokens, totalTokens⟩

def anthropicUsage (usage : Json) : Option Usage := do
  let promptTokens ← tokenCount b usage "input_tokens" 0
  let completionTokens ← tokenCount b usage "output_tokens" 0
  return ⟨promptTokens, completionTokens, promptTokens + completionTokens⟩

def geminiUsage (usageMeta : Json) : Option Usage := do
  let promptTokens ← tokenCount b usageMeta "promptTokenCount" 0
  let completionTokens ← tokenCount b usageMeta "candidatesTokenCount" 0
  let totalTokens ← tokenCount b usageMeta "totalTokenCount" 0
  return ⟨promptTokens, completionTokens, totalTokens⟩

/-- `_extract_usage`, `none` where it raises: on what has neither keys nor is empty. -/
def extractUsage (response : Json) : Option Usage :=
  let usage := objectOrEmpty (response.get "usage")
  let has := fun key => (usage.get? key).isSome
  if !response.truthy then some ⟨0, 0, 0⟩
  else if has "prompt_tokens" || has "completion_tokens" || has "total_tokens" then
    openaiUsage b usage
  else if has "input_tokens" || has "output_tokens" then anthropicUsage b usage
  else if response.isObj then
    let usageMeta := orElse (response.get "usageMetadata") (response.get "usage_metadata")
    if usageMeta.isObj then geminiUsage b usageMeta else some ⟨0, 0, 0⟩
  else none

end Extraction

section Charge

variable (b : Builtins) (transform : Transform)

/-- The part of `ResponseTransformStep.execute` on `ctx.billing`, for what is not streamed; a
missing response fails the run, and what it raises leaves the tokens as they are. -/
def responseTransform (response : Json) (billing : BillingInfo) : Option BillingInfo :=
  match response with
  | .null => none
  | response =>
      match (transform response).bind (extractUsage b) with
      | some usage => some ⟨usage.promptTokens, usage.completionTokens, usage.totalTokens⟩
      | none => some billing

/-- The input and output tokens `BillingStep.execute` charges for. -/
def chargeBasis (billing : BillingInfo) : ℤ × ℤ := (billing.inputTokens, billing.outputTokens)

/-- What a run that is over is charged for; after a failure the billing step is not reached. -/
def Loop.charged (l : Loop) : ℤ × ℤ :=
  match l.phase with
  | .ended .finished | .ended .degraded =>
      match responseTransform b transform l.response {} with
      | some billing => chargeBasis billing
      | none => 0
  | _ => 0

/-- The input and output tokens a response reports, as far as they can be read. -/
def reported (response : Json) : ℤ × ℤ :=
  match response with
  | .null => 0
  | response =>
      match (transform response).bind (extractUsage b) with
      | some usage => (usage.promptTokens, usage.completionTokens)
      | none => 0

def Action.response? : Action → Option Json
  | .upstream (.success response) => some response
  | _ => none

def answered (actions : List Action) : List Json := actions.filterMap Action.response?

def Loop.responses (l : Loop) : List Json := l.read ++ l.unread.toList

/-- The responses that are not handed on: of a run that is not cut off by a failure, all but the
last one looked at. -/
def Loop.dropped (l : Loop) : List Json :=
  match l.phase with
  | .ended .finished | .ended .degraded => l.read.dropLast ++ l.unread.toList
  | _ => l.responses

/-- The response of its own making that the loop hands on, after a timeout before any other. -/
def Loop.standIn (l : Loop) : List Json :=
  match l.phase with
  | .ended .degraded => if l.read.isEmpty then [timeoutResponse] else []
  | _ => []

theorem charge_of_response (response : Json) :
    ((responseTransform b transform response {}).map chargeBasis).getD 0 =
      reported b transform response := by
  unfold responseTransform reported
  split
  · rfl
  · split <;> rfl

theorem Loop.charged_of_response {l : Loop}
    (phase : l.phase = .ended .finished ∨ l.phase = .ended .degraded) :
    l.charged b transform = reported b transform l.response := by
  rw [← charge_of_response]
  unfold Loop.charged
  rcases phase with phase | phase
  all_goals
    rw [phase]
    cases responseTransform b transform l.response {} <;> rfl

end Charge

section Heard

variable {l m : Loop}

def Loop.Good (l : Loop) : Prop :=
  l.lastGoodResponse = l.read.getLast?.getD .null ∧ ∀ response ∈ l.read.getLast?, response.truthy

def Loop.Heard (l : Loop) : Prop :=
  match l.phase with
  | .calling => l.Good ∧ l.unread = none
  | .received => l.Good ∧ l.unread = some l.response
  | .answering _ => l.Good ∧ l.unread = none ∧ l.read.getLast? = some l.response
  | .ended .finished => l.unread = none ∧ l.read.getLast? = some l.response
  | .ended .degraded => l.response = l.read.getLast?.getD timeoutResponse
  | .ended .failed | .ended .aborted => True

theorem Loop.Keeps.good (keeps : l.Keeps m) (good : l.Good) : m.Good := by
  rw [Loop.Good, keeps.read, keeps.lastGood]
  exact good

theorem degrade_heard (good : l.Good) : l.degrade.Heard := by
  obtain ⟨last, truthy⟩ := good
  change l.degrade.response = l.read.getLast?.getD timeoutResponse
  unfold Loop.degrade
  rw [last]
  cases read : l.read.getLast? with
  | none => rfl
  | some response => exact if_pos (truthy response read)

theorem abort_heard : (l.raise false).Heard := trivial

theorem raise_heard (good : l.Good) (timeout : Bool) : (l.raise timeout).Heard := by
  cases timeout with
  | false => exact abort_heard
  | true => exact degrade_heard good

theorem heard_of_answering {calls rest : List PreparedCall} (phase : l.phase = .answering calls)
    (held : l.Heard) (keeps : l.Keeps m) (response : m.response = l.response)
    (goes : m.phase = .answering rest) : m.Heard := by
  rw [Loop.Heard, phase] at held
  obtain ⟨good, unread, last⟩ := held
  rw [Loop.Heard, goes]
  exact ⟨keeps.good good, keeps.unread.trans unread, by rw [keeps.read, response, last]⟩

theorem toTurn_heard {calls : List PreparedCall} (phase : l.phase = .answering calls)
    (held : l.Heard) : l.toTurn.Heard := by
  rw [Loop.Heard, phase] at held
  obtain ⟨good, unread, last⟩ := held
  unfold Loop.toTurn
  split
  · exact ⟨good, unread⟩
  · exact ⟨unread, last⟩

variable (b : Builtins) {settings : AgentSettings} {session : Session}

theorem record_heard {calls rest : List PreparedCall} {call : ToolCall} (result : ToolResult)
    (phase : l.phase = .answering calls) (held : l.Heard) :
    (l.record b settings call rest result).Heard := by
  have keeps : l.Keeps (l.record b settings call rest result) := Loop.record_keeps b settings result
  unfold Loop.record at keeps ⊢
  split
  · exact abort_heard
  · rename_i text formatted
    rw [formatted] at keeps
    obtain ⟨goes, response⟩ := Loop.consumePending_phase b rest (l := l.say _ rest)
    exact heard_of_answering phase held keeps response goes

theorem answer_heard {calls rest : List PreparedCall} {call : ToolCall} (outcome : ToolOutcome)
    (phase : l.phase = .answering calls) (held : l.Heard) :
    (l.answer b settings session call rest outcome).Heard := by
  unfold Loop.answer
  split
  · exact record_heard b _ phase held
  · apply record_heard b _ (l := l.affect outcome) phase
    exact heard_of_answering phase held (Loop.affect_keeps outcome) rfl phase

theorem inject_heard {calls : List PreparedCall} (row : Option AssistantRow)
    (phase : l.phase = .answering calls) (held : l.Heard) :
    (l.inject row).phase = .answering calls ∧ (l.inject row).Heard := by
  unfold Loop.inject
  split
  · exact ⟨phase, heard_of_answering phase held ⟨rfl, rfl, rfl, rfl⟩ rfl phase⟩
  · exact ⟨phase, held⟩

theorem snapshot_last (unread : l.unread = some l.response) :
    l.snapshot.read.getLast? = some l.response := by
  unfold Loop.snapshot
  rw [unread]
  exact List.getLast?_concat

theorem snapshot_good (unread : l.unread = some l.response) (truthy : l.response.truthy = true) :
    l.snapshot.Good := by
  have last := snapshot_last unread
  rw [Loop.Good, last]
  refine ⟨if_pos truthy, fun response listed => ?_⟩
  cases listed
  exact truthy

theorem analyse_heard (unread : l.unread = some l.response) : (l.analyse b).Heard := by
  have last := snapshot_last unread
  unfold Loop.analyse
  dsimp only
  split
  · rename_i truthy
    have good := snapshot_good unread truthy
    split
    · exact ⟨rfl, last⟩
    · split
      · unfold Loop.takeCalls
        split
        · exact abort_heard
        · exact ⟨good, rfl, last⟩
      · exact ⟨rfl, last⟩
    · exact abort_heard
  · exact ⟨rfl, last⟩

theorem Loop.Keeps.responses (keeps : l.Keeps m) : m.responses = l.responses := by
  rw [Loop.responses, keeps.read, keeps.unread]
  rfl

theorem callUpstream_heard (answer : UpstreamAnswer) (good : l.Good) :
    (l.callUpstream answer).Heard := by
  unfold Loop.callUpstream
  cases answer with
  | success response => exact ⟨good, rfl⟩
  | failed sent => cases sent <;> trivial
  | raises sent timeout =>
    cases sent
    all_goals
      apply raise_heard
      exact good

theorem Loop.Heard.good (held : l.Heard) (running : ∀ ending, l.phase ≠ .ended ending) :
    l.Good := by
  unfold Loop.Heard at held
  split at held
  · exact held.1
  · exact held.1
  · exact held.1
  all_goals
    rename_i phase
    exact absurd phase (running _)

theorem step_heard {a : Action} (held : l.Heard) (taken : step b settings session l a = some m) :
    m.Heard := by
  cases Steps.of_step taken with
  | upstream answer phase =>
    apply callUpstream_heard
    exact held.good (by simp [phase])
  | analyse phase =>
    rw [Loop.Heard, phase] at held
    exact analyse_heard b held.2
  | refuse error phase => exact heard_of_answering phase held (Loop.say_keeps _ _) rfl rfl
  | tool outcome phase => exact answer_heard b outcome phase held
  | nextTurn row phase =>
    obtain ⟨same, still⟩ := inject_heard row phase held
    exact toTurn_heard same still
  | raises timeout phase => exact raise_heard (held.good phase) timeout

theorem step_responses {a : Action} (held : l.Heard)
    (taken : step b settings session l a = some m) :
    m.responses = l.responses ++ a.response?.toList := by
  have kept : l.Keeps m → m.responses = l.responses ++ [] := by
    intro keeps
    rw [keeps.responses, List.append_nil]
  cases Steps.of_step taken with
  | upstream answer phase =>
    rw [Loop.Heard, phase] at held
    unfold Loop.callUpstream
    cases answer with
    | success response =>
      change l.read ++ [response] = l.read ++ l.unread.toList ++ [response]
      rw [held.2, Option.toList_none, List.append_nil]
    | failed sent => cases sent <;> exact (List.append_nil _).symm
    | raises sent timeout =>
      cases sent
      all_goals
        refine (Loop.raise_keeps timeout).responses.trans ?_
        exact (List.append_nil _).symm
  | analyse phase =>
    refine (Loop.analyse_keeps b).responses.trans ?_
    change l.read ++ l.unread.toList ++ [] = l.responses ++ []
    rfl
  | refuse error phase => exact kept (Loop.say_keeps _ _)
  | tool outcome phase => exact kept (Loop.answer_keeps b settings outcome)
  | nextTurn row phase => exact kept ((Loop.inject_keeps row).trans Loop.toTurn_keeps)
  | raises timeout phase => exact kept (Loop.raise_keeps timeout)

theorem run_responses {actions : List Action} (held : l.Heard)
    (reached : run (step b settings session) l actions = some m) :
    m.responses = l.responses ++ answered actions := by
  induction actions generalizing l with
  | nil =>
    cases reached
    exact (List.append_nil _).symm
  | cons a rest ih =>
    obtain ⟨next, taken, reached⟩ := run_cons_eq_some.mp reached
    rw [ih (step_heard b held taken) reached, step_responses b held taken, List.append_assoc]
    congr 1
    cases response : a.response? with
    | none => simp [answered, response]
    | some response => simp [answered, response]

theorem start_heard (request : RequestBody) (assistantId : Json) :
    (start b settings request assistantId).Heard ∧
      (start b settings request assistantId).responses = [] := by
  have phase := start_phase b settings request assistantId
  have keeps := Loop.toTurn_keeps (l :=
    { body := { request with stream := .bool false }
      baseTools := request.tools.getD (.arr [])
      originalStream := request.stream
      maxTurns := resolveMaxTurns b settings request
      assistantId })
  refine ⟨?_, keeps.responses⟩
  rw [Loop.Heard, phase]
  exact ⟨keeps.good ⟨rfl, nofun⟩, keeps.unread⟩

end Heard

section Billed

variable (b : Builtins) (settings : AgentSettings) (session : Session) (transform : Transform)

theorem sum_of_getLast? {read : List Json} {last : Json} (f : Json → ℤ × ℤ)
    (final : read.getLast? = some last) :
    (read.map f).sum = f last + (read.dropLast.map f).sum := by
  have split := List.dropLast_append_getLast? last final
  conv_lhs => rw [← split]
  rw [List.map_append, List.sum_append, List.map_singleton, List.sum_singleton, add_comm]

/-- What is charged and what is dropped make up what was reported, but for the tokens of a
response that came from nowhere. -/
theorem Loop.Heard.balance {l : Loop} (held : l.Heard) :
    l.charged b transform + (l.dropped.map (reported b transform)).sum =
      (l.responses.map (reported b transform)).sum +
        (l.standIn.map (reported b transform)).sum := by
  have unbilled : l.charged b transform = 0 → l.dropped = l.responses → l.standIn = [] →
      l.charged b transform + (l.dropped.map (reported b transform)).sum =
        (l.responses.map (reported b transform)).sum +
          (l.standIn.map (reported b transform)).sum := by
    intro charged dropped standIn
    rw [charged, dropped, standIn, List.map_nil, List.sum_nil, zero_add, add_zero]
  unfold Loop.Heard at held
  split at held
  case h_4 phase =>
    obtain ⟨unread, last⟩ := held
    rw [Loop.charged_of_response b transform (.inl phase)]
    simp only [Loop.dropped, Loop.standIn, Loop.responses, phase, List.map_append,
      List.sum_append, sum_of_getLast? _ last, List.map_nil, List.sum_nil, add_zero, add_assoc]
  case h_5 phase =>
    rw [Loop.charged_of_response b transform (.inr phase), held]
    simp only [Loop.dropped, Loop.standIn, Loop.responses, phase, List.map_append,
      List.sum_append]
    cases last : l.read.getLast? with
    | none =>
      rw [List.getLast?_eq_none_iff.mp last]
      simp [add_comm]
    | some response =>
      have nonempty : l.read.isEmpty = false := by
        cases read : l.read with
        | nil => rw [read] at last; cases last
        | cons _ _ => rfl
      rw [sum_of_getLast? _ last, nonempty]
      simp [add_assoc]
  all_goals
    rename_i phase
    apply unbilled <;> simp only [Loop.charged, Loop.dropped, Loop.standIn, phase]

/-- A run is charged for all tokens its responses report exactly when those not handed on to
`ResponseTransformStep` report none, or as many as the response that stands in. -/
theorem charged_eq_sum_iff (request : RequestBody) (assistantId : Json) (actions : List Action)
    (l : Loop) (reached : run (step b settings session) (start b settings request assistantId)
      actions = some l) :
    l.charged b transform = ((answered actions).map (reported b transform)).sum ↔
      (l.dropped.map (reported b transform)).sum = (l.standIn.map (reported b transform)).sum := by
  have entry : (start b settings request assistantId).Heard ∧ _ := start_heard b request assistantId
  obtain ⟨entered, silent⟩ := entry
  have held : l.Heard := run_preserves (step_heard b) entered reached
  have responses : l.responses = answered actions := by
    rw [run_responses b entered reached, silent, List.nil_append]
  have balance := held.balance b transform
  rw [responses] at balance
  constructor
  · intro whole
    rw [whole] at balance
    exact add_left_cancel balance
  · intro none_
    rw [none_] at balance
    exact add_right_cancel balance

end Billed

section TwoTurns

def userHello : RequestBody where
  messages := [.obj [("role", .str "user"), ("content", .str "hello")]]

def silentTurn : List Action :=
  twoTurns (asking [rawCall "c1" "search_sdk"] 0 0) (saying "done" 20 7)
    [{ result := .json (.str "found") }]

theorem silent_turn_charged : ∃ l, run (step flatBuiltins {} {})
      (start flatBuiltins {} userHello .null) silentTurn = some l ∧ l.phase.running = false ∧
    l.charged flatBuiltins some = ((answered silentTurn).map (reported flatBuiltins some)).sum ∧
    (answered silentTurn).length = 2 := by
  have run_ : (run (step flatBuiltins {} {}) (start flatBuiltins {} userHello .null)
      silentTurn).map (fun l => (l.phase.running, (l.dropped.map (reported flatBuiltins some)).sum,
        (l.standIn.map (reported flatBuiltins some)).sum)) = some (false, 0, 0) := by
    decide +kernel
  obtain ⟨l, reached, same⟩ := Option.map_eq_some_iff.mp run_
  simp only [Prod.mk.injEq] at same
  obtain ⟨stopped, dropped, standIn⟩ := same
  refine ⟨l, reached, stopped, ?_, by decide +kernel⟩
  apply (charged_eq_sum_iff flatBuiltins {} {} some userHello .null _ l reached).mpr
  rw [dropped, standIn]

def searching : List Action :=
  twoTurns (asking [rawCall "c1" "search_sdk"] 10 5) (saying "done" 20 7)
    [{ result := .json (.str "found") }]

/-- Of two turns of 10 and 5 and of 20 and 7 tokens, only the second is charged. -/
theorem last_turn_charged : ∃ l, run (step flatBuiltins {} {})
      (start flatBuiltins {} userHello .null) searching = some l ∧ l.phase.running = false ∧
    l.charged flatBuiltins some = (20, 7) ∧
    l.charged flatBuiltins some ≠ ((answered searching).map (reported flatBuiltins some)).sum := by
  have run_ : (run (step flatBuiltins {} {}) (start flatBuiltins {} userHello .null)
      searching).map (fun l => (l.phase.running, l.charged flatBuiltins some)) =
        some (false, 20, 7) := by
    decide +kernel
  obtain ⟨l, reached, same⟩ := Option.map_eq_some_iff.mp run_
  simp only [Prod.mk.injEq] at same
  obtain ⟨stopped, charged⟩ := same
  refine ⟨l, reached, stopped, charged, ?_⟩
  rw [charged]
  decide +kernel

end TwoTurns

end Deeting.Agent
