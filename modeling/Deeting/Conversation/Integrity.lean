import Mathlib.Data.List.Range
import Deeting.Transition
import Deeting.Conversation.Window

/-! Scripts that append and deletions in progress, in any order. A deletion writes back by
position; the position is right for as long as nothing has been trimmed since it was read. -/
namespace Deeting.Conversation

open Transition

/-- How far a deletion has come: asked for, its message found, the copy written, answered.
With a message found goes what had been trimmed by then, which is only for the statements. -/
inductive Call where
  | idle
  | delete (turn : ℕ)
  | deleteLast
  | found (turn : ℕ) (message : Message) (position : ℕ) (seen : ℕ)
  | written (turn : ℕ) (tokens : ℕ)
  | returned (result : Deletion)
  deriving DecidableEq

def Call.marks : Call → Option ℕ
  | .written turn _ | .returned (.deleted turn) => some turn
  | _ => none

/-- The keys and the deletions, with all messages ever pushed, the number of those trimmed
and the channel last appended to. -/
structure Window extends Session where
  channel : ConversationChannel
  history : List Message
  trimmed : ℕ
  calls : ℕ → Call

def Window.initial (channel : ConversationChannel) : Window :=
  ⟨.empty, channel, [], 0, fun _ => .idle⟩

inductive Action where
  | append (channel : ConversationChannel) (draft : Draft)
  | deleteMessage (n turn : ℕ)
  | deleteLastAssistantMessage (n : ℕ)
  | lrange (n : ℕ)
  | lset (n : ℕ)
  | hincrby (n : ℕ)

def Window.call (w : Window) (n : ℕ) (c : Call) : Window :=
  { w with calls := Function.update w.calls n c }

def Window.append (settings : Settings) (w : Window) (channel : ConversationChannel)
    (draft : Draft) : Window :=
  let message := draft.stored (w.lastTurn + 1)
  { w with
    toSession := (w.appendLua settings channel draft).1
    channel
    history := w.history ++ [message]
    trimmed := w.trimmed + trimStart settings channel (w.msgs ++ [message]) }

/-- The copy is written, and the deletion goes on to the counter. -/
def Window.write (w : Window) (n turn : ℕ) (message : Message) (position : ℕ) : Window :=
  { w with msgs := w.msgs.set position message.deleted }.call n
    (.written turn message.tokenEstimate)

def step (settings : Settings) (w : Window) : Action → Option Window
  | .append channel draft => some (w.append settings channel draft)
  | .deleteMessage n turn =>
    match w.calls n with
    | .idle => some (w.call n (.delete turn))
    | _ => none
  | .deleteLastAssistantMessage n =>
    match w.calls n with
    | .idle => some (w.call n .deleteLast)
    | _ => none
  | .lrange n =>
    match w.calls n with
    | .delete turn =>
      match w.target turn with
      | none => some (w.call n (.returned .missing))
      | some (message, position) => some (w.call n (.found turn message position w.trimmed))
    | .deleteLast =>
      match w.lastAssistant with
      | none => some (w.call n (.returned .missing))
      | some turn => some (w.call n (.delete turn))
    | _ => none
  | .lset n =>
    match w.calls n with
    | .found turn message position _ =>
      match w.toSession.lset position message.deleted with
      | none => some (w.call n (.returned .outOfRange))
      | some s => some ({ w with toSession := s }.call n (.written turn message.tokenEstimate))
    | _ => none
  | .hincrby n =>
    match w.calls n with
    | .written turn tokens =>
      some ({ w with toSession := w.toSession.hincrby (-tokens) }.call n
        (.returned (.deleted turn)))
    | _ => none

def Window.Named (w : Window) (turn : ℕ) : Prop := ∃ n, (w.calls n).marks = some turn

structure Window.Intact (settings : Settings) (w : Window) : Prop where
  /-- The turns are consecutive and end at the last one. -/
  consecutive : ∃ first, w.msgs.map (·.turnIndex) = List.range' first w.msgs.length ∧
    first + w.msgs.length = w.lastTurn + 1
  bounded : (w.msgs.length : ℤ) ≤ settings.maxTurnsOverflow w.channel
  /-- Nothing has been lost but what the scripts have trimmed from the front. -/
  kept : w.msgs.map Message.pushed = w.history.drop w.trimmed
  marked : ∀ message ∈ w.msgs, message.isDeleted = true ↔ w.Named message.turnIndex

/-- No script has trimmed the list since the deletion read it, or the position it found is
now past the end. -/
def Window.Writable (w : Window) : Action → Prop
  | .lset n => ∀ turn message position seen, w.calls n = .found turn message position seen →
    seen = w.trimmed ∨ w.msgs.length ≤ position
  | _ => True

/-- What every run keeps that has only written where it had read. -/
structure Coherent (settings : Settings) (w : Window) : Prop where
  counted : w.trimmed + w.msgs.length = w.lastTurn
  bounded : (w.msgs.length : ℤ) ≤ settings.maxTurnsOverflow w.channel
  pushed : w.msgs.map Message.pushed = w.history.drop w.trimmed
  numbered : w.history.map (·.turnIndex) = List.range' 1 w.lastTurn
  marked : ∀ message ∈ w.msgs, message.isDeleted = true ↔ w.Named message.turnIndex
  named : ∀ turn, w.Named turn → turn ≤ w.lastTurn
  held : ∀ n turn message position seen, w.calls n = .found turn message position seen →
    seen ≤ w.trimmed ∧ w.history[seen + position]? = some message ∧ message.turnIndex = turn

section Steps

variable {settings : Settings} {w t : Window} {a : Action}

theorem call_self {n : ℕ} {c : Call} : (w.call n c).calls n = c := Function.update_self ..

theorem call_of_ne {n k : ℕ} {c : Call} (other : k ≠ n) : (w.call n c).calls k = w.calls k :=
  Function.update_of_ne other ..

theorem named_call {n : ℕ} {c : Call} {turn : ℕ} :
    (w.call n c).Named turn ↔
      c.marks = some turn ∨ ∃ k, k ≠ n ∧ (w.calls k).marks = some turn := by
  constructor
  · rintro ⟨k, marks⟩
    by_cases same : k = n
    · subst same
      rw [call_self] at marks
      exact Or.inl marks
    · rw [call_of_ne same] at marks
      exact Or.inr ⟨k, same, marks⟩
  · rintro (marks | ⟨k, other, marks⟩)
    · exact ⟨n, call_self.symm ▸ marks⟩
    · exact ⟨k, (call_of_ne other).symm ▸ marks⟩

theorem named_call_of_same {n : ℕ} {c : Call} (same : c.marks = (w.calls n).marks) (turn : ℕ) :
    (w.call n c).Named turn ↔ w.Named turn := by
  rw [named_call, same]
  constructor
  · rintro (marks | ⟨k, _, marks⟩)
    · exact ⟨n, marks⟩
    · exact ⟨k, marks⟩
  · rintro ⟨k, marks⟩
    by_cases here : k = n
    · exact Or.inl (here ▸ marks)
    · exact Or.inr ⟨k, here, marks⟩

/-- One deletion has moved on, and neither the list nor the marks have changed. A message it
has found is in the window as it stands. -/
inductive Moves (w : Window) : Window → Prop where
  | call (n : ℕ) (c : Call) (tokens : ℤ) (same : c.marks = (w.calls n).marks)
      (finds : ∀ turn message position seen, c = .found turn message position seen →
        seen = w.trimmed ∧ w.target turn = some (message, position)) :
      Moves w ({ w with totalTokens := tokens }.call n c)

theorem moves_call {n : ℕ} {c before : Call} (tokens : ℤ) (called : w.calls n = before)
    (same : c.marks = before.marks)
    (elsewhere : ∀ turn message position seen, c ≠ .found turn message position seen) :
    Moves w ({ w with totalTokens := tokens }.call n c) := by
  refine .call n c tokens (by rw [called]; exact same) ?_
  intro turn message position seen found
  exact absurd found (elsewhere turn message position seen)

theorem moves_found {n turn position : ℕ} {message : Message} (called : w.calls n = .delete turn)
    (searched : w.target turn = some (message, position)) :
    Moves w (w.call n (.found turn message position w.trimmed)) := by
  refine .call n _ w.totalTokens (by rw [called]; rfl) ?_
  intro _ _ _ _ found
  cases found
  exact ⟨rfl, searched⟩

theorem moves_lrange {n : ℕ} (taken : step settings w (.lrange n) = some t) : Moves w t := by
  simp only [step] at taken
  split at taken
  · rename_i turn called
    split at taken
    · cases taken
      exact moves_call w.totalTokens called rfl (by intro _ _ _ _ found; cases found)
    · rename_i message position searched
      cases taken
      exact moves_found called searched
  · rename_i called
    split at taken
    · cases taken
      exact moves_call w.totalTokens called rfl (by intro _ _ _ _ found; cases found)
    · cases taken
      exact moves_call w.totalTokens called rfl (by intro _ _ _ _ found; cases found)
  · cases taken

theorem lset_cases {n : ℕ} (taken : step settings w (.lset n) = some t) :
    ∃ turn message position seen, w.calls n = .found turn message position seen ∧
      (w.msgs.length ≤ position ∧ Moves w t ∨
        position < w.msgs.length ∧ t = w.write n turn message position) := by
  simp only [step] at taken
  split at taken
  · rename_i turn message position seen called
    refine ⟨turn, message, position, seen, called, ?_⟩
    split at taken
    · rename_i failed
      cases taken
      exact .inl ⟨lset_eq_none failed,
        moves_call w.totalTokens called rfl (by intro _ _ _ _ found; cases found)⟩
    · rename_i s written
      obtain ⟨within, rfl⟩ := lset_eq_some written
      cases taken
      exact .inr ⟨within, rfl⟩
  · cases taken

theorem step_cases (taken : step settings w a = some t) :
    (∃ channel draft, a = .append channel draft ∧ t = w.append settings channel draft) ∨
    (Moves w t ∧ w.Writable a) ∨
    (∃ n turn message position seen, a = .lset n ∧
      w.calls n = .found turn message position seen ∧ position < w.msgs.length ∧
      t = w.write n turn message position) := by
  cases a with
  | append channel draft =>
    cases taken
    exact .inl ⟨channel, draft, rfl, rfl⟩
  | deleteMessage n turn =>
    simp only [step] at taken
    split at taken
    · rename_i idle
      cases taken
      refine .inr (.inl ⟨moves_call w.totalTokens idle rfl ?_, trivial⟩)
      intro _ _ _ _ found
      cases found
    · cases taken
  | deleteLastAssistantMessage n =>
    simp only [step] at taken
    split at taken
    · rename_i idle
      cases taken
      refine .inr (.inl ⟨moves_call w.totalTokens idle rfl ?_, trivial⟩)
      intro _ _ _ _ found
      cases found
    · cases taken
  | lrange n => exact .inr (.inl ⟨moves_lrange taken, trivial⟩)
  | lset n =>
    obtain ⟨turn, message, position, seen, called, ⟨past, moves⟩ | ⟨within, same⟩⟩ :=
      lset_cases taken
    · refine .inr (.inl ⟨moves, ?_⟩)
      intro _ _ _ _ again
      rw [called] at again
      cases again
      exact .inr past
    · exact .inr (.inr ⟨n, turn, message, position, seen, rfl, called, within, same⟩)
  | hincrby n =>
    simp only [step] at taken
    split at taken
    · rename_i turn tokens called
      cases taken
      refine .inr (.inl ⟨moves_call (w.totalTokens + -tokens) called rfl ?_, trivial⟩)
      intro _ _ _ _ found
      cases found
    · cases taken

end Steps

section Invariant

variable {settings : Settings} {w t : Window}

theorem coherent_initial (channel : ConversationChannel) :
    Coherent settings (.initial channel) where
  counted := rfl
  bounded := Int.le_trans (Int.natCast_nonneg (settings.activeWindowTurns channel))
    (Int.le_max_left _ _)
  pushed := rfl
  numbered := rfl
  marked := by
    intro message listed
    cases listed
  named := by
    rintro turn ⟨n, marks⟩
    cases marks
  held := by
    intro n turn message position seen found
    cases found

theorem Coherent.length_history (coherent : Coherent settings w) :
    w.history.length = w.lastTurn := by
  have same := congrArg List.length coherent.numbered
  simpa only [List.length_map, List.length_range'] using same

theorem Coherent.history_turn (coherent : Coherent settings w) {message : Message} {i : ℕ}
    (pushed : w.history[i]? = some message) : message.turnIndex = i + 1 := by
  have same := congrArg (·[i]?) coherent.numbered
  have within := (List.getElem?_eq_some_iff.mp pushed).1
  rw [coherent.length_history] at within
  simp only [List.getElem?_map, pushed, Option.map_some, List.getElem?_range' within,
    Option.some.injEq] at same
  omega

theorem Coherent.turns (coherent : Coherent settings w) :
    w.msgs.map (·.turnIndex) = List.range' (w.trimmed + 1) w.msgs.length := by
  have counted := coherent.counted
  have same := congrArg (List.map (·.turnIndex)) coherent.pushed
  rw [List.map_map, List.map_drop, coherent.numbered, List.drop_range'] at same
  have length : w.lastTurn - w.trimmed = w.msgs.length := by omega
  rw [length, Nat.add_comm 1, Nat.mul_one] at same
  exact same

theorem Coherent.turn_at (coherent : Coherent settings w) {message : Message} {i : ℕ}
    (listed : w.msgs[i]? = some message) : message.turnIndex = w.trimmed + i + 1 := by
  have same := congrArg (·[i]?) coherent.turns
  have within := (List.getElem?_eq_some_iff.mp listed).1
  simp only [List.getElem?_map, listed, Option.map_some, List.getElem?_range' within,
    Option.some.injEq] at same
  omega

theorem Coherent.intact (coherent : Coherent settings w) : w.Intact settings where
  consecutive := by
    have counted := coherent.counted
    exact ⟨w.trimmed + 1, coherent.turns, by omega⟩
  bounded := coherent.bounded
  kept := coherent.pushed
  marked := coherent.marked

theorem Coherent.append (coherent : Coherent settings w) (channel : ConversationChannel)
    (draft : Draft) : Coherent settings (w.append settings channel draft) := by
  have counted := coherent.counted
  have length := coherent.length_history
  have short := trimStart_le settings channel
    (w.msgs ++ [draft.stored (w.lastTurn + 1)])
  have bounded := length_sub_trimStart settings channel
    (w.msgs ++ [draft.stored (w.lastTurn + 1)])
  rw [List.length_append, List.length_singleton] at short
  constructor
  · simp only [Window.append, Session.appendLua, List.length_drop, List.length_append,
      List.length_singleton]
    omega
  · simp only [Window.append, Session.appendLua, List.length_drop]
    exact bounded
  · simp only [Window.append, Session.appendLua, List.map_drop, List.map_append,
      coherent.pushed, List.map_singleton, pushed_of_live stored_isDeleted]
    rw [← List.drop_append_of_le_length (by omega), List.drop_drop]
  · simp only [Window.append, Session.appendLua, List.map_append, coherent.numbered,
      List.map_singleton, stored_turnIndex]
    rw [List.range'_1_concat, Nat.add_comm 1]
  · intro message listed
    rcases List.mem_append.mp (List.mem_of_mem_drop listed) with old | new
    · exact coherent.marked message old
    · rw [List.mem_singleton.mp new, stored_isDeleted, stored_turnIndex]
      constructor
      · intro marked
        cases marked
      · intro marked
        have early := coherent.named _ marked
        omega
  · intro turn marks
    exact (coherent.named turn marks).trans (Nat.le_succ _)
  · intro n turn message position seen found
    obtain ⟨earlier, pushed, named⟩ := coherent.held n turn message position seen found
    have within := (List.getElem?_eq_some_iff.mp pushed).1
    refine ⟨earlier.trans (Nat.le_add_right _ _), ?_, named⟩
    exact (List.getElem?_append_left within).trans pushed

theorem Coherent.moves (coherent : Coherent settings w) (moves : Moves w t) :
    Coherent settings t := by
  obtain ⟨n, c, tokens, same, finds⟩ := moves
  have names := named_call_of_same (w := { w with totalTokens := tokens }) same
  constructor
  · exact coherent.counted
  · exact coherent.bounded
  · exact coherent.pushed
  · exact coherent.numbered
  · intro message listed
    rw [names]
    exact coherent.marked message listed
  · intro turn marks
    exact coherent.named turn ((names turn).mp marks)
  · intro k turn message position seen found
    by_cases here : k = n
    · subst here
      rw [call_self] at found
      obtain ⟨rfl, searched⟩ := finds turn message position seen found
      obtain ⟨listed, named, live⟩ := target_spec searched
      have pushed := congrArg (·[position]?) coherent.pushed
      simp only [List.getElem?_map, listed, Option.map_some, pushed_of_live live,
        List.getElem?_drop] at pushed
      exact ⟨le_rfl, pushed.symm, named⟩
    · rw [call_of_ne here] at found
      exact coherent.held k turn message position seen found

section Write

variable {n turn position seen : ℕ} {message : Message}

theorem named_write (found : w.calls n = .found turn message position seen) (other : ℕ) :
    (w.write n turn message position).Named other ↔ turn = other ∨ w.Named other := by
  rw [Window.write, named_call]
  constructor
  · rintro (same | ⟨k, _, marks⟩)
    · exact .inl (Option.some.inj same)
    · exact .inr ⟨k, marks⟩
  · rintro (rfl | ⟨k, marks⟩)
    · exact .inl rfl
    · refine .inr ⟨k, fun same => ?_, marks⟩
      rw [same, found] at marks
      cases marks

theorem Coherent.pushed_at (coherent : Coherent settings w)
    (found : w.calls n = .found turn message position w.trimmed) :
    (w.msgs.map Message.pushed)[position]? = some message := by
  rw [coherent.pushed, List.getElem?_drop]
  exact (coherent.held n turn message position w.trimmed found).2.1

theorem pushed_write (here : (w.msgs.map Message.pushed)[position]? = some message) :
    (w.msgs.set position message.deleted).map Message.pushed = w.msgs.map Message.pushed := by
  have within := (List.getElem?_eq_some_iff.mp here).1
  have same : message.deleted.pushed = message := by
    rw [List.length_map] at within
    rw [List.getElem?_map, List.getElem?_eq_getElem within, Option.map_some,
      Option.some.injEq] at here
    rw [← here]
    rfl
  rw [List.map_set, same]
  apply List.ext_getElem?
  intro i
  by_cases at_i : position = i
  · rw [← at_i, List.getElem?_set_self within, here]
  · rw [List.getElem?_set_ne at_i]

/-- Where nothing was trimmed in between, the copy written is of the message it replaces. -/
theorem Coherent.write (coherent : Coherent settings w)
    (found : w.calls n = .found turn message position seen) (within : position < w.msgs.length)
    (current : seen = w.trimmed) : Coherent settings (w.write n turn message position) := by
  obtain ⟨_, pushed, named⟩ := coherent.held n turn message position seen found
  subst current
  have counted := coherent.counted
  have place : turn = w.trimmed + position + 1 := named.symm.trans (coherent.history_turn pushed)
  constructor
  · exact (List.length_set ..).symm ▸ counted
  · exact (List.length_set ..).symm ▸ coherent.bounded
  · exact (pushed_write (coherent.pushed_at found)).trans coherent.pushed
  · exact coherent.numbered
  · intro other listed
    rw [named_write found]
    obtain ⟨i, at_i⟩ := List.mem_iff_getElem?.mp listed
    rw [Window.write, Window.call] at at_i
    by_cases there : position = i
    · rw [← there, List.getElem?_set_self within, Option.some.injEq] at at_i
      rw [← at_i, deleted_isDeleted, deleted_turnIndex, named]
      exact ⟨fun _ => .inl rfl, fun _ => rfl⟩
    · rw [List.getElem?_set_ne there] at at_i
      rw [coherent.marked other (List.mem_of_getElem? at_i)]
      have apart := coherent.turn_at at_i
      constructor
      · exact .inr
      · rintro (same | marks)
        · omega
        · exact marks
  · intro other marked
    have last : turn ≤ w.lastTurn := by omega
    rcases (named_write found other).mp marked with rfl | old
    · exact last
    · exact coherent.named other old
  · intro k _ _ _ _ again
    by_cases same : k = n
    · rw [same, Window.write, call_self] at again
      cases again
    · rw [Window.write, call_of_ne same] at again
      exact coherent.held k _ _ _ _ again

/-- A copy written elsewhere breaks the numbering, which fixes the turn at each position. -/
theorem Coherent.current_of_intact (coherent : Coherent settings w)
    (found : w.calls n = .found turn message position seen) (within : position < w.msgs.length)
    (intact : (w.write n turn message position).Intact settings) : seen = w.trimmed := by
  obtain ⟨_, pushed, _⟩ := coherent.held n turn message position seen found
  have written := coherent.history_turn pushed
  have counted := coherent.counted
  obtain ⟨first, turns, last⟩ := intact.consecutive
  have there := congrArg (·[position]?) turns
  simp only [Window.write, Window.call, List.length_set] at there last
  rw [List.getElem?_map, List.getElem?_set, if_pos rfl, if_pos within,
    List.getElem?_range' within, Option.map_some, Option.some.injEq, deleted_turnIndex] at there
  omega

end Write

theorem Coherent.step {a : Action} (coherent : Coherent settings w) (writable : w.Writable a)
    (taken : Conversation.step settings w a = some t) : Coherent settings t := by
  obtain ⟨channel, draft, rfl, rfl⟩ | ⟨moves, _⟩ |
    ⟨n, turn, message, position, seen, rfl, found, within, rfl⟩ := step_cases taken
  · exact coherent.append channel draft
  · exact coherent.moves moves
  · rcases writable turn message position seen found with current | past
    · exact coherent.write found within current
    · omega

theorem Coherent.writable {a : Action} (coherent : Coherent settings w)
    (taken : Conversation.step settings w a = some t) (intact : t.Intact settings) :
    w.Writable a := by
  obtain ⟨channel, draft, rfl, rfl⟩ | ⟨_, writable⟩ |
    ⟨n, turn, message, position, seen, rfl, found, within, rfl⟩ := step_cases taken
  · trivial
  · exact writable
  · intro _ _ _ _ again
    rw [found] at again
    cases again
    exact Or.inl (coherent.current_of_intact found within intact)

theorem writable_of_stuck {a : Action} (stuck : Conversation.step settings w a = none) :
    w.Writable a := by
  cases a with
  | lset n =>
    intro turn message position seen found
    rw [Conversation.step, found] at stuck
    dsimp only at stuck
    split at stuck
    · cases stuck
    · cases stuck
  | _ => trivial

theorem run_deleteMessage {settings : Settings} {w : Window} {n turn position : ℕ}
    {message : Message} (idle : w.calls n = .idle)
    (found : w.target turn = some (message, position)) :
    run (step settings) w [.deleteMessage n turn, .lrange n, .lset n, .hincrby n] =
      some ({ w with toSession := (w.toSession.deleteMessage turn).1 }.call n
        (.returned (w.toSession.deleteMessage turn).2)) := by
  have within := (List.getElem?_eq_some_iff.mp (target_spec found).1).1
  rw [deleteMessage_of_target found]
  simp only [run, step, idle, Option.bind_some, Window.call, Function.update_self, found,
    Session.lset, if_pos within, Session.hincrby, Function.update_idem]

end Invariant

/-- The window is intact in every state of a run exactly when every deletion writes before a
script has trimmed what it read, or past the end, where `LSET` raises. -/
theorem window_intact_iff (settings : Settings) (channel : ConversationChannel)
    (actions : List Action) :
    (∀ first, first <+: actions → ∀ t, run (step settings) (.initial channel) first = some t →
        t.Intact settings) ↔
      Along (step settings) Window.Writable (.initial channel) actions :=
  forall_prefix_iff_along Coherent.intact Coherent.step Coherent.writable writable_of_stuck
    (coherent_initial channel)

/-- The fifteenth message is pushed, and three are trimmed, between the two steps of a deletion
of the third: its copy takes the place of the sixth. -/
theorem trimmed_delete_overwrites :
    ∃ t, run (step defaultSettings) (.initial .internal)
        (List.replicate 14 (.append .internal hello) ++
          [.deleteMessage 0 3, .lrange 0, .append .internal hello, .lset 0]) = some t ∧
      t.msgs.map (·.turnIndex) = [4, 5, 3, 7, 8, 9, 10, 11, 12, 13, 14, 15] ∧
      ¬ t.Intact defaultSettings := by
  refine ⟨_, rfl, by decide +kernel, fun intact => ?_⟩
  obtain ⟨first, turns, _⟩ := intact.consecutive
  have start := congrArg (·[0]?) turns
  have third := congrArg (·[2]?) turns
  rw [List.getElem?_range' (by decide +kernel)] at start third
  have fourth : 4 = first := Option.some.inj start
  have stray : 3 = first + 2 := Option.some.inj third
  omega

end Deeting.Conversation
