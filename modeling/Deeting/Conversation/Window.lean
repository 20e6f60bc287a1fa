import Mathlib.Algebra.BigOperators.Group.List.Basic
import Mathlib.Data.List.Basic

/-! `ConversationService` on the two Redis keys of one session: the list of its messages and
the counters of its meta hash. A message is numbered and pushed by one script, which trims the
list when it has grown too long, and is deleted by writing a marked copy over the position it
was read at. -/
namespace Deeting.Conversation

inductive ConversationChannel where
  | internal
  | external
  deriving DecidableEq

/-- A message as `append_messages` is given it. -/
structure Draft where
  role : String
  content : String
  tokenEstimate : ℕ
  isTruncated : Bool
  name : Option String
  metaInfo : List (String × String)
  deriving DecidableEq

def hello : Draft := ⟨"user", "hello", 10, false, none, []⟩

structure Message extends Draft where
  turnIndex : ℕ
  isDeleted : Bool
  deriving DecidableEq

/-- `overflowTurns n` is `int(n * CONVERSATION_WINDOW_OVERFLOW_RATIO)`. -/
structure Settings where
  activeWindowTurns : ConversationChannel → ℕ
  overflowTurns : ℕ → ℤ
  flushThresholdTokens : ℤ

def Settings.maxTurnsOverflow (settings : Settings) (channel : ConversationChannel) : ℤ :=
  let maxTurns := settings.activeWindowTurns channel
  max maxTurns (settings.overflowTurns maxTurns)

def defaultSettings : Settings where
  activeWindowTurns
    | .internal => 12
    | .external => 8
  overflowTurns turns := turns * 6 / 5
  flushThresholdTokens := 6144

structure Session where
  msgs : List Message
  lastTurn : ℕ
  totalTokens : ℤ

def Session.empty : Session := ⟨[], 0, 0⟩

/-- What `APPEND_LUA` returns. -/
structure Appended where
  totalTokens : ℤ
  len : ℕ
  shouldFlush : Bool
  turn : ℕ

/-- What `append_messages` returns; of no messages it has neither turn nor total. -/
structure AppendResult where
  shouldFlush : Bool
  lastTurn : Option ℕ
  totalTokens : Option ℤ

/-- What `delete_message` returns, unless its `LSET` raises. -/
inductive Deletion where
  | missing
  | deleted (turn : ℕ)
  | outOfRange
  deriving DecidableEq

/-- The object the script encodes; an empty name is stored as null. -/
def Draft.stored (draft : Draft) (turn : ℕ) : Message :=
  { draft with name := draft.name.filter (· ≠ ""), turnIndex := turn, isDeleted := false }

def Message.deleted (message : Message) : Message := { message with isDeleted := true }

def Message.pushed (message : Message) : Message := { message with isDeleted := false }

section Append

variable (settings : Settings) (channel : ConversationChannel)

/-- How many messages `LTRIM` drops from the front of a list. -/
def trimStart (msgs : List Message) : ℕ :=
  if settings.maxTurnsOverflow channel < msgs.length then
    msgs.length - settings.activeWindowTurns channel
  else 0

def Session.appendLua (s : Session) (draft : Draft) : Session × Appended :=
  let turn := s.lastTurn + 1
  let totalTokens := s.totalTokens + draft.tokenEstimate
  let msgs := s.msgs ++ [draft.stored turn]
  let msgs := msgs.drop (trimStart settings channel msgs)
  ({ msgs, lastTurn := turn, totalTokens },
    { totalTokens, len := msgs.length, turn
      shouldFlush := decide (settings.flushThresholdTokens ≤ totalTokens) })

def Session.appendMessages (s : Session) (drafts : List Draft) : Session × AppendResult :=
  drafts.foldl (fun (s, result) draft =>
      let (s, appended) := s.appendLua settings channel draft
      (s, { shouldFlush := result.shouldFlush || appended.shouldFlush
            lastTurn := some appended.turn
            totalTokens := some appended.totalTokens }))
    (s, ⟨false, none, none⟩)

end Append

def Session.loadWindow (s : Session) : List Message := s.msgs.filter fun m => !m.isDeleted

/-- The first message of this turn that is not deleted, with its position. -/
def Session.target (s : Session) (turn : ℕ) : Option (Message × ℕ) :=
  s.msgs.zipIdx.find? fun (m, _) => m.turnIndex == turn && !m.isDeleted

def Session.lastAssistant (s : Session) : Option ℕ :=
  (s.msgs.reverse.find? fun m => m.role == "assistant" && !m.isDeleted).map Message.turnIndex

/-- `LSET` raises past the end of the list and without one. -/
def Session.lset (s : Session) (position : ℕ) (message : Message) : Option Session :=
  if position < s.msgs.length then some { s with msgs := s.msgs.set position message } else none

def Session.hincrby (s : Session) (delta : ℤ) : Session :=
  { s with totalTokens := s.totalTokens + delta }

def Session.deleteMessage (s : Session) (turn : ℕ) : Session × Deletion :=
  match s.target turn with
  | none => (s, .missing)
  | some (message, position) =>
    match s.lset position message.deleted with
    | none => (s, .outOfRange)
    | some written => (written.hincrby (-message.tokenEstimate), .deleted turn)

def Session.deleteLastAssistantMessage (s : Session) : Session × Deletion :=
  match s.lastAssistant with
  | none => (s, .missing)
  | some turn => s.deleteMessage turn

section Facts

variable {s t : Session} {draft : Draft} {message : Message} {position turn : ℕ}

@[simp] theorem stored_turnIndex : (draft.stored turn).turnIndex = turn := rfl

@[simp] theorem stored_isDeleted : (draft.stored turn).isDeleted = false := rfl

@[simp] theorem stored_tokenEstimate : (draft.stored turn).tokenEstimate = draft.tokenEstimate := rfl

@[simp] theorem deleted_isDeleted : message.deleted.isDeleted = true := rfl

@[simp] theorem deleted_turnIndex : message.deleted.turnIndex = message.turnIndex := rfl

theorem pushed_of_live (live : message.isDeleted = false) : message.pushed = message := by
  cases message
  cases live
  rfl

theorem trimStart_le (settings : Settings) (channel : ConversationChannel) (msgs : List Message) :
    trimStart settings channel msgs ≤ msgs.length := by
  rw [trimStart]
  split
  · omega
  · omega

theorem length_sub_trimStart (settings : Settings) (channel : ConversationChannel)
    (msgs : List Message) :
    ((msgs.length - trimStart settings channel msgs : ℕ) : ℤ) ≤
      settings.maxTurnsOverflow channel := by
  have wide : (settings.activeWindowTurns channel : ℤ) ≤ settings.maxTurnsOverflow channel :=
    Int.le_max_left _ _
  rw [trimStart]
  split
  · omega
  · omega

theorem target_spec (found : s.target turn = some (message, position)) :
    s.msgs[position]? = some message ∧ message.turnIndex = turn ∧ message.isDeleted = false := by
  have listed := List.mem_of_find?_eq_some found
  have matched := List.find?_some found
  rw [List.mem_zipIdx_iff_getElem?] at listed
  simp only [Bool.and_eq_true, beq_iff_eq, Bool.not_eq_true'] at matched
  exact ⟨listed, matched⟩

theorem lset_eq_some (written : s.lset position message = some t) :
    position < s.msgs.length ∧ t = { s with msgs := s.msgs.set position message } := by
  rw [Session.lset] at written
  split at written
  · rename_i within
    cases written
    exact ⟨within, rfl⟩
  · cases written

theorem lset_eq_none (failed : s.lset position message = none) : s.msgs.length ≤ position := by
  rw [Session.lset] at failed
  split at failed
  · cases failed
  · omega

theorem deleteMessage_of_target (found : s.target turn = some (message, position)) :
    s.deleteMessage turn =
      ({ s with msgs := s.msgs.set position message.deleted
                totalTokens := s.totalTokens + -message.tokenEstimate }, .deleted turn) := by
  have within := (List.getElem?_eq_some_iff.mp (target_spec found).1).1
  simp only [Session.deleteMessage, found, Session.lset, if_pos within, Session.hincrby]

theorem deleteMessage_of_missing (missing : s.target turn = none) :
    s.deleteMessage turn = (s, .missing) := by
  simp only [Session.deleteMessage, missing]

end Facts

end Deeting.Conversation
