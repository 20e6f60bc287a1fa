import Mathlib.Algebra.BigOperators.Group.List.Basic
import Mathlib.Algebra.Ring.Nat
import Deeting.Conversation.Window

/-! The token counter of a session against the messages of its window. The counter follows what
is appended and deleted; what is trimmed it keeps, until a summary sets it to the sum over the
window that the summary was made of. -/
namespace Deeting.Conversation

def tokenEstimate (messages : List Message) : ℕ := (messages.map (·.tokenEstimate)).sum

def liveTokens (messages : List Message) : ℕ :=
  tokenEstimate (messages.filter fun m => !m.isDeleted)

/-- A summary goes with the messages appended after each of its steps but the last: the load
of the window, the write of the summary, its copy in the database. -/
inductive Operation where
  | append (drafts : List Draft)
  | deleteMessage (turn : ℕ)
  | deleteLastAssistantMessage
  | summarize (loaded cached persisted : List Draft)

section Counter

variable (settings : Settings) (channel : ConversationChannel)

/-- A completed `conversation_summarize`. Of an empty window there is no summary. -/
def Session.summarize (s : Session) (loaded cached persisted : List Draft) : Session :=
  let messages := s.loadWindow
  let s := (s.appendMessages settings channel loaded).1
  let s := (s.appendMessages settings channel cached).1
  let s := (s.appendMessages settings channel persisted).1
  if messages.isEmpty then s else { s with totalTokens := tokenEstimate messages }

def Session.apply (s : Session) : Operation → Session
  | .append drafts => (s.appendMessages settings channel drafts).1
  | .deleteMessage turn => (s.deleteMessage turn).1
  | .deleteLastAssistantMessage => s.deleteLastAssistantMessage.1
  | .summarize loaded cached persisted => s.summarize settings channel loaded cached persisted

def trimmedTokens (s : Session) : List Draft → ℕ
  | [] => 0
  | draft :: rest =>
    let msgs := s.msgs ++ [draft.stored (s.lastTurn + 1)]
    liveTokens (msgs.take (trimStart settings channel msgs)) +
      trimmedTokens (s.appendLua settings channel draft).1 rest

def appendedTokens (drafts : List Draft) : ℕ := (drafts.map (·.tokenEstimate)).sum

/-- What the counter has too much, or too little, after the operation: a summary forgets what
was trimmed before it, and what was appended since it loaded the window. -/
def driftAfter (s : Session) (drift : ℤ) : Operation → ℤ
  | .append drafts => drift + trimmedTokens settings channel s drafts
  | .deleteMessage _ | .deleteLastAssistantMessage => drift
  | .summarize loaded cached persisted =>
    let drafts := loaded ++ cached ++ persisted
    if s.loadWindow.isEmpty then drift + trimmedTokens settings channel s drafts
    else trimmedTokens settings channel s drafts - appendedTokens drafts

/-- The live tokens trimmed since the last summary, less those its overwrite has lost. -/
def drift (s : Session) (d : ℤ) : List Operation → ℤ
  | [] => d
  | operation :: rest =>
    drift (s.apply settings channel operation) (driftAfter settings channel s d operation) rest

end Counter

def Session.Counts (s : Session) (drift : ℤ) : Prop :=
  s.totalTokens = liveTokens s.msgs + drift

section Lists

variable {messages : List Message} {message : Message} {draft : Draft} {turn position : ℕ}

theorem liveTokens_append (first second : List Message) :
    liveTokens (first ++ second) = liveTokens first + liveTokens second := by
  rw [liveTokens, tokenEstimate, List.filter_append, List.map_append, List.sum_append]
  rfl

theorem liveTokens_stored : liveTokens [draft.stored turn] = draft.tokenEstimate := by
  simp [liveTokens, tokenEstimate]

theorem liveTokens_cons (m : Message) :
    liveTokens (m :: messages) = liveTokens [m] + liveTokens messages :=
  liveTokens_append [m] messages

theorem liveTokens_of_live (live : message.isDeleted = false) :
    liveTokens [message] = message.tokenEstimate := by
  simp [liveTokens, tokenEstimate, live]

theorem liveTokens_deleted : liveTokens [message.deleted] = 0 := by
  simp [liveTokens, tokenEstimate]

theorem liveTokens_set (listed : messages[position]? = some message)
    (live : message.isDeleted = false) :
    liveTokens (messages.set position message.deleted) + message.tokenEstimate =
      liveTokens messages := by
  induction messages generalizing position with
  | nil => simp at listed
  | cons m rest ih =>
    cases position with
    | zero =>
      cases Option.some.inj listed
      rw [List.set_cons_zero, liveTokens_cons, liveTokens_cons message, liveTokens_deleted,
        liveTokens_of_live live]
      omega
    | succ i =>
      rw [List.getElem?_cons_succ] at listed
      rw [List.set_cons_succ, liveTokens_cons, add_assoc, ih listed, ← liveTokens_cons]

end Lists

section Operations

variable (settings : Settings) (channel : ConversationChannel) {s : Session} {d : ℤ}

theorem Session.Counts.appendLua (counts : s.Counts d) (draft : Draft) :
    (s.appendLua settings channel draft).1.Counts
      (d + trimmedTokens settings channel s [draft]) := by
  have split := liveTokens_append
    ((s.msgs ++ [draft.stored (s.lastTurn + 1)]).take
      (trimStart settings channel (s.msgs ++ [draft.stored (s.lastTurn + 1)])))
    ((s.msgs ++ [draft.stored (s.lastTurn + 1)]).drop
      (trimStart settings channel (s.msgs ++ [draft.stored (s.lastTurn + 1)])))
  rw [List.take_append_drop, liveTokens_append s.msgs, liveTokens_stored] at split
  rw [Session.Counts] at counts ⊢
  simp only [Session.appendLua, trimmedTokens, counts, Nat.add_zero]
  omega

theorem appendMessages_eq (s : Session) (drafts : List Draft) :
    (s.appendMessages settings channel drafts).1 =
      drafts.foldl (fun s draft => (s.appendLua settings channel draft).1) s := by
  rw [Session.appendMessages]
  generalize (⟨false, none, none⟩ : AppendResult) = result
  induction drafts generalizing s result with
  | nil => rfl
  | cons draft rest ih =>
    rw [List.foldl_cons, List.foldl_cons]
    exact ih (s := (s.appendLua settings channel draft).1) _

theorem appendMessages_append (first second : List Draft) :
    (s.appendMessages settings channel (first ++ second)).1 =
      ((s.appendMessages settings channel first).1.appendMessages settings channel second).1 := by
  rw [appendMessages_eq, appendMessages_eq, appendMessages_eq, List.foldl_append]

theorem Session.Counts.appendMessages (counts : s.Counts d) (drafts : List Draft) :
    (s.appendMessages settings channel drafts).1.Counts
      (d + trimmedTokens settings channel s drafts) := by
  rw [appendMessages_eq]
  induction drafts generalizing s d with
  | nil => simpa [trimmedTokens] using counts
  | cons draft rest ih =>
    rw [List.foldl_cons]
    have next := ih (counts.appendLua settings channel draft)
    rw [add_assoc, ← Int.natCast_add] at next
    simpa only [trimmedTokens, Nat.add_zero] using next

theorem totalTokens_appendMessages (s : Session) (drafts : List Draft) :
    (s.appendMessages settings channel drafts).1.totalTokens =
      s.totalTokens + appendedTokens drafts := by
  rw [appendMessages_eq]
  induction drafts generalizing s with
  | nil => simp [appendedTokens]
  | cons draft rest ih =>
    rw [List.foldl_cons, ih]
    simp only [Session.appendLua, appendedTokens, List.map_cons, List.sum_cons]
    omega

theorem Session.Counts.deleteMessage (counts : s.Counts d) (turn : ℕ) :
    (s.deleteMessage turn).1.Counts d := by
  cases found : s.target turn with
  | none =>
    rw [deleteMessage_of_missing found]
    exact counts
  | some target =>
    obtain ⟨message, position⟩ := target
    obtain ⟨listed, _, live⟩ := target_spec found
    have less := liveTokens_set listed live
    rw [deleteMessage_of_target found]
    rw [Session.Counts] at counts ⊢
    simp only [counts]
    omega

theorem Session.Counts.deleteLast (counts : s.Counts d) :
    s.deleteLastAssistantMessage.1.Counts d := by
  rw [Session.deleteLastAssistantMessage]
  split
  · exact counts
  · exact counts.deleteMessage _

theorem Session.Counts.summarize (counts : s.Counts d) (loaded cached persisted : List Draft) :
    (s.summarize settings channel loaded cached persisted).Counts
      (driftAfter settings channel s d (.summarize loaded cached persisted)) := by
  have later := counts.appendMessages settings channel (loaded ++ cached ++ persisted)
  have grown := totalTokens_appendMessages settings channel s (loaded ++ cached ++ persisted)
  simp only [Session.summarize, driftAfter, ← appendMessages_append]
  split
  · exact later
  · rw [Session.Counts] at counts later ⊢
    have snapshot : (tokenEstimate s.loadWindow : ℤ) = liveTokens s.msgs := rfl
    simp only [snapshot]
    omega

end Operations

section Sequences

variable (settings : Settings) (channel : ConversationChannel) {s : Session} {d : ℤ}

theorem Session.Counts.apply (counts : s.Counts d) (operation : Operation) :
    (s.apply settings channel operation).Counts (driftAfter settings channel s d operation) := by
  cases operation with
  | append drafts => exact counts.appendMessages settings channel drafts
  | deleteMessage turn => exact counts.deleteMessage turn
  | deleteLastAssistantMessage => exact counts.deleteLast
  | summarize loaded cached persisted => exact counts.summarize settings channel loaded cached persisted

theorem Session.Counts.run (counts : s.Counts d) (operations : List Operation) :
    (operations.foldl (Session.apply settings channel) s).Counts
      (drift settings channel s d operations) := by
  induction operations generalizing s d with
  | nil => exact counts
  | cons operation rest ih => exact ih (counts.apply settings channel operation)

end Sequences

/-- The counter is the sum over the live window exactly when what was trimmed live since the
last summary makes up for what that summary's overwrite has lost. -/
theorem total_tokens_iff (settings : Settings) (channel : ConversationChannel)
    (operations : List Operation) :
    let s := operations.foldl (Session.apply settings channel) .empty
    s.totalTokens = tokenEstimate s.loadWindow ↔
      drift settings channel .empty 0 operations = 0 := by
  have start : Session.empty.Counts 0 := rfl
  have counts := start.run settings channel operations
  rw [Session.Counts, liveTokens] at counts
  simp only [counts, Session.loadWindow]
  omega

/-- Fifteen messages of ten tokens, of which three are trimmed; and a message appended while
a summary is made of the one before it. -/
theorem trim_and_overwrite_drift :
    ∃ s t : Session,
      [Operation.append (List.replicate 15 hello)].foldl
        (Session.apply defaultSettings .internal) .empty = s ∧
      s.totalTokens = 150 ∧ tokenEstimate s.loadWindow = 120 ∧
      [Operation.append [hello], .summarize [hello] [] []].foldl
        (Session.apply defaultSettings .internal) .empty = t ∧
      t.totalTokens = 10 ∧ tokenEstimate t.loadWindow = 20 := by
  refine ⟨_, _, rfl, ?_, ?_, rfl, ?_, ?_⟩
  all_goals decide +kernel

end Deeting.Conversation
