import Deeting.Conversation.Summarization

/-! What of a session is still context: the messages in the window, and the turns that the
current summary was generated from. The script trims by the number of messages, the jobs
are triggered by the number of tokens, and a summary replaces the one before it. -/
namespace Deeting.Conversation.Summarization

open Transition

def World.covered (w : World) : List ℕ :=
  match w.summary with
  | none => []
  | some summary => summary.messages.map (·.turnIndex)

def World.windowed (w : World) : List ℕ := w.session.loadWindow.map (·.turnIndex)

/-- Every turn that was appended and not deleted is in the window or in the summary. -/
def World.Kept (w : World) : Prop :=
  ∀ turn, 1 ≤ turn → turn ≤ w.session.lastTurn → turn ∉ w.deleted →
    turn ∈ w.windowed ∨ turn ∈ w.covered

/-- What the script drops is in the summary, and what a new summary leaves out is in the
window. -/
def World.Covers (settings : Settings) (w : World) : Action → Prop
  | .script n draft => ∀ channel shouldFlush, w.calls n = .appending channel shouldFlush →
      let msgs := w.session.msgs ++ [draft.stored (w.session.lastTurn + 1)]
      ∀ message ∈ msgs.take (trimStart settings channel msgs),
        message.isDeleted = false → message.turnIndex ∈ w.covered
  | .write k => ∀ messages retried, w.jobs[k]? = some ⟨.loaded messages, retried⟩ →
      messages ≠ [] → ∀ turn, 1 ≤ turn → turn ≤ w.session.lastTurn → turn ∉ w.deleted →
        turn ∈ w.windowed ∨ turn ∈ messages.map (·.turnIndex)
  | _ => True

structure World.SameContext (w t : World) : Prop where
  msgs : t.session.msgs = w.session.msgs
  lastTurn : t.session.lastTurn = w.session.lastTurn
  summary : t.summary = w.summary
  deleted : t.deleted = w.deleted

/-- The window has each turn once, and its marks are the deletions. -/
structure World.Numbered (w : World) : Prop where
  nodup : (w.session.msgs.map (·.turnIndex)).Nodup
  bounded : ∀ message ∈ w.session.msgs,
    1 ≤ message.turnIndex ∧ message.turnIndex ≤ w.session.lastTurn
  marked : ∀ message ∈ w.session.msgs, message.isDeleted = true ↔ message.turnIndex ∈ w.deleted
  past : ∀ turn ∈ w.deleted, turn ≤ w.session.lastTurn

section Window

variable {settings : Settings} {channel : ConversationChannel} {draft : Draft} {w t : World}
  {turn : ℕ}

open World

theorem mem_windowed :
    turn ∈ w.windowed ↔ ∃ message ∈ w.session.msgs, message.isDeleted = false ∧
      message.turnIndex = turn := by
  simp only [windowed, Session.loadWindow, List.mem_map, List.mem_filter, Bool.not_eq_true',
    and_assoc]

theorem mem_covered {summary : Summary} (cached : w.summary = some summary) :
    turn ∈ w.covered ↔ turn ∈ summary.messages.map (·.turnIndex) := by
  simp only [covered, cached]

theorem nonempty_of_summarize {messages : List Message} {summary : Summary}
    (written : summarize messages = some summary) : messages ≠ [] := by
  rintro rfl
  cases written

theorem mem_summarize {messages : List Message} {summary : Summary}
    (written : summarize messages = some summary) :
    turn ∈ summary.messages.map (·.turnIndex) ↔ turn ∈ messages.map (·.turnIndex) := by
  unfold summarize at written
  split at written
  · cases written
  · rename_i first rest ordered
    cases written
    have same (m : Message) : m ∈ first :: rest ↔ m ∈ messages := by
      rw [← ordered, sorted, List.mem_insertionSort]
    simp only [List.mem_map, same]

end Window

section Numbered

variable {settings : Settings} {channel : ConversationChannel} {draft : Draft} {w t : World}
  {turn : ℕ} {message other : Message}

open World

theorem World.SameContext.numbered (same : w.SameContext t) (numbered : w.Numbered) :
    t.Numbered := by
  obtain ⟨nodup, bounded, marked, past⟩ := numbered
  constructor
  · rwa [same.msgs]
  · rwa [same.msgs, same.lastTurn]
  · rwa [same.msgs, same.deleted]
  · rwa [same.deleted, same.lastTurn]

theorem World.SameContext.kept (same : w.SameContext t) : t.Kept ↔ w.Kept := by
  simp only [Kept, windowed, covered, Session.loadWindow, same.msgs, same.lastTurn, same.summary,
    same.deleted]

theorem World.Numbered.position {i j : ℕ} (numbered : w.Numbered)
    (first : w.session.msgs[i]? = some message) (second : w.session.msgs[j]? = some other)
    (same : message.turnIndex = other.turnIndex) : i = j := by
  have within := (List.getElem?_eq_some_iff.mp first).1
  refine (List.getElem?_inj (by simpa only [List.length_map] using within) numbered.nodup).mp ?_
  simp only [List.getElem?_map, first, second, Option.map_some, same]

theorem World.Numbered.pushed (numbered : w.Numbered) (draft : Draft) :
    (((w.session.msgs ++ [draft.stored (w.session.lastTurn + 1)]).map (·.turnIndex)).Nodup) ∧
      ∀ message ∈ w.session.msgs ++ [draft.stored (w.session.lastTurn + 1)],
        (1 ≤ message.turnIndex ∧ message.turnIndex ≤ w.session.lastTurn + 1) ∧
        (message.isDeleted = true ↔ message.turnIndex ∈ w.deleted) := by
  constructor
  · rw [List.map_append, List.nodup_append]
    refine ⟨numbered.nodup, by simp, ?_⟩
    intro turn listed last pushed same
    obtain ⟨message, mem, rfl⟩ := List.mem_map.mp listed
    simp only [List.map_cons, List.map_nil, List.mem_singleton, stored_turnIndex] at pushed
    have := (numbered.bounded message mem).2
    omega
  · intro message listed
    rcases List.mem_append.mp listed with listed | pushed
    · have bounds := numbered.bounded message listed
      exact ⟨by omega, numbered.marked message listed⟩
    · rw [List.mem_singleton] at pushed
      subst pushed
      refine ⟨by simp, ?_⟩
      simp only [stored_isDeleted, stored_turnIndex, Bool.false_eq_true, false_iff]
      intro deleted
      have := numbered.past _ deleted
      omega

theorem World.Numbered.script (numbered : w.Numbered)
    (session : t.session = (w.session.appendLua settings channel draft).1)
    (deleted : t.deleted = w.deleted) : t.Numbered := by
  obtain ⟨nodup, each⟩ := numbered.pushed draft
  have lastTurn : t.session.lastTurn = w.session.lastTurn + 1 := by rw [session]; rfl
  have listed (message : Message) (mem : message ∈ t.session.msgs) :
      message ∈ w.session.msgs ++ [draft.stored (w.session.lastTurn + 1)] := by
    rw [session] at mem
    exact List.mem_of_mem_drop mem
  constructor
  · rw [session]
    exact nodup.sublist ((List.drop_sublist _ _).map _)
  · intro message mem
    rw [lastTurn]
    exact (each message (listed message mem)).1
  · intro message mem
    rw [deleted]
    exact (each message (listed message mem)).2
  · intro turn mem
    rw [deleted] at mem
    rw [lastTurn]
    exact Nat.le_succ_of_le (numbered.past turn mem)

theorem kept_script (numbered : w.Numbered) (kept : w.Kept)
    (session : t.session = (w.session.appendLua settings channel draft).1)
    (summary : t.summary = w.summary) (deleted : t.deleted = w.deleted) :
    t.Kept ↔ ∀ message ∈ (w.session.msgs ++ [draft.stored (w.session.lastTurn + 1)]).take
        (trimStart settings channel (w.session.msgs ++ [draft.stored (w.session.lastTurn + 1)])),
      message.isDeleted = false → message.turnIndex ∈ w.covered := by
  obtain ⟨nodup, each⟩ := numbered.pushed draft
  have lastTurn : t.session.lastTurn = w.session.lastTurn + 1 := by rw [session]; rfl
  have covered : t.covered = w.covered := by simp only [World.covered, summary]
  have windowed : t.session.msgs =
      (w.session.msgs ++ [draft.stored (w.session.lastTurn + 1)]).drop (trimStart settings channel
        (w.session.msgs ++ [draft.stored (w.session.lastTurn + 1)])) := by rw [session]; rfl
  generalize count : trimStart settings channel
    (w.session.msgs ++ [draft.stored (w.session.lastTurn + 1)]) = trimmed at windowed ⊢
  generalize all : w.session.msgs ++ [draft.stored (w.session.lastTurn + 1)] = msgs at *
  constructor
  · intro after message dropped live
    have listed := List.mem_of_mem_take dropped
    obtain ⟨⟨positive, bounded⟩, marked⟩ := each message listed
    have alive : message.turnIndex ∉ t.deleted := by
      rw [deleted, ← marked, live]
      simp
    rcases after message.turnIndex positive (lastTurn ▸ bounded) alive with inside | inside
    · -- the turn is trimmed and not trimmed, against its number being its own
      obtain ⟨other, mem, -, same⟩ := mem_windowed.mp inside
      rw [windowed] at mem
      rw [← List.take_append_drop trimmed msgs, List.map_append, List.nodup_append] at nodup
      exact absurd same.symm (nodup.2.2 _ (List.mem_map_of_mem dropped) _ (List.mem_map_of_mem mem))
    · rwa [covered] at inside
  · intro trims turn positive bounded alive
    rw [lastTurn] at bounded
    rw [deleted] at alive
    rw [covered, mem_windowed, windowed]
    have somewhere : (∃ message ∈ msgs, message.isDeleted = false ∧ message.turnIndex = turn) ∨
        turn ∈ w.covered := by
      rcases Nat.lt_or_ge w.session.lastTurn turn with last | earlier
      · refine .inl ⟨draft.stored (w.session.lastTurn + 1), ?_, rfl, ?_⟩
        · simp [← all]
        · rw [stored_turnIndex]
          omega
      · refine (kept turn positive earlier alive).imp_left fun inside => ?_
        obtain ⟨message, mem, found⟩ := mem_windowed.mp inside
        exact ⟨message, all ▸ List.mem_append_left _ mem, found⟩
    rcases somewhere with ⟨message, mem, live, rfl⟩ | inside
    · rw [← List.take_append_drop trimmed msgs, List.mem_append] at mem
      rcases mem with dropped | mem
      · exact .inr (trims message dropped live)
      · exact .inl ⟨message, mem, live, rfl⟩
    · exact .inr inside

theorem delete_cases (w : World) (turn : ℕ) :
    w.SameContext (w.delete turn) ∨
    ∃ message position, w.session.msgs[position]? = some message ∧ message.turnIndex = turn ∧
      (w.delete turn).session.msgs = w.session.msgs.set position message.deleted ∧
      (w.delete turn).session.lastTurn = w.session.lastTurn ∧
      (w.delete turn).summary = w.summary ∧ (w.delete turn).deleted = turn :: w.deleted := by
  cases found : w.session.target turn with
  | none =>
    left
    constructor <;> simp only [World.delete, deleteMessage_of_missing found]
  | some target =>
    obtain ⟨message, position⟩ := target
    obtain ⟨listed, same, -⟩ := target_spec found
    refine .inr ⟨message, position, listed, same, ?_⟩
    simp only [World.delete, deleteMessage_of_target found, and_self]

theorem mem_marked {position : ℕ} (numbered : w.Numbered)
    (listed : w.session.msgs[position]? = some message) :
    other ∈ w.session.msgs.set position message.deleted ↔
      other = message.deleted ∨ other ∈ w.session.msgs ∧ other.turnIndex ≠ message.turnIndex := by
  have within := (List.getElem?_eq_some_iff.mp listed).1
  constructor
  · intro mem
    obtain ⟨i, there⟩ := List.mem_iff_getElem?.mp mem
    by_cases here : position = i
    · subst here
      rw [List.getElem?_set_self within] at there
      exact .inl (Option.some.inj there).symm
    · rw [List.getElem?_set_ne here] at there
      exact .inr ⟨List.mem_of_getElem? there,
        fun same => here (numbered.position there listed same).symm⟩
  · rintro (rfl | ⟨mem, different⟩)
    · exact List.mem_set within message.deleted
    · obtain ⟨i, there⟩ := List.mem_iff_getElem?.mp mem
      have elsewhere : position ≠ i := by
        rintro rfl
        rw [listed] at there
        exact different (congrArg Message.turnIndex (Option.some.inj there).symm)
      exact List.mem_of_getElem? ((List.getElem?_set_ne elsewhere).trans there)

theorem World.Numbered.delete (numbered : w.Numbered) (turn : ℕ) : (w.delete turn).Numbered := by
  rcases delete_cases w turn with same | ⟨message, position, listed, rfl, msgs, last, -, deleted⟩
  · exact same.numbered numbered
  have mem := List.mem_of_getElem? listed
  constructor
  · obtain ⟨within, there⟩ := List.getElem?_eq_some_iff.mp listed
    have same : (w.session.msgs.set position message.deleted).map (·.turnIndex) =
        w.session.msgs.map (·.turnIndex) := by
      rw [List.map_set, deleted_turnIndex, ← there,
        ← List.getElem_map Message.turnIndex (h := by simpa using within), List.set_getElem_self]
    rw [msgs, same]
    exact numbered.nodup
  · intro other there
    rw [msgs, mem_marked numbered listed] at there
    rw [last]
    rcases there with rfl | ⟨there, -⟩
    · exact numbered.bounded message mem
    · exact numbered.bounded other there
  · intro other there
    rw [msgs, mem_marked numbered listed] at there
    rw [deleted, List.mem_cons]
    rcases there with rfl | ⟨there, different⟩
    · simp
    · simp only [different, false_or]
      exact numbered.marked other there
  · intro turn there
    rw [deleted, List.mem_cons] at there
    rw [last]
    rcases there with rfl | there
    · exact (numbered.bounded message mem).2
    · exact numbered.past turn there

theorem World.Kept.delete (kept : w.Kept) (numbered : w.Numbered) (turn : ℕ) :
    (w.delete turn).Kept := by
  rcases delete_cases w turn with same | ⟨message, position, listed, rfl, msgs, last, cached, gone⟩
  · exact same.kept.mpr kept
  intro k positive bounded alive
  rw [last] at bounded
  rw [gone, List.mem_cons, not_or] at alive
  have covered : (w.delete message.turnIndex).covered = w.covered := by
    simp only [World.covered, cached]
  rw [covered]
  refine (kept k positive bounded alive.2).imp_left fun inside => ?_
  obtain ⟨other, mem, live, rfl⟩ := mem_windowed.mp inside
  rw [mem_windowed, msgs]
  exact ⟨other, (mem_marked numbered listed).mpr (.inr ⟨mem, alive.1⟩), live, rfl⟩

end Numbered

section Runs

variable {settings : Settings} {w t : World}

open World

/-- A new summary keeps the context exactly when all that is not in the window is in it. -/
theorem kept_write {messages : List Message} {summary : Summary}
    (written : summarize messages = some summary) (session : t.session = w.session)
    (cached : t.summary = some summary) (deleted : t.deleted = w.deleted) :
    t.Kept ↔ ∀ turn, 1 ≤ turn → turn ≤ w.session.lastTurn → turn ∉ w.deleted →
      turn ∈ w.windowed ∨ turn ∈ messages.map (·.turnIndex) := by
  have windowed : t.windowed = w.windowed := by simp only [World.windowed, session]
  simp only [Kept, session, deleted, windowed, mem_covered cached, mem_summarize written]

/-- A step keeps the numbering, and the context exactly when it covers what it takes out. -/
theorem kept_step {a : Action} (numbered : w.Numbered) (kept : w.Kept)
    (taken : step settings w a = some t) : t.Numbered ∧ (t.Kept ↔ w.Covers settings a) := by
  have apart (same : w.SameContext t) : t.Numbered ∧ (t.Kept ↔ True) :=
    ⟨same.numbered numbered, iff_true_intro (same.kept.mpr kept)⟩
  cases Steps.of_step taken with
  | script draft called =>
    refine ⟨numbered.script rfl rfl, ?_⟩
    simp only [Covers, called, Call.appending.injEq, and_imp, forall_eq', forall_apply_eq_imp_iff]
    exact kept_script numbered kept rfl rfl rfl
  | delete turn =>
    exact ⟨numbered.delete turn, iff_true_intro (kept.delete numbered turn)⟩
  | write there written =>
    refine ⟨⟨numbered.nodup, numbered.bounded, numbered.marked, numbered.past⟩, ?_⟩
    simp only [Covers, there, Option.some.injEq, Job.mk.injEq, Stage.loaded.injEq, and_imp,
      forall_apply_eq_imp_iff, forall_eq', ne_eq, nonempty_of_summarize written,
      not_false_eq_true, forall_const]
    exact kept_write written rfl rfl rfl
  | _ => exact apart ⟨rfl, rfl, rfl, rfl⟩

theorem covers_of_stuck {a : Action} (stuck : step settings w a = none) : w.Covers settings a := by
  cases a with
  | script n draft =>
    intro channel shouldFlush called
    simp [step, called] at stuck
  | write k =>
    intro messages retried there some?
    simp only [step, there, Option.map_eq_none_iff] at stuck
    obtain ⟨message, mem⟩ := List.exists_mem_of_ne_nil messages some?
    have listed : message ∈ sorted messages := (List.mem_insertionSort _).mpr mem
    unfold summarize at stuck
    split at stuck
    · rename_i empty
      rw [empty] at listed
      cases listed
    · cases stuck
  | _ => trivial

/-- No context is lost in any state of a run exactly when the script trims nothing but what
the summary covers, and no summary is replaced by one that leaves out what has been
trimmed. -/
theorem kept_throughout_iff (settings : Settings) (actions : List Action) :
    (∀ first, first <+: actions → ∀ w, run (step settings) .initial first = some w → w.Kept) ↔
      Along (step settings) (World.Covers settings) .initial actions := by
  refine forall_prefix_iff_along (P := fun w => w.Numbered ∧ w.Kept) (fun held => held.2) ?_ ?_
    covers_of_stuck ⟨⟨List.nodup_nil, nofun, nofun, nofun⟩, ?_⟩
  · intro w a t held covers taken
    obtain ⟨numbered, kept⟩ := kept_step held.1 held.2 taken
    exact ⟨numbered, kept.mpr covers⟩
  · intro w a t held taken kept
    exact (kept_step held.1 held.2 taken).2.mp kept
  · intro turn positive bounded _
    have : turn ≤ 0 := bounded
    omega

def World.Roomy (settings : Settings) (w : World) : Action → Prop
  | .script n _ => ∀ channel shouldFlush, w.calls n = .appending channel shouldFlush →
      (w.session.lastTurn + 1 : ℤ) ≤ settings.maxTurnsOverflow channel
  | _ => True

structure World.Whole (w : World) : Prop where
  numbered : { w with summary := none }.Numbered
  kept : { w with summary := none }.Kept
  length : w.session.msgs.length = w.session.lastTurn

theorem World.Whole.untrimmed (whole : w.Whole) {channel : ConversationChannel} {message : Message}
    (room : (w.session.lastTurn + 1 : ℤ) ≤ settings.maxTurnsOverflow channel) :
    trimStart settings channel (w.session.msgs ++ [message]) = 0 := by
  rw [trimStart, if_neg]
  rw [List.length_append, whole.length, List.length_singleton]
  push_cast
  omega

theorem World.Whole.same (whole : w.Whole)
    (same : World.SameContext { w with summary := none } { t with summary := none }) : t.Whole :=
  ⟨same.numbered whole.numbered, same.kept.mpr whole.kept, by
    rw [show t.session.msgs = w.session.msgs from same.msgs,
      show t.session.lastTurn = w.session.lastTurn from same.lastTurn, whole.length]⟩

theorem World.Whole.delete (whole : w.Whole) (turn : ℕ) : (w.delete turn).Whole := by
  have same : { w with summary := none }.delete turn = { w.delete turn with summary := none } := by
    simp only [World.delete]
    obtain ⟨session, deletion⟩ := w.session.deleteMessage turn
    cases deletion <;> rfl
  refine ⟨same ▸ whole.numbered.delete turn, same ▸ whole.kept.delete whole.numbered turn, ?_⟩
  rcases delete_cases w turn with apart | ⟨message, position, -, -, msgs, last, -⟩
  · rw [apart.msgs, apart.lastTurn, whole.length]
  · rw [msgs, last, List.length_set, whole.length]

theorem World.Whole.step {a : Action} (whole : w.Whole) (roomy : w.Roomy settings a)
    (taken : step settings w a = some t) : t.Whole := by
  cases Steps.of_step taken with
  | @script n channel shouldFlush draft called =>
    have untrimmed : trimStart settings channel
        (w.session.msgs ++ [draft.stored (w.session.lastTurn + 1)]) = 0 :=
      whole.untrimmed (roomy channel shouldFlush called)
    refine ⟨whole.numbered.script rfl rfl, Iff.mpr (@kept_script settings channel draft
      _ _ whole.numbered whole.kept rfl rfl rfl) ?_, ?_⟩
    · rw [untrimmed]
      exact fun _ none_ => absurd none_ List.not_mem_nil
    · simp [World.call, Session.appendLua, untrimmed, whole.length]
  | delete turn => exact whole.delete turn
  | _ => exact whole.same ⟨rfl, rfl, rfl, rfl⟩

theorem World.Whole.covers {a : Action} (whole : w.Whole) (roomy : w.Roomy settings a) :
    w.Covers settings a := by
  cases a with
  | script n draft =>
    intro channel shouldFlush called msgs message dropped
    rw [whole.untrimmed (roomy channel shouldFlush called)] at dropped
    exact absurd dropped List.not_mem_nil
  | write k =>
    intro messages retried there some_ turn positive bounded alive
    exact .inl ((whole.kept turn positive bounded alive).resolve_right List.not_mem_nil)
  | _ => trivial

/-- A session of no more turns than its window holds keeps its context. -/
theorem kept_of_roomy {actions : List Action}
    (roomy : Along (step settings) (World.Roomy settings) .initial actions)
    (reached : run (step settings) .initial actions = some w) : w.Kept := by
  have covers : Along (step settings) (World.Covers settings) .initial actions := by
    refine along_of_invariant World.Whole.step World.Whole.covers ?_ roomy
    exact ⟨⟨List.nodup_nil, nofun, nofun, nofun⟩,
      fun turn positive bounded => absurd (positive.trans bounded) (by decide), rfl⟩
  exact (kept_throughout_iff settings actions).mpr covers actions (List.prefix_refl _) w reached

end Runs

section Schedules

def small (count : ℕ) : List Action := List.replicate count (.script 0 hello)

/-- Fifteen messages of ten tokens each: three are trimmed, and nothing is summarised. -/
def shortMessages : List Action := .append 0 .internal :: small 15

/-- A job covers the first fourteen messages; the fifteenth lets the script trim three of
them and triggers a job that covers the window. -/
def twoSummaries : List Action :=
  .append 0 .internal :: small 13 ++
    [.script 0 { hello with tokenEstimate := 7000 }, .check 0, .mark 0, .enqueue 0, .flag 0,
      .load 0, .write 0, .finish 0, .append 1 .internal,
      .script 1 { hello with tokenEstimate := 7000 }, .check 1, .mark 1, .enqueue 1, .flag 1,
      .load 0, .write 0]

theorem context_lost :
    (∃ w, run (step defaultSettings) .initial shortMessages = some w ∧ w.summary = none ∧
      ¬ w.Kept) ∧
    ∃ w, run (step defaultSettings) .initial twoSummaries = some w ∧ ¬ w.Kept := by
  refine ⟨⟨_, rfl, rfl, fun kept => ?_⟩, _, rfl, fun kept => ?_⟩
  · exact absurd (kept 1 (by decide) (by decide) (by decide)) (by decide)
  · exact absurd (kept 1 (by decide) (by decide) (by decide)) (by decide)

end Schedules

end Deeting.Conversation.Summarization
