import Deeting.Conversation.Window
import Deeting.Counting
import Deeting.Transition
import Mathlib.Data.List.Nodup

/-! The turn numbers of one session over whole runs: `sync_redis_last_turn` and the script on the
Redis path, `reserve_turn_indexes` on the database path, and `bulk_insert_messages`, which comes
after the numbers are given. The row of the session is locked from a reservation to the end of its
transaction; an object that a session holds from before is not read anew. -/
namespace Deeting.Conversation
open Transition Counting

structure Numbered where
  turn : ℕ
  draft : Draft
  deriving DecidableEq

/-- The turns of `reserve_turn_indexes`: those after the base, one after the other. -/
def number : ℕ → List Draft → List Numbered
  | _, [] => []
  | base, draft :: rest => ⟨base + 1, draft⟩ :: number (base + 1) rest

/-- `func.max(turn_index)`, or 0. -/
def maxTurn (rows : List Numbered) : ℕ := rows.foldr (fun r top => max r.turn top) 0

def syncRedisLastTurn (redis : Session) (rows : List Numbered) : Session :=
  if redis.lastTurn < maxTurn rows then { redis with lastTurn := maxTurn rows } else redis

/-- `bulk_insert_messages`: a message without a turn, or with one that is stored, is ignored. -/
def bulkInsertMessages (rows new : List Numbered) : List Numbered :=
  new.foldl (fun rows r =>
    if r.turn = 0 ∨ ∃ s ∈ rows, s.turn = r.turn then rows else rows ++ [r]) rows

/-- How far the messages of an append are from being stored: `touch_session` is to come; the count
of their reservation is not committed; only the insert is to come; or the transaction of their
reservation was rolled back. -/
inductive Stage where
  | numbered
  | reserved (count : ℕ)
  | ready
  | lost

def Stage.locks : Stage → Bool
  | .reserved _ => true
  | .numbered | .ready | .lost => false

/-- The messages of an append that are numbered and not stored. -/
structure Outstanding where
  rows : List Numbered
  stage : Stage

/-- `counts` are the values that `message_count` has had, the last one first. -/
structure Turns where
  redis : Session := .empty
  counts : List ℕ := []
  rows : List Numbered := []
  outstanding : List Outstanding := []
  /-- All messages in the order in which they got their turns. -/
  numbered : List Numbered := []

/-- `message_count` as an object says that was loaded so many changes ago. -/
def Turns.countAgo (w : Turns) (ago : ℕ) : ℕ := w.counts.getD ago 0

def Turns.locked (w : Turns) : Bool := w.outstanding.any fun b => b.stage.locks

inductive TurnAction where
  /-- On the Redis path; a sync that fails is only logged. -/
  | append (drafts : List Draft) (synced : Bool)
  /-- A script fails after so many messages; all of them go to the database path. -/
  | interrupted (drafts : List Draft) (synced : Bool)
  /-- In a transaction of its own, or in a savepoint of one that is open. -/
  | reserve (drafts : List Draft) (nested : Bool) (ago : ℕ)
  | commit (i : ℕ)
  | rollback (i : ℕ)
  | touch (i ago : ℕ)
  | insert (i : ℕ)
  /-- The keys expire or are cleared. -/
  | expire

section Machine

variable (settings : Settings) (channel : ConversationChannel)

/-- `append_messages`, with the turns that the scripts return. -/
def Session.appendNumbered (s : Session) : List Draft → Session × List Numbered
  | [] => (s, [])
  | draft :: rest =>
    let (t, appended) := s.appendLua settings channel draft
    let (u, later) := t.appendNumbered rest
    (u, ⟨appended.turn, draft⟩ :: later)

def Turns.synced (w : Turns) (synced : Bool) : Session :=
  if synced then syncRedisLastTurn w.redis w.rows else w.redis

def turnStep (w : Turns) : TurnAction → Option Turns
  | .append drafts synced =>
    let (redis, new) := (w.synced synced).appendNumbered settings channel drafts
    some { w with
      redis
      outstanding := w.outstanding ++ [⟨new, .numbered⟩]
      numbered := w.numbered ++ new }
  | .interrupted drafts synced =>
    let (redis, _) := (w.synced synced).appendNumbered settings channel drafts
    some { w with redis }
  | .reserve drafts nested ago =>
    if drafts = [] then some w
    else if w.locked then none
    else
      let base := max (w.countAgo ago) (maxTurn w.rows)
      let new := number base drafts
      let count := base + drafts.length
      some { w with
        counts := if nested then w.counts else count :: w.counts
        outstanding := w.outstanding ++ [⟨new, if nested then .reserved count else .ready⟩]
        numbered := w.numbered ++ new }
  | .commit i =>
    match w.outstanding[i]? with
    | some ⟨rows, .reserved count⟩ =>
      some { w with
        counts := count :: w.counts
        outstanding := w.outstanding.set i ⟨rows, .ready⟩ }
    | _ => none
  | .rollback i =>
    match w.outstanding[i]? with
    | some ⟨rows, .reserved _⟩ => some { w with outstanding := w.outstanding.set i ⟨rows, .lost⟩ }
    | _ => none
  | .touch i ago =>
    match w.outstanding[i]? with
    | some ⟨rows, .numbered⟩ =>
      if w.locked then none
      else some { w with
        counts := if w.countAgo ago < maxTurn rows then maxTurn rows :: w.counts else w.counts
        outstanding := w.outstanding.set i ⟨rows, .ready⟩ }
    | _ => none
  | .insert i =>
    -- it commits, and with the messages a count that is reserved in the same transaction
    match w.outstanding[i]? with
    | some ⟨rows, .ready⟩ =>
      some { w with
        rows := bulkInsertMessages w.rows rows
        outstanding := w.outstanding.eraseIdx i }
    | some ⟨rows, .reserved count⟩ =>
      some { w with
        counts := count :: w.counts
        rows := bulkInsertMessages w.rows rows
        outstanding := w.outstanding.eraseIdx i }
    | _ => none
  | .expire => some { w with redis := .empty }

end Machine

namespace Turns

/-- What is asked of every state: turns grow from append to append, and no message is lost. -/
structure Lawful (w : Turns) : Prop where
  ordered : w.numbered.Pairwise fun r s => r.turn < s.turn
  kept : ∀ r ∈ w.numbered, r ∈ w.rows ∨ ∃ b ∈ w.outstanding, r ∈ b.rows

/-- No message has a turn above what the path looks at: the last turn in Redis and, if they are
synced, the turns that are stored; or the message count of its object and the turns that are
stored. -/
def Meets (w : Turns) : TurnAction → Prop
  | .append drafts synced => drafts ≠ [] →
    (synced = true ∨ ∀ r ∈ w.rows, r.turn ≤ w.redis.lastTurn) ∧
      ∀ b ∈ w.outstanding, ∀ r ∈ b.rows,
        r.turn ≤ w.redis.lastTurn ∨ synced = true ∧ r.turn ≤ maxTurn w.rows
  | .reserve drafts _ ago => drafts ≠ [] → w.locked = false →
    ∀ b ∈ w.outstanding, ∀ r ∈ b.rows, r.turn ≤ w.countAgo ago ∨ r.turn ≤ maxTurn w.rows
  | _ => True

structure Known (w : Turns) : Prop where
  stored : ∀ r ∈ w.rows, r ∈ w.numbered
  outstanding : ∀ b ∈ w.outstanding, ∀ r ∈ b.rows, r ∈ w.numbered
  pos : ∀ r ∈ w.numbered, 0 < r.turn

end Turns

section Numbers

variable {base : ℕ} {drafts : List Draft} {rows new : List Numbered} {r s : Numbered}

theorem lt_of_mem_number (mem : r ∈ number base drafts) : base < r.turn := by
  induction drafts generalizing base with
  | nil => cases mem
  | cons draft rest ih =>
    rcases List.mem_cons.mp mem with rfl | later
    · exact Nat.lt_succ_self base
    · have above := ih later
      omega

theorem ordered_number (base : ℕ) (drafts : List Draft) :
    (number base drafts).Pairwise fun r s => r.turn < s.turn := by
  induction drafts generalizing base with
  | nil => exact .nil
  | cons draft rest ih => exact .cons (fun s mem => lt_of_mem_number mem) (ih (base + 1))

theorem appendNumbered_snd (settings : Settings) (channel : ConversationChannel) (s : Session)
    (drafts : List Draft) :
    (s.appendNumbered settings channel drafts).2 = number s.lastTurn drafts := by
  induction drafts generalizing s with
  | nil => rfl
  | cons draft rest ih =>
    rw [Session.appendNumbered, number]
    exact congrArg _ (ih (s.appendLua settings channel draft).1)

theorem le_maxTurn (mem : r ∈ rows) : r.turn ≤ maxTurn rows := by
  induction rows with
  | nil => cases mem
  | cons s rest ih =>
    rw [maxTurn, List.foldr_cons]
    rcases List.mem_cons.mp mem with rfl | later
    · exact Nat.le_max_left _ _
    · exact Nat.le_trans (ih later) (Nat.le_max_right _ _)

theorem lastTurn_syncRedisLastTurn (redis : Session) (rows : List Numbered) :
    (syncRedisLastTurn redis rows).lastTurn = max redis.lastTurn (maxTurn rows) := by
  rw [syncRedisLastTurn]
  split
  · dsimp only
    omega
  · omega

theorem maxTurn_le {top : ℕ} (bounded : ∀ r ∈ rows, r.turn ≤ top) : maxTurn rows ≤ top := by
  induction rows with
  | nil => exact Nat.zero_le _
  | cons s rest ih =>
    obtain ⟨first, later⟩ := List.forall_mem_cons.mp bounded
    exact Nat.max_le.mpr ⟨first, ih later⟩

theorem mem_or_mem_of_bulkInsert (mem : r ∈ bulkInsertMessages rows new) : r ∈ rows ∨ r ∈ new := by
  induction new generalizing rows with
  | nil => exact .inl mem
  | cons s rest ih =>
    rw [bulkInsertMessages, List.foldl_cons] at mem
    rcases ih mem with there | later
    · split at there
      · exact .inl there
      · rcases List.mem_append.mp there with old | here
        · exact .inl old
        · exact .inr (List.mem_singleton.mp here ▸ List.mem_cons_self)
    · exact .inr (List.mem_cons_of_mem _ later)

theorem mem_bulkInsert_of_mem (new : List Numbered) (mem : r ∈ rows) :
    r ∈ bulkInsertMessages rows new := by
  induction new generalizing rows with
  | nil => exact mem
  | cons s rest ih =>
    rw [bulkInsertMessages, List.foldl_cons]
    apply ih
    split
    · exact mem
    · exact List.mem_append_left _ mem

theorem exists_mem_bulkInsert (rows : List Numbered) (mem : r ∈ new) (pos : 0 < r.turn) :
    ∃ s ∈ bulkInsertMessages rows new, s.turn = r.turn := by
  induction new generalizing rows with
  | nil => cases mem
  | cons t rest ih =>
    rw [bulkInsertMessages, List.foldl_cons]
    rcases List.mem_cons.mp mem with rfl | later
    · split
      · rename_i skipped
        obtain ⟨s, there, same⟩ := skipped.resolve_left (Nat.ne_of_gt pos)
        exact ⟨s, mem_bulkInsert_of_mem rest there, same⟩
      · exact ⟨r, mem_bulkInsert_of_mem rest (List.mem_append_right _ List.mem_cons_self), rfl⟩
    · exact ih _ later

end Numbers

section Steps

variable {settings : Settings} {channel : ConversationChannel} {w t : Turns} {a : TurnAction}
  {drafts : List Draft} {base : ℕ}

theorem Turns.Lawful.eq_of_turn (lawful : w.Lawful) {r s : Numbered} (mem : r ∈ w.numbered)
    (also : s ∈ w.numbered) (same : r.turn = s.turn) : r = s := by
  have distinct : (w.numbered.map Numbered.turn).Nodup :=
    List.pairwise_map.mpr (lawful.ordered.imp Nat.ne_of_lt)
  exact List.inj_on_of_nodup_map distinct mem also same

structure Turns.Grows (w t : Turns) (base : ℕ) (drafts : List Draft) : Prop where
  rows : t.rows = w.rows
  numbered : t.numbered = w.numbered ++ number base drafts
  outstanding : ∃ stage, t.outstanding = w.outstanding ++ [⟨number base drafts, stage⟩]

theorem Turns.Known.grow (known : w.Known) (grows : w.Grows t base drafts) : t.Known := by
  obtain ⟨rows, numbered, stage, outstanding⟩ := grows
  constructor
  · rw [rows, numbered]
    exact fun r mem => List.mem_append_left _ (known.stored r mem)
  · rw [outstanding, numbered]
    intro b mem r there
    rcases List.mem_append.mp mem with old | new
    · exact List.mem_append_left _ (known.outstanding b old r there)
    · rw [List.mem_singleton.mp new] at there
      exact List.mem_append_right _ there
  · rw [numbered]
    intro r mem
    rcases List.mem_append.mp mem with old | new
    · exact known.pos r old
    · exact Nat.zero_lt_of_lt (lt_of_mem_number new)

theorem Turns.Lawful.grow (lawful : w.Lawful) (grows : w.Grows t base drafts)
    (below : drafts ≠ [] → ∀ r ∈ w.numbered, r.turn ≤ base) : t.Lawful := by
  obtain ⟨rows, numbered, stage, outstanding⟩ := grows
  constructor
  · rw [numbered]
    refine List.pairwise_append.mpr ⟨lawful.ordered, ordered_number base drafts, ?_⟩
    intro r mem s new
    have some_ : drafts ≠ [] := fun none_ => by
      rw [none_] at new
      cases new
    exact Nat.lt_of_le_of_lt (below some_ r mem) (lt_of_mem_number new)
  · rw [numbered, rows, outstanding]
    intro r mem
    rcases List.mem_append.mp mem with old | new
    · rcases lawful.kept r old with stored | ⟨b, there, holds⟩
      · exact .inl stored
      · exact .inr ⟨b, List.mem_append_left _ there, holds⟩
    · exact .inr ⟨_, List.mem_append_right _ List.mem_cons_self, new⟩

theorem Turns.Grows.le_base (grows : w.Grows t base drafts) (lawful : t.Lawful)
    (some_ : drafts ≠ []) : ∀ r ∈ w.numbered, r.turn ≤ base := by
  intro r mem
  cases drafts with
  | nil => exact absurd rfl some_
  | cons draft rest =>
    have ordered := lawful.ordered
    rw [grows.numbered] at ordered
    exact Nat.le_of_lt_succ
      ((List.pairwise_append.mp ordered).2.2 r mem ⟨base + 1, draft⟩ List.mem_cons_self)

/-- What is not outstanding is stored, so only what is outstanding can be above a base. -/
theorem Turns.Lawful.le_base (lawful : w.Lawful) (above : maxTurn w.rows ≤ base)
    (meets : ∀ b ∈ w.outstanding, ∀ r ∈ b.rows, r.turn ≤ base) :
    ∀ r ∈ w.numbered, r.turn ≤ base := by
  intro r mem
  rcases lawful.kept r mem with stored | ⟨b, there, holds⟩
  · exact Nat.le_trans (le_maxTurn stored) above
  · exact meets b there r holds

theorem grows_of_append {synced : Bool}
    (taken : turnStep settings channel w (.append drafts synced) = some t) :
    w.Grows t (w.synced synced).lastTurn drafts := by
  cases taken
  have new := appendNumbered_snd settings channel (w.synced synced) drafts
  exact ⟨rfl, by rw [← new], .numbered, by rw [← new]⟩

theorem grows_of_reserve {nested : Bool} {ago : ℕ} (some_ : drafts ≠ [])
    (taken : turnStep settings channel w (.reserve drafts nested ago) = some t) :
    w.locked = false ∧ w.Grows t (max (w.countAgo ago) (maxTurn w.rows)) drafts := by
  rw [turnStep, if_neg some_] at taken
  split at taken
  · cases taken
  · rename_i free
    cases taken
    exact ⟨Bool.eq_false_iff.mpr free, rfl, rfl, _, rfl⟩

theorem Turns.same (known : w.Known) (lawful : w.Lawful) (rows : t.rows = w.rows)
    (numbered : t.numbered = w.numbered)
    (outstanding : t.outstanding.map Outstanding.rows = w.outstanding.map Outstanding.rows) :
    t.Known ∧ t.Lawful := by
  have has (l : List Outstanding) (r : Numbered) :
      (∃ b ∈ l, r ∈ b.rows) ↔ ∃ new ∈ l.map Outstanding.rows, r ∈ new := by
    simp only [List.mem_map, exists_exists_and_eq_and]
  refine ⟨⟨?_, ?_, ?_⟩, ⟨?_, ?_⟩⟩
  · rw [rows, numbered]
    exact known.stored
  · intro b there r mem
    obtain ⟨b', there, mem⟩ := (has w.outstanding r).mpr
      (outstanding ▸ (has t.outstanding r).mp ⟨b, there, mem⟩)
    rw [numbered]
    exact known.outstanding b' there r mem
  · rw [numbered]
    exact known.pos
  · rw [numbered]
    exact lawful.ordered
  · rw [numbered, rows]
    intro r mem
    rw [has, outstanding, ← has]
    exact lawful.kept r mem

theorem Turns.insert {i : ℕ} {b : Outstanding} (known : w.Known) (lawful : w.Lawful)
    (there : w.outstanding[i]? = some b) (rows : t.rows = bulkInsertMessages w.rows b.rows)
    (numbered : t.numbered = w.numbered) (outstanding : t.outstanding = w.outstanding.eraseIdx i) :
    t.Known ∧ t.Lawful := by
  have listed := List.mem_of_getElem? there
  have stored : ∀ r ∈ bulkInsertMessages w.rows b.rows, r ∈ w.numbered := by
    intro r mem
    rcases mem_or_mem_of_bulkInsert mem with old | new
    · exact known.stored r old
    · exact known.outstanding b listed r new
  refine ⟨⟨?_, ?_, ?_⟩, ⟨?_, ?_⟩⟩
  · rw [rows, numbered]
    exact stored
  · rw [outstanding, numbered]
    exact fun b mem => known.outstanding b (List.mem_of_mem_eraseIdx mem)
  · rw [numbered]
    exact known.pos
  · rw [numbered]
    exact lawful.ordered
  · rw [numbered, rows, outstanding]
    intro r mem
    rcases lawful.kept r mem with old | ⟨b', mem', holds⟩
    · exact .inl (mem_bulkInsert_of_mem _ old)
    · by_cases here : b' = b
      · subst here
        obtain ⟨s, inserted, same⟩ := exists_mem_bulkInsert w.rows holds (known.pos r mem)
        exact .inl (lawful.eq_of_turn (stored s inserted) mem same ▸ inserted)
      · exact .inr ⟨b', mem_eraseIdx_of_ne there mem' here, holds⟩

theorem turnStep_lawful (sound : w.Known ∧ w.Lawful) (meets : w.Meets a)
    (taken : turnStep settings channel w a = some t) : t.Known ∧ t.Lawful := by
  obtain ⟨known, lawful⟩ := sound
  cases a with
  | append drafts synced =>
    have grows := grows_of_append taken
    refine ⟨known.grow grows, lawful.grow grows fun some_ => ?_⟩
    obtain ⟨stored, seen⟩ := meets some_
    cases synced with
    | true =>
      rw [Turns.synced, if_pos rfl, lastTurn_syncRedisLastTurn]
      apply lawful.le_base (Nat.le_max_right _ _)
      intro b mem r there
      have seen := seen b mem r there
      omega
    | false =>
      apply lawful.le_base (maxTurn_le (stored.resolve_left nofun))
      intro b mem r there
      exact (seen b mem r there).resolve_right nofun
  | interrupted drafts synced =>
    cases taken
    exact Turns.same known lawful rfl rfl rfl
  | reserve drafts nested ago =>
    by_cases some_ : drafts = []
    · rw [turnStep, if_pos some_] at taken
      cases taken
      exact ⟨known, lawful⟩
    · obtain ⟨free, grows⟩ := grows_of_reserve some_ taken
      refine ⟨known.grow grows, lawful.grow grows fun _ => ?_⟩
      apply lawful.le_base (Nat.le_max_right _ _)
      intro b mem r there
      have seen := meets some_ free b mem r there
      omega
  | commit i | rollback i =>
    rw [turnStep] at taken
    split at taken
    · rename_i there
      cases taken
      exact Turns.same known lawful rfl rfl (map_set_of_eq Outstanding.rows there rfl)
    · cases taken
  | touch i ago =>
    rw [turnStep] at taken
    split at taken
    · rename_i there
      split at taken
      · cases taken
      · cases taken
        exact Turns.same known lawful rfl rfl (map_set_of_eq Outstanding.rows there rfl)
    · cases taken
  | insert i =>
    rw [turnStep] at taken
    split at taken
    · rename_i there
      cases taken
      exact Turns.insert known lawful there rfl rfl rfl
    · rename_i there
      cases taken
      exact Turns.insert known lawful there rfl rfl rfl
    · cases taken
  | expire =>
    cases taken
    exact Turns.same known lawful rfl rfl rfl

/-- Turns grow from append to append, and no message is lost, in every state of a run, exactly
when no append of the run finds a message outstanding whose turn its own path does not see. -/
theorem turns_throughout (settings : Settings) (channel : ConversationChannel)
    (actions : List TurnAction) :
    (∀ first, first <+: actions → ∀ w, run (turnStep settings channel) {} first = some w →
      w.Lawful) ↔ Along (turnStep settings channel) Turns.Meets {} actions := by
  refine forall_prefix_iff_along (P := fun w => w.Known ∧ w.Lawful) And.right turnStep_lawful
    (fun {w a t} sound taken lawful => ?_) (fun {w a} stuck => ?_) ⟨⟨?_, ?_, ?_⟩, .nil, ?_⟩
  · cases a with
    | append drafts synced =>
      intro some_
      have below := (grows_of_append taken).le_base lawful some_
      cases synced with
      | true =>
        rw [Turns.synced, if_pos rfl, lastTurn_syncRedisLastTurn] at below
        refine ⟨.inl rfl, fun b mem r there => ?_⟩
        have seen := below r (sound.1.outstanding b mem r there)
        by_cases low : r.turn ≤ w.redis.lastTurn
        · exact .inl low
        · exact .inr ⟨rfl, by omega⟩
      | false =>
        exact ⟨.inr fun r mem => below r (sound.1.stored r mem),
          fun b mem r there => .inl (below r (sound.1.outstanding b mem r there))⟩
    | reserve drafts nested ago =>
      intro some_ _ b mem r there
      have below := (grows_of_reserve some_ taken).2.le_base lawful some_ r
        (sound.1.outstanding b mem r there)
      omega
    | _ => trivial
  · cases a with
    | append drafts synced => cases stuck
    | reserve drafts nested ago =>
      intro some_ free
      rw [turnStep, if_neg some_, if_neg (by rw [free]; exact Bool.false_ne_true)] at stuck
      cases stuck
    | _ => trivial
  all_goals exact fun _ mem => (List.not_mem_nil mem).elim

end Steps

/-- The keys expire between the numbering of a message and its insert, or before a sync that fails:
the next message gets the same turn, and is not stored. -/
theorem turn_reused :
    let world := { hello with content := "world" }
    (∃ w, run (turnStep defaultSettings .internal) {}
        [.append [hello] true, .expire, .append [world] true, .touch 0 0, .insert 0, .touch 0 0,
          .insert 0] = some w ∧
      w.numbered = [⟨1, hello⟩, ⟨1, world⟩] ∧ w.rows = [⟨1, hello⟩] ∧ w.outstanding = []) ∧
    ∃ w, run (turnStep defaultSettings .internal) {}
        [.append [hello] true, .touch 0 0, .insert 0, .expire, .append [world] false, .touch 0 0,
          .insert 0] = some w ∧
      w.numbered = [⟨1, hello⟩, ⟨1, world⟩] ∧ w.rows = [⟨1, hello⟩] ∧ w.outstanding = [] := by
  refine ⟨⟨_, rfl, rfl, ?_, rfl⟩, _, rfl, rfl, ?_, rfl⟩
  · decide
  · decide

end Deeting.Conversation
