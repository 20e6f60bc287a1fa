import Deeting.Decimal
import Deeting.Table
import Deeting.Transition

/-! The rating of an assistant: `AssistantRatingService.rate_assistant` and `refresh_rating`
over the repositories, for an assistant that exists. A call keeps the assistant it loaded first,
its two commits are steps of their own, and a flush writes the columns it changed. Ratings and
averages are exact. -/
namespace Deeting.Assistants.Ratings
open Decimal Transition

/-- A row of `assistant_rating`; a user has at most one. -/
structure Rating where
  user : ℕ
  rating : ℚ
  deriving DecidableEq

abbrev Rows := Table Rating.user

/-- The rating columns of a row of `assistant`. -/
structure Assistant where
  ratingAvg : ℚ := 0
  ratingCount : ℤ := 0
  deriving DecidableEq

/-- `round(q, 4)`. -/
def round4 (q : ℚ) : ℚ := roundHalfEven (q * 10000) / 10000

def aggregateByAssistant (rows : Rows) : ℚ × ℕ :=
  (rows.sum Rating.rating / rows.rows.length, rows.rows.length)

/-- What `refresh_rating` stores. -/
def refreshed (rows : Rows) : Assistant :=
  ⟨round4 (aggregateByAssistant rows).1, (aggregateByAssistant rows).2⟩

/-- What a call stores after it has changed the rating `old` or added one. -/
def updated (assistant : Assistant) (old : Option ℚ) (rating : ℚ) : Assistant :=
  let ⟨avg, count⟩ := assistant
  match old with
  | some old => ⟨round4 ((avg * count - old + rating) / count), count⟩
  | none => ⟨round4 ((avg * count + rating) / (count + 1 : ℤ)), count + 1⟩

/-- The `UPDATE` of a flush, which sets the columns whose value is no longer the loaded one. -/
def flushed (loaded changed current : Assistant) : Assistant where
  ratingAvg := if changed.ratingAvg = loaded.ratingAvg then current.ratingAvg else changed.ratingAvg
  ratingCount :=
    if changed.ratingCount = loaded.ratingCount then current.ratingCount else changed.ratingCount

/-- Where a call stands: `aggregated` is inside `refresh_rating`. -/
inductive Stage where
  | loaded
  | found (old : Option ℚ)
  | rated (old : Option ℚ)
  | aggregated (avg : ℚ) (count : ℕ)

structure Call where
  user : ℕ
  rating : ℚ
  assistant : Assistant
  stage : Stage := .loaded

structure State where
  installed : ℕ → Bool
  rows : Rows := .empty
  assistant : Assistant := {}
  calls : ℕ → Option Call := fun _ => none
  answer : Option (Except String Assistant) := none

inductive RatingAction where
  | begin (call user : ℕ) (rating : ℚ)
  | advance (call : ℕ)

namespace State

def put (s : State) (call : ℕ) (c : Option Call) : State :=
  { s with calls := Function.update s.calls call c }

def finish (s : State) (call : ℕ) (answer : Except String Assistant) : State :=
  { s.put call none with answer := some answer }

def store (s : State) (call : ℕ) (c : Call) (changed : Assistant) : State :=
  let assistant := flushed c.assistant changed s.assistant
  { s.finish call (.ok assistant) with assistant := assistant }

/-- The next statement of a call of `rate_assistant`. -/
def advance (s : State) (call : ℕ) (c : Call) : State :=
  match c.stage with
  | .loaded =>
    let old := (s.rows.find? c.user).map Rating.rating
    if ¬ s.installed c.user then s.finish call (.error "请先安装助手后再评分")
    else if old = some c.rating then s.finish call (.ok c.assistant)
    else s.put call (some { c with stage := .found old })
  | .found (some old) =>
    { s.put call (some { c with stage := .rated (some old) }) with
      rows := s.rows.modify c.user (fun r => { r with rating := c.rating }) fun _ => rfl }
  | .found none =>
    match s.rows.insert? ⟨c.user, c.rating⟩ with
    | none => s.finish call (.error "uq_assistant_rating_user")
    | some rows => { s.put call (some { c with stage := .rated none }) with rows := rows }
  | .rated old =>
    if old.isSome ∧ c.assistant.ratingCount ≤ 0 then
      let (avg, count) := aggregateByAssistant s.rows
      s.put call (some { c with stage := .aggregated avg count })
    else s.store call c (updated c.assistant old c.rating)
  | .aggregated avg count => s.store call c ⟨round4 avg, count⟩

end State

def ratingStep (s : State) : RatingAction → Option State
  | .begin call user rating =>
    if (s.calls call).isSome then none else some (s.put call (some ⟨user, rating, s.assistant, .loaded⟩))
  | .advance call => (s.calls call).map (s.advance call)

def State.Idle (s : State) : Prop := ∀ call, s.calls call = none

/-- Once all calls have returned, the stored rating is the one of the rows. -/
def State.Settled (s : State) : Prop := s.Idle → s.assistant = refreshed s.rows

def Alone (s : State) : RatingAction → Prop
  | .begin .. => s.Idle
  | .advance _ => True

/-- The sum and the number of the ratings before a call changed the rating `old` or added one. -/
def before (rows : Rows) (rating : ℚ) (old : Option ℚ) : ℚ × ℕ :=
  (rows.sum Rating.rating - (rating - old.getD 0),
    rows.rows.length - if old.isSome then 0 else 1)

def slip (rows : Rows) (rating : ℚ) (old : Option ℚ) : ℚ :=
  let (sum, count) := before rows rating old
  (round4 (sum / count) * count - sum) / rows.rows.length

/-- What the mean of the earlier ratings was rounded by does not show in the fourth decimal of
the new one. -/
def Unshown (s : State) : RatingAction → Prop
  | .begin .. => True
  | .advance call => ∀ c ∈ s.calls call, ∀ old, c.stage = .rated old →
    round4 ((aggregateByAssistant s.rows).1 + slip s.rows c.rating old) =
      round4 (aggregateByAssistant s.rows).1

instance decidableUnshown (s : State) : (a : RatingAction) → Decidable (Unshown s a)
  | .begin .. => .isTrue trivial
  | .advance call =>
    match held : s.calls call with
    | none => .isTrue (by simp [Unshown, held])
    | some c =>
      match stage : c.stage with
      | .rated old =>
        decidable_of_iff (round4 ((aggregateByAssistant s.rows).1 + slip s.rows c.rating old) =
          round4 (aggregateByAssistant s.rows).1) (by simp [Unshown, held, stage])
      | .loaded | .found _ | .aggregated .. => .isTrue (by simp [Unshown, held, stage])

def earlier (rows : Rows) (rating : ℚ) (old : Option ℚ) : Assistant :=
  let (sum, count) := before rows rating old
  ⟨round4 (sum / count), count⟩

/-- With one call at most, what its stage has left to be stored. -/
def Call.Fits (c : Call) (s : State) : Prop :=
  match c.stage with
  | .loaded => s.assistant = refreshed s.rows
  | .found old =>
    s.assistant = refreshed s.rows ∧ old = (s.rows.find? c.user).map Rating.rating
  | .rated old => s.assistant = earlier s.rows c.rating old ∧ s.rows.rows ≠ []
  | .aggregated .. => False

inductive Good (s : State) : Prop where
  | idle (free : s.Idle) (same : s.assistant = refreshed s.rows)
  | busy (call : ℕ) (c : Call) (held : s.calls call = some c)
      (single : ∀ other, other ≠ call → s.calls other = none)
      (loaded : c.assistant = s.assistant) (fits : c.Fits s)

section Steps
variable {s t : State} {a : RatingAction} {call : ℕ} {c : Call}

@[simp] theorem flushed_self (loaded changed : Assistant) : flushed loaded changed loaded = changed := by
  unfold flushed
  congr 1 <;> split <;> simp_all

theorem updated_earlier {rows : Rows} (filled : rows.rows ≠ []) (rating : ℚ) (old : Option ℚ) :
    updated (earlier rows rating old) old rating =
      ⟨round4 ((aggregateByAssistant rows).1 + slip rows rating old), rows.rows.length⟩ := by
  have positive : 1 ≤ rows.rows.length := List.length_pos_iff.mpr filled
  cases old with
  | some old =>
    simp only [updated, earlier, before, aggregateByAssistant, slip, Option.getD_some,
      Option.isSome_some, if_true, Nat.sub_zero, Int.cast_natCast]
    rw [← add_div]
    congr 3
    ring
  | none =>
    have count : ((rows.rows.length - 1 : ℕ) : ℤ) + 1 = rows.rows.length := by omega
    simp only [updated, earlier, before, aggregateByAssistant, slip, Option.getD_none,
      Option.isSome_none, Bool.false_eq_true, if_false, count, Int.cast_natCast]
    rw [← add_div]
    congr 3
    ring

theorem State.put_idle (single : ∀ other, other ≠ call → s.calls other = none) :
    (s.put call none).Idle := by
  intro other
  rcases eq_or_ne other call with rfl | different
  · simp [State.put]
  · simpa [State.put, different] using single other different

theorem Good.idle_of_free (good : Good s) (free : s.Idle) : s.assistant = refreshed s.rows := by
  cases good with
  | idle _ same => exact same
  | busy call c held => simp [free call] at held

theorem Good.settled (good : Good s) : s.Settled := good.idle_of_free

theorem Good.next {rows : Rows} (single : ∀ other, other ≠ call → s.calls other = none)
    (loaded : c.assistant = s.assistant)
    (fits : c.Fits { s.put call (some c) with rows := rows }) :
    Good { s.put call (some c) with rows := rows } := by
  refine .busy call c (by simp [State.put]) (fun other different => ?_) loaded fits
  simpa [State.put, different] using single other different

theorem Good.begin (free : s.Idle) (same : s.assistant = refreshed s.rows) (user : ℕ) (rating : ℚ) :
    Good (s.put call (some ⟨user, rating, s.assistant, .loaded⟩)) :=
  @Good.next s call _ s.rows (fun other _ => free other) rfl same

theorem store_eq (loaded : c.assistant = s.assistant) (changed : Assistant) :
    s.store call c changed = { s.finish call (.ok changed) with assistant := changed } := by
  simp only [State.store, loaded, flushed_self]

theorem advance_rated {old : Option ℚ} (stage : c.stage = .rated old) (loaded : c.assistant = s.assistant)
    (fits : c.Fits s) :
    s.advance call c = s.store call c
      ⟨round4 ((aggregateByAssistant s.rows).1 + slip s.rows c.rating old), s.rows.rows.length⟩ := by
  simp only [Call.Fits, stage] at fits
  obtain ⟨same, filled⟩ := fits
  have positive : 0 < s.rows.rows.length := List.length_pos_iff.mpr filled
  have counted : ¬ (old.isSome ∧ c.assistant.ratingCount ≤ 0) := by
    rintro ⟨changes, none⟩
    rw [loaded, same] at none
    simp only [earlier, before, changes, if_true] at none
    omega
  simp only [State.advance, stage]
  rw [if_neg counted, loaded, same, updated_earlier filled]

theorem length_modify (rows : Rows) (user : ℕ) (f : Rating → Rating) (keeps : ∀ r, (f r).user = r.user) :
    (rows.modify user f keeps).rows.length = rows.rows.length := by
  simp [Table.modify]

theorem earlier_modify {rows : Rows} {user : ℕ} {old : ℚ} (rating : ℚ)
    (found : some old = (rows.find? user).map Rating.rating) :
    earlier (rows.modify user (fun r => { r with rating := rating }) fun _ => rfl) rating (some old) =
      refreshed rows := by
  obtain ⟨row, present, rfl⟩ := Option.map_eq_some_iff.mp found.symm
  simp only [earlier, before, refreshed, aggregateByAssistant, length_modify,
    Table.sum_modify present, Option.getD_some, Option.isSome_some, if_true, Nat.sub_zero,
    add_sub_cancel_right]

theorem earlier_insert {rows more : Rows} {user : ℕ} {rating : ℚ}
    (inserted : rows.insert? ⟨user, rating⟩ = some more) :
    earlier more rating none = refreshed rows := by
  obtain ⟨_, rowsEq⟩ := Table.insert?_eq_some.mp inserted
  simp only [earlier, before, refreshed, aggregateByAssistant, Table.sum_insert inserted, rowsEq,
    List.length_cons, Option.getD_none, sub_zero, add_sub_cancel_left, Option.isSome_none,
    Bool.false_eq_true, if_false, Nat.add_sub_cancel]

theorem Good.advance (held : s.calls call = some c)
    (single : ∀ other, other ≠ call → s.calls other = none) (loaded : c.assistant = s.assistant)
    (fits : c.Fits s) (unshown : Unshown s (.advance call)) : Good (s.advance call c) := by
  cases stage : c.stage with
  | loaded =>
    simp only [Call.Fits, stage] at fits
    simp only [State.advance, stage]
    split
    · exact .idle (State.put_idle single) fits
    split
    · exact .idle (State.put_idle single) fits
    · exact @Good.next s call { c with stage := .found _ } s.rows single loaded ⟨fits, rfl⟩
  | found old =>
    simp only [Call.Fits, stage] at fits
    obtain ⟨same, found⟩ := fits
    cases old with
    | some old =>
      simp only [State.advance, stage]
      refine Good.next single loaded ⟨same.trans (earlier_modify c.rating found).symm, ?_⟩
      obtain ⟨row, present, _⟩ := Option.map_eq_some_iff.mp found.symm
      rw [← List.length_pos_iff, length_modify]
      exact List.length_pos_of_mem (Table.mem_of_find? present)
    | none =>
      simp only [State.advance, stage]
      split
      · exact .idle (State.put_idle single) same
      · rename_i rows inserted
        refine Good.next single loaded ⟨same.trans (earlier_insert inserted).symm, ?_⟩
        obtain ⟨_, rowsEq⟩ := Table.insert?_eq_some.mp inserted
        simp [rowsEq]
  | rated old =>
    rw [advance_rated stage loaded fits, store_eq loaded]
    refine .idle (State.put_idle single) ?_
    simp only [refreshed, unshown c held old stage]
    rfl
  | aggregated => simp [Call.Fits, stage] at fits

theorem Good.alone (good : Good s) (held : s.calls call = some c) :
    (∀ other, other ≠ call → s.calls other = none) ∧ c.assistant = s.assistant ∧ c.Fits s := by
  cases good with
  | idle free => simp [free call] at held
  | busy other d busy single loaded fits =>
    have same : call = other := by
      by_contra different
      simp [single call different] at held
    subst same
    obtain rfl := Option.some.inj (held.symm.trans busy)
    exact ⟨single, loaded, fits⟩

theorem Good.step (good : Good s) (alone : Alone s a) (unshown : Unshown s a)
    (taken : ratingStep s a = some t) : Good t := by
  cases a with
  | begin call user rating =>
    simp only [ratingStep] at taken
    split at taken
    · simp at taken
    · rw [← Option.some.inj taken]
      exact Good.begin alone (good.idle_of_free alone) user rating
  | advance call =>
    obtain ⟨c, held, rfl⟩ := Option.map_eq_some_iff.mp taken
    obtain ⟨single, loaded, fits⟩ := good.alone held
    exact Good.advance held single loaded fits unshown

theorem unshown_of_settled (good : Good s) (taken : ratingStep s a = some t) (settled : t.Settled) :
    Unshown s a := by
  cases a with
  | begin => trivial
  | advance call =>
    obtain ⟨c, held, rfl⟩ := Option.map_eq_some_iff.mp taken
    intro d member old stage
    obtain rfl := Option.some.inj (held.symm.trans member)
    obtain ⟨single, loaded, fits⟩ := good.alone held
    rw [advance_rated stage loaded fits, store_eq loaded] at settled
    exact congrArg Assistant.ratingAvg (settled (State.put_idle single))

theorem unshown_of_stuck (stuck : ratingStep s a = none) : Unshown s a := by
  cases a with
  | begin => trivial
  | advance call =>
    intro c held
    simp [ratingStep, Option.mem_def.mp held] at stuck

end Steps

def unrated (installed : ℕ → Bool) : State := { installed := installed }

theorem unrated_good (installed : ℕ → Bool) : Good (unrated installed) := by
  refine .idle (fun _ => rfl) ?_
  have zero : roundHalfEven 0 = 0 := roundHalfEven_intCast 0
  simp [unrated, refreshed, aggregateByAssistant, Table.empty, Table.sum, round4, zero]

/-- Calls that do not overlap keep the stored rating equal to the one of the rows exactly where
no average they store shows what the one before it was rounded by. -/
theorem ratings_settled_iff (installed : ℕ → Bool) (actions : List RatingAction)
    (alone : Along ratingStep Alone (unrated installed) actions) :
    (∀ first, first <+: actions → ∀ t,
      run ratingStep (unrated installed) first = some t → t.Settled) ↔
      Along ratingStep Unshown (unrated installed) actions :=
  forall_prefix_iff_along_within Good.settled Good.step
    (fun good _ taken settled => unshown_of_settled good taken settled) unshown_of_stuck
    (unrated_good installed) alone

def rateOnce (call user : ℕ) (rating : ℚ) : List RatingAction :=
  .begin call user rating :: List.replicate 3 (.advance call)

def changedRating : List RatingAction := rateOnce 0 0 5 ++ rateOnce 1 1 4 ++ rateOnce 2 0 3

theorem State.advance_calls_of_ne (s : State) (c : Call) {call other : ℕ} (different : other ≠ call) :
    (s.advance call c).calls other = s.calls other := by
  cases stage : c.stage with
  | found old =>
    cases old with
    | some old => simp [State.advance, stage, State.put, different]
    | none =>
      simp only [State.advance, stage]
      split <;> simp [State.finish, State.put, different]
  | _ =>
    simp only [State.advance, stage]
    repeat' split
    all_goals simp [State.store, State.finish, State.put, different]

theorem alone_changedRating : Along ratingStep Alone (unrated fun _ => true) changedRating := by
  refine (along_cons_of_step rfl).mpr ⟨fun _ => rfl, ?_⟩
  repeat refine (along_cons_of_step rfl).mpr ⟨trivial, ?_⟩
  refine (along_cons_of_step rfl).mpr ⟨fun call => ?_, ?_⟩
  · rcases eq_or_ne call 0 with rfl | first
    · rfl
    · simp [State.advance_calls_of_ne, State.put, unrated, first]
  repeat refine (along_cons_of_step rfl).mpr ⟨trivial, ?_⟩
  refine (along_cons_of_step rfl).mpr ⟨fun call => ?_, ?_⟩
  · rcases eq_or_ne call 1 with rfl | second
    · rfl
    rcases eq_or_ne call 0 with rfl | first
    · rfl
    · simp [State.advance_calls_of_ne, State.put, unrated, first, second]
  repeat refine (along_cons_of_step rfl).mpr ⟨trivial, ?_⟩
  trivial

theorem changed_rating_settled :
    ∃ t, run ratingStep (unrated fun _ => true) changedRating = some t ∧ t.Settled ∧
      t.assistant = ⟨7 / 2, 2⟩ := by
  refine ⟨_, rfl, (ratings_settled_iff _ _ alone_changedRating).mpr ?_ _ (List.prefix_refl _) _ rfl, ?_⟩
  · decide +kernel
  · decide +kernel

/-- The stored rating, the one of the rows, and whether the first calls have returned. -/
def outcome (actions : List RatingAction) : Option (Assistant × Assistant × Bool) :=
  (run ratingStep (unrated fun _ => true) actions).map fun t =>
    (t.assistant, refreshed t.rows, (List.range 7).all fun call => (t.calls call).isNone)

/-- Seven first ratings one after another, and two that overlap. -/
theorem stored_rating_astray :
    outcome ([1, 1, 1, 1, 1, 2, 4].zipIdx.flatMap fun (rating, user) => rateOnce user user rating) =
      some (⟨3143 / 2000, 7⟩, ⟨7857 / 5000, 7⟩, true) ∧
    outcome [.begin 0 0 1, .begin 1 1 5, .advance 0, .advance 0, .advance 0, .advance 1, .advance 1,
      .advance 1] = some (⟨5, 1⟩, ⟨3, 2⟩, true) := by
  decide +kernel

end Deeting.Assistants.Ratings
