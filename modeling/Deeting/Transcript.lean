import Deeting.Transition

/-! Conversations in which a message may ask for things by name: what it asks for is answered
at once, item by item and in the order asked, and nothing is answered unasked. The grammar of
these conversations, and the scan that decides it, whose state is what is still owed. -/
namespace Deeting.Transcript
open Transition

inductive Message (ι : Type) where
  | ask (ids : List ι)
  | answer (id : ι)
  | other
  deriving DecidableEq, Repr

variable {ι : Type}

inductive WellFormed : List (Message ι) → Prop where
  | nil : WellFormed []
  | other {rest : List (Message ι)} : WellFormed rest → WellFormed (.other :: rest)
  | exchange (ids : List ι) {rest : List (Message ι)} :
      WellFormed rest → WellFormed (.ask ids :: (ids.map .answer ++ rest))

variable [DecidableEq ι]

def owing : List ι → Message ι → Option (List ι)
  | [], .ask ids => some ids
  | [], .other => some []
  | id :: owed, .answer given => if given = id then some owed else none
  | _, _ => none

theorem run_answers (ids : List ι) : run owing ids (ids.map .answer) = some [] := by
  induction ids with
  | nil => rfl
  | cons id rest ih => simpa [run, owing] using ih

theorem WellFormed.scan {messages : List (Message ι)} (wf : WellFormed messages) :
    run owing [] messages = some [] := by
  induction wf with
  | nil => rfl
  | other _ ih => exact ih
  | exchange ids _ ih =>
    change run owing ids (ids.map .answer ++ _) = some []
    rw [run_append, run_answers, Option.bind_some, ih]

/-- Once what is owed is answered, the rest is a conversation of its own. -/
theorem answers_of_scan {owed : List ι} {messages : List (Message ι)}
    (taken : run owing owed messages = some []) :
    ∃ rest, messages = owed.map .answer ++ rest ∧ WellFormed rest := by
  induction messages generalizing owed with
  | nil =>
    cases taken
    exact ⟨[], rfl, .nil⟩
  | cons message rest ih =>
    obtain ⟨later, first, taken⟩ := run_cons_eq_some.mp taken
    obtain ⟨more, rfl, wf⟩ := ih taken
    cases owed with
    | nil =>
      cases message with
      | ask ids =>
        cases first
        exact ⟨_, rfl, .exchange _ wf⟩
      | answer id => cases first
      | other =>
        cases first
        exact ⟨_, rfl, .other wf⟩
    | cons id owed =>
      cases message with
      | answer given =>
        rw [owing] at first
        split at first
        · rename_i same
          cases first
          exact ⟨more, by rw [same]; rfl, wf⟩
        · cases first
      | ask ids => cases first
      | other => cases first

theorem wellFormed_iff_scan {messages : List (Message ι)} :
    WellFormed messages ↔ run owing [] messages = some [] := by
  constructor
  · exact WellFormed.scan
  · intro taken
    obtain ⟨rest, rfl, wf⟩ := answers_of_scan taken
    exact wf

instance (messages : List (Message ι)) : Decidable (WellFormed messages) :=
  decidable_of_iff _ wellFormed_iff_scan.symm

/-- A request is answered in order, before anything else is said. -/
example : WellFormed (ι := ℕ) [.other, .ask [1, 2], .answer 1, .answer 2, .other] := by decide

example : ¬ WellFormed (ι := ℕ) [.ask [1, 2], .answer 1, .other, .answer 2] := by decide

end Deeting.Transcript
