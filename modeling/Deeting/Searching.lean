import Mathlib.Data.List.Infix

/-! The first place of a word in a text. Where the letters of the word are of a kind, an element
that is not of this kind keeps what is on its two sides apart. -/
namespace Deeting.Searching

variable {α : Type} [DecidableEq α]

def splitFirst (word : List α) : List α → Option (List α × List α)
  | [] => if word = [] then some ([], []) else none
  | a :: rest =>
      if word <+: a :: rest then some ([], (a :: rest).drop word.length)
      else (splitFirst word rest).map fun parts => (a :: parts.1, parts.2)

variable {word text left right : List α} {a : α}

theorem eq_of_splitFirst (found : splitFirst word text = some (left, right)) :
    text = left ++ word ++ right := by
  induction text generalizing left with
  | nil =>
    rw [splitFirst] at found
    split at found
    · rename_i empty
      cases found
      rw [empty]
      rfl
    · cases found
  | cons a rest ih =>
    rw [splitFirst] at found
    split at found
    · rename_i starts
      cases found
      rw [List.nil_append]
      exact (List.prefix_iff_eq_append.mp starts).symm
    · obtain ⟨⟨front, back⟩, later, same⟩ := Option.map_eq_some_iff.mp found
      cases same
      rw [ih later]
      rfl

theorem splitFirst_eq_none : splitFirst word text = none ↔ ¬ word <:+: text := by
  induction text with
  | nil => simp [splitFirst]
  | cons a rest ih =>
    rw [splitFirst, List.infix_cons_iff, not_or]
    split
    · rename_i starts
      simp [starts]
    · rename_i starts
      rw [Option.map_eq_none_iff, ih]
      exact (and_iff_right starts).symm

/-- A word is first where it stands after elements that it does not start with. -/
theorem splitFirst_append (clear : a ∉ left) :
    splitFirst (a :: word) (left ++ (a :: word) ++ right) = some (left, right) := by
  induction left with
  | nil =>
    rw [List.nil_append, List.cons_append, splitFirst,
      if_pos (List.cons_prefix_cons.mpr ⟨rfl, List.prefix_append _ _⟩)]
    simp
  | cons b left ih =>
    obtain ⟨ne, clear⟩ := not_or.mp (List.mem_cons.not.mp clear)
    have differs : ¬ a :: word <+: b :: (left ++ (a :: word) ++ right) :=
      fun starts => ne (List.cons_prefix_cons.mp starts).1
    rw [List.cons_append, List.cons_append, splitFirst, if_neg differs, ih clear]
    rfl

section Kinds

variable {P : α → Prop} {front back : List α} {b : α}

omit [DecidableEq α] in
/-- A word that ends after an element that it cannot have starts after this element, or it is
before it as a whole. -/
theorem split_around (kind : ∀ c ∈ word, P c) (other : ¬ P b)
    (same : left ++ word ++ right = front ++ b :: back) :
    word <:+: front ∨ ∃ between, left = front ++ between ∧ b :: back = between ++ word ++ right := by
  rw [List.append_assoc] at same
  rcases List.append_eq_append_iff.mp same with ⟨between, rfl, later⟩ | ⟨between, rfl, later⟩
  · rcases List.append_eq_append_iff.mp later with ⟨rest, rfl, tail⟩ | ⟨rest, rfl, tail⟩
    · exact .inl ⟨left, rest, by simp⟩
    · cases rest with
      | nil => exact .inl ⟨left, [], by simp⟩
      | cons c rest =>
        obtain ⟨rfl, -⟩ := List.cons.inj tail
        exact absurd (kind b (by simp)) other
  · exact .inr ⟨between, rfl, by rw [later, List.append_assoc]⟩

omit [DecidableEq α] in
theorem infix_around (kind : ∀ c ∈ word, P c) (other : ¬ P b) :
    word <:+: front ++ b :: back ↔ word <:+: front ∨ word <:+: b :: back := by
  constructor
  · rintro ⟨left, right, same⟩
    rcases split_around kind other same with first | ⟨between, -, later⟩
    · exact .inl first
    · exact .inr ⟨between, right, later.symm⟩
  · rintro (first | later)
    · exact first.trans (List.prefix_append _ _).isInfix
    · exact later.trans (List.suffix_append _ _).isInfix

end Kinds
end Deeting.Searching
