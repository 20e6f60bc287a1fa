import Mathlib.Algebra.Group.Defs
import Mathlib.Data.List.Basic
import Mathlib.Tactic.Abel

/-! Lists of the calls that are under way: what replacing one of them changes in a count and in
what is true of all, and that the others stay when one is replaced or ends. -/
namespace Deeting.Counting

variable {α : Type} {l : List α} {i : ℕ} {c d : α}

/-- One element is replaced: its share of the count goes, that of the new one comes. -/
theorem countP_set_add (p : α → Bool) (b : α) (there : l[i]? = some c) :
    (l.set i b).countP p + (if p c then 1 else 0) = l.countP p + (if p b then 1 else 0) := by
  induction l generalizing i with
  | nil => cases there
  | cons x rest ih =>
    cases i with
    | zero =>
      cases there
      simp only [List.set_cons_zero, List.countP_cons]
      omega
    | succ i =>
      have tail := ih (i := i) there
      simp only [List.set_cons_succ, List.countP_cons]
      omega

/-- So it is of a sum. -/
theorem sum_set_add {M : Type} [AddCommMonoid M] (f : α → M) (b : α) (there : l[i]? = some c) :
    ((l.set i b).map f).sum + f c = (l.map f).sum + f b := by
  induction l generalizing i with
  | nil => cases there
  | cons x rest ih =>
    cases i with
    | zero =>
      cases there
      simp only [List.set_cons_zero, List.map_cons, List.sum_cons]
      abel
    | succ i =>
      have tail := ih (i := i) there
      simp only [List.set_cons_succ, List.map_cons, List.sum_cons, add_assoc, tail]

theorem countP_concat (p : α → Bool) (l : List α) (b : α) :
    (l ++ [b]).countP p = l.countP p + (if p b then 1 else 0) := by
  rw [List.countP_append, List.countP_singleton]

/-- An element that counts makes the count positive. -/
theorem countP_pos_of_getElem? (p : α → Bool) (there : l[i]? = some c) (counts : p c = true) :
    0 < l.countP p :=
  List.countP_pos_iff.mpr ⟨c, List.mem_of_getElem? there, counts⟩

theorem map_set_of_eq {β : Type} (f : α → β) (there : l[i]? = some c) (same : f d = f c) :
    (l.set i d).map f = l.map f := by
  apply List.ext_getElem?
  intro j
  rw [List.getElem?_map, List.getElem?_map, List.getElem?_set]
  split
  · rename_i here
    subst here
    rw [there, if_pos (List.getElem?_eq_some_iff.mp there).1, Option.map_some, Option.map_some, same]
  · rfl

theorem forall_mem_set {P : α → Prop} {b : α} (old : ∀ x ∈ l, P x) (new : P b) :
    ∀ x ∈ l.set i b, P x := by
  intro x mem
  rcases List.mem_or_eq_of_mem_set mem with there | rfl
  · exact old x there
  · exact new

theorem mem_set_self (there : l[i]? = some c) : d ∈ l.set i d :=
  List.mem_set (List.getElem?_eq_some_iff.mp there).1 d

/-- One element is replaced; any other is still there. -/
theorem mem_set_of_ne (b : α) (there : l[i]? = some c) (mem : d ∈ l) (other : d ≠ c) :
    d ∈ l.set i b := by
  obtain ⟨j, at_⟩ := List.mem_iff_getElem?.mp mem
  refine List.mem_iff_getElem?.mpr ⟨j, ?_⟩
  rw [List.getElem?_set_ne, at_]
  rintro rfl
  exact other (Option.some.inj (at_.symm.trans there))

theorem mem_eraseIdx_of_ne (there : l[i]? = some c) (mem : d ∈ l) (other : d ≠ c) :
    d ∈ l.eraseIdx i := by
  obtain ⟨j, at_⟩ := List.mem_iff_getElem?.mp mem
  refine List.mem_eraseIdx_iff_getElem?.mpr ⟨j, ?_, at_⟩
  rintro rfl
  exact other (Option.some.inj (at_.symm.trans there))

theorem forall_mem_concat {P : α → Prop} {b : α} (old : ∀ x ∈ l, P x) (new : P b) :
    ∀ x ∈ l ++ [b], P x := by
  intro x mem
  rcases List.mem_append.mp mem with there | last
  · exact old x there
  · rw [List.mem_singleton.mp last]
    exact new

end Deeting.Counting
