import Mathlib.Data.List.Sort

/-! Insertion sort against filters, and the last element of a sorted list when one element
is added somewhere before the sort. -/
namespace Deeting.Sorting

variable {α : Type} {r : α → α → Prop} [DecidableRel r] {l : List α} {a : α}

theorem filter_orderedInsert [IsTrans α r] (p : α → Bool) (sorted : l.Pairwise r) :
    (l.orderedInsert r a).filter p =
      if p a then (l.filter p).orderedInsert r a else l.filter p := by
  induction l with
  | nil => by_cases kept : p a <;> simp [kept]
  | cons b rest ih =>
    obtain ⟨first, sorted⟩ := List.pairwise_cons.mp sorted
    by_cases before : r a b
    · rw [List.orderedInsert_cons_of_le r rest before]
      by_cases kept : p a
      · rw [List.filter_cons_of_pos kept, if_pos kept]
        -- what is left of the list is headed by an element that `a` precedes too
        cases left : (b :: rest).filter p with
        | nil => rfl
        | cons c others =>
          have mem : c ∈ (b :: rest).filter p := left ▸ List.mem_cons_self
          have precedes : r a c := by
            rcases List.mem_cons.mp (List.mem_of_mem_filter mem) with rfl | later
            · exact before
            · exact IsTrans.trans a b c before (first c later)
          rw [List.orderedInsert_cons_of_le r others precedes]
      · rw [List.filter_cons_of_neg kept, if_neg kept]
    · rw [List.orderedInsert_of_not_le r rest before, List.filter_cons, ih sorted, List.filter_cons]
      by_cases kept : p a
      · by_cases has : p b
        · simp only [has, if_true, kept, List.orderedInsert_of_not_le r _ before]
        · simp only [has, if_false, kept, if_true, Bool.false_eq_true]
      · simp only [kept, if_false, Bool.false_eq_true]

/-- Elements that are filtered out do not matter to the order of the others. -/
theorem filter_insertionSort [IsTrans α r] [Std.Total r] (p : α → Bool) (l : List α) :
    (l.insertionSort r).filter p = (l.filter p).insertionSort r := by
  induction l with
  | nil => rfl
  | cons a rest ih =>
    rw [List.insertionSort_cons, filter_orderedInsert p (List.pairwise_insertionSort r rest), ih,
      List.filter_cons]
    split
    · rw [List.insertionSort_cons]
    · rfl

theorem getLast?_filter (p : α → Bool) (last : l.getLast? = some a) (kept : p a = true) :
    (l.filter p).getLast? = some a := by
  obtain ⟨before, rfl⟩ := List.getLast?_eq_some_iff.mp last
  rw [List.filter_append, List.filter_cons_of_pos kept, List.filter_nil, List.getLast?_concat]

omit [DecidableRel r] in
theorem rel_getLast? [Std.Refl r] (sorted : l.Pairwise r) (last : l.getLast? = some a) :
    ∀ b ∈ l, r b a := by
  obtain ⟨before, rfl⟩ := List.getLast?_eq_some_iff.mp last
  intro b mem
  rcases List.mem_append.mp mem with mem | mem
  · exact (List.pairwise_append.mp sorted).2.2 b mem a (List.mem_singleton_self a)
  · rw [List.mem_singleton.mp mem]
    exact Std.Refl.refl a

section Last

variable [IsTrans α r] [Std.Total r] {more : List α} {p : α → Bool} {b : α}

/-- The last of the sorted list is the new element, or the last of the others. -/
theorem getLast?_sort (others : (more.filter fun b => !p b) = l) (one : more.filter p = [a])
    (last : (more.insertionSort r).getLast? = some b) :
    b = a ∨ (l.insertionSort r).getLast? = some b := by
  by_cases new : p b
  · have mem : b ∈ more := (List.mem_insertionSort r).mp (List.mem_of_getLast? last)
    have kept : b ∈ more.filter p := List.mem_filter.mpr ⟨mem, new⟩
    rw [one, List.mem_singleton] at kept
    exact .inl kept
  · have left := getLast?_filter (fun b => !p b) last (by simpa using new)
    rw [filter_insertionSort, others] at left
    exact .inr left

theorem exists_last (one : more.filter p = [a]) :
    ∃ b, (more.insertionSort r).getLast? = some b ∧ r a b := by
  have mem : a ∈ more.insertionSort r := by
    rw [List.mem_insertionSort]
    exact List.mem_of_mem_filter (one ▸ List.mem_singleton_self a)
  obtain ⟨b, last⟩ := Option.isSome_iff_exists.mp
    (by rw [List.getLast?_isSome]; exact List.ne_nil_of_mem mem)
  exact ⟨b, last, rel_getLast? (List.pairwise_insertionSort r more) last a mem⟩

/-- The new element is sorted to the end when it does not go before the last of the others. -/
theorem getLast?_sort_new (others : (more.filter fun b => !p b) = l) (one : more.filter p = [a])
    (before : ∀ b, (l.insertionSort r).getLast? = some b → ¬ r a b) :
    (more.insertionSort r).getLast? = some a := by
  obtain ⟨b, last, rel⟩ := exists_last (r := r) one
  rcases getLast?_sort others one last with rfl | old
  · exact last
  · exact absurd rel (before b old)

/-- And the last of the others stays at the end when it does not go before the new one. -/
theorem getLast?_sort_old (others : (more.filter fun b => !p b) = l) (one : more.filter p = [a])
    (old : (l.insertionSort r).getLast? = some b) (after : ¬ r b a) :
    (more.insertionSort r).getLast? = some b := by
  obtain ⟨c, last, -⟩ := exists_last (r := r) one
  have mem : b ∈ more.insertionSort r := by
    rw [List.mem_insertionSort]
    have listed := (List.mem_insertionSort r).mp (List.mem_of_getLast? old)
    exact List.mem_of_mem_filter (others ▸ listed)
  rcases getLast?_sort others one last with rfl | same
  · exact absurd (rel_getLast? (List.pairwise_insertionSort r more) last b mem) after
  · rw [last, ← same, old]

end Last

end Deeting.Sorting
