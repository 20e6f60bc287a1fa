import Mathlib.Data.List.Sort
import Mathlib.Order.Defs.LinearOrder

/-! Reading by a cursor: each time the first so many items beyond the newest that was read. Nothing
is read twice, and where the keys tell the items apart nothing is left behind the cursor. -/
namespace Deeting.Cursor

variable {α T : Type} [LinearOrder T] {key : α → T} {limit : ℕ} {since : T} {l : List α} {a b : α}

variable (key) in
def sorted (l : List α) : List α := l.insertionSort fun a b => key a ≤ key b

variable (key) in
def page (limit : ℕ) (since : T) (l : List α) : List α :=
  (sorted key (l.filter fun a => since < key a)).take limit

theorem mem_sorted : a ∈ sorted key l ↔ a ∈ l := List.mem_insertionSort _

theorem pairwise_sorted : (sorted key l).Pairwise fun a b => key a ≤ key b :=
  have : Std.Total fun a b : α => key a ≤ key b := ⟨fun a b => le_total (key a) (key b)⟩
  have : IsTrans α fun a b => key a ≤ key b := ⟨fun _ _ _ => le_trans⟩
  List.pairwise_insertionSort _ l

theorem pairwise_page : (page key limit since l).Pairwise fun a b => key a ≤ key b :=
  pairwise_sorted.sublist (List.take_sublist _ _)

theorem mem_of_mem_page (mem : a ∈ page key limit since l) : a ∈ l ∧ since < key a := by
  obtain ⟨there, beyond⟩ := List.mem_filter.mp (mem_sorted.mp (List.mem_of_mem_take mem))
  exact ⟨there, by simpa using beyond⟩

/-- Projections that are apart in the list are apart on the page. -/
theorem nodup_page {β : Type} (f : α → β) (distinct : (l.map f).Nodup) :
    ((page key limit since l).map f).Nodup := by
  have kept : ((l.filter fun a => since < key a).map f).Nodup :=
    distinct.sublist (List.filter_sublist.map f)
  have same := (List.perm_insertionSort (fun a b => key a ≤ key b)
    (l.filter fun a => since < key a)).map f
  exact (same.nodup_iff.mpr kept).sublist ((List.take_sublist _ _).map f)

/-- A page that is not full has all there is. -/
theorem mem_page_of_short (short : (page key limit since l).length < limit) (mem : a ∈ l)
    (beyond : since < key a) : a ∈ page key limit since l := by
  have listed : a ∈ sorted key (l.filter fun a => since < key a) :=
    mem_sorted.mpr (List.mem_filter.mpr ⟨mem, decide_eq_true beyond⟩)
  rw [page, List.length_take] at short
  rwa [page, List.take_of_length_le (by omega)]

/-- What is beyond the cursor is on the page or beyond all of it. -/
theorem mem_page_or_beyond (apart : ∀ b ∈ l, key b = key a → b = a) (mem : a ∈ l)
    (beyond : since < key a) :
    a ∈ page key limit since l ∨ ∀ b ∈ page key limit since l, key b < key a := by
  have listed : a ∈ sorted key (l.filter fun a => since < key a) :=
    mem_sorted.mpr (List.mem_filter.mpr ⟨mem, decide_eq_true beyond⟩)
  have order : (sorted key (l.filter fun a => since < key a)).Pairwise fun a b => key a ≤ key b :=
    pairwise_sorted
  rw [← List.take_append_drop limit (sorted key _)] at listed order
  rcases List.mem_append.mp listed with here | later
  · exact .inl here
  · by_cases on : a ∈ page key limit since l
    · exact .inl on
    · refine .inr fun b early => lt_of_le_of_ne ?_ fun same => on ?_
      · exact (List.pairwise_append.mp order).2.2 b early a later
      · exact apart b (mem_of_mem_page early).1 same ▸ early

end Deeting.Cursor
