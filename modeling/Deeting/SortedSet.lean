import Mathlib.Data.List.Sort
import Mathlib.Data.List.Perm.Subperm
import Mathlib.Data.Nat.Basic

/-! Sorted sets: members with natural scores, in ascending order of the scores, each
member once. The operations are those of a key-value store that adds a member with a
score, removes a range of scores, and asks for the size and for the lowest score. -/
namespace Deeting

structure SortedSet (M : Type) where
  entries : List (ℕ × M)
  ordered : entries.Pairwise fun a b => a.1 ≤ b.1
  once : (entries.map Prod.snd).Nodup

namespace SortedSet
variable {M : Type}

def empty : SortedSet M := ⟨[], .nil, .nil⟩

def card (s : SortedSet M) : ℕ := s.entries.length

def first? (s : SortedSet M) : Option (ℕ × M) := s.entries.head?

def removeRange (s : SortedSet M) (low high : ℤ) : SortedSet M where
  entries := s.entries.filter fun e => ¬ (low ≤ e.1 ∧ (e.1 : ℤ) ≤ high)
  ordered := s.ordered.filter _
  once := (List.filter_sublist.map _).nodup s.once

def upTo (s : SortedSet M) (high limit : ℕ) : List M :=
  ((s.entries.filter fun e => e.1 ≤ high).take limit).map Prod.snd

variable [DecidableEq M]

def removeAll (s : SortedSet M) (members : List M) : SortedSet M where
  entries := s.entries.filter fun e => e.2 ∉ members
  ordered := s.ordered.filter _
  once := (List.filter_sublist.map _).nodup s.once

/-- A member that is there already only changes its score. -/
def insert (s : SortedSet M) (score : ℕ) (m : M) : SortedSet M where
  entries := (s.entries.filter fun e => e.2 ≠ m).orderedInsert (fun a b => a.1 ≤ b.1) (score, m)
  ordered := (s.ordered.filter _).orderedInsert _ _
  once := by
    have perm := List.perm_orderedInsert (fun a b : ℕ × M => a.1 ≤ b.1) (score, m)
      (s.entries.filter fun e => e.2 ≠ m)
    rw [(perm.map Prod.snd).nodup_iff, List.map_cons, List.nodup_cons]
    refine ⟨?_, (List.filter_sublist.map _).nodup s.once⟩
    simp

section Lemmas
variable {s : SortedSet M} {score : ℕ} {m : M} {e : ℕ × M}

omit [DecidableEq M] in
theorem nodup_upTo (s : SortedSet M) (high limit : ℕ) : (s.upTo high limit).Nodup :=
  (((List.take_sublist _ _).trans List.filter_sublist).map Prod.snd).nodup s.once

omit [DecidableEq M] in
theorem exists_of_mem_upTo {high limit : ℕ} (mem : m ∈ s.upTo high limit) :
    ∃ e ∈ s.entries, e.2 = m := by
  obtain ⟨e, there, same⟩ := List.mem_map.mp mem
  exact ⟨e, ((List.take_sublist _ _).trans List.filter_sublist).subset there, same⟩

theorem mem_removeAll {members : List M} :
    e ∈ (s.removeAll members).entries ↔ e ∈ s.entries ∧ e.2 ∉ members := by
  simp only [removeAll, List.mem_filter, decide_eq_true_eq]

theorem mem_insert : e ∈ (s.insert score m).entries ↔
    e = (score, m) ∨ e ∈ s.entries ∧ e.2 ≠ m := by
  simp [insert, List.mem_orderedInsert]

omit [DecidableEq M] in
theorem mem_removeRange {low high : ℤ} : e ∈ (s.removeRange low high).entries ↔
    e ∈ s.entries ∧ ¬ (low ≤ e.1 ∧ (e.1 : ℤ) ≤ high) := by
  simp only [removeRange, List.mem_filter, decide_eq_true_eq]

theorem card_insert_of_fresh (fresh : ∀ e ∈ s.entries, e.2 ≠ m) :
    (s.insert score m).card = s.card + 1 := by
  have all : (s.entries.filter fun e => e.2 ≠ m) = s.entries :=
    List.filter_eq_self.mpr fun e mem => by simpa using fresh e mem
  simp only [card, insert, all, List.orderedInsert_length]

omit [DecidableEq M] in
theorem card_removeRange_le (low high : ℤ) : (s.removeRange low high).card ≤ s.card :=
  List.length_filter_le _ _

omit [DecidableEq M] in
/-- The first entry has the lowest score. -/
theorem le_of_first (first : s.first? = some e) : e ∈ s.entries ∧ ∀ d ∈ s.entries, e.1 ≤ d.1 := by
  obtain ⟨rest, entries⟩ := List.head?_eq_some_iff.mp first
  have ordered := s.ordered
  rw [entries] at ordered ⊢
  refine ⟨List.mem_cons_self, fun d mem => ?_⟩
  rcases List.mem_cons.mp mem with rfl | mem
  · exact le_rfl
  · exact (List.pairwise_cons.mp ordered).1 d mem

omit [DecidableEq M] in
/-- Distinct entries of a set are counted by its size. -/
theorem length_le_card {l : List (ℕ × M)} (distinct : l.Nodup) (within : ∀ e ∈ l, e ∈ s.entries) :
    l.length ≤ s.card :=
  (List.subperm_of_subset distinct within).length_le

end Lemmas

end SortedSet

end Deeting
