import Mathlib.Data.List.Sort
import Mathlib.Data.List.Range
import Mathlib.Data.List.Nodup

/-! Pages of a sorted list. A page that is cut from a sorted prefix of the list is the page of the
whole list exactly when nothing that belongs on it, or before it, is left outside the prefix. -/
namespace Deeting.Paging

variable {α : Type}

/-- The page of `limit` items that starts at `offset`. -/
def slice (offset limit : ℕ) (l : List α) : List α := (l.drop offset).take limit

@[simp] theorem length_slice (offset limit : ℕ) (l : List α) :
    (slice offset limit l).length = min limit (l.length - offset) := by
  simp [slice]

theorem slice_eq_drop_take (offset limit : ℕ) (l : List α) :
    slice offset limit l = (l.take (offset + limit)).drop offset := by
  rw [slice, List.drop_take, Nat.add_sub_cancel_left]

/-- The pages of a list, one after another, are the list as far as they reach. -/
theorem flatMap_slice (l : List α) (limit pages : ℕ) :
    (List.range pages).flatMap (fun k => slice (k * limit) limit l) = l.take (pages * limit) := by
  induction pages with
  | zero => simp
  | succ pages ih =>
    rw [List.range_succ, List.flatMap_append, ih, Nat.succ_mul, List.take_add]
    simp [slice]

/-- Lists that agree one after another, and in their lengths, agree each. -/
theorem eq_of_flatMap_eq {pages : ℕ} {f g : ℕ → List α}
    (lengths : ∀ k < pages, (f k).length = (g k).length)
    (same : (List.range pages).flatMap f = (List.range pages).flatMap g) : ∀ k < pages, f k = g k := by
  induction pages with
  | zero => simp
  | succ pages ih =>
    simp only [List.range_succ, List.flatMap_append, List.flatMap_singleton] at same
    obtain ⟨before, last⟩ := List.append_inj' same (lengths pages (Nat.lt_succ_self pages))
    intro k early
    rcases Nat.lt_succ_iff_lt_or_eq.mp early with earlier | rfl
    · exact ih (fun j below => lengths j (Nat.lt_succ_of_lt below)) before k earlier
    · exact last

section Ascending
variable {a m : ℕ} {keys : List ℕ}

/-- An ascending list of numbers from `a` on that has the first `m` of them begins with them. -/
theorem take_eq_range' (ascending : keys.Pairwise (· < ·)) (above : ∀ k ∈ keys, a ≤ k)
    (complete : ∀ k, a ≤ k → k < a + m → k ∈ keys) : keys.take m = List.range' a m := by
  induction m generalizing a keys with
  | zero => simp
  | succ m ih =>
    have first := complete a le_rfl (by omega)
    cases keys with
    | nil => simp at first
    | cons k keys =>
      obtain ⟨least, ascending⟩ := List.pairwise_cons.mp ascending
      have head : k = a := by
        have lower := above k List.mem_cons_self
        rcases List.mem_cons.mp first with rfl | later
        · rfl
        · have := least a later
          omega
      subst head
      rw [List.take_succ_cons, List.range'_succ, ih ascending (fun j member => least j member)]
      intro j from_ below
      rcases List.mem_cons.mp (complete j (by omega) (by omega)) with rfl | later
      · omega
      · exact later

/-- Where such a list has no gap before some place, it has none up to it. -/
theorem take_succ_eq_range' (ascending : keys.Pairwise (· < ·)) (above : ∀ k ∈ keys, a ≤ k)
    (here : keys[m]? = some (a + m)) : keys.take (m + 1) = List.range' a (m + 1) := by
  induction m generalizing a keys with
  | zero =>
    cases keys with
    | nil => simp at here
    | cons k keys =>
      obtain rfl : k = a := by simpa using here
      simp
  | succ m ih =>
    cases keys with
    | nil => simp at here
    | cons k keys =>
      obtain ⟨least, ascending⟩ := List.pairwise_cons.mp ascending
      have lower := above k List.mem_cons_self
      have rest : keys.take (m + 1) = List.range' (a + 1) (m + 1) := by
        refine ih ascending (fun j member => ?_) ?_
        · have := least j member
          omega
        · rw [List.getElem?_cons_succ] at here
          rw [here]
          congr 1
          omega
      have next : a + 1 ∈ keys.take (m + 1) := by
        rw [rest]
        simp
      have head := least _ (List.mem_of_mem_take next)
      obtain rfl : k = a := by omega
      rw [List.take_succ_cons, List.range'_succ, rest]

end Ascending

section Sorted
variable (key : α → ℕ)

def sortBy (l : List α) : List α := l.insertionSort fun x y => key x ≤ key y

theorem perm_sortBy (l : List α) : (sortBy key l).Perm l := List.perm_insertionSort _ l

variable {key} {l u v : List α} {n : ℕ}

theorem ascending_sortBy (distinct : (l.map key).Nodup) :
    ((sortBy key l).map key).Pairwise (· < ·) := by
  have sorted : (sortBy key l).Pairwise fun x y => key x ≤ key y :=
    have : Std.Total fun x y : α => key x ≤ key y := ⟨fun x y => le_total (key x) (key y)⟩
    have : IsTrans α fun x y => key x ≤ key y := ⟨fun _ _ _ => le_trans⟩
    List.pairwise_insertionSort _ l
  have apart : ((sortBy key l).map key).Nodup := ((perm_sortBy key l).map key).nodup_iff.mpr distinct
  have ordered : ((sortBy key l).map key).Pairwise (· ≤ ·) := List.pairwise_map.mpr sorted
  exact (ordered.and apart).imp fun both => lt_of_le_of_ne both.1 both.2

theorem map_sortBy (keys : (l.map key).Perm (List.range n)) :
    (sortBy key l).map key = List.range n := by
  have distinct : (l.map key).Nodup := keys.nodup_iff.mpr List.nodup_range
  have same := ((perm_sortBy key l).map key).trans keys
  have whole := take_eq_range' (a := 0) (m := n) (ascending_sortBy distinct) (fun _ _ => Nat.zero_le _)
    fun k _ below => same.mem_iff.mpr (List.mem_range.mpr (by omega))
  have length : ((sortBy key l).map key).length = n := by rw [same.length_eq, List.length_range]
  rwa [← length, List.take_length, length, ← List.range_eq_range'] at whole

/-- Among items with distinct keys, the keys tell lists apart. -/
theorem eq_of_map_eq {s t : List α} (distinct : (l.map key).Nodup) (inside : ∀ x ∈ s, x ∈ l)
    (inside' : ∀ x ∈ t, x ∈ l) (same : s.map key = t.map key) : s = t := by
  induction s generalizing t with
  | nil => exact (List.map_eq_nil_iff.mp same.symm).symm
  | cons x s ih =>
    cases t with
    | nil => simp at same
    | cons y t =>
      rw [List.map_cons, List.map_cons, List.cons.injEq] at same
      rw [List.forall_mem_cons] at inside inside'
      rw [List.inj_on_of_nodup_map distinct inside.1 inside'.1 same.1,
        ih inside.2 inside'.2 same.2]

/-- The page of a prefix `u` that is long enough is the page of `u ++ v` exactly when the keys of
`v` are all beyond it. -/
theorem slice_sortBy_eq_iff {offset limit : ℕ} (keys : ((u ++ v).map key).Perm (List.range n))
    (positive : 0 < limit) (inside : offset < n) (long : min (offset + limit) n ≤ u.length) :
    slice offset limit (sortBy key u) = slice offset limit (sortBy key (u ++ v)) ↔
      ∀ x ∈ v, offset + limit ≤ key x := by
  have distinct : ((u ++ v).map key).Nodup := keys.nodup_iff.mpr List.nodup_range
  have apart := distinct
  rw [List.map_append] at apart
  have ascending := ascending_sortBy (List.nodup_append.mp apart).1
  have all := map_sortBy keys
  have size : u.length + v.length = n := by simpa using keys.length_eq
  constructor
  · intro same x member
    by_contra early
    let last := min (offset + limit) n - 1
    have here : ((sortBy key u).map key)[last]? = some last := by
      have at_ := congrArg (fun page => (page.map key)[last - offset]?) same
      simp only [slice, List.map_take, List.map_drop, all] at at_
      rw [List.getElem?_take_of_lt (by omega), List.getElem?_take_of_lt (by omega),
        List.getElem?_drop, List.getElem?_drop, List.getElem?_range (by omega)] at at_
      rwa [show offset + (last - offset) = last by omega] at at_
    have prefix_ := take_succ_eq_range' (a := 0) ascending (fun _ _ => Nat.zero_le _)
      (by rw [here, Nat.zero_add])
    have bound : key x < n := List.mem_range.mp
      (keys.mem_iff.mp (List.mem_map_of_mem (List.mem_append_right u member)))
    have low : key x ∈ List.range' 0 (last + 1) := by simp only [List.mem_range'_1]; omega
    rw [← prefix_] at low
    have earlier := ((perm_sortBy key u).map key).mem_iff.mp (List.mem_of_mem_take low)
    exact (List.nodup_append.mp apart).2.2 _ earlier _ (List.mem_map_of_mem member) rfl
  · intro beyond
    have complete : ((sortBy key u).map key).take (min (offset + limit) n) =
        List.range' 0 (min (offset + limit) n) := by
      refine take_eq_range' ascending (fun _ _ => Nat.zero_le _) fun k _ below => ?_
      have present : k ∈ (u ++ v).map key := keys.mem_iff.mpr (List.mem_range.mpr (by omega))
      obtain ⟨x, member, rfl⟩ := List.mem_map.mp present
      rcases List.mem_append.mp member with early | late
      · exact ((perm_sortBy key u).map key).mem_iff.mpr (List.mem_map_of_mem early)
      · have := beyond x late
        omega
    rw [slice_eq_drop_take, slice_eq_drop_take]
    refine congrArg (List.drop offset) (eq_of_map_eq distinct (fun x member => ?_) (fun x member => ?_) ?_)
    · exact List.mem_append_left v ((perm_sortBy key u).mem_iff.mp (List.mem_of_mem_take member))
    · exact (perm_sortBy key (u ++ v)).mem_iff.mp (List.mem_of_mem_take member)
    · rw [List.map_take, List.map_take, all, List.take_range, List.range_eq_range', ← complete,
        List.take_eq_take_iff, List.length_map, (perm_sortBy key u).length_eq]
      omega

end Sorted
end Deeting.Paging
