import Mathlib.Algebra.BigOperators.Group.List.Basic
import Mathlib.Algebra.Order.BigOperators.Group.List
import Mathlib.Data.List.Nodup
import Mathlib.Tactic.Abel

/-! Finite tables under a unique key. Uniqueness is a field, so a second row under
a present key is unrepresentable and an insertion that would create one fails. Sums
over the rows follow each single-row change, which is all an accounting argument
needs of the storage. -/
namespace Deeting

structure Table {κ ρ : Type} (key : ρ → κ) where
  rows : List ρ
  unique : (rows.map key).Nodup

namespace Table

variable {κ ρ M : Type} {key : ρ → κ} [DecidableEq κ]

def empty : Table key := ⟨[], List.nodup_nil⟩

def find? (t : Table key) (k : κ) : Option ρ := t.rows.find? fun r => key r = k

theorem find?_eq_none (t : Table key) (k : κ) : t.find? k = none ↔ k ∉ t.rows.map key := by
  simp [find?, List.find?_eq_none]

theorem key_of_find? {t : Table key} {k : κ} {r : ρ} (found : t.find? k = some r) : key r = k := by
  simpa using List.find?_some found

theorem mem_of_find? {t : Table key} {k : κ} {r : ρ} (found : t.find? k = some r) : r ∈ t.rows :=
  List.mem_of_find?_eq_some found

theorem find?_eq_some {t : Table key} {k : κ} {r : ρ} :
    t.find? k = some r ↔ r ∈ t.rows ∧ key r = k := by
  refine ⟨fun found => ⟨mem_of_find? found, key_of_find? found⟩, ?_⟩
  rintro ⟨present, rfl⟩
  have first : t.find? (key r) ≠ none := by
    rw [ne_eq, find?_eq_none, not_not]
    exact List.mem_map_of_mem present
  obtain ⟨q, found⟩ := Option.ne_none_iff_exists'.mp first
  rw [found, List.inj_on_of_nodup_map t.unique (mem_of_find? found) present (key_of_find? found)]

/-- Insertion under a fresh key; `none` is the violation of the unique constraint. -/
def insert? (t : Table key) (r : ρ) : Option (Table key) :=
  if fresh : t.find? (key r) = none then
    some ⟨r :: t.rows, List.nodup_cons.mpr ⟨(t.find?_eq_none _).mp fresh, t.unique⟩⟩
  else none

/-- Rewrite the row under `k`, if there is one; the key is not changed. -/
def modify (t : Table key) (k : κ) (f : ρ → ρ) (keeps : ∀ r, key (f r) = key r) : Table key where
  rows := t.rows.map fun r => if key r = k then f r else r
  unique := by
    have same : (key ∘ fun r => if key r = k then f r else r) = key := by
      funext r
      simp only [Function.comp_apply]
      split
      · exact keeps r
      · rfl
    rw [List.map_map, same]
    exact t.unique

def rewrite (t : Table key) (f : ρ → ρ) (keeps : ∀ r, key (f r) = key r) : Table key where
  rows := t.rows.map f
  unique := by
    have same : key ∘ f = key := funext keeps
    rw [List.map_map, same]
    exact t.unique

def erase (t : Table key) (k : κ) : Table key where
  rows := t.rows.filter fun r => key r ≠ k
  unique := t.unique.sublist ((t.rows.filter_sublist).map key)

def sum [AddCommMonoid M] (t : Table key) (g : ρ → M) : M := (t.rows.map g).sum

omit [DecidableEq κ] in
theorem sum_le_sum [AddCommMonoid M] [Preorder M] [AddLeftMono M] [AddRightMono M] {t : Table key}
    {f g : ρ → M} (below : ∀ r ∈ t.rows, f r ≤ g r) : t.sum f ≤ t.sum g :=
  List.sum_le_sum below

theorem insert?_eq_some {t t' : Table key} {r : ρ} :
    t.insert? r = some t' ↔ t.find? (key r) = none ∧ t'.rows = r :: t.rows := by
  rw [insert?]
  split
  · rename_i fresh
    simp only [Option.some.injEq, fresh, true_and]
    constructor
    · rintro rfl
      rfl
    · intro same
      cases t'
      simp only [mk.injEq]
      exact same.symm
  · rename_i used
    simp [used]

theorem insert?_eq_none {t : Table key} {r : ρ} :
    t.insert? r = none ↔ t.find? (key r) ≠ none := by
  rw [insert?]
  split <;> simp_all

/-- A fresh key always admits an insertion. -/
theorem insert?_of_fresh {t : Table key} {r : ρ} (fresh : t.find? (key r) = none) :
    ∃ t', t.insert? r = some t' :=
  Option.ne_none_iff_exists'.mp fun refused => insert?_eq_none.mp refused fresh

theorem find?_insert {t t' : Table key} {r : ρ} (inserted : t.insert? r = some t') (k : κ) :
    t'.find? k = if k = key r then some r else t.find? k := by
  obtain ⟨_, rows⟩ := insert?_eq_some.mp inserted
  simp only [find?, rows, List.find?_cons]
  by_cases same : k = key r
  · simp [same]
  · simp [same, Ne.symm same]

theorem find?_insert_self {t t' : Table key} {r : ρ} (inserted : t.insert? r = some t') :
    t'.find? (key r) = some r := by
  rw [find?_insert inserted, if_pos rfl]

/-- A row that is there stays. -/
theorem find?_of_insert {t t' : Table key} {r r' : ρ} {k : κ} (inserted : t.insert? r = some t')
    (found : t.find? k = some r') : t'.find? k = some r' := by
  rw [find?_insert inserted, if_neg, found]
  rintro rfl
  rw [(insert?_eq_some.mp inserted).1] at found
  cases found

theorem sum_insert [AddCommMonoid M] {t t' : Table key} {r : ρ}
    (inserted : t.insert? r = some t') (g : ρ → M) : t'.sum g = g r + t.sum g := by
  obtain ⟨_, rows⟩ := insert?_eq_some.mp inserted
  simp only [sum, rows, List.map_cons, List.sum_cons]

theorem forall_insert {P : ρ → Prop} {t t' : Table key} {r : ρ}
    (inserted : t.insert? r = some t') (new : P r) (old : ∀ x ∈ t.rows, P x) :
    ∀ x ∈ t'.rows, P x := by
  obtain ⟨_, rows⟩ := insert?_eq_some.mp inserted
  rw [rows]
  exact List.forall_mem_cons.mpr ⟨new, old⟩

theorem find?_modify (t : Table key) (k : κ) (f : ρ → ρ) (keeps : ∀ r, key (f r) = key r) (j : κ) :
    (t.modify k f keeps).find? j = if j = k then (t.find? k).map f else t.find? j := by
  obtain ⟨rows, unique⟩ := t
  simp only [find?, modify]
  clear unique
  induction rows with
  | nil => simp
  | cons r rest ih =>
    simp only [List.map_cons, List.find?_cons]
    by_cases here : key r = k
    · by_cases same : j = k
      · simp [here, same, keeps]
      · have other : key r ≠ j := fun h => same (h.symm.trans here)
        simpa [here, same, keeps, other, Ne.symm same] using ih
    · by_cases same : j = k
      · subst same
        simpa [here] using ih
      · by_cases found : key r = j
        · simp [same, found]
        · simpa [here, same, found] using ih

theorem find?_rewrite (t : Table key) (f : ρ → ρ) (keeps : ∀ r, key (f r) = key r) (k : κ) :
    (t.rewrite f keeps).find? k = (t.find? k).map f := by
  simp only [find?, rewrite, List.find?_map, Function.comp_def, keeps]

theorem find?_erase (t : Table key) (k j : κ) :
    (t.erase k).find? j = if j = k then none else t.find? j := by
  by_cases same : j = k
  · rw [if_pos same, find?_eq_none, same]
    intro mem
    obtain ⟨r, kept, at_⟩ := List.mem_map.mp mem
    simpa [at_] using (List.mem_filter.mp kept).2
  · rw [if_neg same]
    simp only [find?, erase, List.find?_filter]
    congr 1
    funext r
    by_cases here : key r = j
    · simp [here, same]
    · simp [here]

theorem find?_erase_eq_some {t : Table key} {k j : κ} {r : ρ} :
    (t.erase k).find? j = some r ↔ j ≠ k ∧ t.find? j = some r := by
  rw [find?_erase]
  split
  · rename_i same
    exact iff_of_false (by simp) fun both => both.1 same
  · rename_i other
    exact (and_iff_right other).symm

/-- A row that is entered and rewritten at once. -/
theorem rows_insert_modify {t t' : Table key} {r : ρ} {f : ρ → ρ}
    (keeps : ∀ r, key (f r) = key r) (inserted : t.insert? r = some t') :
    (t'.modify (key r) f keeps).rows = f r :: t.rows := by
  obtain ⟨fresh, rows⟩ := insert?_eq_some.mp inserted
  have others : (t.rows.map fun x => if key x = key r then f x else x) = t.rows := by
    refine (List.map_congr_left fun x mem => ?_).trans t.rows.map_id
    rw [if_neg, id]
    intro same
    rw [find?_eq_none] at fresh
    exact fresh (same ▸ List.mem_map_of_mem mem)
  simp only [modify, rows, List.map_cons, if_pos, others]

/-- A rewrite of one row, where the others may carry over a weaker predicate. -/
theorem forall_modify {P Q : ρ → Prop} {t : Table key} {k : κ} {f : ρ → ρ}
    {keeps : ∀ r, key (f r) = key r} (new : ∀ r, t.find? k = some r → P r → Q (f r))
    (other : ∀ r, key r ≠ k → P r → Q r) (old : ∀ x ∈ t.rows, P x) :
    ∀ x ∈ (t.modify k f keeps).rows, Q x := by
  intro x mem
  obtain ⟨r, present, rfl⟩ := List.mem_map.mp mem
  split
  · rename_i here
    apply new r _ (old r present)
    exact find?_eq_some.mpr ⟨present, here⟩
  · rename_i elsewhere
    exact other r elsewhere (old r present)

/-- A rewrite changes a sum by the new value of its row minus the old one. -/
theorem sum_modify [AddCommGroup M] {t : Table key} {k : κ} {f : ρ → ρ}
    {keeps : ∀ r, key (f r) = key r} {r : ρ} (found : t.find? k = some r) (g : ρ → M) :
    (t.modify k f keeps).sum g = t.sum g + (g (f r) - g r) := by
  obtain ⟨rows, unique⟩ := t
  simp only [find?, sum, modify, List.map_map] at found ⊢
  induction rows with
  | nil => simp at found
  | cons q rest ih =>
    have nodup := List.nodup_cons.mp unique
    by_cases here : key q = k
    · -- the only row under `k` is the head, so the tail is left alone
      have head : q = r := by simpa [here] using found
      subst head
      have untouched : rest.map (g ∘ fun r => if key r = k then f r else r) = rest.map g := by
        apply List.map_congr_left
        intro x mem
        have other : key x ≠ k := fun same =>
          nodup.1 (by rw [here, ← same]; exact List.mem_map_of_mem mem)
        simp [other]
      simp only [List.map_cons, List.sum_cons, Function.comp_apply, here, if_true, untouched]
      abel
    · have tail : rest.find? (fun r => key r = k) = some r := by simpa [here] using found
      simp only [List.map_cons, List.sum_cons, Function.comp_apply, here, if_false,
        ih nodup.2 tail]
      abel

/-- A row that is inserted and then rewritten. -/
theorem sum_insert_modify [AddCommGroup M] {t t' : Table key} {r : ρ} {f : ρ → ρ}
    {keeps : ∀ r, key (f r) = key r} (inserted : t.insert? r = some t') (g : ρ → M) :
    (t'.modify (key r) f keeps).sum g = g (f r) + t.sum g := by
  have found := find?_insert_self inserted
  rw [sum_modify found, sum_insert inserted]
  abel

theorem forall_insert_modify {P : ρ → Prop} {t t' : Table key} {r : ρ} {f : ρ → ρ}
    {keeps : ∀ r, key (f r) = key r} (inserted : t.insert? r = some t') (new : P (f r))
    (old : ∀ x ∈ t.rows, P x) : ∀ x ∈ (t'.modify (key r) f keeps).rows, P x := by
  have found := find?_insert_self inserted
  refine forall_modify (P := fun x => key x ≠ key r → P x) (fun q here _ => ?_)
    (fun q elsewhere held => held elsewhere) ?_
  · rw [found] at here
    exact Option.some.inj here ▸ new
  · exact forall_insert inserted (absurd rfl) fun x mem _ => old x mem

end Table
end Deeting
