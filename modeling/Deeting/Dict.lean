import Deeting.Table

/-! Dictionaries in the order in which their keys were first set: a key that is there keeps its
place and gets the value that is set last. -/
namespace Deeting

abbrev Dict (κ ν : Type) := Table (Prod.fst : κ × ν → κ)

namespace Dict

variable {κ ν : Type} [DecidableEq κ]

def get? (d : Dict κ ν) (key : κ) : Option ν := (d.find? key).map Prod.snd

def set (d : Dict κ ν) (key : κ) (value : ν) : Dict κ ν where
  rows :=
    if key ∈ d.rows.map Prod.fst then
      d.rows.map fun entry => if entry.1 = key then (key, value) else entry
    else d.rows ++ [(key, value)]
  unique := by
    split
    · have same : (Prod.fst ∘ fun entry : κ × ν => if entry.1 = key then (key, value) else entry) =
          Prod.fst := by
        funext entry
        by_cases here : entry.1 = key <;> simp [here]
      rw [List.map_map, same]
      exact d.unique
    · rename_i fresh
      rw [List.map_append, List.nodup_append]
      refine ⟨d.unique, List.nodup_singleton _, ?_⟩
      intro k mem other new
      rw [List.map_singleton, List.mem_singleton] at new
      subst new
      exact fun same => fresh (same ▸ mem)

variable {d : Dict κ ν} {key k : κ} {value v : ν}

theorem get?_eq_some : d.get? key = some value ↔ (key, value) ∈ d.rows := by
  rw [get?, Option.map_eq_some_iff]
  constructor
  · rintro ⟨⟨k, v⟩, found, rfl⟩
    obtain ⟨mem, rfl⟩ := Table.find?_eq_some.mp found
    exact mem
  · intro mem
    exact ⟨(key, value), Table.find?_eq_some.mpr ⟨mem, rfl⟩, rfl⟩

theorem get?_eq_none : d.get? key = none ↔ ∀ value, (key, value) ∉ d.rows := by
  rw [Option.eq_none_iff_forall_ne_some]
  exact forall_congr' fun value => not_congr get?_eq_some

/-- Of the entries only the one of the key changes. -/
theorem mem_set :
    (k, v) ∈ (d.set key value).rows ↔ (k = key ∧ v = value) ∨ (k ≠ key ∧ (k, v) ∈ d.rows) := by
  simp only [set]
  split
  · rename_i present
    rw [List.mem_map]
    constructor
    · rintro ⟨entry, mem, made⟩
      split at made
      · obtain ⟨rfl, rfl⟩ := Prod.mk.inj made
        exact .inl ⟨rfl, rfl⟩
      · rename_i other
        subst made
        exact .inr ⟨other, mem⟩
    · rintro (⟨rfl, rfl⟩ | ⟨other, mem⟩)
      · obtain ⟨entry, mem, here⟩ := List.mem_map.mp present
        exact ⟨entry, mem, if_pos here⟩
      · exact ⟨(k, v), mem, if_neg other⟩
  · rename_i fresh
    rw [List.mem_append, List.mem_singleton, Prod.mk.injEq]
    constructor
    · rintro (mem | same)
      · exact .inr ⟨fun same => fresh (same ▸ List.mem_map_of_mem mem), mem⟩
      · exact .inl same
    · rintro (same | ⟨-, mem⟩)
      · exact .inr same
      · exact .inl mem

def settled : List (κ × ν) → List (κ × ν)
  | [] => []
  | entry :: rest =>
    if entry.1 ∈ rest.map Prod.fst then settled rest else entry :: settled rest

variable {entries : List (κ × ν)}

/-- Where entries are set one after the other, those that are settled are there. -/
theorem mem_foldl_set :
    (k, v) ∈ (entries.foldl (fun d entry => set d entry.1 entry.2) d).rows ↔
      (k, v) ∈ settled entries ∨ (k ∉ entries.map Prod.fst ∧ (k, v) ∈ d.rows) := by
  induction entries generalizing d with
  | nil => simp [settled]
  | cons entry rest ih =>
    obtain ⟨key, value⟩ := entry
    rw [List.foldl_cons, ih, mem_set, settled, List.map_cons, List.mem_cons, not_or]
    dsimp only
    split
    · rename_i again
      grind
    · rename_i last
      rw [List.mem_cons, Prod.mk.injEq]
      grind

theorem mem_keys_settled : k ∈ (settled entries).map Prod.fst ↔ k ∈ entries.map Prod.fst := by
  induction entries with
  | nil => rfl
  | cons entry rest ih =>
    rw [settled]
    split
    · rename_i again
      rw [ih, List.map_cons, List.mem_cons]
      exact ⟨.inr, fun mem => mem.elim (fun same => same ▸ again) id⟩
    · rw [List.map_cons, List.map_cons, List.mem_cons, List.mem_cons, ih]

end Dict
end Deeting
