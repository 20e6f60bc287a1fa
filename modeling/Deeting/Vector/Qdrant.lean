import Deeting.Json
import Deeting.Table
import Mathlib.Data.List.Sort

/-! Collections of Qdrant: points with a payload, filters that select exactly the points that
match, an upsert that replaces the point with its id, and payloads that are merged. -/
namespace Deeting.Vector

abbrev Payload := List (String × Json)

namespace Payload

def get? (payload : Payload) (key : String) : Option Json := (Json.obj payload).get? key

def set (payload : Payload) (key : String) (value : Json) : Payload :=
  Json.setEntry key value payload

/-- `payload.pop(key, None)`. -/
def pop (payload : Payload) (key : String) : Payload := payload.filter fun entry => entry.1 ≠ key

/-- `{**payload, **more}`. -/
def merge (payload more : Payload) : Payload :=
  more.foldl (fun merged entry => merged.set entry.1 entry.2) payload

variable {payload : Payload} {key other : String} {value : Json}

@[simp] theorem get?_set : (payload.set key value).get? key = some value := by
  simp [get?, set, Json.get?, Json.find?_setEntry]

theorem get?_set_of_ne (ne : key ≠ other) :
    (payload.set key value).get? other = payload.get? other := by
  simp [get?, set, Json.get?, Json.find?_setEntry_of_ne ne]

theorem get?_pop_of_ne (ne : key ≠ other) : (payload.pop key).get? other = payload.get? other := by
  simp only [get?, pop, Json.get?, List.find?_filter]
  congr 2
  funext entry
  by_cases same : entry.1 = other
  · simp [same, Ne.symm ne]
  · simp [same]

end Payload

structure Point (Id : Type) where
  id : Id
  vector : List ℚ
  payload : Payload

inductive Condition (Id : Type) where
  | field (key value : String)
  | hasId (ids : List Id)

abbrev Filter (Id : Type) := List (Condition Id)

def hasText (value : String) : Json → Bool
  | .str text => text = value
  | .arr items => items.any fun item => item.string? = some value
  | _ => false

section Selection

variable {Id : Type} [DecidableEq Id]

def Condition.holds (point : Point Id) : Condition Id → Bool
  | .field key value => (point.payload.get? key).any (hasText value)
  | .hasId ids => point.id ∈ ids

def Filter.selects (filter : Filter Id) (point : Point Id) : Bool :=
  filter.all fun condition => condition.holds point

theorem Filter.holds_of_selects {filter : Filter Id} {point : Point Id} {condition : Condition Id}
    (selected : filter.selects point) (mem : condition ∈ filter) : condition.holds point :=
  List.all_eq_true.mp selected condition mem

theorem Condition.eq_of_holds {point : Point Id} {key value text : String}
    (holds : (Condition.field key value : Condition Id).holds point)
    (has : point.payload.get? key = some (.str text)) : text = value := by
  simpa [Condition.holds, has, hasText] using holds

end Selection

abbrev Collection (Id : Type) := Table (Point.id : Point Id → Id)

/-- The collections by name; one that is not there has no points. -/
abbrev Store (Id : Type) := String → Collection Id

namespace Collection

variable {Id : Type} [DecidableEq Id]

def upsert (c : Collection Id) (point : Point Id) : Collection Id where
  rows := c.rows.filter (fun p => p.id ≠ point.id) ++ [point]
  unique := by
    rw [List.map_append, List.nodup_append]
    refine ⟨c.unique.sublist ((c.rows.filter_sublist).map _), List.nodup_singleton _, ?_⟩
    intro id mem other new
    obtain ⟨p, kept, rfl⟩ := List.mem_map.mp mem
    rw [List.map_singleton, List.mem_singleton] at new
    subst new
    simpa using (List.mem_filter.mp kept).2

def upsertAll (c : Collection Id) (points : List (Point Id)) : Collection Id :=
  points.foldl upsert c

/-- `set_payload`, on the points with one of the ids. -/
def setPayload (c : Collection Id) (ids : List Id) (payload : Payload) : Collection Id where
  rows := c.rows.map fun p =>
    if p.id ∈ ids then { p with payload := p.payload.merge payload } else p
  unique := by
    have same : ((Point.id : Point Id → Id) ∘ fun p =>
        if p.id ∈ ids then { p with payload := p.payload.merge payload } else p) = Point.id := by
      funext p
      simp only [Function.comp_apply]
      split <;> rfl
    rw [List.map_map, same]
    exact c.unique

def delete (c : Collection Id) (filter : Filter Id) : Collection Id where
  rows := c.rows.filter fun p => !filter.selects p
  unique := c.unique.sublist ((c.rows.filter_sublist).map _)

def search (similarity : List ℚ → List ℚ → ℚ) (c : Collection Id) (filter : Filter Id)
    (vector : List ℚ) (limit : ℕ) (threshold : Option ℚ) : List (ℚ × Point Id) :=
  let scored := (c.rows.filter filter.selects).map fun p => (similarity vector p.vector, p)
  let kept := scored.filter fun hit => ∀ least ∈ threshold, least ≤ hit.1
  (kept.insertionSort fun a b => b.1 ≤ a.1).take limit

variable {c : Collection Id} {point p : Point Id} {filter : Filter Id}

theorem mem_upsert : p ∈ (c.upsert point).rows ↔ (p ∈ c.rows ∧ p.id ≠ point.id) ∨ p = point := by
  simp [upsert, List.mem_filter]

/-- Points with different ids are all there in the end, with the earlier points of other ids. -/
theorem mem_upsertAll {points : List (Point Id)} (distinct : (points.map Point.id).Nodup) :
    p ∈ (c.upsertAll points).rows ↔ (p ∈ c.rows ∧ p.id ∉ points.map Point.id) ∨ p ∈ points := by
  induction points generalizing c with
  | nil => simp [upsertAll]
  | cons point rest ih =>
    obtain ⟨fresh, distinct⟩ := List.nodup_cons.mp distinct
    rw [upsertAll, List.foldl_cons, ← upsertAll, ih distinct, mem_upsert, List.map_cons,
      List.mem_cons, List.mem_cons, not_or]
    constructor
    · rintro (⟨⟨mem, ne⟩ | rfl, later⟩ | mem)
      · exact .inl ⟨mem, ne, later⟩
      · exact .inr (.inl rfl)
      · exact .inr (.inr mem)
    · rintro (⟨mem, ne, later⟩ | rfl | mem)
      · exact .inl ⟨.inl ⟨mem, ne⟩, later⟩
      · exact .inl ⟨.inr rfl, fresh⟩
      · exact .inr mem

theorem mem_delete : p ∈ (c.delete filter).rows ↔ p ∈ c.rows ∧ ¬ filter.selects p := by
  simp [delete, List.mem_filter]

omit [DecidableEq Id] in
theorem eq_of_id {q : Point Id} (mem : p ∈ c.rows) (also : q ∈ c.rows) (same : p.id = q.id) :
    p = q :=
  List.inj_on_of_nodup_map c.unique mem also same

theorem mem_setPayload_of_mem {ids : List Id} {payload : Payload} (mem : p ∈ c.rows) :
    (if p.id ∈ ids then { p with payload := p.payload.merge payload } else p) ∈
      (c.setPayload ids payload).rows :=
  List.mem_map.mpr ⟨p, mem, rfl⟩

theorem mem_of_mem_search {similarity : List ℚ → List ℚ → ℚ} {vector : List ℚ} {limit : ℕ}
    {threshold : Option ℚ} {score : ℚ}
    (mem : (score, p) ∈ c.search similarity filter vector limit threshold) :
    p ∈ c.rows ∧ filter.selects p := by
  have kept := (List.mem_insertionSort _).mp (List.mem_of_mem_take mem)
  obtain ⟨q, matching, same⟩ := List.mem_map.mp (List.mem_filter.mp kept).1
  obtain ⟨-, rfl⟩ := Prod.mk.inj same
  exact List.mem_filter.mp matching

section Pages

variable {Id : Type} [LinearOrder Id]

def scroll (c : Collection Id) (filter : Filter Id) (limit : ℕ) (offset : Option Id) :
    List (Point Id) × Option Id :=
  let sorted := (c.rows.filter filter.selects).insertionSort fun p q => p.id ≤ q.id
  let left := sorted.filter fun p => ∀ start ∈ offset, start ≤ p.id
  (left.take limit, left[limit]?.map Point.id)

theorem mem_of_mem_scroll {c : Collection Id} {filter : Filter Id} {p : Point Id} {limit : ℕ}
    {offset : Option Id} (mem : p ∈ (c.scroll filter limit offset).1) :
    p ∈ c.rows ∧ filter.selects p := by
  have left := List.mem_of_mem_take mem
  have sorted := (List.mem_filter.mp left).1
  exact List.mem_filter.mp ((List.mem_insertionSort _).mp sorted)

end Pages

end Collection
end Deeting.Vector
