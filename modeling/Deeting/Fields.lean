import Deeting.Json
import Mathlib.Data.List.Basic

/-! A pass over the fields of nested objects: a value that is no object and no list is replaced by
what a rule makes of its key and of it, from left to right. An item of a list is passed over
unless it is an object itself. Values are found by paths of keys and indices. -/
namespace Deeting.Json

variable {S : Type} (f : String → Json → S → Json × S)

mutual

def passFields : List (String × Json) → S → List (String × Json) × S
  | [], s => ([], s)
  | (key, value) :: rest, s =>
      let (value, s) := passValue key value s
      let (rest, s) := passFields rest s
      ((key, value) :: rest, s)

def passValue (key : String) : Json → S → Json × S
  | .obj entries, s =>
      let (entries, s) := passFields entries s
      (.obj entries, s)
  | .arr items, s =>
      let (items, s) := passItems items s
      (.arr items, s)
  | value, s => f key value s

def passItems : List Json → S → List Json × S
  | [], s => ([], s)
  | item :: rest, s =>
      let (item, s) := passItem item s
      let (rest, s) := passItems rest s
      (item :: rest, s)

def passItem : Json → S → Json × S
  | .obj entries, s =>
      let (entries, s) := passFields entries s
      (.obj entries, s)
  | item, s => (item, s)

end

mutual

def fields : List (String × Json) → List (String × Json)
  | [] => []
  | (key, value) :: rest => fieldsOfValue key value ++ fields rest

def fieldsOfValue (key : String) : Json → List (String × Json)
  | .obj entries => fields entries
  | .arr items => fieldsOfItems items
  | value => [(key, value)]

def fieldsOfItems : List Json → List (String × Json)
  | [] => []
  | item :: rest => fieldsOfItem item ++ fieldsOfItems rest

def fieldsOfItem : Json → List (String × Json)
  | .obj entries => fields entries
  | _ => []

end

def isScalar : Json → Bool
  | .arr _ | .obj _ => false
  | _ => true

section Maps

variable (g : String → Json → Json)

def mapFields (entries : List (String × Json)) : List (String × Json) :=
  (passFields (fun key value s => (g key value, s)) entries ()).1

def mapValue (key : String) (value : Json) : Json :=
  (passValue (fun key value s => (g key value, s)) key value ()).1

def mapItems (items : List Json) : List Json :=
  (passItems (fun key value s => (g key value, s)) items ()).1

def mapItem (item : Json) : Json := (passItem (fun key value s => (g key value, s)) item ()).1

variable {g} {key : String} {value item : Json} {entries rest : List (String × Json)}
  {items more : List Json}

theorem mapFields_cons :
    mapFields g ((key, value) :: rest) = (key, mapValue g key value) :: mapFields g rest := rfl

theorem mapValue_obj : mapValue g key (.obj entries) = .obj (mapFields g entries) := rfl

theorem mapValue_arr : mapValue g key (.arr items) = .arr (mapItems g items) := rfl

theorem mapItems_cons : mapItems g (item :: more) = mapItem g item :: mapItems g more := rfl

theorem mapItem_obj : mapItem g (.obj entries) = .obj (mapFields g entries) := rfl

theorem passValue_scalar {s : S} (scalar : value.isScalar) : passValue f key value s = f key value s := by
  cases value with
  | obj entries => cases scalar
  | arr items => cases scalar
  | _ => rfl

theorem mapValue_scalar (scalar : value.isScalar) : mapValue g key value = g key value := by
  rw [mapValue, passValue_scalar _ scalar]

theorem passItem_other {s : S} (other : item.isObj = false) : passItem f item s = (item, s) := by
  cases item with
  | obj entries => cases other
  | _ => rfl

theorem mapItem_other (other : item.isObj = false) : mapItem g item = item := by
  rw [mapItem, passItem_other _ other]

theorem fieldsOfValue_scalar (scalar : value.isScalar) : fieldsOfValue key value = [(key, value)] := by
  cases value with
  | obj entries => cases scalar
  | arr items => cases scalar
  | _ => rfl

@[simp] theorem passValue_str {text : String} {s : S} :
    passValue f key (.str text) s = f key (.str text) s := rfl

@[simp] theorem fieldsOfValue_str {text : String} :
    fieldsOfValue key (.str text) = [(key, .str text)] := rfl

end Maps

/-- A field with an object, with a list that may have objects, or with any other value. -/
theorem fieldsInduction {P : List (String × Json) → Prop} (nil : P [])
    (object : ∀ key entries rest, P entries → P rest → P ((key, .obj entries) :: rest))
    (list : ∀ key items rest, (∀ entries, .obj entries ∈ items → P entries) → P rest →
      P ((key, .arr items) :: rest))
    (scalar : ∀ key value rest, value.isScalar → P rest → P ((key, value) :: rest))
    (entries : List (String × Json)) : P entries := by
  match entries with
  | [] => exact nil
  | (key, .obj inner) :: rest =>
    exact object key inner rest (fieldsInduction nil object list scalar inner)
      (fieldsInduction nil object list scalar rest)
  | (key, .arr items) :: rest =>
    refine list key items rest (fun inner mem => ?_) (fieldsInduction nil object list scalar rest)
    exact fieldsInduction nil object list scalar inner
  | (key, .null) :: rest | (key, .bool _) :: rest | (key, .int _) :: rest
  | (key, .float _) :: rest | (key, .str _) :: rest =>
    exact scalar key _ rest rfl (fieldsInduction nil object list scalar rest)
termination_by sizeOf entries
decreasing_by
  all_goals simp only [List.cons.sizeOf_spec, Prod.mk.sizeOf_spec, obj.sizeOf_spec, arr.sizeOf_spec]
  all_goals try have smaller := List.sizeOf_lt_of_mem mem
  all_goals try simp only [obj.sizeOf_spec] at smaller
  all_goals omega

section Laws

variable {g h : String → Json → Json} {key : String} {value item : Json}
  {entries rest : List (String × Json)} {items : List Json}

theorem fieldsOfItems_eq : fieldsOfItems items = items.flatMap fieldsOfItem := by
  induction items with
  | nil => rfl
  | cons item more ih => rw [fieldsOfItems, ih, List.flatMap_cons]

theorem mapItems_eq : mapItems g items = items.map (mapItem g) := by
  induction items with
  | nil => rfl
  | cons item more ih => rw [mapItems_cons, ih, List.map_cons]

theorem fieldsOfItem_other (other : item.isObj = false) : fieldsOfItem item = [] := by
  cases item with
  | obj entries => cases other
  | _ => rfl

/-- What holds of the objects among the items. -/
theorem forall_item {P : Json → Prop} (object : ∀ entries, .obj entries ∈ items → P (.obj entries))
    (other : ∀ item, item.isObj = false → P item) : ∀ item ∈ items, P item := by
  intro item mem
  cases item with
  | obj entries => exact object entries mem
  | _ => exact other _ rfl

/-- The value of every field is no object and no list. -/
theorem scalar_of_mem_fields : ∀ field ∈ fields entries, field.2.isScalar := by
  induction entries using fieldsInduction with
  | nil => intro field mem; cases mem
  | object key inner rest first later =>
    intro field mem
    rcases List.mem_append.mp mem with mem | mem
    · exact first field mem
    · exact later field mem
  | list key items rest first later =>
    intro field mem
    rcases List.mem_append.mp mem with mem | mem
    · have each : ∀ item ∈ items, ∀ field ∈ fieldsOfItem item, field.2.isScalar :=
        forall_item (fun inner mem => first inner mem) fun item other => by
          simp [fieldsOfItem_other other]
      rw [fieldsOfValue, fieldsOfItems_eq] at mem
      obtain ⟨item, there, inside⟩ := List.mem_flatMap.mp mem
      exact each item there field inside
    · exact later field mem
  | scalar key value rest scalar later =>
    intro field mem
    rw [fields, fieldsOfValue_scalar scalar] at mem
    rcases List.mem_cons.mp mem with rfl | mem
    · exact scalar
    · exact later field mem

/-- Two rules give the same where they give the same of every field. -/
theorem mapFields_eq_iff : mapFields g entries = mapFields h entries ↔
    ∀ field ∈ fields entries, g field.1 field.2 = h field.1 field.2 := by
  induction entries using fieldsInduction with
  | nil => simp [fields, mapFields, passFields]
  | object key inner rest first later =>
    rw [mapFields_cons, mapFields_cons, mapValue_obj, mapValue_obj, fields, fieldsOfValue,
      List.forall_mem_append, ← first, ← later]
    simp
  | list key items rest first later =>
    have each : (∀ item ∈ items, mapItem g item = mapItem h item) ↔
        ∀ item ∈ items, ∀ field ∈ fieldsOfItem item, g field.1 field.2 = h field.1 field.2 := by
      refine forall₂_congr (forall_item (fun inner mem => ?_) fun item other => ?_)
      · rw [mapItem_obj, mapItem_obj, Json.obj.injEq, first inner mem, fieldsOfItem]
      · simp [mapItem_other other, fieldsOfItem_other other]
    rw [mapFields_cons, mapFields_cons, mapValue_arr, mapValue_arr, fields, fieldsOfValue,
      List.forall_mem_append, ← later, fieldsOfItems_eq, List.forall_mem_flatMap, ← each,
      mapItems_eq, mapItems_eq]
    simp
  | scalar key value rest scalar later =>
    rw [mapFields_cons, mapFields_cons, mapValue_scalar scalar, mapValue_scalar scalar, fields,
      fieldsOfValue_scalar scalar, List.forall_mem_append, ← later]
    simp

/-- A pass over what a rule has made is a pass with both rules in one. -/
theorem passFields_mapFields (scalars : ∀ field ∈ fields entries, (g field.1 field.2).isScalar)
    (s : S) : passFields f (mapFields g entries) s =
      passFields (fun key value => f key (g key value)) entries s := by
  induction entries using fieldsInduction generalizing s with
  | nil => rfl
  | object key inner rest first later =>
    rw [fields, fieldsOfValue, List.forall_mem_append] at scalars
    rw [mapFields_cons, mapValue_obj]
    simp only [passFields, passValue, first scalars.1, later scalars.2]
  | list key items rest first later =>
    rw [fields, fieldsOfValue, fieldsOfItems_eq, List.forall_mem_append,
      List.forall_mem_flatMap] at scalars
    have each : ∀ item ∈ items, ∀ s, passItem f (mapItem g item) s =
        passItem (fun key value => f key (g key value)) item s := by
      intro item mem s
      cases item with
      | obj inner =>
        rw [mapItem_obj]
        simp only [passItem, first inner mem (scalars.1 _ mem)]
      | _ => rfl
    have all : ∀ s, passItems f (mapItems g items) s =
        passItems (fun key value => f key (g key value)) items s := by
      clear first scalars
      induction items with
      | nil => exact fun _ => rfl
      | cons item more ih =>
        intro s
        rw [List.forall_mem_cons] at each
        rw [mapItems_cons]
        simp only [passItems, each.1, ih each.2]
    rw [mapFields_cons, mapValue_arr]
    simp only [passFields, passValue, all, later scalars.2]
  | scalar key value rest scalar later =>
    rw [fields, fieldsOfValue_scalar scalar, List.forall_mem_append] at scalars
    have made : (g key value).isScalar := scalars.1 (key, value) List.mem_cons_self
    rw [mapFields_cons, mapValue_scalar scalar]
    simp only [passFields, passValue_scalar _ made, passValue_scalar _ scalar, later scalars.2]

/-- What the first rule makes of a field, in any state, the second reads as a third would have
made it, in that state and in every state that follows. -/
structure Settled (R : S → S → Prop) (f : String → Json → S → Json × S) (g : S → String → Json → Json)
    (h : String → Json → Json) (field : String × Json) : Prop where
  follows : ∀ s, R s (f field.1 field.2 s).2
  scalar : ∀ s, (f field.1 field.2 s).1.isScalar
  read : ∀ s t, R (f field.1 field.2 s).2 t →
    g t field.1 (f field.1 field.2 s).1 = h field.1 field.2

variable {R : S → S → Prop} {r : S → String → Json → Json}

theorem mapFields_passFields (refl : ∀ s, R s s) (trans : ∀ {s t u}, R s t → R t u → R s u)
    (settled : ∀ field ∈ fields entries, Settled R f r h field) (s : S) :
    R s (passFields f entries s).2 ∧
      ∀ t, R (passFields f entries s).2 t →
        mapFields (r t) (passFields f entries s).1 = mapFields h entries := by
  induction entries using fieldsInduction generalizing s with
  | nil => exact ⟨refl s, fun _ _ => rfl⟩
  | object key inner rest first later =>
    rw [fields, fieldsOfValue, List.forall_mem_append] at settled
    obtain ⟨inside, same⟩ := first settled.1 s
    obtain ⟨after, agree⟩ := later settled.2 (passFields f inner s).2
    refine ⟨trans inside after, fun t later => ?_⟩
    simp only [passFields, passValue, mapFields_cons, mapValue_obj] at later ⊢
    rw [same t (trans after later), agree t later]
  | list key items rest first later =>
    rw [fields, fieldsOfValue, fieldsOfItems_eq, List.forall_mem_append,
      List.forall_mem_flatMap] at settled
    have each : ∀ item ∈ items, ∀ s, R s (passItem f item s).2 ∧
        ∀ t, R (passItem f item s).2 t →
          mapItem (r t) (passItem f item s).1 = mapItem h item := by
      refine forall_item (fun inner mem s => ?_) fun item other s => ?_
      · obtain ⟨inside, same⟩ := first inner mem (settled.1 _ mem) s
        refine ⟨inside, fun t later => ?_⟩
        simp only [passItem, mapItem_obj] at later ⊢
        rw [same t later]
      · rw [passItem_other f other]
        exact ⟨refl s, fun t _ => by rw [mapItem_other other, mapItem_other other]⟩
    have all : ∀ s, R s (passItems f items s).2 ∧ ∀ t, R (passItems f items s).2 t →
        mapItems (r t) (passItems f items s).1 = mapItems h items := by
      clear first settled
      induction items with
      | nil => exact fun s => ⟨refl s, fun _ _ => rfl⟩
      | cons item more ih =>
        intro s
        rw [List.forall_mem_cons] at each
        obtain ⟨inside, same⟩ := each.1 s
        obtain ⟨after, agree⟩ := ih each.2 (passItem f item s).2
        refine ⟨trans inside after, fun t later => ?_⟩
        simp only [passItems, mapItems_cons] at later ⊢
        rw [same t (trans after later), agree t later]
    obtain ⟨inside, same⟩ := all s
    obtain ⟨after, agree⟩ := later settled.2 (passItems f items s).2
    refine ⟨trans inside after, fun t later => ?_⟩
    simp only [passFields, passValue, mapFields_cons, mapValue_arr] at later ⊢
    rw [same t (trans after later), agree t later]
  | scalar key value rest scalar later =>
    rw [fields, fieldsOfValue_scalar scalar, List.forall_mem_append] at settled
    obtain ⟨follows, scalars, read⟩ := settled.1 (key, value) List.mem_cons_self
    obtain ⟨after, agree⟩ := later settled.2 (f key value s).2
    simp only [passFields, passValue_scalar _ scalar, mapFields_cons, mapValue_scalar (scalars s),
      mapValue_scalar scalar]
    refine ⟨trans (follows s) after, fun t later => ?_⟩
    rw [read s t (trans after later), agree t later]

end Laws

section Paths

inductive Step where
  | key (key : String)
  | index (index : ℕ)
  deriving DecidableEq

def valueAt : Json → List Step → Option Json
  | j, [] => some j
  | j, .key key :: path => (j.get? key).bind fun value => value.valueAt path
  | j, .index index :: path => j.items[index]?.bind fun item => item.valueAt path

/-- The key that a pass has for what is at a path, from a value under a key or from an item of a
list; `none` where it comes to no such field. -/
def fieldKey : Option String → List Step → Option String
  | key, [] => key
  | _, .key key :: path => fieldKey (some key) path
  | some _, .index _ :: path => fieldKey none path
  | none, .index _ :: _ => none

def passUnder (key : Option String) (value : Json) (s : S) : Json × S :=
  match key with
  | some key => passValue f key value s
  | none => passItem f value s

variable {entries : List (String × Json)} {items : List Json} {key : String} {value : Json}

theorem get?_passFields (found : (Json.obj entries).get? key = some value) (s : S) :
    ∃ t, (Json.obj (passFields f entries s).1).get? key = some (passValue f key value t).1 := by
  induction entries generalizing s with
  | nil => cases found
  | cons entry rest ih =>
    obtain ⟨other, first⟩ := entry
    by_cases same : other = key
    · subst same
      have here : first = value := by simpa [get?] using found
      subst here
      exact ⟨s, by simp [get?, passFields]⟩
    · have later : (Json.obj rest).get? key = some value := by simpa [get?, same] using found
      obtain ⟨t, there⟩ := ih later (passValue f other first s).2
      exact ⟨t, by simpa [get?, passFields, same] using there⟩

theorem get?_passFields_none (missing : (Json.obj entries).get? key = none) (s : S) :
    (Json.obj (passFields f entries s).1).get? key = none := by
  induction entries generalizing s with
  | nil => rfl
  | cons entry rest ih =>
    obtain ⟨other, first⟩ := entry
    by_cases same : other = key
    · simp [get?, same] at missing
    · have later : (Json.obj rest).get? key = none := by simpa [get?, same] using missing
      simpa [get?, passFields, same] using ih later (passValue f other first s).2

theorem getElem?_passItems {index : ℕ} {item : Json} (found : items[index]? = some item) (s : S) :
    ∃ t, (passItems f items s).1[index]? = some (passItem f item t).1 := by
  induction items generalizing index s with
  | nil => cases found
  | cons first rest ih =>
    cases index with
    | zero =>
      have here : first = item := by simpa using found
      subst here
      exact ⟨s, by simp [passItems]⟩
    | succ index =>
      obtain ⟨t, there⟩ := ih (by simpa using found) (passItem f first s).2
      exact ⟨t, by simpa [passItems] using there⟩

/-- What a pass leaves at a path: what the rule makes of the field, or what was there. -/
theorem valueAt_passUnder {found : Json} (scalar : found.isScalar) (path : List Step)
    (context : Option String) (value : Json) (there : value.valueAt path = some found) (s : S) :
    ∃ t, (passUnder f context value s).1.valueAt path = some (match fieldKey context path with
      | some key => (f key found t).1
      | none => found) := by
  induction path generalizing context value s with
  | nil =>
    cases there
    cases context with
    | none =>
      have other : found.isObj = false := by
        cases found with
        | obj entries => cases scalar
        | _ => rfl
      exact ⟨s, by rw [passUnder, passItem_other f other]; rfl⟩
    | some key => exact ⟨s, by rw [passUnder, passValue_scalar f scalar]; rfl⟩
  | cons step path ih =>
    cases step with
    | key key =>
      obtain ⟨inner, here, later⟩ := Option.bind_eq_some_iff.mp there
      cases value with
      | obj entries =>
        obtain ⟨t, kept⟩ := get?_passFields f here s
        obtain ⟨u, made⟩ := ih (some key) inner later t
        refine ⟨u, ?_⟩
        cases context with
        | none => exact (Option.bind_eq_some_iff.mpr ⟨_, kept, made⟩)
        | some outer => exact (Option.bind_eq_some_iff.mpr ⟨_, kept, made⟩)
      | _ => cases here
    | index index =>
      obtain ⟨item, here, later⟩ := Option.bind_eq_some_iff.mp there
      cases context with
      | none =>
        refine ⟨s, ?_⟩
        cases value with
        | arr items => exact there
        | _ => cases here
      | some outer =>
        cases value with
        | arr items =>
          obtain ⟨t, kept⟩ := getElem?_passItems f here s
          obtain ⟨u, made⟩ := ih none item later t
          exact ⟨u, Option.bind_eq_some_iff.mpr ⟨_, kept, made⟩⟩
        | _ => cases here

theorem valueAt_passFields {found : Json} {path : List Step} (scalar : found.isScalar)
    (there : (Json.obj entries).valueAt path = some found) (s : S) :
    ∃ t, (Json.obj (passFields f entries s).1).valueAt path = some (match fieldKey none path with
      | some key => (f key found t).1
      | none => found) :=
  valueAt_passUnder f scalar path none (.obj entries) there s

theorem valueAt_mapFields {g : String → Json → Json} {found : Json} {path : List Step}
    (scalar : found.isScalar) (there : (Json.obj entries).valueAt path = some found) :
    (Json.obj (mapFields g entries)).valueAt path = some (match fieldKey none path with
      | some key => g key found
      | none => found) := by
  obtain ⟨_, made⟩ := valueAt_passFields (fun key value s => (g key value, s)) scalar there ()
  exact made

end Paths

end Deeting.Json
