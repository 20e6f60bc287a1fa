import Mathlib.Data.Rat.Defs

/-! JSON values as a program has them after parsing: numbers with and without a fraction
apart, and an object as the list of its entries, in order and each key once. -/
namespace Deeting

inductive Json where
  | null
  | bool (value : Bool)
  | int (value : ℤ)
  | float (value : ℚ)
  | str (value : String)
  | arr (items : List Json)
  | obj (entries : List (String × Json))

namespace Json

def isObj : Json → Bool
  | .obj _ => true
  | _ => false

def get? (key : String) : Json → Option Json
  | .obj entries => (entries.find? fun entry => entry.1 = key).map Prod.snd
  | _ => none

/-- `get`, and for what is not an object what an absent key gives. -/
def get (key : String) (j : Json) : Json := (j.get? key).getD .null

def truthy : Json → Bool
  | .null => false
  | .bool value => value
  | .int value => value ≠ 0
  | .float value => value ≠ 0
  | .str value => value ≠ ""
  | .arr items => !items.isEmpty
  | .obj entries => !entries.isEmpty

def string? : Json → Option String
  | .str value => some value
  | _ => none

def items : Json → List Json
  | .arr items => items
  | _ => []

def setEntry (key : String) (value : Json) : List (String × Json) → List (String × Json)
  | [] => [(key, value)]
  | entry :: rest =>
      if entry.1 = key then (key, value) :: rest else entry :: setEntry key value rest

/-- An object with the key set; nothing else has keys to set. -/
def set (j : Json) (key : String) (value : Json) : Json :=
  match j with
  | .obj entries => .obj (setEntry key value entries)
  | j => j

def number? : Json → Option ℚ
  | .bool value => some (if value then 1 else 0)
  | .int value => some value
  | .float value => some value
  | _ => none

mutual

/-- Equality as `==` has it: of quantities, of items in order, of entries in any order. -/
def same : Json → Json → Bool
  | .null, .null => true
  | .str a, .str b => a == b
  | .arr xs, .arr ys => sameItems xs ys
  | .obj xs, .obj ys => xs.length == ys.length && sameEntries xs ys
  | a, b => a.number?.isSome && a.number? == b.number?

def sameItems : List Json → List Json → Bool
  | [], [] => true
  | x :: xs, y :: ys => same x y && sameItems xs ys
  | _, _ => false

def sameEntries : List (String × Json) → List (String × Json) → Bool
  | [], _ => true
  | (key, x) :: xs, ys =>
      match ys.find? fun entry => entry.1 = key with
      | some (_, y) => same x y && sameEntries xs ys
      | none => false

end

variable {key other : String} {value : Json} {entries : List (String × Json)}

theorem find?_setEntry :
    (setEntry key value entries).find? (fun entry => entry.1 = key) = some (key, value) := by
  induction entries with
  | nil => simp [setEntry]
  | cons entry rest ih =>
    rw [setEntry]
    split
    · simp
    · rename_i ne
      rw [List.find?_cons_of_neg (by simpa using ne)]
      exact ih

theorem find?_setEntry_of_ne (ne : key ≠ other) :
    (setEntry key value entries).find? (fun entry => entry.1 = other) =
      entries.find? fun entry => entry.1 = other := by
  induction entries with
  | nil => simp [setEntry, ne]
  | cons entry rest ih =>
    rw [setEntry]
    split
    · rename_i same
      rw [List.find?_cons_of_neg (by simpa using ne),
        List.find?_cons_of_neg (by simpa [same] using ne)]
    · rw [List.find?_cons, List.find?_cons, ih]

theorem get?_set : ((Json.obj entries).set key value).get? key = some value := by
  simp [set, get?, find?_setEntry]

theorem get?_set_of_ne (j : Json) (ne : key ≠ other) : (j.set key value).get? other = j.get? other := by
  cases j with
  | obj entries => simp [set, get?, find?_setEntry_of_ne ne]
  | _ => rfl

@[simp] theorem get_set : ((Json.obj entries).set key value).get key = value := by
  rw [get, get?_set, Option.getD_some]

theorem get_set_of_ne (ne : key ≠ other) :
    ((Json.obj entries).set key value).get other = (Json.obj entries).get other := by
  rw [get, get?_set_of_ne _ ne, get]

end Json
end Deeting
