import Mathlib.Data.Option.Basic
import Mathlib.Order.Lattice

/-! One key of a store whose values may carry a deadline. A value is there before its
deadline and gone from then on; what is gone is read as absent. The commands are those of
a store that serves one of them at a time, at the time it reads from its clock. -/
namespace Deeting.Expiry

structure Entry (T V : Type) where
  value : V
  deadline : Option T
  deriving DecidableEq

section Reading

variable {T V : Type} [LinearOrder T]

def Entry.alive (now : T) (e : Entry T V) : Bool :=
  match e.deadline with
  | none => true
  | some d => now < d

def live (now : T) (slot : Option (Entry T V)) : Option (Entry T V) :=
  slot.filter (Entry.alive now)

variable {now later : T} {slot : Option (Entry T V)} {e : Entry T V} {v : V} {d : T}

@[simp] theorem alive_some : Entry.alive now (⟨v, some d⟩ : Entry T V) = true ↔ now < d := by
  simp [Entry.alive]

@[simp] theorem alive_none : Entry.alive now (⟨v, none⟩ : Entry T V) = true := rfl

@[simp] theorem live_none : live now (none : Option (Entry T V)) = none := rfl

theorem live_eq_some : live now slot = some e ↔ slot = some e ∧ e.alive now = true := by
  simp only [live, Option.filter_eq_some_iff]

theorem Entry.alive_earlier (order : now ≤ later) (alive : e.alive later = true) :
    e.alive now = true := by
  obtain ⟨v, deadline⟩ := e
  cases deadline with
  | none => rfl
  | some d => exact alive_some.mpr (order.trans_lt (alive_some.mp alive))

/-- What is found later was there to be found before. -/
theorem live_earlier (order : now ≤ later) (found : live later slot = some e) :
    live now slot = some e := by
  obtain ⟨stored, alive⟩ := live_eq_some.mp found
  exact live_eq_some.mpr ⟨stored, Entry.alive_earlier order alive⟩

def Has (now : T) (slot : Option (Entry T V)) (v : V) : Prop :=
  (live now slot).map Entry.value = some v

theorem has_iff : Has now slot v ↔ ∃ e, live now slot = some e ∧ e.value = v := by
  simp only [Has, Option.map_eq_some_iff]

theorem has_of_live (found : live now slot = some e) : Has now slot e.value :=
  has_iff.mpr ⟨e, found, rfl⟩

/-- One value at a time. -/
theorem Has.unique {w : V} (first : Has now slot v) (second : Has now slot w) : v = w :=
  Option.some.inj (first.symm.trans second)

/-- `SET .. NX`: only where nothing is found. -/
def setNx (now : T) (slot : Option (Entry T V)) (e : Entry T V) : Option (Entry T V) × Bool :=
  if (live now slot).isNone then (some e, true) else (slot, false)

theorem setNx_of_absent (absent : live now slot = none) : setNx now slot e = (some e, true) := by
  simp only [setNx, absent, Option.isNone_none, if_true]

theorem setNx_of_live {f : Entry T V} (found : live now slot = some f) :
    setNx now slot e = (slot, false) := by
  simp [setNx, found]

end Reading

section Commands

variable {T V : Type} [LinearOrder T] [DecidableEq V]

instance (now : T) (slot : Option (Entry T V)) (v : V) : Decidable (Has now slot v) :=
  inferInstanceAs (Decidable (_ = _))

def compareDelete (now : T) (slot : Option (Entry T V)) (v : V) : Option (Entry T V) × Bool :=
  if Has now slot v then (none, true) else (slot, false)

def compareExpire (now : T) (slot : Option (Entry T V)) (v : V) (deadline : T) :
    Option (Entry T V) × Bool :=
  if Has now slot v then (some ⟨v, some deadline⟩, true) else (slot, false)

variable {now : T} {slot : Option (Entry T V)} {e : Entry T V} {v w : V} {d : T}

def bearing (now : T) (slot : Option (Entry T V)) (v : V) : Option (Entry T V) :=
  (live now slot).filter fun e => e.value = v

theorem bearing_of_not_has (absent : ¬ Has now slot v) : bearing now slot v = none := by
  rw [bearing, Option.filter_eq_none_iff]
  intro e found bears
  exact absent (has_iff.mpr ⟨e, found, of_decide_eq_true bears⟩)

/-- A deletion by one value leaves what bears another. -/
theorem bearing_compareDelete (other : w ≠ v) :
    bearing now (compareDelete now slot v).1 w = bearing now slot w := by
  rw [compareDelete]
  split
  · rename_i has
    rw [bearing_of_not_has fun elsewhere => other (elsewhere.unique has)]
    rfl
  · rfl

/-- So does a new deadline. -/
theorem bearing_compareExpire (other : w ≠ v) :
    bearing now (compareExpire now slot v d).1 w = bearing now slot w := by
  rw [compareExpire]
  split
  · rename_i has
    rw [bearing_of_not_has fun elsewhere => other (elsewhere.unique has)]
    refine bearing_of_not_has fun bears => ?_
    obtain ⟨e, found, same⟩ := has_iff.mp bears
    obtain ⟨stored, -⟩ := live_eq_some.mp found
    cases stored
    exact other same.symm
  · rfl

end Commands

end Deeting.Expiry
