import Mathlib.Data.List.Nodup

/-! Notes taken inside nested transactions: those of the open savepoints, those of the
outermost transaction beside them, and those whose transaction and enclosing savepoints have
all been committed. What is open is kept in the order in which it was noted. -/
namespace Deeting

structure Savepoints (α : Type) where
  inner : List (List α) := []
  outer : List α := []
  lasting : List α := []

namespace Savepoints

variable {α : Type}

def note (a : α) (s : Savepoints α) : Savepoints α :=
  match s.inner with
  | [] => { s with outer := s.outer ++ [a] }
  | own :: rest => { s with inner := (own ++ [a]) :: rest }

def beginNested (s : Savepoints α) : Savepoints α := { s with inner := [] :: s.inner }

/-- The innermost ends well: a savepoint leaves its notes to the one around it, the outermost
transaction makes them last. -/
def committed (s : Savepoints α) : Savepoints α :=
  match s.inner with
  | [] => { s with outer := [], lasting := s.lasting ++ s.outer }
  | [own] => { s with inner := [], outer := s.outer ++ own }
  | own :: around :: rest => { s with inner := (around ++ own) :: rest }

/-- The innermost is taken back, with the notes taken in it. -/
def rolledBack (s : Savepoints α) : Savepoints α :=
  match s.inner with
  | [] => { s with outer := [] }
  | _ :: rest => { s with inner := rest }

def owed (s : Savepoints α) : List α := s.outer ++ s.inner.reverse.flatten

variable {s : Savepoints α} {a : α}

@[simp] theorem lasting_note : (s.note a).lasting = s.lasting := by
  rw [note]
  split <;> rfl

@[simp] theorem lasting_beginNested : s.beginNested.lasting = s.lasting := rfl

@[simp] theorem lasting_rolledBack : s.rolledBack.lasting = s.lasting := by
  rw [rolledBack]
  split <;> rfl

theorem owed_note : (s.note a).owed = s.owed ++ [a] := by
  rw [note]
  split
  · rename_i none
    simp [owed, none]
  · rename_i own rest nested
    simp [owed, nested]

theorem owed_beginNested : s.beginNested.owed = s.owed := by simp [owed, beginNested]

theorem owed_rolledBack : s.rolledBack.owed <+: s.owed := by
  rw [rolledBack]
  split
  · rename_i none
    simp [owed, none]
  · rename_i own rest nested
    simp [owed, nested, ← List.append_assoc]

/-- The release of a savepoint settles nothing. -/
theorem committed_of_nested (nested : s.inner ≠ []) :
    s.committed.owed = s.owed ∧ s.committed.lasting = s.lasting := by
  rw [committed]
  split
  · rename_i none
    exact absurd none nested
  · rename_i own one
    simp [owed, one]
  · rename_i own around rest two
    simp [owed, two]

theorem committed_of_outermost (outermost : s.inner = []) :
    s.committed.owed = [] ∧ s.committed.lasting = s.lasting ++ s.owed := by
  rw [committed, outermost]
  simp [owed, outermost]

/-- Committed or not, what was open and what lasts came from these. -/
theorem committed_append : s.committed.lasting ++ s.committed.owed = s.lasting ++ s.owed := by
  by_cases outermost : s.inner = []
  · obtain ⟨owed, lasting⟩ := committed_of_outermost outermost
    rw [owed, lasting, List.append_nil]
  · obtain ⟨owed, lasting⟩ := committed_of_nested outermost
    rw [owed, lasting]

end Savepoints
end Deeting
