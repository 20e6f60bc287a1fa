import Mathlib.Tactic.Common

/-! Calendar dates as `datetime.date` compares them, and the months that
`strftime("%Y-%m")` distinguishes. ISO strings are not modeled: two dates (months)
have equal strings exactly when they are equal. -/
namespace Deeting

structure Month where
  year : ℕ
  month : ℕ
  deriving DecidableEq, Repr

/-- The field bounds of `datetime.date`; the length of a particular month plays no role. -/
structure Date where
  year : ℕ
  month : ℕ
  day : ℕ
  month_range : 1 ≤ month ∧ month ≤ 12
  day_range : 1 ≤ day ∧ day ≤ 31
  deriving DecidableEq, Repr

namespace Date

def Before (a b : Date) : Prop :=
  a.year < b.year ∨ a.year = b.year ∧
    (a.month < b.month ∨ a.month = b.month ∧ a.day < b.day)

instance (a b : Date) : Decidable (Before a b) := inferInstanceAs (Decidable (_ ∨ _))

def yearMonth (d : Date) : Month := ⟨d.year, d.month⟩

/-- `d.replace(day=1)`. -/
def firstOfMonth (d : Date) : Date := { d with day := 1, day_range := by decide }

theorem before_irrefl (d : Date) : ¬ d.Before d := by
  unfold Before
  omega

/-- A date that is not in the future is in the past unless it is today. -/
theorem before_iff_ne {d today : Date} (past : ¬ today.Before d) : d.Before today ↔ d ≠ today := by
  obtain ⟨y, m, n, _, _⟩ := d
  obtain ⟨y', m', n', _, _⟩ := today
  simp only [Before, ne_eq, mk.injEq] at past ⊢
  omega

/-- For the same dates, `d < today.replace(day=1)` compares the months only. -/
theorem before_firstOfMonth_iff {d today : Date} (past : ¬ today.Before d) :
    d.Before today.firstOfMonth ↔ d.yearMonth ≠ today.yearMonth := by
  obtain ⟨y, m, n, _, _⟩ := d
  obtain ⟨y', m', n', _, _⟩ := today
  simp only [Before, firstOfMonth, yearMonth, ne_eq, Month.mk.injEq] at past ⊢
  omega

/-- Two consecutive days of one month, for the worked cases. -/
def june14 : Date := ⟨2025, 6, 14, by decide, by decide⟩
def june15 : Date := ⟨2025, 6, 15, by decide, by decide⟩

end Date
end Deeting
