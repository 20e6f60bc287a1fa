import Deeting.Decimal
import Mathlib.Algebra.BigOperators.Group.List.Basic
import Mathlib.Algebra.Group.Prod

/-! The row of `bandit_arm_state` and what `record_feedback` makes of it: the object is
changed in memory, and a commit writes the columns in which it differs from what was
loaded. -/
namespace Deeting.Bandit
open Decimal

/-- The columns of `BanditArmState` that feedback changes. -/
structure Row where
  totalTrials : ℤ
  successes : ℤ
  failures : ℤ
  totalLatencyMs : ℤ
  latencyP95Ms : Option ℚ
  totalCost : ℚ
  lastReward : ℚ
  cooldownUntil : Option ℚ
  deriving DecidableEq

def Row.empty : Row := ⟨0, 0, 0, 0, none, 0, 0, none⟩

/-- The arguments of a call, with the two entries of its `routing_config` it uses. -/
structure Feedback where
  success : Bool
  latencyMs : Option ℚ
  cost : Option ℚ
  reward : Option ℚ
  failureCooldownThreshold : ℤ
  cooldownSeconds : ℤ

def EightDecimals (q : ℚ) : Prop := ∃ n : ℤ, q = n / 100000000

/-- What a `Numeric(18, 8)` column stores: half a unit is rounded away from zero. -/
def numeric8 (q : ℚ) : ℚ :=
  let units := q * 100000000
  (if 0 ≤ units then ⌊units + 1 / 2⌋ else -⌊-units + 1 / 2⌋ : ℤ) / 100000000

/-- The object after the feedback, before it is committed. -/
def Feedback.update (f : Feedback) (now : ℚ) (row : Row) : Row :=
  let failures := if f.success then max (row.failures - 1) 0 else row.failures + 1
  { totalTrials := row.totalTrials + 1
    successes := if f.success then row.successes + 1 else row.successes
    failures
    totalLatencyMs :=
      match f.latencyMs with
      | some ms => row.totalLatencyMs + truncate ms
      | none => row.totalLatencyMs
    latencyP95Ms := f.latencyMs.or row.latencyP95Ms
    totalCost :=
      match f.cost with
      | some cost => row.totalCost + cost
      | none => row.totalCost
    lastReward := f.reward.getD row.lastReward
    cooldownUntil :=
      if ¬ f.success ∧ f.failureCooldownThreshold ≤ failures then
        some (now + f.cooldownSeconds)
      else if f.success then none
      else row.cooldownUntil }

def column {α : Type} [DecidableEq α] (loaded object stored : α) : α :=
  if object = loaded then stored else object

def decimalColumn (loaded object stored : ℚ) : ℚ :=
  if object = loaded then stored else numeric8 object

/-- The `UPDATE` of a commit. -/
def flush (loaded object stored : Row) : Row where
  totalTrials := column loaded.totalTrials object.totalTrials stored.totalTrials
  successes := column loaded.successes object.successes stored.successes
  failures := column loaded.failures object.failures stored.failures
  totalLatencyMs := column loaded.totalLatencyMs object.totalLatencyMs stored.totalLatencyMs
  latencyP95Ms := column loaded.latencyP95Ms object.latencyP95Ms stored.latencyP95Ms
  totalCost := decimalColumn loaded.totalCost object.totalCost stored.totalCost
  lastReward := decimalColumn loaded.lastReward object.lastReward stored.lastReward
  cooldownUntil := column loaded.cooldownUntil object.cooldownUntil stored.cooldownUntil

def Row.totals (row : Row) : ℤ × ℤ × ℤ × ℚ :=
  (row.totalTrials, row.successes, row.totalLatencyMs, row.totalCost)

def Feedback.contribution (f : Feedback) : ℤ × ℤ × ℤ × ℚ :=
  (1, if f.success then 1 else 0, f.latencyMs.elim 0 truncate, f.cost.getD 0)

section Sums
variable {f : Feedback} {now q : ℚ} {row : Row}

theorem floor_add_half (n : ℤ) : ⌊(n : ℚ) + 1 / 2⌋ = n := by
  rw [Int.floor_eq_iff]
  constructor <;> linarith

theorem numeric8_of_eightDecimals (short : EightDecimals q) : numeric8 q = q := by
  obtain ⟨n, rfl⟩ := short
  have units : (n : ℚ) / 100000000 * 100000000 = n := by
    field_simp
  simp only [numeric8, units]
  split
  · rw [floor_add_half]
  · rw [← Int.cast_neg, floor_add_half, neg_neg]

theorem eightDecimals_numeric8 : EightDecimals (numeric8 q) :=
  ⟨_, rfl⟩

theorem EightDecimals.add {r : ℚ} (first : EightDecimals q) (second : EightDecimals r) :
    EightDecimals (q + r) := by
  obtain ⟨m, rfl⟩ := first
  obtain ⟨n, rfl⟩ := second
  exact ⟨m + n, by push_cast; ring⟩

theorem column_self {α : Type} [DecidableEq α] (loaded object : α) :
    column loaded object loaded = object := by
  rw [column]
  split
  · exact Eq.symm ‹_›
  · rfl

theorem totals_update (f : Feedback) (now : ℚ) (row : Row) :
    (f.update now row).totals = row.totals + f.contribution := by
  simp only [Row.totals, Feedback.update, Feedback.contribution, Prod.mk_add_mk, Prod.mk.injEq,
    true_and]
  refine ⟨?_, ?_, ?_⟩
  · split <;> simp
  · cases f.latencyMs <;> simp
  · cases f.cost <;> simp

theorem totals_flush (stored : EightDecimals row.totalCost)
    (cost : ∀ cost, f.cost = some cost → EightDecimals cost) :
    (flush row (f.update now row) row).totals = row.totals + f.contribution := by
  rw [← totals_update f now row]
  simp only [Row.totals, flush, column_self, Prod.mk.injEq, true_and]
  rw [decimalColumn]
  split
  · exact Eq.symm ‹_›
  · apply numeric8_of_eightDecimals
    simp only [Feedback.update]
    cases given : f.cost with
    | none => exact stored
    | some c => exact stored.add (cost c given)

theorem totalTrials_flush (loaded stored : Row) :
    (flush loaded (f.update now loaded) stored).totalTrials = loaded.totalTrials + 1 := by
  simp [flush, column, Feedback.update]

theorem eightDecimals_flush {loaded object stored : Row}
    (short : EightDecimals stored.totalCost) :
    EightDecimals (flush loaded object stored).totalCost := by
  simp only [flush, decimalColumn]
  split
  · exact short
  · exact eightDecimals_numeric8

end Sums
end Deeting.Bandit
