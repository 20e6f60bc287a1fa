import Mathlib.Data.Int.Log
import Mathlib.Data.Rat.Floor
import Mathlib.Tactic.Linarith
import Mathlib.Tactic.NormNum
import Mathlib.Tactic.FieldSimp
import Mathlib.Tactic.Ring

/-! Decimal arithmetic on rationals: rounding at a fixed number of places or of significant
digits, the integer part a C conversion keeps, and the numbers that have at most six
decimals. A float of Python is read as the rational it stands for; a double that a script
of Redis computes with is a number of 53 binary digits. -/
namespace Deeting.Decimal

/-- Nearest integer, a tie going to the even neighbour (`ROUND_HALF_EVEN`). -/
def roundHalfEven (q : ℚ) : ℤ :=
  let low := ⌊q⌋
  let rest := q - low
  if rest < 1 / 2 then low
  else if 1 / 2 < rest then low + 1
  else if low % 2 = 0 then low else low + 1

/-- `Decimal.quantize(Decimal("0.000001"))`. -/
def quantize6 (q : ℚ) : ℚ := roundHalfEven (q * 1000000) / 1000000

/-- `Decimal.quantize(Decimal("0.01"))`. -/
def quantize2 (q : ℚ) : ℚ := roundHalfEven (q * 100) / 100

/-- Nearest integer to a number that is not negative, a tie going up (`ROUND_HALF_UP`). -/
def roundHalfUp (q : ℚ) : ℤ := ⌊q + 1 / 2⌋

def significant (base digits : ℕ) (q : ℚ) : ℚ :=
  let unit : ℚ := (base : ℚ) ^ (Int.log base |q| + 1 - digits)
  roundHalfEven (q / unit) * unit

def double (q : ℚ) : ℚ := significant 2 53 q

/-- What a `Numeric(18, 6)` column keeps, a tie going away from zero. -/
def numeric6 (q : ℚ) : ℚ :=
  if 0 ≤ q then roundHalfUp (q * 1000000) / 1000000 else -(roundHalfUp (-q * 1000000) / 1000000)

/-- Conversion of a number to a machine integer: the fraction is dropped. -/
def truncate (q : ℚ) : ℤ := Int.tdiv q.num q.den

def Micro (q : ℚ) : Prop := ∃ n : ℤ, q = n / 1000000

theorem roundHalfEven_nonneg (nonneg : 0 ≤ q) : 0 ≤ roundHalfEven q := by
  have low : 0 ≤ ⌊q⌋ := Int.floor_nonneg.mpr nonneg
  unfold roundHalfEven
  simp only
  split
  · exact low
  split
  · omega
  split <;> omega

theorem quantize6_nonneg (nonneg : 0 ≤ q) : 0 ≤ quantize6 q := by
  have scaled : 0 ≤ roundHalfEven (q * 1000000) := roundHalfEven_nonneg (by linarith)
  have cast : (0 : ℚ) ≤ roundHalfEven (q * 1000000) := by exact_mod_cast scaled
  rw [quantize6]
  linarith

@[simp] theorem roundHalfEven_intCast (n : ℤ) : roundHalfEven n = n := by
  simp [roundHalfEven]

@[simp] theorem roundHalfUp_intCast (n : ℤ) : roundHalfUp n = n := by
  rw [roundHalfUp, Int.floor_intCast_add]
  norm_num

theorem abs_roundHalfEven_le {q : ℚ} {n : ℤ} (bound : |q| ≤ n) : |roundHalfEven q| ≤ n := by
  obtain ⟨lower, upper⟩ := abs_le.mp bound
  have low : -n ≤ ⌊q⌋ := Int.le_floor.mpr (by push_cast; exact lower)
  have floor := Int.floor_le q
  have high : ⌊q⌋ ≤ n := by exact_mod_cast floor.trans upper
  have next (above : 1 / 2 ≤ q - ⌊q⌋) : ⌊q⌋ + 1 ≤ n := by
    have below : (⌊q⌋ : ℚ) < n := by linarith
    exact_mod_cast below
  rw [abs_le]
  unfold roundHalfEven
  simp only
  split
  · omega
  rename_i half
  have next := next (not_lt.mp half)
  split
  · omega
  split <;> omega

section Significant

variable {base digits : ℕ}

/-- A number of so many digits is kept. -/
theorem significant_of_scaled (one : 1 < base) (positive : 0 < digits) {n k : ℤ}
    (small : |n| ≤ base ^ digits) :
    significant base digits (n * base ^ k : ℚ) = n * base ^ k := by
  have zero : (0 : ℚ) < base := by exact_mod_cast one.pos
  have unit : ∃ m : ℤ, (n * base ^ k : ℚ) =
      m * base ^ (Int.log base |(n * base ^ k : ℚ)| + 1 - digits) := by
    rcases eq_or_ne n 0 with rfl | nonzero
    · exact ⟨0, by simp⟩
    have size : |(n * base ^ k : ℚ)| = |n| * base ^ k := by
      rw [abs_mul, abs_of_pos (zpow_pos zero k), Int.cast_abs]
    have top : |(n * base ^ k : ℚ)| ≤ base ^ (digits + k : ℤ) := by
      rw [size, zpow_add₀ zero.ne', zpow_natCast]
      exact mul_le_mul_of_nonneg_right (by exact_mod_cast small) (zpow_pos zero k).le
    have apart : 0 < |(n * base ^ k : ℚ)| :=
      abs_pos.mpr (mul_ne_zero (by exact_mod_cast nonzero) (zpow_pos zero k).ne')
    have log : Int.log base |(n * base ^ k : ℚ)| ≤ digits + k := by
      rw [← Int.log_zpow (R := ℚ) one (digits + k)]
      exact Int.log_mono_right apart top
    rcases log.lt_or_eq with less | full
    · -- the unit divides the scale
      obtain ⟨d, gap⟩ := Int.eq_ofNat_of_zero_le
        (show 0 ≤ k - (Int.log base |(n * base ^ k : ℚ)| + 1 - digits) by omega)
      refine ⟨n * base ^ d, ?_⟩
      have sum : k = d + (Int.log base |(n * base ^ k : ℚ)| + 1 - digits) := by omega
      conv_lhs => rw [sum, zpow_add₀ zero.ne', zpow_natCast]
      push_cast
      ring
    · -- the number is a power of the base
      have reached := Int.zpow_log_le_self one apart
      rw [full, size, zpow_add₀ zero.ne', zpow_natCast] at reached
      have whole : (base ^ digits : ℚ) ≤ |n| := le_of_mul_le_mul_right reached (zpow_pos zero k)
      have power : |n| = base ^ digits := le_antisymm small (by exact_mod_cast whole)
      obtain ⟨d, rfl⟩ := Nat.exists_eq_succ_of_ne_zero positive.ne'
      refine ⟨n.sign * base ^ d, ?_⟩
      have value : (n : ℚ) = n.sign * base ^ (d + 1) := by
        have signed := Int.sign_mul_abs n
        rw [power] at signed
        exact_mod_cast signed.symm
      rw [full, value, show (d.succ : ℤ) + k + 1 - (d.succ : ℤ) = k + 1 by ring,
        zpow_add₀ zero.ne', zpow_one]
      push_cast
      ring
  obtain ⟨m, whole⟩ := unit
  have unit := (zpow_pos zero (Int.log base |(n * base ^ k : ℚ)| + 1 - digits)).ne'
  have ratio := div_eq_of_eq_mul unit whole
  rw [significant]
  simp only [ratio, roundHalfEven_intCast]
  exact whole.symm

theorem significant_scaled (one : 1 < base) (q : ℚ) :
    ∃ n k : ℤ, |n| ≤ base ^ digits ∧ significant base digits q = n * base ^ k := by
  have zero : (0 : ℚ) < base := by exact_mod_cast one.pos
  refine ⟨_, _, ?_, rfl⟩
  have bound : |q / (base : ℚ) ^ (Int.log base |q| + 1 - digits)| ≤ (base ^ digits : ℤ) := by
    have log := (Int.lt_zpow_succ_log_self one |q|).le
    rw [abs_div, abs_of_pos (zpow_pos zero _), div_le_iff₀ (zpow_pos zero _)]
    push_cast
    rw [← zpow_natCast, ← zpow_add₀ zero.ne', add_sub_cancel]
    exact log
  exact abs_roundHalfEven_le bound

theorem double_double (q : ℚ) : double (double q) = double q := by
  obtain ⟨n, k, small, scaled⟩ := @significant_scaled 2 53 (by decide) q
  rw [double, double, scaled]
  exact significant_of_scaled (by decide) (by decide) small

@[simp] theorem double_zero : double 0 = 0 := by
  have whole : roundHalfEven 0 = 0 := roundHalfEven_intCast 0
  simp [double, significant, whole]

end Significant

theorem abs_numeric6_sub_lt (q : ℚ) : |numeric6 q - q| < 1 / 1000000 := by
  have above := Int.floor_le (q * 1000000 + 1 / 2)
  have below := Int.lt_floor_add_one (q * 1000000 + 1 / 2)
  have above' := Int.floor_le (-q * 1000000 + 1 / 2)
  have below' := Int.lt_floor_add_one (-q * 1000000 + 1 / 2)
  rw [numeric6, abs_lt]
  split
  · simp only [roundHalfUp]
    constructor <;> linarith
  · simp only [roundHalfUp]
    constructor <;> linarith

@[simp] theorem quantize6_zero : quantize6 0 = 0 := by
  have whole : roundHalfEven 0 = 0 := roundHalfEven_intCast 0
  simp [quantize6, whole]

@[simp] theorem quantize2_cents (n : ℤ) : quantize2 (n / 100) = n / 100 := by
  have cents : (n / 100 : ℚ) * 100 = n := by ring
  rw [quantize2, cents, roundHalfEven_intCast]

theorem truncate_intCast (n : ℤ) : truncate n = n := by
  simp [truncate]

theorem truncate_of_nonneg (nonneg : 0 ≤ q) : truncate q = ⌊q⌋ := by
  rw [truncate, Int.tdiv_eq_ediv_of_nonneg (Rat.num_nonneg.mpr nonneg), Rat.floor_def']

namespace Micro

theorem numeric6 (q : ℚ) : Micro (numeric6 q) := by
  rw [Decimal.numeric6]
  split
  · exact ⟨_, rfl⟩
  · exact ⟨-roundHalfUp (-q * 1000000), by push_cast; ring⟩

theorem sub (ha : Micro a) (hb : Micro b) : Micro (a - b) := by
  obtain ⟨m, rfl⟩ := ha
  obtain ⟨n, rfl⟩ := hb
  exact ⟨m - n, by push_cast; ring⟩

/-- Two such numbers closer than the last place are equal. -/
theorem eq_of_abs_sub_lt (ha : Micro a) (hb : Micro b) (close : |a - b| < 1 / 1000000) : a = b := by
  obtain ⟨n, difference⟩ := ha.sub hb
  rw [difference, abs_lt] at close
  have above : (-1 : ℚ) < n := by linarith [close.1]
  have below : (n : ℚ) < 1 := by linarith [close.2]
  have lower : -1 < n := by exact_mod_cast above
  have upper : n < 1 := by exact_mod_cast below
  have none : n = 0 := by omega
  rw [none] at difference
  simp only [Int.cast_zero, zero_div] at difference
  linarith

end Micro
end Deeting.Decimal
