import Deeting.Transition
import Mathlib.Tactic.Linarith

/-! The quota rows of an API key: `ApiKeyService.check_quota` and `deduct_quota` with
`ApiKeyRepository.update_quota_usage` and `reset_quota`. A deduction reads the row for its check
and again for its update. It works on what its session loaded, and its flush writes the columns
it changed. Other rows play no role. -/
namespace Deeting.ApiKeys
open Transition

/-- A row of `api_key_quota`. -/
structure QuotaRow where
  totalQuota : ℕ
  usedQuota : ℤ := 0
  resetAt : Option ℚ := none
  deriving DecidableEq

/-- Without a row there is no limit, and `remaining` and `total` are -1. -/
structure QuotaCheckResult where
  allowed : Bool
  remaining : ℤ
  total : ℤ
  resetAt : Option ℚ

def checkQuota (quota : Option QuotaRow) (amount : ℤ) : QuotaCheckResult :=
  match quota with
  | none => ⟨true, -1, -1, none⟩
  | some quota =>
    let remaining := quota.totalQuota - quota.usedQuota
    ⟨amount ≤ remaining, remaining, quota.totalQuota, quota.resetAt⟩

def updateQuotaUsage (quota : QuotaRow) (delta : ℤ) : QuotaRow :=
  { quota with usedQuota := max 0 (quota.usedQuota + delta) }

def resetQuota (quota : QuotaRow) (now : ℚ) : QuotaRow :=
  { quota with usedQuota := 0, resetAt := some now }

/-- The `UPDATE` of a flush, which sets the columns whose value is no longer the loaded one. -/
def flushed (loaded changed current : QuotaRow) : QuotaRow :=
  { current with
    usedQuota :=
      if changed.usedQuota = loaded.usedQuota then current.usedQuota else changed.usedQuota
    resetAt := if changed.resetAt = loaded.resetAt then current.resetAt else changed.resetAt }

inductive QuotaCall where
  | checked (amount : ℤ) (loaded : QuotaRow)
  | deduct (amount : ℤ) (loaded : QuotaRow)
  | reset (loaded : QuotaRow)

/-- `granted` is the sum of the amounts for which `deduct_quota` returned `True` since the last
reset. -/
structure Deductions where
  row : QuotaRow
  calls : ℕ → Option QuotaCall := fun _ => none
  granted : ℤ := 0

/-- The identity map is weak: `load` finds the object of the check only if it is still `held`. -/
inductive QuotaAction where
  | deduct (call : ℕ) (amount : ℤ)
  | load (call : ℕ) (held : Bool)
  | reset (call : ℕ)
  | commit (call : ℕ) (now : ℚ)

def Deductions.put (s : Deductions) (call : ℕ) (c : Option QuotaCall) : Deductions :=
  { s with calls := Function.update s.calls call c }

/-- A deduction without room ends at its check with `False`. -/
def quotaStep (s : Deductions) : QuotaAction → Option Deductions
  | .deduct call amount =>
    if (s.calls call).isSome ∨ amount ≤ 0 then none
    else if (checkQuota (some s.row) amount).allowed then
      some (s.put call (some (.checked amount s.row)))
    else some s
  | .load call held =>
    match s.calls call with
    | some (.checked amount loaded) =>
      some (s.put call (some (.deduct amount (if held then loaded else s.row))))
    | _ => none
  | .reset call =>
    if (s.calls call).isSome then none else some (s.put call (some (.reset s.row)))
  | .commit call now =>
    match s.calls call with
    | none | some (.checked ..) => none
    | some (.deduct amount loaded) =>
      some { s.put call none with
        row := flushed loaded (updateQuotaUsage loaded amount) s.row
        granted := s.granted + amount }
    | some (.reset loaded) =>
      some { s.put call none with
        row := flushed loaded (resetQuota loaded now) s.row
        granted := 0 }

structure Deductions.Sound (s : Deductions) : Prop where
  within : s.granted ≤ s.row.totalQuota
  counted : s.row.usedQuota = s.granted

/-- A commit finds the used quota that its call loaded, and a deduction still has its room; a
reset that loaded anything but zero may find any, as it then writes zero. -/
def Unmoved (s : Deductions) : QuotaAction → Prop
  | .deduct .. | .load .. | .reset .. => True
  | .commit call _ =>
    match s.calls call with
    | none | some (.checked ..) => True
    | some (.deduct amount loaded) =>
      s.row.usedQuota = loaded.usedQuota ∧ loaded.usedQuota + amount ≤ s.row.totalQuota
    | some (.reset loaded) => loaded.usedQuota = 0 → s.row.usedQuota = 0

def QuotaCall.Admitted : QuotaCall → Prop
  | .checked amount loaded | .deduct amount loaded => 0 < amount ∧ 0 ≤ loaded.usedQuota
  | .reset _ => True

structure Deductions.Good (s : Deductions) : Prop extends s.Sound where
  nonneg : 0 ≤ s.granted
  admitted : ∀ call c, s.calls call = some c → c.Admitted

section Steps
variable {s t : Deductions} {a : QuotaAction} {call : ℕ} {amount : ℤ} {loaded : QuotaRow} {now : ℚ}

@[simp] theorem totalQuota_flushed (loaded changed current : QuotaRow) :
    (flushed loaded changed current).totalQuota = current.totalQuota := rfl

@[simp] theorem usedQuota_deduct (positive : 0 < amount) (nonneg : 0 ≤ loaded.usedQuota)
    (current : QuotaRow) :
    (flushed loaded (updateQuotaUsage loaded amount) current).usedQuota =
      loaded.usedQuota + amount := by
  have grown : max 0 (loaded.usedQuota + amount) = loaded.usedQuota + amount := max_eq_right (by omega)
  simp only [flushed, updateQuotaUsage, grown]
  rw [if_neg (by omega)]

theorem usedQuota_reset (loaded current : QuotaRow) (now : ℚ) :
    (flushed loaded (resetQuota loaded now) current).usedQuota =
      if loaded.usedQuota = 0 then current.usedQuota else 0 := by
  simp only [flushed, resetQuota, eq_comm]

theorem Deductions.Good.put {c : QuotaCall} (good : s.Good) (call : ℕ)
    (admitted : c.Admitted) : (s.put call (some c)).Good := by
  refine ⟨⟨good.within, good.counted⟩, good.nonneg, fun other d held => ?_⟩
  rcases eq_or_ne other call with rfl | different
  · obtain rfl : c = d := by simpa [Deductions.put] using held
    exact admitted
  · exact good.admitted other d (by simpa [Deductions.put, different] using held)

theorem quotaStep_cases (taken : quotaStep s a = some t) :
    (∃ call amount, a = .deduct call amount ∧ 0 < amount ∧
      (t = s ∨ t = s.put call (some (.checked amount s.row)))) ∨
    (∃ call held amount loaded, a = .load call held ∧ s.calls call = some (.checked amount loaded) ∧
      t = s.put call (some (.deduct amount (if held then loaded else s.row)))) ∨
    (∃ call, a = .reset call ∧ t = s.put call (some (.reset s.row))) ∨
    (∃ call now amount loaded, a = .commit call now ∧ s.calls call = some (.deduct amount loaded) ∧
      t = { s.put call none with
        row := flushed loaded (updateQuotaUsage loaded amount) s.row
        granted := s.granted + amount }) ∨
    (∃ call now loaded, a = .commit call now ∧ s.calls call = some (.reset loaded) ∧
      t = { s.put call none with
        row := flushed loaded (resetQuota loaded now) s.row
        granted := 0 }) := by
  cases a with
  | deduct call amount =>
    simp only [quotaStep] at taken
    split at taken
    · simp at taken
    · rename_i enabled
      refine .inl ⟨call, amount, rfl, by omega, ?_⟩
      split at taken
      · exact .inr (Option.some.inj taken).symm
      · exact .inl (Option.some.inj taken).symm
  | load call held =>
    simp only [quotaStep] at taken
    split at taken
    · rename_i amount loaded found
      exact .inr (.inl ⟨call, held, amount, loaded, rfl, found, (Option.some.inj taken).symm⟩)
    · simp at taken
  | reset call =>
    simp only [quotaStep] at taken
    split at taken
    · simp at taken
    · exact .inr (.inr (.inl ⟨call, rfl, (Option.some.inj taken).symm⟩))
  | commit call now =>
    simp only [quotaStep] at taken
    split at taken
    · simp at taken
    · simp at taken
    · rename_i amount loaded held
      exact .inr (.inr (.inr (.inl
        ⟨call, now, amount, loaded, rfl, held, (Option.some.inj taken).symm⟩)))
    · rename_i loaded held
      exact .inr (.inr (.inr (.inr ⟨call, now, loaded, rfl, held, (Option.some.inj taken).symm⟩)))

theorem Deductions.Good.released (good : s.Good) {other : ℕ} {c : QuotaCall}
    (held : (s.put call none).calls other = some c) : c.Admitted := by
  rcases eq_or_ne other call with rfl | different
  · simp [Deductions.put] at held
  · exact good.admitted other c (by simpa [Deductions.put, different] using held)

theorem Deductions.Good.step (good : s.Good) (unmoved : Unmoved s a) (taken : quotaStep s a = some t) :
    t.Good := by
  have read : 0 ≤ s.row.usedQuota := good.counted.symm ▸ good.nonneg
  obtain ⟨call, amount, rfl, positive, rfl | rfl⟩ | ⟨call, held, amount, loaded, rfl, checked, rfl⟩ |
    ⟨call, rfl, rfl⟩ | ⟨call, now, amount, loaded, rfl, held, rfl⟩ |
    ⟨call, now, loaded, rfl, held, rfl⟩ := quotaStep_cases taken
  · exact good
  · exact good.put call ⟨positive, read⟩
  · obtain ⟨positive, nonneg⟩ := good.admitted call _ checked
    refine good.put call ⟨positive, ?_⟩
    cases held with
    | true => exact nonneg
    | false => exact read
  · exact good.put call trivial
  · obtain ⟨positive, nonneg⟩ := good.admitted call _ held
    simp only [Unmoved, held] at unmoved
    obtain ⟨unmoved, room⟩ := unmoved
    have counted := good.counted
    refine ⟨⟨?_, ?_⟩, ?_, fun _ _ => good.released⟩
    · simp only [totalQuota_flushed]
      omega
    · simp only [usedQuota_deduct positive nonneg]
      omega
    · have := good.nonneg
      simp only
      omega
  · simp only [Unmoved, held] at unmoved
    refine ⟨⟨by simp, ?_⟩, le_rfl, fun _ _ => good.released⟩
    simp only [usedQuota_reset]
    split
    · rename_i zero
      exact unmoved zero
    · rfl

theorem unmoved_of_sound (good : s.Good) (taken : quotaStep s a = some t) (sound : t.Sound) :
    Unmoved s a := by
  obtain ⟨call, amount, rfl, positive, rfl | rfl⟩ | ⟨call, _, amount, loaded, rfl, checked, rfl⟩ |
    ⟨call, rfl, rfl⟩ | ⟨call, now, amount, loaded, rfl, held, rfl⟩ |
    ⟨call, now, loaded, rfl, held, rfl⟩ := quotaStep_cases taken
  · trivial
  · trivial
  · trivial
  · trivial
  · obtain ⟨positive, nonneg⟩ := good.admitted call _ held
    have after := sound.counted
    have within := sound.within
    have before := good.counted
    simp only [usedQuota_deduct positive nonneg] at after
    simp only [totalQuota_flushed] at within
    simp only [Unmoved, held]
    omega
  · have after := sound.counted
    simp only [usedQuota_reset] at after
    simp only [Unmoved, held]
    intro zero
    simpa only [zero, if_true] using after

theorem unmoved_of_stuck (stuck : quotaStep s a = none) : Unmoved s a := by
  cases a with
  | deduct | load | reset => trivial
  | commit call now =>
    simp only [quotaStep] at stuck
    split at stuck
    · rename_i free
      simp [Unmoved, free]
    · rename_i checked
      simp [Unmoved, checked]
    · simp at stuck
    · simp at stuck

end Steps

/-- The quota as `add_quota` leaves it. -/
def Deductions.added (total : ℕ) : Deductions := { row := { totalQuota := total } }

theorem Deductions.added_good (total : ℕ) : (Deductions.added total).Good :=
  ⟨⟨by simp [added], rfl⟩, le_rfl, by simp [added]⟩

/-- In every state of a run the granted amounts are within the quota and counted, exactly where
no commit meets a used quota that has moved since the call loaded it, and each deduction still
has its room there. -/
theorem deductions_sound_iff (total : ℕ) (actions : List QuotaAction) :
    (∀ first, first <+: actions → ∀ t,
      run quotaStep (.added total) first = some t → t.Sound) ↔
      Along quotaStep Unmoved (.added total) actions :=
  forall_prefix_iff_along Deductions.Good.toSound (fun good ok taken => good.step ok taken)
    unmoved_of_sound unmoved_of_stuck (Deductions.added_good total)

/-- Two deductions of sixty load the same row of one hundred. -/
theorem overlapping_deductions :
    ∃ t, run quotaStep (.added 100) [.deduct 0 60, .deduct 1 60, .load 0 false, .load 1 false,
        .commit 0 0, .commit 1 0] = some t ∧
      t.granted = 120 ∧ t.row.totalQuota = 100 ∧ t.row.usedQuota = 60 ∧
      ∀ call, t.calls call = none := by
  refine ⟨_, rfl, rfl, rfl, rfl, fun call => ?_⟩
  simp only [Deductions.put, Function.update_apply]
  split
  · rfl
  split <;> rfl

end Deeting.ApiKeys
