import Deeting.Monitor.Cron
import Deeting.Protocols.Templates
import Mathlib.Order.Bounds.Basic

/-! `next_run_after` on the datetimes of Python, as minutes since the first of January of the year 1,
for every expression that is accepted; and that the schedule of the tasks is a part of it. -/
namespace Deeting.Monitor
open Deeting.Protocols (Digits)
open Deeting.Protocols.Template (asciiDigits)

def maxMinutes : ℕ := 3652059 * 1440

def dayAndMonth (days : ℕ) : ℕ × ℕ :=
  let shifted := days + 306
  let dayOfEra := shifted % 146097
  let yearOfEra := (dayOfEra - dayOfEra / 1460 + dayOfEra / 36524 - dayOfEra / 146096) / 365
  let dayOfYear := dayOfEra - (365 * yearOfEra + yearOfEra / 4 - yearOfEra / 100)
  let month := (5 * dayOfYear + 2) / 153
  (dayOfYear - (153 * month + 2) / 5 + 1, if month < 10 then month + 3 else month - 9)

example : dayAndMonth 0 = (1, 1) ∧ dayAndMonth 738944 = (29, 2) ∧ dayAndMonth 3652058 = (31, 12) := by
  decide

/-- `CronSpec.matches`; the first day was a Monday, which is 0. -/
def CronSpec.MatchesAt (spec : CronSpec) (minute : ℕ) : Prop :=
  let days := minute / 1440
  minute % 60 ∈ spec.minutes ∧ minute / 60 % 24 ∈ spec.hours ∧ (dayAndMonth days).1 ∈ spec.days ∧
    (dayAndMonth days).2 ∈ spec.months ∧ days % 7 ∈ spec.weekdays

instance (spec : CronSpec) (minute : ℕ) : Decidable (spec.MatchesAt minute) :=
  inferInstanceAs (Decidable (_ ∧ _))

namespace Cron

/-- A `CronExpressionError` with its text, or the `OverflowError` of a datetime. -/
inductive CronFailure where
  | cronExpression (text : String)
  | overflow
  deriving DecidableEq

def notFound : String := "未在 366 天窗口内找到下一次触发时间"

def searchFrom (spec : CronSpec) (cursor : ℕ) : ℕ → Except CronFailure ℕ
  | 0 => .error (.cronExpression notFound)
  | left + 1 =>
    if spec.MatchesAt cursor then .ok cursor
    else if maxMinutes ≤ cursor + 1 then .error .overflow
    else searchFrom spec (cursor + 1) left

def horizon (after : ℕ) : ℕ := after + 1 + 366 * 1440

/-- `next_run_after`, of a time in whole minutes. -/
def nextRunAfter (D : Digits) (expr : String) (after : ℕ) : Except CronFailure ℕ :=
  match parseCronExpr D expr with
  | .error text => .error (.cronExpression text)
  | .ok spec =>
    if maxMinutes ≤ horizon after then .error .overflow
    else searchFrom spec (after + 1) (366 * 1440 + 1)

/-- The minute is in the set of values of each field. Mondays are 1 and Sundays both 0 and 7. -/
def Fires (D : Digits) (expr : String) (minute : ℕ) : Prop :=
  ∃ minuteRaw hourRaw dayRaw monthRaw weekdayRaw,
    words expr = [minuteRaw, hourRaw, dayRaw, monthRaw, weekdayRaw] ∧
    Denotes D .minute minuteRaw (minute % 60) ∧ Denotes D .hour hourRaw (minute / 60 % 24) ∧
    Denotes D .day dayRaw (dayAndMonth (minute / 1440)).1 ∧
    Denotes D .month monthRaw (dayAndMonth (minute / 1440)).2 ∧
    ∃ weekday, Denotes D .weekday weekdayRaw weekday ∧ weekday % 7 = (minute / 1440 + 1) % 7

section Search
variable {D : Digits} {expr : String} {spec : CronSpec} {cursor left minute after : ℕ}

theorem searchFrom_of_match (here : spec.MatchesAt cursor) :
    searchFrom spec cursor (left + 1) = .ok cursor := by
  rw [searchFrom, if_pos here]

theorem searchFrom_of_not_match (inside : cursor + 1 < maxMinutes) (away : ¬ spec.MatchesAt cursor) :
    searchFrom spec cursor (left + 1) = searchFrom spec (cursor + 1) left := by
  rw [searchFrom, if_neg away, if_neg (by omega)]

theorem searchFrom_eq_ok (inside : cursor + left ≤ maxMinutes) :
    searchFrom spec cursor left = .ok minute ↔
      cursor ≤ minute ∧ minute < cursor + left ∧ spec.MatchesAt minute ∧
        ∀ m, cursor ≤ m → m < minute → ¬ spec.MatchesAt m := by
  induction left generalizing cursor with
  | zero =>
    simp only [searchFrom, reduceCtorEq, false_iff]
    rintro ⟨above, below, -⟩
    omega
  | succ left ih =>
    by_cases here : spec.MatchesAt cursor
    · rw [searchFrom_of_match here, Except.ok.injEq]
      constructor
      · rintro rfl
        exact ⟨le_rfl, by omega, here, fun m _ _ => by omega⟩
      · rintro ⟨above, -, -, first⟩
        by_contra later
        exact first cursor le_rfl (by omega) here
    have elsewhere : spec.MatchesAt minute → cursor ≠ minute := by
      rintro found rfl
      exact here found
    by_cases last : cursor + 1 < maxMinutes
    · rw [searchFrom_of_not_match last here, ih (by omega)]
      constructor
      · rintro ⟨above, below, found, first⟩
        refine ⟨by omega, by omega, found, fun m low high => ?_⟩
        rcases Nat.eq_or_lt_of_le low with rfl | later
        · exact here
        · exact first m later high
      · rintro ⟨above, below, found, first⟩
        have other := elsewhere found
        exact ⟨by omega, by omega, found, fun m low high => first m (by omega) high⟩
    · -- the window ends with the last datetime, which does not match
      rw [searchFrom, if_neg here, if_pos (by omega)]
      simp only [reduceCtorEq, false_iff]
      rintro ⟨above, below, found, -⟩
      have other := elsewhere found
      omega

theorem searchFrom_of_none (inside : cursor + left < maxMinutes)
    (none_ : ∀ m, cursor ≤ m → m < cursor + left → ¬ spec.MatchesAt m) :
    searchFrom spec cursor left = .error (.cronExpression notFound) := by
  induction left generalizing cursor with
  | zero => rfl
  | succ left ih =>
    rw [searchFrom_of_not_match (by omega) (none_ cursor le_rfl (by omega))]
    exact ih (by omega) fun m low high => none_ m (by omega) (by omega)

theorem normalizeWeekday_eq {v w : ℕ} (bound : v ≤ 7) (week : w < 7) :
    normalizeWeekday v = w ↔ v % 7 = (w + 1) % 7 := by
  unfold normalizeWeekday
  split <;> omega

theorem Denotes.le_maxValue {field : Field} {raw : List Char} {v : ℕ} (denotes : Denotes D field raw v) :
    v ≤ field.maxValue := by
  obtain ⟨part, -, a, b, step, item, -, below, -⟩ := denotes
  have := item.high
  omega

theorem matchesAt_iff (parsed : parseCronExpr D expr = .ok spec) :
    spec.MatchesAt minute ↔ Fires D expr minute := by
  unfold parseCronExpr at parsed
  split at parsed
  · rename_i minuteRaw hourRaw dayRaw monthRaw weekdayRaw split_
    cases weekdays : parseField D .weekday weekdayRaw with
    | error => simp [weekdays, bind, Except.bind] at parsed
    | ok weekdays' =>
    cases minutes : parseField D .minute minuteRaw with
    | error => simp [weekdays, minutes, bind, Except.bind] at parsed
    | ok minutes' =>
    cases hours : parseField D .hour hourRaw with
    | error => simp [weekdays, minutes, hours, bind, Except.bind] at parsed
    | ok hours' =>
    cases days : parseField D .day dayRaw with
    | error => simp [weekdays, minutes, hours, days, bind, Except.bind] at parsed
    | ok days' =>
    cases months : parseField D .month monthRaw with
    | error => simp [weekdays, minutes, hours, days, months, bind, Except.bind] at parsed
    | ok months' =>
    simp only [weekdays, minutes, hours, days, months, bind, Except.bind, Except.ok.injEq] at parsed
    subst parsed
    have weekday : minute / 1440 % 7 ∈ weekdays'.map normalizeWeekday ↔
        ∃ v, Denotes D .weekday weekdayRaw v ∧ v % 7 = (minute / 1440 + 1) % 7 := by
      rw [List.mem_map]
      refine exists_congr fun v => ?_
      rw [mem_parseField weekdays]
      refine and_congr_right fun denotes => ?_
      rw [normalizeWeekday_eq denotes.le_maxValue (by omega)]
      omega
    simp only [CronSpec.MatchesAt, Fires, mem_parseField minutes, mem_parseField hours,
      mem_parseField days, mem_parseField months, weekday, split_]
    constructor
    · rintro ⟨one, two, three, four, five⟩
      exact ⟨_, _, _, _, _, rfl, one, two, three, four, five⟩
    · rintro ⟨_, _, _, _, _, same, one, two, three, four, five⟩
      simp only [List.cons.injEq, and_true] at same
      obtain ⟨rfl, rfl, rfl, rfl, rfl⟩ := same
      exact ⟨one, two, three, four, five⟩
  · cases parsed

theorem nextRunAfter_of_parsed (parsed : parseCronExpr D expr = .ok spec)
    (inside : horizon after < maxMinutes) :
    nextRunAfter D expr after = searchFrom spec (after + 1) (366 * 1440 + 1) := by
  simp only [nextRunAfter, parsed]
  rw [if_neg (by omega)]

theorem exists_parsed (accepted : (validateCronExpr D expr).1 = true) :
    ∃ spec, parseCronExpr D expr = .ok spec := by
  unfold validateCronExpr at accepted
  split at accepted
  · rename_i spec parsed
    exact ⟨spec, parsed⟩
  · cases accepted

/-- The next run is the first minute after the time at which the expression fires, if it is in the
window. -/
theorem nextRunAfter_eq_ok_iff (parsed : parseCronExpr D expr = .ok spec)
    (inside : horizon after < maxMinutes) :
    nextRunAfter D expr after = .ok minute ↔
      IsLeast {m | after < m ∧ Fires D expr m} minute ∧ minute ≤ horizon after := by
  have reach : after + 1 + (366 * 1440 + 1) = horizon after + 1 := rfl
  rw [nextRunAfter_of_parsed parsed inside, searchFrom_eq_ok (by omega), reach]
  simp only [matchesAt_iff parsed]
  constructor
  · rintro ⟨above, below, found, first⟩
    refine ⟨⟨⟨above, found⟩, ?_⟩, by omega⟩
    rintro m ⟨later, fires⟩
    by_contra early
    exact first m later (by omega) fires
  · rintro ⟨⟨⟨above, found⟩, least⟩, below⟩
    refine ⟨above, by omega, found, fun m later early fires => ?_⟩
    have := least ⟨later, fires⟩
    omega

theorem nextRunAfter_of_none (parsed : parseCronExpr D expr = .ok spec)
    (inside : horizon after + 1 < maxMinutes)
    (none_ : ∀ m, after < m → m ≤ horizon after → ¬ Fires D expr m) :
    nextRunAfter D expr after = .error (.cronExpression notFound) := by
  have reach : after + 1 + (366 * 1440 + 1) = horizon after + 1 := rfl
  rw [nextRunAfter_of_parsed parsed (by omega)]
  refine searchFrom_of_none (by omega) fun m low high fires => ?_
  exact none_ m low (by omega) ((matchesAt_iff parsed).mp fires)

/-- What the expressions and the window of `monitor_cron` promise, for times whose window ends
before the datetimes do. -/
theorem cron_within_window (accepted : (validateCronExpr D expr).1 = true)
    (inside : horizon after < maxMinutes) :
    (∀ minute, nextRunAfter D expr after = .ok minute ↔
      IsLeast {m | after < m ∧ Fires D expr m} minute ∧ minute ≤ horizon after) ∧
    (horizon after + 1 < maxMinutes → (∀ m, after < m → m ≤ horizon after → ¬ Fires D expr m) →
      nextRunAfter D expr after = .error (.cronExpression notFound)) ∧
    ∀ field raw, ((∃ values, parseField D field raw = .ok values) ↔ FieldSpelled D field raw) ∧
      ∀ values, parseField D field raw = .ok values → ∀ v, v ∈ values ↔ Denotes D field raw v := by
  obtain ⟨spec, parsed⟩ := exists_parsed accepted
  refine ⟨fun minute => nextRunAfter_eq_ok_iff parsed inside, ?_, fun field raw => ⟨?_, ?_⟩⟩
  · exact fun before none_ => nextRunAfter_of_none parsed before none_
  · exact parseField_isOk_iff
  · exact fun values read v => mem_parseField read

end Search

section Epoch
variable {spec : CronSpec} {minute cursor left : ℕ}

def epoch : ℕ := 719162 * 1440

theorem matches_iff_matchesAt : spec.Matches minute ↔ spec.MatchesAt (minute + epoch) := by
  have days : (minute + epoch) / 1440 = minute / 1440 + 719162 := by
    unfold epoch
    omega
  have same : civil (minute / 1440) = dayAndMonth (minute / 1440 + 719162) := rfl
  have minutes : (minute + epoch) % 60 = minute % 60 := by
    unfold epoch
    omega
  have hours : (minute + epoch) / 60 % 24 = minute / 60 % 24 := by
    unfold epoch
    omega
  have weekday : (minute / 1440 + 719162) % 7 = (minute / 1440 + 3) % 7 := by omega
  simp only [CronSpec.Matches, CronSpec.MatchesAt, days, same, minutes, hours, weekday]

/-- The schedule of the tasks, which counts from the epoch, is this search before the last
datetime. -/
theorem search_eq (inside : cursor + epoch + left < maxMinutes) :
    searchFrom spec (cursor + epoch) left =
      match spec.search cursor left with
      | some minute => .ok (minute + epoch)
      | none => .error (.cronExpression notFound) := by
  induction left generalizing cursor with
  | zero => rfl
  | succ left ih =>
    rw [CronSpec.search]
    by_cases here : spec.Matches cursor
    · rw [if_pos here, searchFrom_of_match (matches_iff_matchesAt.mp here)]
    · have away : ¬ spec.MatchesAt (cursor + epoch) := fun found =>
        here (matches_iff_matchesAt.mpr found)
      rw [if_neg here, searchFrom_of_not_match (by omega) away, add_right_comm]
      exact ih (by omega)

end Epoch

section Runs

/-- Every minute, from the first one on. -/
theorem next_minute :
    nextRunAfter asciiDigits "* * * * *" 0 = .ok 1 ↔
      IsLeast {m | 0 < m ∧ Fires asciiDigits "* * * * *" m} 1 ∧ 1 ≤ horizon 0 :=
  (cron_within_window (by decide +kernel) (by decide)).1 1

def leapDays : CronSpec := ⟨[0], [0], [29], [2], [6, 0, 1, 2, 3, 4, 5, 6]⟩

theorem leapDays_parsed : parseCronExpr asciiDigits "0 0 29 2 *" = .ok leapDays := by decide +kernel

/-- After the leap day of 2024 the next one is in 2028, and no run is found. -/
theorem leap_day_not_found :
    (validateCronExpr asciiDigits "0 0 29 2 *").1 = true ∧
      Fires asciiDigits "0 0 29 2 *" (740405 * 1440) ∧
      nextRunAfter asciiDigits "0 0 29 2 *" (738944 * 1440) = .error (.cronExpression notFound) := by
  have none_in_window : ∀ k < 367, dayAndMonth (738944 + (k + 1)) ≠ (29, 2) := by decide +kernel
  refine ⟨by simp only [validateCronExpr, leapDays_parsed],
    (matchesAt_iff leapDays_parsed).mp (by decide +kernel),
    nextRunAfter_of_none leapDays_parsed (by decide) fun m later early fires => ?_⟩
  obtain ⟨minute, hour, day, month, -⟩ := (matchesAt_iff leapDays_parsed).mpr fires
  rw [leapDays, List.mem_singleton] at minute hour day month
  refine none_in_window (m / 1440 - 738944 - 1) ?_ ?_
  · simp only [horizon] at early
    omega
  · rw [show 738944 + (m / 1440 - 738944 - 1 + 1) = m / 1440 by omega]
    exact Prod.ext day month

end Runs

end Cron
end Deeting.Monitor
