import Deeting.Table
import Mathlib.Algebra.Order.Group.Nat
import Mathlib.Data.List.Basic

/-! Monitor tasks and when they run next: `next_run_after` over a parsed cron expression, the two
copies of `_compute_next_run`, and the execution targets of `monitor_dispatch`. Times are whole
seconds since the epoch, in UTC. -/
namespace Deeting.Monitor

inductive MonitorStatus where
  | active
  | paused
  | failedSuspended
  deriving DecidableEq

/-- What `notify_config` says under `execution_target`, stripped and in lower case. -/
inductive ExecutionTarget where
  | cloud
  | desktop
  | desktopPreferred
  | other
  deriving DecidableEq

/-- `is_cloud_scheduled_target` of the normalised target: all but `cloud` is for the desktop. -/
def ExecutionTarget.isCloud : ExecutionTarget → Bool
  | .cloud => true
  | .desktop | .desktopPreferred | .other => false

structure CronSpec where
  minutes : List ℕ
  hours : List ℕ
  days : List ℕ
  months : List ℕ
  weekdays : List ℕ
  deriving DecidableEq

def civil (days : ℕ) : ℕ × ℕ :=
  let shifted := days + 719468
  let dayOfEra := shifted % 146097
  let yearOfEra := (dayOfEra - dayOfEra / 1460 + dayOfEra / 36524 - dayOfEra / 146096) / 365
  let dayOfYear := dayOfEra - (365 * yearOfEra + yearOfEra / 4 - yearOfEra / 100)
  let month := (5 * dayOfYear + 2) / 153
  (dayOfYear - (153 * month + 2) / 5 + 1, if month < 10 then month + 3 else month - 9)

example : civil 0 = (1, 1) ∧ civil 20148 = (1, 3) ∧ civil 11016 = (29, 2) := by decide

namespace CronSpec

/-- `CronSpec.matches`, for a minute since the epoch; Mondays are 0. -/
def Matches (spec : CronSpec) (minute : ℕ) : Prop :=
  let days := minute / 1440
  minute % 60 ∈ spec.minutes ∧ minute / 60 % 24 ∈ spec.hours ∧ (civil days).1 ∈ spec.days ∧
    (civil days).2 ∈ spec.months ∧ (days + 3) % 7 ∈ spec.weekdays

instance (spec : CronSpec) (minute : ℕ) : Decidable (spec.Matches minute) :=
  inferInstanceAs (Decidable (_ ∧ _))

def search (spec : CronSpec) (cursor : ℕ) : ℕ → Option ℕ
  | 0 => none
  | left + 1 => if spec.Matches cursor then some cursor else spec.search (cursor + 1) left

/-- `next_run_after`, without a match within 366 days `none`. -/
def nextRunAfter (spec : CronSpec) (after : ℕ) : Option ℕ :=
  (spec.search (after / 60 + 1) (366 * 1440 + 1)).map (· * 60)

end CronSpec

structure MonitorTask where
  id : String
  userId : String
  title : String
  status : MonitorStatus
  isActive : Bool
  target : ExecutionTarget
  /-- The parsed `cron_expr`; `none` if it does not parse or is blank. -/
  cron : Option CronSpec
  currentIntervalMinutes : ℕ
  nextRunAt : Option ℕ
  errorCount : ℕ
  lastExecutedAt : Option ℕ
  deriving DecidableEq

abbrev Tasks := Table MonitorTask.id

/-- `_compute_next_run`: the time, and the interval in minutes. -/
def computeNextRun (task : MonitorTask) (now : ℕ) : ℕ × ℕ :=
  match task.cron.bind fun spec => spec.nextRunAfter now with
  | some next => (next, max 1 ((next - now) / 60))
  | none =>
    let interval := max 1 (if task.currentIntervalMinutes = 0 then 360
      else task.currentIntervalMinutes)
    (now + interval * 60, interval)

namespace MonitorTask

def Live (task : MonitorTask) : Prop := task.isActive = true ∧ task.status = .active

instance (task : MonitorTask) : Decidable task.Live := inferInstanceAs (Decidable (_ ∧ _))

def Due (now : ℕ) (task : MonitorTask) : Prop := ∀ t ∈ task.nextRunAt, t ≤ now

instance (now : ℕ) (task : MonitorTask) : Decidable (task.Due now) :=
  inferInstanceAs (Decidable (∀ t ∈ task.nextRunAt, t ≤ now))

def reschedule (task : MonitorTask) (now : ℕ) : MonitorTask :=
  { task with
    currentIntervalMinutes := (computeNextRun task now).2
    nextRunAt := some (computeNextRun task now).1 }

theorem reschedule_id (task : MonitorTask) (now : ℕ) : (task.reschedule now).id = task.id := rfl

end MonitorTask

section Next

variable {spec : CronSpec} {cursor left now next : ℕ}

theorem le_of_search (found : spec.search cursor left = some next) : cursor ≤ next := by
  induction left generalizing cursor with
  | zero => cases found
  | succ left ih =>
    rw [CronSpec.search] at found
    split at found
    · cases found
      exact Nat.le_refl _
    · have later := ih found
      omega

theorem lt_of_nextRunAfter (found : spec.nextRunAfter now = some next) : now < next := by
  obtain ⟨minute, searched, rfl⟩ := Option.map_eq_some_iff.mp found
  have later := le_of_search searched
  omega

theorem lt_computeNextRun (task : MonitorTask) (now : ℕ) : now < (computeNextRun task now).1 := by
  rw [computeNextRun]
  split
  · rename_i next found
    obtain ⟨spec, -, found⟩ := Option.bind_eq_some_iff.mp found
    exact lt_of_nextRunAfter found
  · dsimp only
    omega

end Next

end Deeting.Monitor
