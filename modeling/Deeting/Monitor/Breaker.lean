import Deeting.Monitor.Tasks
import Deeting.Transition

/-! The circuit breaker of a monitor task: `reasoning_task` with its retries, the counter of
`_execute_reasoning_flow`, and `resume_task`. -/
namespace Deeting.Monitor
open Transition

def maxErrorCount : ℕ := 3

/-- `RETRY_MAX`: a task that raises is run again so many times. -/
def retryMax : ℕ := 3

inductive Reached where
  | orchestrator
  | reset
  | rescheduled
  deriving DecidableEq

/-- What an attempt meets. In `lost` nothing is committed: no model is found, or the database
fails. -/
inductive Attempt where
  | lost
  | raised (reached : Reached)
  | unsuccessful
  | succeeded
  deriving DecidableEq

inductive AttemptResult where
  | skipped
  | raised
  | unsuccessful
  | succeeded
  deriving DecidableEq

namespace MonitorTask

def countFailure (task : MonitorTask) (triggeredAt : ℕ) : MonitorTask :=
  { task with
    errorCount := task.errorCount + 1
    lastExecutedAt := some triggeredAt
    status := if maxErrorCount < task.errorCount + 1 then .failedSuspended else task.status }

/-- What the branch of success has assigned when an attempt raises. -/
def reach (task : MonitorTask) (now : ℕ) : Reached → MonitorTask
  | .orchestrator => task
  | .reset => { task with errorCount := 0 }
  | .rescheduled => { task.reschedule now with errorCount := 0 }

end MonitorTask

def executeReasoningFlow (now : ℕ) (task : MonitorTask) (attempt : Attempt) :
    AttemptResult × MonitorTask :=
  if ¬ task.Live then (.skipped, task)
  else match attempt with
    | .lost => (.raised, task)
    | .raised reached => (.raised, (task.reach now reached).countFailure now)
    | .unsuccessful => (.unsuccessful, task.countFailure now)
    | .succeeded => (.succeeded, { task.reschedule now with errorCount := 0, lastExecutedAt := some now })

/-- The runs of `reasoning_task` for one trigger, one for each attempt in turn as long as they
raise, and whether the last has succeeded. -/
def reasoningTask (now : ℕ) : MonitorTask → List Attempt → Bool × MonitorTask
  | task, [] => (false, task)
  | task, attempt :: rest =>
    match executeReasoningFlow now task attempt with
    | (.raised, task) => reasoningTask now task rest
    | (result, task) => (result = .succeeded, task)

/-- The task, and how many executions in a row have failed since its last success or resume. -/
structure Breaker where
  task : MonitorTask
  failures : ℕ := 0

inductive BreakerAction where
  | trigger (now : ℕ) (attempts : List Attempt)
  | resume

def breakerStep (w : Breaker) : BreakerAction → Option Breaker
  | .trigger now attempts =>
    if attempts.length = retryMax + 1 then
      if w.task.Live then
        let (succeeded, task) := reasoningTask now w.task attempts
        some ⟨task, if succeeded then 0 else w.failures + 1⟩
      else some w
    else none
  | .resume => some ⟨{ w.task with status := .active }, 0⟩

def Attempt.counts : Attempt → Bool
  | .raised _ | .unsuccessful => true
  | .lost | .succeeded => false

def Attempt.resets : Attempt → Bool
  | .raised reached => reached ≠ .orchestrator
  | _ => false

def raisedCount (errors : ℕ) (reached : Reached) : ℕ :=
  (if reached = .orchestrator then errors else 0) + 1

def made : ℕ → List Attempt → List Attempt
  | _, [] => []
  | errors, .raised reached :: rest =>
    .raised reached :: if maxErrorCount < raisedCount errors reached then []
      else made (raisedCount errors reached) rest
  | errors, .lost :: rest => .lost :: made errors rest
  | _, .unsuccessful :: _ => [.unsuccessful]
  | _, .succeeded :: _ => [.succeeded]

namespace Breaker

/-- What is asked of every state: the counter is the number of failures in a row, and the task is
suspended when these are too many. -/
structure Correct (w : Breaker) : Prop where
  counted : w.task.errorCount = w.failures
  suspended : w.task.status = .failedSuspended ↔ maxErrorCount < w.failures

/-- A trigger of a live task comes to a success, or one of its attempts counts, and adds to the
counter; and a task is resumed with the counter at zero. -/
def Meets (w : Breaker) : BreakerAction → Prop
  | .trigger _ attempts => w.task.Live →
    let attempts := made w.task.errorCount attempts
    .succeeded ∈ attempts ∨ attempts.countP Attempt.counts = 1 ∧
      (w.task.errorCount = 0 ∨ ∀ a ∈ attempts, a.resets = false)
  | .resume => w.task.errorCount = 0

instance (w : Breaker) : (a : BreakerAction) → Decidable (w.Meets a)
  | .trigger _ attempts => inferInstanceAs (Decidable (w.task.Live →
      .succeeded ∈ made w.task.errorCount attempts ∨
        (made w.task.errorCount attempts).countP Attempt.counts = 1 ∧ (w.task.errorCount = 0 ∨
          ∀ a ∈ made w.task.errorCount attempts, a.resets = false)))
  | .resume => inferInstanceAs (Decidable (w.task.errorCount = 0))

end Breaker

section Attempts

variable {now : ℕ} {task : MonitorTask} {reached : Reached} {rest attempts : List Attempt}

attribute [local simp] executeReasoningFlow reasoningTask

theorem countFailure_reach (now : ℕ) (reached : Reached) (live : task.Live) :
    ((task.reach now reached).countFailure now).errorCount = raisedCount task.errorCount reached ∧
    ((task.reach now reached).countFailure now).isActive = true ∧
    ((task.reach now reached).countFailure now).status =
      if maxErrorCount < raisedCount task.errorCount reached then .failedSuspended
      else .active := by
  cases reached <;> exact ⟨rfl, live.1, by rw [← live.2]; rfl⟩

theorem reasoningTask_skipped (still : ¬ task.Live) :
    reasoningTask now task attempts = (false, task) := by
  cases attempts with
  | nil => rfl
  | cons attempt rest => simp [reasoningTask, executeReasoningFlow, if_pos still]

theorem reasoningTask_lost (live : task.Live) :
    reasoningTask now task (.lost :: rest) = reasoningTask now task rest := by
  rw [reasoningTask, executeReasoningFlow, if_neg (not_not.mpr live)]

theorem reasoningTask_raised (live : task.Live) :
    reasoningTask now task (.raised reached :: rest) =
      reasoningTask now ((task.reach now reached).countFailure now) rest := by
  rw [reasoningTask, executeReasoningFlow, if_neg (not_not.mpr live)]

theorem reasoningTask_unsuccessful (live : task.Live) :
    reasoningTask now task (.unsuccessful :: rest) = (false, task.countFailure now) := by
  rw [reasoningTask, executeReasoningFlow, if_neg (not_not.mpr live)]
  rfl

theorem reasoningTask_succeeded (live : task.Live) :
    reasoningTask now task (.succeeded :: rest) =
      (true, { task.reschedule now with errorCount := 0, lastExecutedAt := some now }) := by
  rw [reasoningTask, executeReasoningFlow, if_neg (not_not.mpr live)]
  rfl

theorem live_of_raised (live : task.Live)
    (below : ¬ maxErrorCount < raisedCount task.errorCount reached) :
    ((task.reach now reached).countFailure now).Live := by
  obtain ⟨-, active, status⟩ := countFailure_reach now reached live
  rw [if_neg below] at status
  exact ⟨active, status⟩

theorem reasoningTask_of_succeeded (now : ℕ) (live : task.Live)
    (among : .succeeded ∈ made task.errorCount attempts) :
    ∃ after : MonitorTask, reasoningTask now task attempts = (true, after) ∧
      after.errorCount = 0 ∧ after.Live := by
  induction attempts generalizing task with
  | nil => cases among
  | cons attempt rest ih =>
    cases attempt with
    | lost =>
      rw [reasoningTask_lost live]
      refine ih live ?_
      simpa [made] using among
    | raised reached =>
      obtain ⟨count, -, -⟩ := countFailure_reach now reached live
      by_cases over_ : maxErrorCount < raisedCount task.errorCount reached
      · simp [made, over_] at among
      · rw [reasoningTask_raised live]
        refine ih (live_of_raised live over_) ?_
        rw [count]
        simpa [made, over_] using among
    | unsuccessful => simp [made] at among
    | succeeded =>
      exact ⟨{ task.reschedule now with errorCount := 0, lastExecutedAt := some now },
        reasoningTask_succeeded live, rfl, live⟩

theorem reasoningTask_of_uncounted (live : task.Live)
    (without : .succeeded ∉ made task.errorCount attempts)
    (uncounted : (made task.errorCount attempts).countP Attempt.counts = 0) :
    reasoningTask now task attempts = (false, task) := by
  induction attempts with
  | nil => rfl
  | cons attempt rest ih =>
    cases attempt with
    | lost =>
      rw [reasoningTask_lost live]
      apply ih
      · simpa [made] using without
      · simpa [made, Attempt.counts] using uncounted
    | raised reached => simp [made, Attempt.counts] at uncounted
    | unsuccessful => simp [made, Attempt.counts] at uncounted
    | succeeded => simp [made] at without

theorem raisedCount_of_no_reset
    (kept : task.errorCount = 0 ∨ (Attempt.raised reached).resets = false) :
    raisedCount task.errorCount reached = task.errorCount + 1 := by
  rw [raisedCount]
  split
  · rfl
  · rename_i later
    obtain fresh | kept := kept
    · rw [fresh]
    · simp [Attempt.resets, later] at kept

theorem reasoningTask_of_counted (now : ℕ) (live : task.Live)
    (without : .succeeded ∉ made task.errorCount attempts)
    (once : (made task.errorCount attempts).countP Attempt.counts = 1)
    (kept : task.errorCount = 0 ∨ ∀ a ∈ made task.errorCount attempts, a.resets = false) :
    ∃ after : MonitorTask, reasoningTask now task attempts = (false, after) ∧
      after.errorCount = task.errorCount + 1 ∧
      after.status = if maxErrorCount < task.errorCount + 1 then .failedSuspended else .active := by
  induction attempts with
  | nil => cases once
  | cons attempt rest ih =>
    cases attempt with
    | lost =>
      rw [reasoningTask_lost live]
      apply ih
      · simpa [made] using without
      · simpa [made, Attempt.counts] using once
      · simpa [made, Attempt.resets] using kept
    | raised reached =>
      obtain ⟨count, -, status⟩ := countFailure_reach now reached live
      have one := raisedCount_of_no_reset (kept.imp_right fun none_ => none_ _ List.mem_cons_self)
      rw [one] at count status
      refine ⟨(task.reach now reached).countFailure now, ?_, count, status⟩
      rw [reasoningTask_raised live]
      by_cases over_ : maxErrorCount < task.errorCount + 1
      · apply reasoningTask_skipped
        rw [MonitorTask.Live, status, if_pos over_]
        exact fun live => by cases live.2
      · apply reasoningTask_of_uncounted (live_of_raised live (one ▸ over_))
        · simpa [made, one, over_, count] using without
        · rw [made, one, if_neg over_, List.countP_cons_of_pos rfl] at once
          rw [count]
          omega
    | unsuccessful =>
      refine ⟨task.countFailure now, reasoningTask_unsuccessful live, rfl, ?_⟩
      rw [← live.2]
      rfl
    | succeeded => simp [made] at without

end Attempts

section Runs

variable {w w' : Breaker} {a : BreakerAction} {task : MonitorTask} {actions : List BreakerAction}

theorem breakerStep_correct (correct : w.Correct) (meets : w.Meets a)
    (taken : breakerStep w a = some w') : w'.Correct := by
  cases a with
  | trigger now attempts =>
    rw [breakerStep] at taken
    split at taken
    · split at taken
      · rename_i live
        by_cases among : .succeeded ∈ made w.task.errorCount attempts
        · obtain ⟨after, ran, fresh, lives⟩ := reasoningTask_of_succeeded now live among
          rw [ran] at taken
          cases taken
          exact ⟨fresh, by simp [lives.2]⟩
        · obtain ⟨once, kept⟩ := (meets live).resolve_left among
          obtain ⟨after, ran, count, status⟩ :=
            reasoningTask_of_counted now live among once kept
          rw [correct.counted] at count status
          rw [ran] at taken
          cases taken
          exact ⟨count, by simp [status]⟩
      · cases taken
        exact correct
    · cases taken
  | resume =>
    cases taken
    exact ⟨meets, by simp⟩

/-- The task is suspended exactly when more executions in a row have failed than the maximum, as
long as each failing trigger counts once and resumes find the counter at zero. -/
theorem breaks_when_counted (active : task.status = .active) (fresh : task.errorCount = 0)
    (admitted : Along breakerStep Breaker.Meets ⟨task, 0⟩ actions)
    (reached : run breakerStep ⟨task, 0⟩ actions = some w) : w.Correct :=
  run_invariant breakerStep_correct ⟨fresh, by simp [active]⟩ admitted reached

/-- A cloud task that runs every minute, with no failure yet. -/
def minutely : MonitorTask where
  id := "watch"
  userId := "owner"
  title := "Releases"
  status := .active
  isActive := true
  target := .cloud
  cron := none
  currentIntervalMinutes := 1
  nextRunAt := some 60
  errorCount := 0
  lastExecutedAt := none

theorem breaks_when_counted_fourth :
    let failing := BreakerAction.trigger 60 [.unsuccessful, .lost, .lost, .lost]
    let raising := BreakerAction.trigger 60 [.lost, .raised .orchestrator, .lost, .lost]
    ∃ w : Breaker,
      run breakerStep ⟨minutely, 0⟩ [failing, raising, failing, raising] = some w ∧ w.Correct ∧
        w.task.status = .failedSuspended := by
  intro failing raising
  have admitted : Along breakerStep Breaker.Meets ⟨minutely, 0⟩
      [failing, raising, failing, raising] := by decide
  have reached : run breakerStep ⟨minutely, 0⟩ [failing, raising, failing, raising] =
      some ⟨{ minutely with
        status := .failedSuspended
        errorCount := 4
        lastExecutedAt := some 60 }, 4⟩ := rfl
  exact ⟨_, reached, breaks_when_counted rfl rfl admitted reached, rfl⟩

/-- A trigger that raises each time is counted four times and suspends the task at once, and the
task that is resumed is suspended again by its next failure. -/
theorem breaks_early :
    let raises := BreakerAction.trigger 60 (List.replicate 4 (.raised .orchestrator))
    let fails := BreakerAction.trigger 120 [.unsuccessful, .lost, .lost, .lost]
    ∃ w w' : Breaker, run breakerStep ⟨minutely, 0⟩ [raises] = some w ∧
      run breakerStep w [.resume, fails] = some w' ∧
      w.task.status = .failedSuspended ∧ w.failures = 1 ∧
      w'.task.status = .failedSuspended ∧ w'.failures = 1 := by
  refine ⟨⟨{ minutely with
    status := .failedSuspended
    errorCount := 4
    lastExecutedAt := some 60 }, 1⟩, ⟨{ minutely with
    status := .failedSuspended
    errorCount := 5
    lastExecutedAt := some 120 }, 1⟩, ?_⟩
  exact ⟨rfl, rfl, rfl, rfl, rfl, rfl⟩

end Runs

end Deeting.Monitor
