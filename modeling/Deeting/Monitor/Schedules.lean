import Deeting.Monitor.Limits
import Deeting.Monitor.Service
import Deeting.Transition

/-! Monitor tasks over whole runs of the service, the scheduler and the schedule tasks that are
outstanding. A live task without a next run is one that nobody picks up again, unless an upsert
is still to come. -/
namespace Deeting.Monitor
open Transition

structure Schedules where
  tasks : Tasks := .empty
  schedule : SortedSet String := .empty
  outstanding : List Dispatch := []

inductive ScheduleAction where
  | create (user : String) (new : NewTask) (now : ℕ)
  | update (id user : String) (changes : Changes) (now : ℕ)
  | pause (id user : String)
  | resume (id user : String)
  | delete (id user : String)
  | request (id user : String) (now : ℕ)
  | pull (user : String) (limit : ℤ) (now : ℕ) (acquired : Bool)
  | report (id user : String) (status : ReportStatus) (now : ℕ)
  | tick (l : Limits) (now : ℕ) (weather : Weather)
  | bootstrap (now : ℕ) (faults : List Fault)
  | upsert (id : String) (now : ℕ) (fault : Fault)
  | remove (id : String) (fault : Fault)

def Schedules.wrote (w : Schedules) : Written → Schedules
  | .error _ => w
  | .ok (tasks, dispatched) =>
    { w with
      tasks
      outstanding := dispatched.toList ++ w.outstanding }

def schedulesStep (s : ServiceSettings) (w : Schedules) : ScheduleAction → Option Schedules
  | .create user new now => some (w.wrote (createTask s w.tasks user new now))
  | .update id user changes now => some (w.wrote (updateTask s w.tasks id user changes now))
  | .pause id user => some (w.wrote (pauseTask w.tasks id user))
  | .resume id user => some (w.wrote (resumeTask w.tasks id user))
  | .delete id user => some (w.wrote (deleteTask w.tasks id user))
  | .request id user now => some (w.wrote (requestLocalExecution w.tasks id user now))
  | .pull user limit now acquired =>
    some { w with tasks := (pullLocalTasks s w.tasks user limit now acquired).1 }
  | .report id user status now => some (w.wrote (reportLocalExecution s w.tasks id user status now))
  | .tick l now weather =>
    let r := scanAndTriggerTasks l now weather w.tasks w.schedule
    some { w with
      tasks := r.tasks
      schedule := r.schedule }
  | .bootstrap now faults =>
    let (tasks, schedule) := bootstrapSchedule now faults w.tasks w.schedule
    some { w with tasks, schedule }
  | .upsert id now fault =>
    if .upsert id ∈ w.outstanding then
      let (tasks, schedule) := upsertSchedule now fault id w.tasks w.schedule
      some ⟨tasks, schedule, w.outstanding.erase (.upsert id)⟩
    else none
  | .remove id fault =>
    if .remove id ∈ w.outstanding then
      let (tasks, schedule) := removeSchedule fault id w.tasks w.schedule
      some ⟨tasks, schedule, w.outstanding.erase (.remove id)⟩
    else none

def MonitorTask.Scheduled (outstanding : List Dispatch) (task : MonitorTask) : Prop :=
  task.Live → task.nextRunAt = none → .upsert task.id ∈ outstanding

namespace Schedules

def Scheduled (w : Schedules) : Prop := ∀ task ∈ w.tasks.rows, task.Scheduled w.outstanding

/-- A removal runs for a task that is not live, or before an upsert for it. A task without a next
run is made live for the cloud, or before an upsert for it. -/
def Meets (w : Schedules) : ScheduleAction → Prop
  | .remove id _ => ∀ task ∈ w.tasks.find? id, task.Live → .upsert id ∈ w.outstanding
  | .resume id user => ∀ task ∈ w.tasks.find? id, task.userId = user → task.isActive = true →
    task.nextRunAt = none → task.target.isCloud = true ∨ .upsert id ∈ w.outstanding
  | .update id user changes _ => ∀ task ∈ w.tasks.find? id, task.userId = user →
    task.isActive = true → changes.newStatus task = .ok .active → task.nextRunAt = none →
      (changes.newTarget task).isCloud = true ∨ .upsert id ∈ w.outstanding
  | _ => True

end Schedules

section Operations

variable {s : ServiceSettings} {tasks tasks' : Tasks} {id user : String} {task : MonitorTask}
  {outstanding : List Dispatch} {dispatched : Option Dispatch} {now : ℕ}

theorem MonitorTask.Scheduled.mono (scheduled : task.Scheduled outstanding)
    (dispatched : Option Dispatch) : task.Scheduled (dispatched.toList ++ outstanding) :=
  fun live none_ => List.mem_append_right _ (scheduled live none_)

theorem scheduled_of_some {t : ℕ} (next : task.nextRunAt = some t) : task.Scheduled outstanding := by
  intro _ none_
  rw [next] at none_
  cases none_

theorem found_of_ownTask (owned : ownTask tasks id user = .ok task) :
    tasks.find? id = some task ∧ task.userId = user := by
  rw [ownTask] at owned
  split at owned
  · cases owned
  · rename_i row found
    split at owned
    · cases owned
    · rename_i mine
      cases owned
      exact ⟨found, not_not.mp mine⟩

theorem bind_eq_ok {α β : Type} {x : Except MonitorError α} {f : α → Except MonitorError β} {b : β}
    (ran : (x >>= f) = .ok b) : ∃ a, x = .ok a ∧ f a = .ok b := by
  cases x with
  | error e => cases ran
  | ok a => exact ⟨a, rfl, ran⟩

/-- Rows of which one is rewritten, and given a next run or what it takes to do without. -/
theorem scheduled_modify {f : MonitorTask → MonitorTask} {keeps : ∀ row, (f row).id = row.id}
    (dispatched : Option Dispatch)
    (new : ∀ row, tasks.find? id = some row → row.Scheduled outstanding →
      (f row).Scheduled (dispatched.toList ++ outstanding))
    (old : ∀ row ∈ tasks.rows, row.Scheduled outstanding) :
    ∀ row ∈ (tasks.modify id f keeps).rows, row.Scheduled (dispatched.toList ++ outstanding) :=
  Table.forall_modify new (fun _ _ scheduled => scheduled.mono dispatched) old

theorem createTask_scheduled {new : NewTask}
    (old : ∀ row ∈ tasks.rows, row.Scheduled outstanding)
    (ran : createTask s tasks user new now = .ok (tasks', dispatched)) :
    ∀ row ∈ tasks'.rows, row.Scheduled (dispatched.toList ++ outstanding) := by
  rw [createTask] at ran
  obtain ⟨spec, -, ran⟩ := bind_eq_ok ran
  obtain ⟨-, -, ran⟩ := bind_eq_ok ran
  split at ran
  · cases ran
  · obtain ⟨next, -, ran⟩ := bind_eq_ok ran
    split at ran
    · cases ran
    · split at ran
      · cases ran
      · rename_i inserted
        cases ran
        apply Table.forall_insert inserted (scheduled_of_some rfl)
        exact fun row mem => (old row mem).mono _

theorem updateTask_scheduled {changes : Changes}
    (old : ∀ row ∈ tasks.rows, row.Scheduled outstanding)
    (meets : ∀ task ∈ tasks.find? id, task.userId = user → task.isActive = true →
      changes.newStatus task = .ok .active → task.nextRunAt = none →
        (changes.newTarget task).isCloud = true ∨ .upsert id ∈ outstanding)
    (ran : updateTask s tasks id user changes now = .ok (tasks', dispatched)) :
    ∀ row ∈ tasks'.rows, row.Scheduled (dispatched.toList ++ outstanding) := by
  rw [updateTask] at ran
  obtain ⟨task, owned, ran⟩ := bind_eq_ok ran
  obtain ⟨cron, -, ran⟩ := bind_eq_ok ran
  obtain ⟨status, stated, ran⟩ := bind_eq_ok ran
  obtain ⟨-, -, ran⟩ := bind_eq_ok ran
  obtain ⟨found, mine⟩ := found_of_ownTask owned
  dsimp only at ran
  split at ran
  · cases ran
  · cases ran
    apply scheduled_modify _ _ old
    intro row here _ live none_
    obtain rfl := Option.some.inj (found.symm.trans here)
    obtain ⟨active, status⟩ := live
    dsimp only at status
    obtain rfl := Table.key_of_find? found
    obtain cloud | waiting := meets task found mine active (status ▸ stated) none_
    · rw [if_pos ⟨status, active⟩, Dispatch.ofTarget, if_pos cloud]
      exact List.mem_cons_self
    · exact List.mem_append_right _ waiting

theorem pauseTask_scheduled (old : ∀ row ∈ tasks.rows, row.Scheduled outstanding)
    (ran : pauseTask tasks id user = .ok (tasks', dispatched)) :
    ∀ row ∈ tasks'.rows, row.Scheduled (dispatched.toList ++ outstanding) := by
  rw [pauseTask] at ran
  obtain ⟨-, -, ran⟩ := bind_eq_ok ran
  cases ran
  exact scheduled_modify _ (fun row _ _ live => by cases live.2) old

theorem resumeTask_scheduled (old : ∀ row ∈ tasks.rows, row.Scheduled outstanding)
    (meets : ∀ task ∈ tasks.find? id, task.userId = user → task.isActive = true →
      task.nextRunAt = none → task.target.isCloud = true ∨ .upsert id ∈ outstanding)
    (ran : resumeTask tasks id user = .ok (tasks', dispatched)) :
    ∀ row ∈ tasks'.rows, row.Scheduled (dispatched.toList ++ outstanding) := by
  rw [resumeTask] at ran
  obtain ⟨task, owned, ran⟩ := bind_eq_ok ran
  obtain ⟨found, mine⟩ := found_of_ownTask owned
  cases ran
  apply scheduled_modify _ _ old
  intro row here _ live none_
  obtain rfl := Option.some.inj (found.symm.trans here)
  obtain rfl := Table.key_of_find? found
  obtain cloud | waiting := meets task found mine live.1 none_
  · rw [Dispatch.ofTarget, if_pos cloud]
    exact List.mem_cons_self
  · exact List.mem_append_right _ waiting

theorem deleteTask_scheduled (old : ∀ row ∈ tasks.rows, row.Scheduled outstanding)
    (ran : deleteTask tasks id user = .ok (tasks', dispatched)) :
    ∀ row ∈ tasks'.rows, row.Scheduled (dispatched.toList ++ outstanding) := by
  rw [deleteTask] at ran
  obtain ⟨-, -, ran⟩ := bind_eq_ok ran
  cases ran
  exact scheduled_modify _ (fun row _ _ live => by cases live.1) old

theorem requestLocalExecution_scheduled (old : ∀ row ∈ tasks.rows, row.Scheduled outstanding)
    (ran : requestLocalExecution tasks id user now = .ok (tasks', dispatched)) :
    ∀ row ∈ tasks'.rows, row.Scheduled (dispatched.toList ++ outstanding) := by
  rw [requestLocalExecution] at ran
  obtain ⟨task, -, ran⟩ := bind_eq_ok ran
  split at ran
  · cases ran
  · split at ran
    · cases ran
    · cases ran
      exact scheduled_modify none (fun row _ _ => scheduled_of_some rfl) old

theorem reportLocalExecution_scheduled {status : ReportStatus}
    (old : ∀ row ∈ tasks.rows, row.Scheduled outstanding)
    (ran : reportLocalExecution s tasks id user status now = .ok (tasks', dispatched)) :
    ∀ row ∈ tasks'.rows, row.Scheduled (dispatched.toList ++ outstanding) := by
  rw [reportLocalExecution] at ran
  obtain ⟨task, -, ran⟩ := bind_eq_ok ran
  split at ran
  · cases ran
  · split at ran
    · cases ran
    · cases ran
      refine scheduled_modify _ (fun row _ _ => ?_) old
      cases status <;> exact scheduled_of_some rfl

theorem lease_scheduled {end_ : ℕ} {items : List MonitorTask}
    (old : ∀ row ∈ tasks.rows, row.Scheduled outstanding) :
    ∀ row ∈ (lease end_ tasks items).rows, row.Scheduled outstanding := by
  induction items generalizing tasks with
  | nil => exact old
  | cons task rest ih =>
    apply ih
    exact scheduled_modify none (fun row _ _ => scheduled_of_some rfl) old

end Operations

section Ticks

variable {l : Limits} {now : ℕ} {p : Pass} {outstanding : List Dispatch} {tasks : Tasks}
  {schedule : SortedSet String} {task : MonitorTask} {id : String}

theorem dispatch_scheduled (delay : Fault) (old : ∀ row ∈ p.tasks.rows, row.Scheduled outstanding) :
    ∀ row ∈ (p.dispatch l now task delay).1.tasks.rows, row.Scheduled outstanding := by
  rw [Pass.dispatch]
  split
  · dsimp only
    exact scheduled_modify none (fun row _ _ => scheduled_of_some rfl) old
  · split
    · dsimp only
      exact scheduled_modify none (fun row _ _ => scheduled_of_some rfl) old
    · exact old

theorem visit_scheduled (l : Limits) (now : ℕ) (id : String) (delay : Fault)
    (old : ∀ row ∈ p.tasks.rows, row.Scheduled outstanding) :
    ∀ row ∈ (p.visit l now id delay).1.tasks.rows, row.Scheduled outstanding := by
  rw [Pass.visit]
  split
  · exact old
  · split
    · exact old
    · split
      · exact old
      · split
        · exact old
        · exact dispatch_scheduled delay old

theorem redisPass_scheduled (l : Limits) (now : ℕ) (delay : String → Fault) (ids : List String)
    (faults : List Fault) (old : ∀ row ∈ p.tasks.rows, row.Scheduled outstanding) :
    ∀ row ∈ (Pass.redisPass l now delay p ids faults).1.tasks.rows, row.Scheduled outstanding := by
  induction ids generalizing p faults with
  | nil => exact old
  | cons id rest ih =>
    have visited := visit_scheduled l now id (delay id) old
    rw [Pass.redisPass]
    split
    · rename_i q same
      rw [same] at visited
      exact ih _ visited
    · rename_i q same
      rw [same] at visited
      exact visited
    · rename_i q t same
      rw [same] at visited
      dsimp only
      split
      · exact ih _ visited
      · exact visited

theorem visitRow_scheduled (delay : Fault) (old : ∀ row ∈ p.tasks.rows, row.Scheduled outstanding) :
    ∀ row ∈ (p.visitRow l now id delay).1.tasks.rows, row.Scheduled outstanding := by
  rw [Pass.visitRow]
  split
  · exact old
  · split
    · exact old
    · exact dispatch_scheduled delay old

theorem rowPass_scheduled {delay : String → Fault} {ids : List String}
    (old : ∀ row ∈ p.tasks.rows, row.Scheduled outstanding) :
    ∀ row ∈ (Pass.rowPass l now delay p ids).1.tasks.rows, row.Scheduled outstanding := by
  induction ids generalizing p with
  | nil => exact old
  | cons id rest ih =>
    have visited := @visitRow_scheduled l now _ _ id (delay id) old
    rw [Pass.rowPass]
    split
    · rename_i q same
      rw [same] at visited
      exact ih visited
    · rename_i q same
      rw [same] at visited
      exact visited

/-- An exception leaves the rows as they were committed. -/
theorem fallback_scheduled {weather : Weather}
    (committed : ∀ row ∈ tasks.rows, row.Scheduled outstanding)
    (old : ∀ row ∈ p.tasks.rows, row.Scheduled outstanding) :
    ∀ row ∈ (fallback l now weather tasks p).tasks.rows, row.Scheduled outstanding := by
  dsimp only [fallback]
  split
  · exact committed
  · exact rowPass_scheduled (p := { tasks := p.tasks, schedule := p.schedule }) old

theorem scanAndTriggerTasks_scheduled {weather : Weather}
    (old : ∀ row ∈ tasks.rows, row.Scheduled outstanding) :
    ∀ row ∈ (scanAndTriggerTasks l now weather tasks schedule).tasks.rows,
      row.Scheduled outstanding := by
  rw [scanAndTriggerTasks]
  split
  · exact fallback_scheduled old (p := { tasks, schedule }) old
  · rw [redisPart]
    cases popped : popDueTaskIds schedule now weather.pop with
    | mk left ids =>
      cases ids with
      | none => exact fallback_scheduled old (p := { tasks, schedule := left }) old
      | some ids =>
        have passed := redisPass_scheduled (p := { tasks, schedule := left }) l now weather.delay ids
          weather.add old
        cases ran : Pass.redisPass l now weather.delay { tasks, schedule := left } ids weather.add with
        | mk p failed =>
          rw [ran] at passed
          simp only [Option.map_some, ran]
          cases failed with
          | false => exact passed
          | true => exact fallback_scheduled old passed

theorem bootstrapSchedule_scheduled (now : ℕ) (faults : List Fault) (schedule : SortedSet String)
    (old : ∀ row ∈ tasks.rows, row.Scheduled outstanding) :
    ∀ row ∈ (bootstrapSchedule now faults tasks schedule).1.rows, row.Scheduled outstanding := by
  intro row filled
  obtain ⟨before, mem, rfl⟩ := List.mem_map.mp filled
  rw [fillNextRun]
  split
  · exact scheduled_of_some rfl
  · exact old before mem

theorem upsertSchedule_scheduled {fault : Fault}
    (old : ∀ row ∈ tasks.rows, row.Scheduled outstanding) :
    ∀ row ∈ (upsertSchedule now fault id tasks schedule).1.rows,
      row.Scheduled (outstanding.erase (.upsert id)) := by
  have other (row : MonitorTask) (different : row.id ≠ id) (scheduled : row.Scheduled outstanding) :
      row.Scheduled (outstanding.erase (.upsert id)) := fun live none_ =>
    (List.mem_erase_of_ne fun same => different (Dispatch.upsert.inj same)).mpr
      (scheduled live none_)
  rw [upsertSchedule]
  split
  · rename_i missing
    intro row mem
    refine other row (fun same => ?_) (old row mem)
    rw [Table.find?_eq_none] at missing
    exact missing (List.mem_map.mpr ⟨row, mem, same⟩)
  · rename_i task found
    split
    · rename_i still
      dsimp only
      refine Table.forall_modify (fun row here _ live => ?_) other old
      obtain rfl := Option.some.inj (found.symm.trans here)
      exact absurd live still
    · dsimp only
      exact Table.forall_modify (fun row _ _ => scheduled_of_some rfl) other old

theorem removeSchedule_scheduled {fault : Fault}
    (old : ∀ row ∈ tasks.rows, row.Scheduled outstanding)
    (meets : ∀ task ∈ tasks.find? id, task.Live → .upsert id ∈ outstanding) :
    ∀ row ∈ (removeSchedule fault id tasks schedule).1.rows,
      row.Scheduled (outstanding.erase (.remove id)) := by
  have other (row : MonitorTask) (scheduled : row.Scheduled outstanding) :
      row.Scheduled (outstanding.erase (.remove id)) := fun live none_ =>
    (List.mem_erase_of_ne fun same => by cases same).mpr (scheduled live none_)
  rw [removeSchedule]
  split
  · exact fun row mem => other row (old row mem)
  · dsimp only
    refine Table.forall_modify (fun row here _ live _ => ?_) (fun row _ => other row) old
    obtain rfl := Table.key_of_find? here
    exact (List.mem_erase_of_ne fun same => by cases same).mpr (meets row here live)

end Ticks

section Runs

variable {s : ServiceSettings} {w w' : Schedules} {a : ScheduleAction}
  {actions : List ScheduleAction}

/-- What a request writes keeps the tasks scheduled; one that is refused writes nothing. -/
theorem wrote_scheduled {written : Written} (scheduled : w.Scheduled)
    (kept : ∀ tasks dispatched, written = .ok (tasks, dispatched) →
      ∀ row ∈ tasks.rows, row.Scheduled (dispatched.toList ++ w.outstanding)) :
    (w.wrote written).Scheduled := by
  cases written with
  | error e => exact scheduled
  | ok result => exact kept result.1 result.2 rfl

theorem schedulesStep_scheduled (scheduled : w.Scheduled) (meets : w.Meets a)
    (taken : schedulesStep s w a = some w') : w'.Scheduled := by
  cases a with
  | create user new now =>
    cases taken
    exact wrote_scheduled scheduled fun _ _ => createTask_scheduled scheduled
  | update id user changes now =>
    cases taken
    exact wrote_scheduled scheduled fun _ _ => updateTask_scheduled scheduled meets
  | pause id user =>
    cases taken
    exact wrote_scheduled scheduled fun _ _ => pauseTask_scheduled scheduled
  | resume id user =>
    cases taken
    exact wrote_scheduled scheduled fun _ _ => resumeTask_scheduled scheduled meets
  | delete id user =>
    cases taken
    exact wrote_scheduled scheduled fun _ _ => deleteTask_scheduled scheduled
  | request id user now =>
    cases taken
    exact wrote_scheduled scheduled fun _ _ => requestLocalExecution_scheduled scheduled
  | pull user limit now acquired =>
    cases taken
    rw [Schedules.Scheduled, pullLocalTasks]
    split
    · exact scheduled
    · exact lease_scheduled scheduled
  | report id user status now =>
    cases taken
    exact wrote_scheduled scheduled fun _ _ => reportLocalExecution_scheduled scheduled
  | tick l now weather =>
    cases taken
    exact scanAndTriggerTasks_scheduled scheduled
  | bootstrap now faults =>
    cases taken
    exact bootstrapSchedule_scheduled now faults w.schedule scheduled
  | upsert id now fault =>
    rw [schedulesStep] at taken
    split at taken
    · cases taken
      exact upsertSchedule_scheduled scheduled
    · cases taken
  | remove id fault =>
    rw [schedulesStep] at taken
    split at taken
    · cases taken
      exact removeSchedule_scheduled scheduled meets
    · cases taken

/-- Every live task has a next run once no schedule task is outstanding, and is found then: a
desktop task by the query of a pull, a cloud task in the schedule after a bootstrap. -/
theorem scheduled_when_met (admitted : Along (schedulesStep s) Schedules.Meets {} actions)
    (reached : run (schedulesStep s) {} actions = some w) (settled : w.outstanding = []) :
    ∀ task ∈ w.tasks.rows, task.Live → ∃ t, task.nextRunAt = some t ∧
      if task.target.isCloud then
        ∀ later, (t, task.id) ∈ (bootstrapSchedule later [] w.tasks w.schedule).2.entries
      else ∀ now, t ≤ now → Pullable task.userId now task := by
  have scheduled : w.Scheduled :=
    run_invariant schedulesStep_scheduled (fun _ mem => (List.not_mem_nil mem).elim) admitted
      reached
  intro task mem live
  cases next : task.nextRunAt with
  | none =>
    have waiting := scheduled task mem live next
    rw [settled] at waiting
    cases waiting
  | some t =>
    refine ⟨t, rfl, ?_⟩
    split
    · rename_i cloud
      intro later
      exact mem_bootstrapSchedule later _ (Table.find?_eq_some.mpr ⟨mem, rfl⟩) live cloud next
    · exact fun now passed => ⟨rfl, live, t, next, passed⟩

def fiveMinutely : CronSpec where
  minutes := [0, 5, 10, 15, 20, 25, 30, 35, 40, 45, 50, 55]
  hours := List.range 24
  days := List.range' 1 31
  months := List.range' 1 12
  weekdays := List.range 7

def watch (target : ExecutionTarget) : NewTask where
  id := "watch"
  title := "Releases"
  cron := .ok fiveMinutely
  target := target

def watched (target : ExecutionTarget) (next : Option ℕ) : MonitorTask where
  id := "watch"
  userId := "owner"
  title := "Releases"
  status := .active
  isActive := true
  target := target
  cron := some fiveMinutely
  currentIntervalMinutes := 5
  nextRunAt := next
  errorCount := 0
  lastExecutedAt := none

theorem scheduled_when_met_cloud : ∃ w : Schedules,
    run (schedulesStep {}) {} [.create "owner" (watch .cloud) 0, .upsert "watch" 0 .ok] = some w ∧
      watched .cloud (some 300) ∈ w.tasks.rows ∧ ∀ later,
        (300, "watch") ∈ (bootstrapSchedule later [] w.tasks w.schedule).2.entries := by
  have admitted : Along (schedulesStep {}) Schedules.Meets {}
      [.create "owner" (watch .cloud) 0, .upsert "watch" 0 .ok] :=
    ⟨trivial, fun _ _ => ⟨trivial, fun _ _ => trivial⟩⟩
  obtain ⟨w, reached, rows, settled⟩ : ∃ w : Schedules,
      run (schedulesStep {}) {} [.create "owner" (watch .cloud) 0, .upsert "watch" 0 .ok] =
        some w ∧ w.tasks.rows = [watched .cloud (some 300)] ∧ w.outstanding = [] := by
    refine ⟨_, rfl, ?_, ?_⟩
    · decide +kernel
    · decide +kernel
  have mem : watched .cloud (some 300) ∈ w.tasks.rows := rows ▸ List.mem_cons_self
  obtain ⟨t, next, indexed⟩ := scheduled_when_met admitted reached settled _ mem ⟨rfl, rfl⟩
  cases next
  exact ⟨w, reached, mem, indexed⟩

/-- A desktop task is created active and then loses its next run to its own schedule task. -/
theorem desktop_unscheduled : ∃ w : Schedules,
    run (schedulesStep {}) {} [.create "owner" (watch .desktop) 0, .remove "watch" .ok] = some w ∧
      w.outstanding = [] ∧ ∃ task ∈ w.tasks.rows, task.Live ∧ task.nextRunAt = none := by
  refine ⟨_, rfl, ?_, watched .desktop none, ?_, ⟨rfl, rfl⟩, rfl⟩
  · decide +kernel
  · decide +kernel

end Runs

end Deeting.Monitor
