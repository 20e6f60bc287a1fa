import Deeting.Monitor.Schedules

/-! The frequency limit of cloud tasks over sequences of `create_task` and `update_task`. The limit
is checked on one pair of runs, the two that follow the time of the call, and by an update only
where it gives an expression. -/
namespace Deeting.Monitor
open Transition

namespace CronSpec

structure Consecutive (spec : CronSpec) (first next : ℕ) : Prop where
  first_matches : spec.Matches first
  next_matches : spec.Matches next
  lt : first < next
  between : ∀ minute, first < minute → minute < next → ¬ spec.Matches minute

def Spaced (spec : CronSpec) (minutes : ℕ) : Prop :=
  ∀ first next, spec.Consecutive first next → first + minutes ≤ next

def Representative (spec : CronSpec) (minutes now : ℕ) : Prop :=
  ∀ first second, spec.nextRunAfter now = some first → spec.nextRunAfter first = some second →
    minutes ≤ (second - first) / 60 → spec.Spaced minutes

end CronSpec

/-- A task of the cloud has an expression that keeps to the limit. -/
def MonitorTask.Limited (s : ServiceSettings) (task : MonitorTask) : Prop :=
  task.target.isCloud = true → ∃ spec, task.cron = some spec ∧ spec.Spaced s.minCloudInterval

inductive TaskAction where
  | create (user : String) (new : NewTask) (now : ℕ)
  | update (id user : String) (changes : Changes) (now : ℕ)

def TaskAction.written (s : ServiceSettings) (tasks : Tasks) : TaskAction → Written
  | .create user new now => createTask s tasks user new now
  | .update id user changes now => updateTask s tasks id user changes now

def tasksStep (s : ServiceSettings) (tasks : Tasks) (a : TaskAction) : Option Tasks :=
  match a.written s tasks with
  | .error _ => some tasks
  | .ok (tasks, _) => some tasks

/-- A task that comes to the cloud with a given expression is checked on two runs that stand for
all; without one, the expression that it has keeps to the limit. -/
def TaskAction.Sampled (s : ServiceSettings) (tasks : Tasks) : TaskAction → Prop
  | .create _ new now => new.target.isCloud = true →
    ∀ spec, new.cron = .ok spec → spec.Representative s.minCloudInterval now
  | .update id _ changes now => ∀ task ∈ tasks.find? id, (changes.newTarget task).isCloud = true →
    match changes.cron with
    | some cron => ∀ spec, cron = .ok spec → spec.Representative s.minCloudInterval now
    | none => ∃ spec, task.cron = some spec ∧ spec.Spaced s.minCloudInterval

def WrittenSampled (s : ServiceSettings) (tasks : Tasks) (a : TaskAction) : Prop :=
  ∀ written, a.written s tasks = .ok written → a.Sampled s tasks

section Limit
variable {s : ServiceSettings} {tasks tasks' : Tasks} {id user : String} {new : NewTask}
  {changes : Changes} {now first : ℕ} {spec : CronSpec} {dispatched : Option Dispatch}

@[simp] theorem isCloud_normalized (target : ExecutionTarget) :
    target.normalized.isCloud = target.isCloud := by
  cases target <;> rfl

theorem le_nextRunAfter {second : ℕ} (one : spec.nextRunAfter now = some first)
    (two : spec.nextRunAfter first = some second) : first + 60 ≤ second := by
  obtain ⟨m, -, rfl⟩ := Option.map_eq_some_iff.mp one
  obtain ⟨n, searched, rfl⟩ := Option.map_eq_some_iff.mp two
  have later := le_of_search searched
  omega

theorem nextRun_eq_ok {next : ℕ} (ran : nextRun spec now = .ok next) :
    spec.nextRunAfter now = some next := by
  unfold nextRun at ran
  split at ran
  · rename_i found
    rw [found, Except.ok.inj ran]
  · cases ran

theorem sampled_of_checkInterval {target : ExecutionTarget} (cloud : target.isCloud = true)
    (passed : checkInterval s target spec now = .ok ()) :
    ∃ first second, spec.nextRunAfter now = some first ∧ spec.nextRunAfter first = some second ∧
      s.minCloudInterval ≤ (second - first) / 60 := by
  rw [checkInterval, if_neg (not_not.mpr cloud)] at passed
  obtain ⟨first, one, passed⟩ := bind_eq_ok passed
  obtain ⟨second, two, passed⟩ := bind_eq_ok passed
  dsimp only at passed
  split at passed
  · cases passed
  · rename_i long
    have apart := le_nextRunAfter (nextRun_eq_ok one) (nextRun_eq_ok two)
    exact ⟨first, second, nextRun_eq_ok one, nextRun_eq_ok two, by omega⟩

/-- After the check, the sample stands for all runs exactly if all keep to the limit. -/
theorem representative_iff {target : ExecutionTarget} (cloud : target.isCloud = true)
    (passed : checkInterval s target spec now = .ok ()) :
    spec.Representative s.minCloudInterval now ↔ spec.Spaced s.minCloudInterval := by
  obtain ⟨first, second, one, two, long⟩ := sampled_of_checkInterval cloud passed
  exact ⟨fun stands => stands first second one two long, fun spaced _ _ _ _ _ => spaced⟩

theorem parsed_eq_ok {cron : Except String CronSpec} (ran : parsed cron = .ok spec) :
    cron = .ok spec := by
  cases cron with
  | error => cases ran
  | ok found => exact congrArg Except.ok (Except.ok.inj ran)

theorem createTask_inserts (ran : createTask s tasks user new now = .ok (tasks', dispatched)) :
    ∃ spec next, new.cron = .ok spec ∧ checkInterval s new.target spec now = .ok () ∧
      tasks.insert? (new.row user spec now next) = some tasks' := by
  rw [createTask] at ran
  obtain ⟨spec, read, ran⟩ := bind_eq_ok ran
  obtain ⟨⟨⟩, passed, ran⟩ := bind_eq_ok ran
  split at ran
  · cases ran
  obtain ⟨next, -, ran⟩ := bind_eq_ok ran
  split at ran
  · cases ran
  split at ran
  · cases ran
  · rename_i inserted
    cases ran
    exact ⟨spec, next, parsed_eq_ok read, passed, inserted⟩

theorem updateTask_modifies (ran : updateTask s tasks id user changes now = .ok (tasks', dispatched)) :
    ∃ task title cron status, tasks.find? id = some task ∧ changes.newCron task = .ok cron ∧
      changes.checkCron s task cron now = .ok () ∧
      tasks' = tasks.modify id (fun row => { row with
        title := title
        cron := cron
        status := status
        target := changes.newTarget task }) fun _ => rfl := by
  rw [updateTask] at ran
  obtain ⟨task, owned, ran⟩ := bind_eq_ok ran
  obtain ⟨cron, read, ran⟩ := bind_eq_ok ran
  obtain ⟨status, -, ran⟩ := bind_eq_ok ran
  obtain ⟨⟨⟩, passed, ran⟩ := bind_eq_ok ran
  dsimp only at ran
  split at ran
  · cases ran
  · cases ran
    exact ⟨task, _, cron, status, (found_of_ownTask owned).1, read, passed, rfl⟩

theorem createTask_limited_iff (ran : createTask s tasks user new now = .ok (tasks', dispatched))
    (old : ∀ task ∈ tasks.rows, task.Limited s) :
    (∀ task ∈ tasks'.rows, task.Limited s) ↔
      (TaskAction.create user new now).Sampled s tasks := by
  obtain ⟨spec, next, read, passed, inserted⟩ := createTask_inserts ran
  obtain ⟨-, rows⟩ := Table.insert?_eq_some.mp inserted
  rw [rows, List.forall_mem_cons]
  constructor
  · rintro ⟨limited, -⟩ cloud other same
    obtain rfl := Except.ok.inj (read.symm.trans same)
    obtain ⟨kept, written, spaced⟩ := limited ((isCloud_normalized _).trans cloud)
    rw [representative_iff cloud passed, Option.some.inj written]
    exact spaced
  · refine fun sampled => ⟨fun cloud => ?_, old⟩
    have cloud : new.target.isCloud = true := (isCloud_normalized _).symm.trans cloud
    exact ⟨spec, rfl, (representative_iff cloud passed).mp (sampled cloud spec read)⟩

theorem limited_modify_iff {f : MonitorTask → MonitorTask} {keeps : ∀ row, (f row).id = row.id}
    {task : MonitorTask} (found : tasks.find? id = some task)
    (old : ∀ task ∈ tasks.rows, task.Limited s) :
    (∀ row ∈ (tasks.modify id f keeps).rows, row.Limited s) ↔ (f task).Limited s := by
  constructor
  · intro limited
    have changed : (tasks.modify id f keeps).find? id = some (f task) := by
      rw [Table.find?_modify, if_pos rfl, found, Option.map_some]
    exact limited _ (Table.mem_of_find? changed)
  · refine fun limited => Table.forall_modify (fun row here _ => ?_) (fun _ _ kept => kept) old
    obtain rfl := Option.some.inj (found.symm.trans here)
    exact limited

theorem updateTask_limited_iff (ran : updateTask s tasks id user changes now = .ok (tasks', dispatched))
    (old : ∀ task ∈ tasks.rows, task.Limited s) :
    (∀ task ∈ tasks'.rows, task.Limited s) ↔
      (TaskAction.update id user changes now).Sampled s tasks := by
  obtain ⟨task, title, cron, status, found, read, passed, rfl⟩ := updateTask_modifies ran
  refine (limited_modify_iff found old).trans ?_
  simp only [MonitorTask.Limited, TaskAction.Sampled, found, Option.mem_def, Option.some.injEq, forall_eq']
  refine imp_congr_right fun cloud => ?_
  cases given : changes.cron with
  | none =>
    have kept : task.cron = cron := by simpa [Changes.newCron, given] using read
    rw [← kept]
  | some expr =>
    rw [Changes.newCron, given] at read
    cases expr with
    | error => cases read
    | ok spec =>
      have written : some spec = cron := Except.ok.inj read
      subst written
      have passed : checkInterval s (changes.newTarget task) spec now = .ok () := by
        simpa only [Changes.checkCron, given] using passed
      simp only [Except.ok.injEq, forall_eq', Option.some.injEq, exists_eq_left',
        representative_iff cloud passed]

theorem tasksStep_limited_iff {a : TaskAction} (taken : tasksStep s tasks a = some tasks')
    (old : ∀ task ∈ tasks.rows, task.Limited s) :
    (∀ task ∈ tasks'.rows, task.Limited s) ↔ WrittenSampled s tasks a := by
  unfold tasksStep at taken
  split at taken
  · rename_i refused
    obtain rfl := Option.some.inj taken
    simp only [WrittenSampled, refused, reduceCtorEq, false_implies, implies_true, iff_true]
    exact old
  · rename_i rows dispatched ran
    obtain rfl := Option.some.inj taken
    simp only [WrittenSampled, ran, Except.ok.injEq, forall_eq']
    cases a with
    | create => exact createTask_limited_iff ran old
    | update => exact updateTask_limited_iff ran old

/-- The limit holds of all cloud tasks throughout a sequence of requests exactly where each sample
stands for the whole schedule and no task comes to the cloud with a schedule that breaks it. -/
theorem cloud_limit_iff (s : ServiceSettings) (actions : List TaskAction) :
    (∀ first, first <+: actions → ∀ tasks, run (tasksStep s) .empty first = some tasks →
      ∀ task ∈ tasks.rows, task.Limited s) ↔
      Along (tasksStep s) (WrittenSampled s) .empty actions :=
  forall_prefix_iff_along id (fun old ok taken => (tasksStep_limited_iff taken old).mpr ok)
    (fun old taken limited => (tasksStep_limited_iff taken old).mp limited)
    (fun stuck => by
      unfold tasksStep at stuck
      split at stuck <;> cases stuck)
    (by simp [Table.empty])

end Limit
section Runs

def everyDay (minutes hours : List ℕ) : CronSpec :=
  ⟨minutes, hours, List.range' 1 31, List.range' 1 12, List.range 7⟩

/-- `* * * * *`. -/
def everyMinute : CronSpec := everyDay (List.range 60) (List.range 24)

/-- `0,1 12 * * *`. -/
def noonPair : CronSpec := everyDay [0, 1] [12]

theorem not_limited_of_adjacent {s : ServiceSettings} {task : MonitorTask} {spec : CronSpec}
    (minute : ℕ) (cloud : task.target.isCloud = true) (cron : task.cron = some spec)
    (here : spec.Matches minute) (next : spec.Matches (minute + 1))
    (minimum : 1 < s.minCloudInterval) : ¬ task.Limited s := by
  intro limited
  obtain ⟨kept, same, spaced⟩ := limited cloud
  obtain rfl := Option.some.inj (cron.symm.trans same)
  have := spaced minute (minute + 1) ⟨here, next, by omega, fun m _ _ => by omega⟩
  omega

/-- A desktop task with a run every minute moves to the cloud without an expression; and a cloud
task is created between two runs that are a minute apart. -/
theorem cloud_limit_missed :
    (∃ task, (run (tasksStep {}) .empty
        [.create "user" ⟨"task", "title", .ok everyMinute, .desktop⟩ 0,
          .update "task" "user" { target := some .cloud } 60]).map Table.rows = some [task] ∧
      ¬ task.Limited {}) ∧
    ∃ task, (run (tasksStep {}) .empty
        [.create "user" ⟨"task", "title", .ok noonPair, .cloud⟩ (12 * 3600 + 30)]).map Table.rows =
          some [task] ∧
      ¬ task.Limited {} := by
  constructor
  · refine ⟨⟨"task", "user", "title", .active, true, .cloud, some everyMinute, 1, some 60, 0, none⟩,
      by decide +kernel, ?_⟩
    exact not_limited_of_adjacent 0 rfl rfl (by decide +kernel) (by decide +kernel)
      (by decide)
  · refine ⟨⟨"task", "user", "title", .active, true, .cloud, some noonPair, 1, some (12 * 3600 + 60), 0,
      none⟩, by decide +kernel, ?_⟩
    exact not_limited_of_adjacent 720 rfl rfl (by decide +kernel) (by decide +kernel)
      (by decide)

end Runs
end Deeting.Monitor
