import Deeting.Monitor.Ticks

/-! The operations of `MonitorService` on the rows, each with the schedule task that it dispatches,
and the two schedule tasks. The services behind an insight assistant, the secrets of a
`notify_config` and the notifications are left out. -/
namespace Deeting.Monitor

inductive MonitorError where
  | notFound
  | forbidden
  | invalidCron (error : String)
  | noNextRun
  | tooFrequent (interval minimum : ℕ)
  | invalidStatus
  | titleTaken (title : String)
  | integrity
  | notActive
  | cloudTrigger
  | cloudReport
  | invalidReport
  deriving DecidableEq

/-- The text of the `ValueError`; the last is that of the database. -/
def MonitorError.text : MonitorError → String
  | .notFound => "任务不存在"
  | .forbidden => "无权限操作此任务"
  | .invalidCron error => "Cron 表达式非法: " ++ error
  | .noNextRun => "未在 366 天窗口内找到下一次触发时间"
  | .tooFrequent interval minimum =>
    "Cron 频率过高：当前约每 " ++ toString interval ++ " 分钟执行一次，" ++
      "云端最小允许间隔为 " ++ toString minimum ++ " 分钟"
  | .invalidStatus => "None is not a valid MonitorStatus"
  | .titleTaken title => "任务 '" ++ title ++ "' 已存在"
  | .notActive => "仅 active 任务可触发"
  | .cloudTrigger => "任务执行模式为 cloud，请使用云端触发"
  | .cloudReport => "任务执行模式为 cloud，禁止本地回传"
  | .invalidReport => "status 仅支持 success/failure/skipped"
  | .integrity => "uq_monitor_task_user_title"

structure ServiceSettings where
  claimLeaseSeconds : ℤ := 180
  backpressureDelaySeconds : ℤ := 60
  pullMaxLimit : ℤ := 20
  minCloudIntervalMinutes : ℤ := 5

namespace ServiceSettings

/-- `value or default`, and at least the minimum. -/
def orDefault (value : ℤ) (default minimum : ℕ) : ℕ :=
  configured (if value = 0 then none else some value) default minimum

/-- `_local_claim_lease_seconds`. -/
def leaseSeconds (s : ServiceSettings) : ℕ := orDefault s.claimLeaseSeconds 180 30

/-- `_local_failure_retry_seconds`. -/
def retrySeconds (s : ServiceSettings) : ℕ := orDefault s.backpressureDelaySeconds 60 30

/-- `_normalize_pull_limit`. -/
def pullLimit (s : ServiceSettings) (limit : ℤ) : ℕ :=
  min (orDefault limit 1 1) (orDefault s.pullMaxLimit 20 1)

def minCloudInterval (s : ServiceSettings) : ℕ := orDefault s.minCloudIntervalMinutes 1 1

end ServiceSettings

inductive Dispatch where
  | upsert (task : String)
  | remove (task : String)
  deriving DecidableEq

abbrev Written := Except MonitorError (Tasks × Option Dispatch)

/-- `normalize_monitor_execution_target`. -/
def ExecutionTarget.normalized (target : ExecutionTarget) : ExecutionTarget :=
  if target.isCloud then .cloud else .desktop

def Dispatch.ofTarget (target : ExecutionTarget) (id : String) : Dispatch :=
  if target.isCloud then .upsert id else .remove id

/-- The match that is found, or the error of `next_run_after`. -/
def nextRun (spec : CronSpec) (after : ℕ) : Except MonitorError ℕ :=
  match spec.nextRunAfter after with
  | some next => .ok next
  | none => .error .noNextRun

/-- `_validate_cloud_cron_interval`, which only holds for the cloud. -/
def checkInterval (s : ServiceSettings) (target : ExecutionTarget) (spec : CronSpec) (now : ℕ) :
    Except MonitorError Unit :=
  if ¬ target.isCloud then .ok ()
  else do
    let first ← nextRun spec now
    let second ← nextRun spec first
    let interval := max 1 ((second - first) / 60)
    if interval < s.minCloudInterval then .error (.tooFrequent interval s.minCloudInterval)
    else .ok ()

def ownTask (tasks : Tasks) (id user : String) : Except MonitorError MonitorTask :=
  match tasks.find? id with
  | none => .error .notFound
  | some task => if task.userId ≠ user then .error .forbidden else .ok task

structure NewTask where
  id : String
  title : String
  /-- What `parse_cron_expr` makes of the expression. -/
  cron : Except String CronSpec
  target : ExecutionTarget

/-- The row that `create_task` writes. -/
def NewTask.row (new : NewTask) (user : String) (spec : CronSpec) (now next : ℕ) : MonitorTask where
  id := new.id
  userId := user
  title := new.title
  status := .active
  isActive := true
  target := new.target.normalized
  cron := some spec
  currentIntervalMinutes := max 1 ((next - now) / 60)
  nextRunAt := some next
  errorCount := 0
  lastExecutedAt := none

def titled (tasks : Tasks) (user title : String) : List MonitorTask :=
  tasks.rows.filter fun task => task.userId = user ∧ task.title = title

def parsed (cron : Except String CronSpec) : Except MonitorError CronSpec :=
  cron.mapError .invalidCron

def createTask (s : ServiceSettings) (tasks : Tasks) (user : String) (new : NewTask) (now : ℕ) :
    Written := do
  let spec ← parsed new.cron
  checkInterval s new.target spec now
  if ∃ task ∈ titled tasks user new.title, task.isActive = true then
    .error (.titleTaken new.title)
  else
    let next ← nextRun spec now
    -- a task that is deleted still has its title
    if titled tasks user new.title ≠ [] then .error .integrity
    else match tasks.insert? (new.row user spec now next) with
      | none => .error .integrity
      | some tasks => .ok (tasks, some (.ofTarget new.target new.id))

/-- What `update_task` is given: `none` leaves a field as it is, and a `notify_config` that says
nothing of the target says `other`. -/
structure Changes where
  title : Option String := none
  cron : Option (Except String CronSpec) := none
  status : Option (Option MonitorStatus) := none
  notifyTarget : Option ExecutionTarget := none
  target : Option ExecutionTarget := none

namespace Changes

def newTarget (c : Changes) (task : MonitorTask) : ExecutionTarget :=
  (c.target.getD (c.notifyTarget.getD task.target)).normalized

/-- The new status; `None` is no status. -/
def newStatus (c : Changes) (task : MonitorTask) : Except MonitorError MonitorStatus :=
  match c.status with
  | none => .ok task.status
  | some none => .error .invalidStatus
  | some (some status) => .ok status

def newCron (c : Changes) (task : MonitorTask) : Except MonitorError (Option CronSpec) :=
  match c.cron with
  | none => .ok task.cron
  | some cron => (parsed cron).map some

def checkCron (c : Changes) (s : ServiceSettings) (task : MonitorTask) (cron : Option CronSpec)
    (now : ℕ) : Except MonitorError Unit :=
  match c.cron, cron with
  | some _, some spec => checkInterval s (c.newTarget task) spec now
  | _, _ => .ok ()

end Changes

def updateTask (s : ServiceSettings) (tasks : Tasks) (id user : String) (c : Changes) (now : ℕ) :
    Written := do
  let task ← ownTask tasks id user
  let cron ← c.newCron task
  let status ← c.newStatus task
  c.checkCron s task cron now
  let title := c.title.getD task.title
  if ∃ other ∈ titled tasks user title, other.id ≠ id then .error .integrity
  else
    let live := status = .active ∧ task.isActive = true
    .ok (tasks.modify id (fun row => { row with
        title := title
        cron := cron
        status := status
        target := c.newTarget task }) fun _ => rfl,
      some (if live then .ofTarget (c.newTarget task) id else .remove id))

def pauseTask (tasks : Tasks) (id user : String) : Written := do
  let _ ← ownTask tasks id user
  .ok (tasks.modify id (fun row => { row with status := .paused }) fun _ => rfl,
    some (.remove id))

def resumeTask (tasks : Tasks) (id user : String) : Written := do
  let task ← ownTask tasks id user
  .ok (tasks.modify id (fun row => { row with status := .active }) fun _ => rfl,
    some (.ofTarget task.target id))

def deleteTask (tasks : Tasks) (id user : String) : Written := do
  let _ ← ownTask tasks id user
  .ok (tasks.modify id (fun row => { row with isActive := false }) fun _ => rfl,
    some (.remove id))

def requestLocalExecution (tasks : Tasks) (id user : String) (now : ℕ) : Written := do
  let task ← ownTask tasks id user
  if task.status ≠ .active then .error .notActive
  else if task.target.isCloud then .error .cloudTrigger
  else .ok (tasks.modify id (fun row => { row with nextRunAt := some now }) fun _ => rfl, none)

/-- The rows that the query of `pull_local_tasks` asks for, before its limit. -/
def Pullable (user : String) (now : ℕ) (task : MonitorTask) : Prop :=
  task.userId = user ∧ task.Live ∧ ∃ t ∈ task.nextRunAt, t ≤ now

instance (user : String) (now : ℕ) (task : MonitorTask) : Decidable (Pullable user now task) :=
  match next : task.nextRunAt with
  | none => .isFalse fun ⟨_, _, t, mem, _⟩ => by simp [next] at mem
  | some t => decidable_of_iff (task.userId = user ∧ task.Live ∧ t ≤ now) (by
      simp [Pullable, next])

/-- The tasks that a pull claims: the local ones among those its query returns. -/
def claims (tasks : Tasks) (user : String) (now limit : ℕ) : List MonitorTask :=
  let due := (tasks.rows.filter fun task => Pullable user now task).mergeSort
    fun a b => a.nextRunAt.getD 0 ≤ b.nextRunAt.getD 0
  (((due.take (max (limit * 4) limit)).filter fun task => ¬ task.target.isCloud)).take limit

def lease (end_ : ℕ) : Tasks → List MonitorTask → Tasks
  | tasks, [] => tasks
  | tasks, task :: rest =>
    lease end_ (tasks.modify task.id (fun row => { row with nextRunAt := some end_ }) fun _ => rfl)
      rest

/-- `pull_local_tasks`, if it gets the lock, and the tasks it returns. -/
def pullLocalTasks (s : ServiceSettings) (tasks : Tasks) (user : String) (limit : ℤ) (now : ℕ)
    (acquired : Bool) : Tasks × List MonitorTask :=
  if ¬ acquired then (tasks, [])
  else
    let items := claims tasks user now (s.pullLimit limit)
    (lease (now + s.leaseSeconds) tasks items, items)

inductive ReportStatus where
  | success
  | failure
  | skipped
  | other
  deriving DecidableEq

def localMaxErrorCount : ℕ := 3

def MonitorTask.reported (task : MonitorTask) (s : ServiceSettings) (now : ℕ) :
    ReportStatus → MonitorTask
  | .success => { task.reschedule now with
      errorCount := 0
      lastExecutedAt := some now }
  | .failure => { task with
      errorCount := task.errorCount + 1
      lastExecutedAt := some now
      nextRunAt := some (now + s.retrySeconds)
      status := if localMaxErrorCount < task.errorCount + 1 then .failedSuspended else task.status }
  | .skipped | .other => { task with
      lastExecutedAt := some now
      nextRunAt := some (now + s.retrySeconds) }

theorem reported_id (task : MonitorTask) (s : ServiceSettings) (now : ℕ) (status : ReportStatus) :
    (task.reported s now status).id = task.id := by
  cases status <;> rfl

def reportLocalExecution (s : ServiceSettings) (tasks : Tasks) (id user : String)
    (status : ReportStatus) (now : ℕ) : Written := do
  let task ← ownTask tasks id user
  if task.target.isCloud then .error .cloudReport
  else if status = .other then .error .invalidReport
  else .ok (tasks.modify id (fun row => row.reported s now status) fun row => reported_id row s now _,
    some (.ofTarget task.target id))

def upsertSchedule (now : ℕ) (fault : Fault) (id : String) (tasks : Tasks)
    (schedule : SortedSet String) : Tasks × SortedSet String :=
  match tasks.find? id with
  | none => (tasks, schedule)
  | some task =>
    if ¬ task.Live then
      (tasks.modify id (fun row => { row with nextRunAt := none }) fun _ => rfl,
        fault.effect schedule (schedule.removeAll [id]))
    else
      (tasks.modify id (fun row => row.reschedule now) fun row => row.reschedule_id now,
        fault.effect schedule (schedule.insert (computeNextRun task now).1 id))

def removeSchedule (fault : Fault) (id : String) (tasks : Tasks) (schedule : SortedSet String) :
    Tasks × SortedSet String :=
  match tasks.find? id with
  | none => (tasks, schedule)
  | some _ =>
    (tasks.modify id (fun row => { row with nextRunAt := none }) fun _ => rfl,
      fault.effect schedule (schedule.removeAll [id]))

end Deeting.Monitor
