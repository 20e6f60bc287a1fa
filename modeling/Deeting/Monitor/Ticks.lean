import Deeting.Monitor.Tasks
import Deeting.SortedSet

/-! One tick of the scheduler, `_scan_and_trigger_tasks`, and `_bootstrap_schedule`. The rows are
those of the session of the tick, which changes them in memory and commits at its end; its
queries do not flush these changes, and a row that it holds is not read anew. -/
namespace Deeting.Monitor

/-- How a Redis command ends. A failure comes before its effect, or loses only the reply. -/
inductive Fault where
  | ok
  | refused
  | lost
  deriving DecidableEq

def Fault.effect {α : Type} (f : Fault) (before after : α) : α :=
  match f with
  | .refused => before
  | .ok | .lost => after

/-- A setting: `none` if it is missing or no number. -/
def configured (raw : Option ℤ) (default minimum : ℕ) : ℕ :=
  (max (minimum : ℤ) (raw.getD default)).toNat

structure Limits where
  maxTotal : ℕ
  maxPerUser : ℕ
  delaySeconds : ℕ
  total_pos : 1 ≤ maxTotal
  user_pos : 1 ≤ maxPerUser
  delay_pos : 5 ≤ delaySeconds

theorem le_configured (raw : Option ℤ) (default minimum : ℕ) :
    minimum ≤ configured raw default minimum := by
  rw [configured]
  omega

/-- `_max_trigger_per_tick`, `_max_trigger_per_user_per_tick`, `_backpressure_delay_seconds`. -/
def Limits.ofSettings (maxTotal maxPerUser delaySeconds : Option ℤ) : Limits where
  maxTotal := configured maxTotal 50 1
  maxPerUser := configured maxPerUser 3 1
  delaySeconds := configured delaySeconds 60 5
  total_pos := le_configured _ _ _
  user_pos := le_configured _ _ _
  delay_pos := le_configured _ _ _

def schedulerBatchSize : ℕ := 200

/-- A call of `trigger_reasoning_task.delay`. -/
structure Trigger where
  task : String
  user : String
  deriving DecidableEq

structure Pass where
  tasks : Tasks
  schedule : SortedSet String
  triggered : List Trigger := []
  deferred : ℕ := 0
  desktopDeferred : ℕ := 0

/-- The commands of `_zset_pop_due_task_ids`. -/
structure PopFaults where
  eval : Fault := .ok
  range : Fault := .ok
  remove : Fault := .ok

/-- `_zset_pop_due_task_ids`; `none` is an exception. -/
def popDueTaskIds (schedule : SortedSet String) (now : ℕ) (faults : PopFaults) :
    SortedSet String × Option (List String) :=
  let due := schedule.upTo now schedulerBatchSize
  let popped := faults.eval.effect schedule (schedule.removeAll due)
  if faults.eval = .ok then (popped, some due)
  else if faults.range ≠ .ok then (popped, none)
  else
    let raw := popped.upTo now schedulerBatchSize
    if raw = [] then (popped, some [])
    else
      (faults.remove.effect popped (popped.removeAll raw),
        if faults.remove = .ok then some raw else none)

/-- How the loop gets on with an id: without a `ZADD`, with one, or by an exception of `delay`. -/
inductive Visited where
  | nothing
  | add (t : ℕ)
  | raised

namespace Pass

def count (p : Pass) (user : String) : ℕ := p.triggered.countP fun r => r.user = user

def Over (p : Pass) (l : Limits) (user : String) : Prop :=
  l.maxTotal ≤ p.triggered.length ∨ l.maxPerUser ≤ p.count user

instance (p : Pass) (l : Limits) (user : String) : Decidable (p.Over l user) :=
  inferInstanceAs (Decidable (_ ∨ _))

/-- A task is deferred or triggered, and gets its next run, the second component; `none` is an
exception of `delay`, the task is then as it was. -/
def dispatch (p : Pass) (l : Limits) (now : ℕ) (task : MonitorTask) (delay : Fault) :
    Pass × Option ℕ :=
  if p.Over l task.userId then
    ({ p with
        tasks := p.tasks.modify task.id
          (fun row => { row with nextRunAt := some (now + l.delaySeconds) }) fun _ => rfl
        deferred := p.deferred + 1 },
      some (now + l.delaySeconds))
  else if delay = .ok then
    ({ p with
        tasks := p.tasks.modify task.id (fun row => row.reschedule now) fun row =>
          row.reschedule_id now
        triggered := p.triggered ++ [⟨task.id, task.userId⟩] },
      some (computeNextRun task now).1)
  else
    ({ p with
        triggered := delay.effect p.triggered (p.triggered ++ [⟨task.id, task.userId⟩]) },
      none)

def visit (p : Pass) (l : Limits) (now : ℕ) (id : String) (delay : Fault) : Pass × Visited :=
  match p.tasks.find? id with
  | none => (p, .nothing)
  | some task =>
    if ¬ task.Live then (p, .nothing)
    else if ¬ task.Due now then (p, task.nextRunAt.elim .nothing .add)
    else if ¬ task.target.isCloud then
      ({ p with desktopDeferred := p.desktopDeferred + 1 }, .nothing)
    else
      let (p, t) := p.dispatch l now task delay
      (p, t.elim .raised .add)

/-- The loop over the ids popped, with the fault of the `delay` of each task and those of the
`ZADD`s in turn, and whether one of them has failed. -/
def redisPass (l : Limits) (now : ℕ) (delay : String → Fault) :
    Pass → List String → List Fault → Pass × Bool
  | p, [], _ => (p, false)
  | p, id :: rest, faults =>
    match p.visit l now id (delay id) with
    | (p, .nothing) => redisPass l now delay p rest faults
    | (p, .raised) => (p, true)
    | (p, .add t) =>
      let fault := faults.headD .ok
      let p := { p with schedule := fault.effect p.schedule (p.schedule.insert t id) }
      if fault = .ok then redisPass l now delay p rest faults.tail else (p, true)

/-- One row of the fallback, and whether its `delay` has failed. -/
def visitRow (p : Pass) (l : Limits) (now : ℕ) (id : String) (delay : Fault) : Pass × Bool :=
  match p.tasks.find? id with
  | none => (p, false)
  | some task =>
    if ¬ task.target.isCloud then ({ p with desktopDeferred := p.desktopDeferred + 1 }, false)
    else
      let (p, t) := p.dispatch l now task delay
      (p, t.isNone)

def rowPass (l : Limits) (now : ℕ) (delay : String → Fault) : Pass → List String → Pass × Bool
  | p, [] => (p, false)
  | p, id :: rest =>
    match p.visitRow l now id (delay id) with
    | (p, false) => rowPass l now delay p rest
    | (p, true) => (p, true)

end Pass

def dueIds (tasks : Tasks) (now : ℕ) : List String :=
  (tasks.rows.filter fun task => task.Live ∧ task.Due now).map MonitorTask.id

structure TickResult where
  tasks : Tasks
  schedule : SortedSet String
  /-- All the calls of `delay`. -/
  triggered : List Trigger
  deferred : ℕ
  desktopDeferred : ℕ
  /-- `none` if an exception has left the tick; the rows are then as they were. -/
  source : Option String

/-- What a tick meets in Redis, which is the broker too: `delay` are the calls of the first loop,
by their task, and `rowDelay` those of the fallback. -/
structure Weather where
  available : Bool
  pop : PopFaults := {}
  add : List Fault := []
  delay : String → Fault := fun _ => .ok
  rowDelay : String → Fault := fun _ => .ok

/-- The loop that goes over the ids that were popped, and whether an exception has left it;
`none` is one of the pop itself. -/
def redisPart (l : Limits) (now : ℕ) (weather : Weather) (tasks : Tasks)
    (schedule : SortedSet String) : SortedSet String × Option (List String × Pass × Bool) :=
  let (schedule, popped) := popDueTaskIds schedule now weather.pop
  (schedule, popped.map fun ids => (ids, Pass.redisPass l now weather.delay { tasks, schedule } ids weather.add))

def fallbackPass (l : Limits) (now : ℕ) (weather : Weather) (committed : Tasks) (p : Pass) :
    Pass × Bool :=
  Pass.rowPass l now weather.rowDelay { tasks := p.tasks, schedule := p.schedule }
    (dueIds committed now)

def fallback (l : Limits) (now : ℕ) (weather : Weather) (committed : Tasks) (p : Pass) :
    TickResult :=
  let (q, raised) := fallbackPass l now weather committed p
  { tasks := if raised then committed else q.tasks
    schedule := q.schedule
    triggered := p.triggered ++ q.triggered
    deferred := q.deferred
    desktopDeferred := q.desktopDeferred
    source := if raised then none else some "db_fallback" }

def scanAndTriggerTasks (l : Limits) (now : ℕ) (weather : Weather) (tasks : Tasks)
    (schedule : SortedSet String) : TickResult :=
  if ¬ weather.available then fallback l now weather tasks { tasks, schedule }
  else match redisPart l now weather tasks schedule with
    | (schedule, none) => fallback l now weather tasks { tasks, schedule }
    | (_, some (_, p, true)) => fallback l now weather tasks p
    | (_, some (_, p, false)) =>
      ⟨p.tasks, p.schedule, p.triggered, p.deferred, p.desktopDeferred, some "redis_zset"⟩

/-- The `ZADD`s of `_bootstrap_schedule`, for the live cloud tasks; one that fails is logged. -/
def indexTasks (now : ℕ) : List MonitorTask → List Fault → SortedSet String → SortedSet String
  | [], _, schedule => schedule
  | task :: rest, faults, schedule =>
    if task.Live ∧ task.target.isCloud then
      indexTasks now rest faults.tail ((faults.headD .ok).effect schedule
        (schedule.insert (task.nextRunAt.getD now) task.id))
    else indexTasks now rest faults schedule

def fillNextRun (now : ℕ) (task : MonitorTask) : MonitorTask :=
  if task.Live ∧ task.target.isCloud ∧ task.nextRunAt = none then task.reschedule now else task

theorem fillNextRun_id (now : ℕ) (task : MonitorTask) : (fillNextRun now task).id = task.id := by
  rw [fillNextRun]
  split
  · rfl
  · rfl

/-- `_bootstrap_schedule`, with the lock. -/
def bootstrapSchedule (now : ℕ) (faults : List Fault) (tasks : Tasks)
    (schedule : SortedSet String) : Tasks × SortedSet String :=
  let rows := tasks.rows.map (fillNextRun now)
  (⟨rows, by
      have same : MonitorTask.id ∘ fillNextRun now = MonitorTask.id := funext (fillNextRun_id now)
      rw [List.map_map, same]
      exact tasks.unique⟩,
    indexTasks now rows faults schedule)

end Deeting.Monitor
