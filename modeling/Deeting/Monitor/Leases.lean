import Deeting.Expiry
import Deeting.Monitor.Schedules

/-! Local pulls of one user by any number of desktop agents, each Redis command and each statement a
step: the lock is taken, the due tasks are read, their leases committed, the lock released, and in
between anything else may happen. Redis is there throughout. The clock of the lock counts
milliseconds; each call has read its own time, in seconds. -/
namespace Deeting.Monitor
open Transition Expiry

inductive PullStage where
  | begun
  | locked (deadline : ℤ)
  | read (deadline : ℤ) (items : List MonitorTask)
  | committed (items : List MonitorTask)

structure Pull where
  now : ℕ
  limit : ℤ
  stage : PullStage := .begun

/-- The tasks, the key of the user's lock and the pulls. `leased` is for the statements: until when
a task was last handed out, unless it was reported, requested or updated since. -/
structure Leases where
  tasks : Tasks
  clock : ℤ := 0
  slot : Option (Entry ℤ ℕ) := none
  pulls : ℕ → Option Pull := fun _ => none
  leased : String → Option ℕ := fun _ => none

inductive LeaseAction where
  | tick (ms : ℕ)
  | begin (n now : ℕ) (limit : ℤ)
  | advance (n : ℕ)
  | report (id : String) (status : ReportStatus) (now : ℕ)
  | request (id : String) (now : ℕ)
  | update (id : String) (changes : Changes) (now : ℕ)

namespace Leases

def put (s : Leases) (n : ℕ) (p : Option Pull) : Leases :=
  { s with pulls := Function.update s.pulls n p }

def wrote (s : Leases) (id : String) : Written → Leases
  | .error _ => s
  | .ok (tasks, _) =>
    { s with
      tasks
      leased := Function.update s.leased id none }

/-- The next command or statement of a pull; the lock is for five seconds, and tried once. -/
def advance (settings : ServiceSettings) (user : String) (s : Leases) (n : ℕ) (p : Pull) : Leases :=
  match p.stage with
  | .begun =>
    match setNx s.clock s.slot ⟨n, some (s.clock + 5000)⟩ with
    | (slot, true) => { s.put n (some { p with stage := .locked (s.clock + 5000) }) with slot }
    | (_, false) => s.put n none
  | .locked deadline =>
    let items := claims s.tasks user p.now (settings.pullLimit p.limit)
    s.put n (some { p with stage := .read deadline items })
  | .read _ items =>
    let claimedUntil := p.now + settings.leaseSeconds
    { s.put n (some { p with stage := .committed items }) with
      tasks := lease claimedUntil s.tasks items
      leased := fun id => if id ∈ items.map MonitorTask.id then some claimedUntil else s.leased id }
  | .committed _ => { s.put n none with slot := (compareDelete s.clock s.slot n).1 }

end Leases

def leaseStep (settings : ServiceSettings) (user : String) (s : Leases) : LeaseAction → Option Leases
  | .tick ms => some { s with clock := s.clock + ms }
  | .begin n now limit =>
    if (s.pulls n).isSome then none else some (s.put n (some { now := now, limit := limit }))
  | .advance n => (s.pulls n).map (s.advance settings user n)
  | .report id status now =>
    some (s.wrote id (reportLocalExecution settings s.tasks id user status now))
  | .request id now => some (s.wrote id (requestLocalExecution s.tasks id user now))
  | .update id changes now => some (s.wrote id (updateTask settings s.tasks id user changes now))

/-- A pull reads and commits within the lifetime of its lock. -/
def timely (s : Leases) : LeaseAction → Bool
  | .advance n =>
    match (s.pulls n).map Pull.stage with
    | some (.locked deadline) | some (.read deadline _) => s.clock < deadline
    | _ => true
  | _ => true

def localDue (tasks : Tasks) (user : String) (now : ℕ) : List MonitorTask :=
  tasks.rows.filter fun task => Pullable user now task ∧ ¬ task.target.isCloud

def queried (tasks : Tasks) (user : String) (now limit : ℕ) : List MonitorTask :=
  ((tasks.rows.filter fun task => Pullable user now task).mergeSort
    fun a b => a.nextRunAt.getD 0 ≤ b.nextRunAt.getD 0).take (max (limit * 4) limit)

def HandedOnce (s : Leases) : LeaseAction → Prop
  | .advance n => ∀ p ∈ s.pulls n, ∀ deadline items, p.stage = .read deadline items →
    ∀ task ∈ items, ∀ until_ ∈ s.leased task.id, until_ ≤ p.now
  | _ => True

/-- A pull that has the lock takes as many local tasks as there are, up to its limit. -/
def TakesAll (settings : ServiceSettings) (user : String) (s : Leases) : LeaseAction → Prop
  | .advance n => ∀ p ∈ s.pulls n, ∀ deadline, p.stage = .locked deadline →
    (claims s.tasks user p.now (settings.pullLimit p.limit)).length =
      min (settings.pullLimit p.limit) (localDue s.tasks user p.now).length
  | _ => True

/-- The rows that the query returns have enough local ones. -/
def QueriesEnough (settings : ServiceSettings) (user : String) (s : Leases) : LeaseAction → Prop
  | .advance n => ∀ p ∈ s.pulls n, ∀ deadline, p.stage = .locked deadline →
    min (settings.pullLimit p.limit) (localDue s.tasks user p.now).length ≤
      ((queried s.tasks user p.now (settings.pullLimit p.limit)).filter
        fun task => ¬ task.target.isCloud).length
  | _ => True

section Claims
variable {tasks : Tasks} {user : String} {now limit : ℕ} {task : MonitorTask}

theorem claims_eq : claims tasks user now limit =
    ((queried tasks user now limit).filter fun task => ¬ task.target.isCloud).take limit := rfl

theorem mem_rows_of_mem_claims (claimed : task ∈ claims tasks user now limit) :
    task ∈ tasks.rows ∧ Pullable user now task := by
  rw [claims_eq] at claimed
  have read := (List.mem_filter.mp (List.mem_of_mem_take claimed)).1
  have due := (List.mergeSort_perm _ _).mem_iff.mp (List.mem_of_mem_take read)
  simpa using due

theorem length_queried_le :
    ((queried tasks user now limit).filter fun task => ¬ task.target.isCloud).length ≤
      (localDue tasks user now).length := by
  have all : localDue tasks user now =
      (tasks.rows.filter fun task => Pullable user now task).filter
        fun task => ¬ task.target.isCloud := by
    rw [List.filter_filter]
    refine List.filter_congr fun task _ => ?_
    simp [Bool.and_comm]
  have order := List.mergeSort_perm (tasks.rows.filter fun task => Pullable user now task)
    fun a b => a.nextRunAt.getD 0 ≤ b.nextRunAt.getD 0
  rw [all, ← (order.filter _).length_eq]
  exact ((List.take_sublist _ _).filter _).length_le

theorem length_claims_iff :
    (claims tasks user now limit).length = min limit (localDue tasks user now).length ↔
      min limit (localDue tasks user now).length ≤
        ((queried tasks user now limit).filter fun task => ¬ task.target.isCloud).length := by
  have few := @length_queried_le tasks user now limit
  rw [claims_eq, List.length_take]
  omega

end Claims

theorem takesAll_iff {settings : ServiceSettings} {user : String} {s : Leases} {a : LeaseAction} :
    TakesAll settings user s a ↔ QueriesEnough settings user s a := by
  cases a with
  | advance n => simp only [TakesAll, QueriesEnough, length_claims_iff]
  | _ => exact Iff.rfl

section Lease
variable {tasks tasks' : Tasks} {id other user : String} {end_ now : ℕ} {items : List MonitorTask}
  {settings : ServiceSettings} {row : MonitorTask} {dispatched : Option Dispatch}

theorem find?_lease : (lease end_ tasks items).find? id =
    (tasks.find? id).map fun row =>
      if id ∈ items.map MonitorTask.id then { row with nextRunAt := some end_ } else row := by
  induction items generalizing tasks with
  | nil => simp [lease]
  | cons task rest ih =>
    rw [lease, ih, Table.find?_modify, List.map_cons]
    by_cases here : id = task.id
    · subst here
      simp only [if_true, Option.map_map, List.mem_cons, true_or]
      congr 1
      funext row
      simp only [Function.comp_apply]
      split <;> rfl
    · simp [here]

structure Rewrites (tasks : Tasks) (id : String) (tasks' : Tasks) : Prop where
  find? : ∀ other, other ≠ id → tasks'.find? other = tasks.find? other
  isSome : ∀ other, (tasks.find? other).isSome → (tasks'.find? other).isSome

theorem rewrites_modify (tasks : Tasks) (id : String) (f : MonitorTask → MonitorTask)
    (keeps : ∀ row, (f row).id = row.id) : Rewrites tasks id (tasks.modify id f keeps) := by
  constructor <;> intro other
  · intro different
    rw [Table.find?_modify, if_neg different]
  · intro there
    rw [Table.find?_modify]
    split
    · rename_i here
      subst here
      simpa using there
    · exact there

theorem reportLocalExecution_rewrites {status : ReportStatus}
    (ran : reportLocalExecution settings tasks id user status now = .ok (tasks', dispatched)) :
    Rewrites tasks id tasks' := by
  rw [reportLocalExecution] at ran
  obtain ⟨task, -, ran⟩ := bind_eq_ok ran
  split at ran
  · cases ran
  split at ran
  · cases ran
  · cases ran
    exact rewrites_modify _ _ _ _

theorem requestLocalExecution_rewrites
    (ran : requestLocalExecution tasks id user now = .ok (tasks', dispatched)) :
    Rewrites tasks id tasks' := by
  rw [requestLocalExecution] at ran
  obtain ⟨task, -, ran⟩ := bind_eq_ok ran
  split at ran
  · cases ran
  split at ran
  · cases ran
  · cases ran
    exact rewrites_modify _ _ _ _

theorem updateTask_rewrites {changes : Changes}
    (ran : updateTask settings tasks id user changes now = .ok (tasks', dispatched)) :
    Rewrites tasks id tasks' := by
  rw [updateTask] at ran
  obtain ⟨task, -, ran⟩ := bind_eq_ok ran
  obtain ⟨cron, -, ran⟩ := bind_eq_ok ran
  obtain ⟨status, -, ran⟩ := bind_eq_ok ran
  obtain ⟨-, -, ran⟩ := bind_eq_ok ran
  dsimp only at ran
  split at ran
  · cases ran
  · cases ran
    exact rewrites_modify _ _ _ _

end Lease

def PullStage.deadline? : PullStage → Option ℤ
  | .locked deadline | .read deadline _ => some deadline
  | _ => none

structure Leases.Good (s : Leases) : Prop where
  holds : ∀ n p deadline, s.pulls n = some p → p.stage.deadline? = some deadline →
    s.clock < deadline → s.slot = some ⟨n, some deadline⟩
  leased : ∀ id until_, s.leased id = some until_ →
    ∃ row, s.tasks.find? id = some row ∧ row.nextRunAt = some until_
  there : ∀ n p deadline items, s.pulls n = some p → p.stage = .read deadline items →
    ∀ task ∈ items, (s.tasks.find? task.id).isSome
  free : ∀ n p deadline items, s.pulls n = some p → p.stage = .read deadline items →
    s.clock < deadline → ∀ task ∈ items, ∀ until_, s.leased task.id = some until_ → until_ ≤ p.now

namespace Leases.Good
variable {settings : ServiceSettings} {user : String} {s t : Leases} {n : ℕ} {p : Pull}

theorem initial (tasks : Tasks) : Good { tasks := tasks } :=
  ⟨by simp, by simp, by simp, by simp⟩

theorem unique (good : s.Good) {m : ℕ} {q : Pull} {deadline deadline' : ℤ}
    (held : s.pulls n = some p) (stage : p.stage.deadline? = some deadline) (alive : s.clock < deadline)
    (held' : s.pulls m = some q) (stage' : q.stage.deadline? = some deadline')
    (alive' : s.clock < deadline') : n = m := by
  have same := (good.holds n p deadline held stage alive).symm.trans
    (good.holds m q deadline' held' stage' alive')
  simp only [Option.some.injEq, Entry.mk.injEq] at same
  exact same.1

theorem tick (good : s.Good) (ms : ℕ) : Good { s with clock := s.clock + ms } where
  holds n p deadline held stage alive := good.holds n p deadline held stage (by
    simp only at alive
    omega)
  leased := good.leased
  there := good.there
  free n p deadline items held stage alive := good.free n p deadline items held stage (by
    simp only at alive
    omega)

/-- A pull that no longer counts on the lock, or does not yet, changes nothing for the others. -/
theorem put (good : s.Good) {p' : Option Pull}
    (quiet : ∀ p ∈ p', p.stage.deadline? = none) : (s.put n p').Good := by
  have others {m : ℕ} {q : Pull} {deadline : ℤ} (held : (s.put n p').pulls m = some q)
      (stage : q.stage.deadline? = some deadline) : s.pulls m = some q := by
    simp only [Leases.put, Function.update_apply] at held
    split at held
    · rw [quiet q held] at stage
      cases stage
    · exact held
  have counting {q : Pull} {deadline : ℤ} {items : List MonitorTask}
      (stage : q.stage = .read deadline items) : q.stage.deadline? = some deadline := by
    rw [stage]
    rfl
  exact ⟨fun m q deadline held stage => good.holds m q deadline (others held stage) stage, good.leased,
    fun m q deadline items held stage => good.there m q deadline items (others held (counting stage)) stage,
    fun m q deadline items held stage => good.free m q deadline items (others held (counting stage)) stage⟩

theorem wrote (good : s.Good) {id : String} {r : Written}
    (rewrites : ∀ tasks dispatched, r = .ok (tasks, dispatched) → Rewrites s.tasks id tasks) :
    (s.wrote id r).Good := by
  cases r with
  | error => exact good
  | ok written =>
    obtain ⟨tasks, dispatched⟩ := written
    have change := rewrites tasks dispatched rfl
    refine ⟨good.holds, fun other until_ leased => ?_, fun n p deadline items held stage task member => ?_,
      fun n p deadline items held stage alive task member until_ leased => ?_⟩
    · simp only [Leases.wrote, Function.update_apply] at leased ⊢
      split at leased
      · cases leased
      · rename_i different
        rw [change.find? other different]
        exact good.leased other until_ leased
    · exact change.isSome _ (good.there n p deadline items held stage task member)
    · simp only [Leases.wrote, Function.update_apply] at leased
      split at leased
      · cases leased
      · exact good.free n p deadline items held stage alive task member until_ leased

theorem lock (good : s.Good) (held : s.pulls n = some p) (absent : live s.clock s.slot = none) :
    Good { s.put n (some { p with stage := .locked (s.clock + 5000) }) with
      slot := some ⟨n, some (s.clock + 5000)⟩ } := by
  have nobody {m : ℕ} {q : Pull} {deadline : ℤ} (held : s.pulls m = some q)
      (stage : q.stage.deadline? = some deadline) : ¬ s.clock < deadline := by
    intro alive
    have found : live s.clock s.slot = some ⟨m, some deadline⟩ :=
      live_eq_some.mpr ⟨good.holds m q deadline held stage alive, alive_some.mpr alive⟩
    simp [absent] at found
  refine ⟨fun m q deadline here stage alive => ?_, good.leased,
    fun m q deadline items here stage => ?_, fun m q deadline items here stage alive => ?_⟩
  all_goals simp only [Leases.put, Function.update_apply] at here
  · split at here
    · rename_i same
      subst same
      obtain rfl := Option.some.inj here
      obtain rfl := Option.some.inj stage
      rfl
    · exact absurd alive (nobody here stage)
  · split at here
    · obtain rfl := Option.some.inj here
      cases stage
    · exact good.there m q deadline items here stage
  · split at here
    · obtain rfl := Option.some.inj here
      cases stage
    · exact absurd alive (nobody here (by rw [stage]; rfl))

theorem read (good : s.Good) {deadline : ℤ} (held : s.pulls n = some p)
    (stage : p.stage = .locked deadline) (limit : ℕ) :
    (s.put n (some { p with stage := .read deadline (claims s.tasks user p.now limit) })).Good := by
  refine ⟨fun m q deadline' here stage' alive => ?_, good.leased,
    fun m q deadline' items here stage' => ?_, fun m q deadline' items here stage' alive => ?_⟩
  all_goals simp only [Leases.put, Function.update_apply] at here
  · split at here
    · rename_i same
      subst same
      obtain rfl := Option.some.inj here
      exact good.holds m p deadline' held (by rw [stage]; exact stage') alive
    · exact good.holds m q deadline' here stage' alive
  · split at here
    · obtain rfl := Option.some.inj here
      obtain ⟨rfl, rfl⟩ := PullStage.read.inj stage'
      intro task member
      have row := (mem_rows_of_mem_claims member).1
      exact Option.isSome_iff_exists.mpr ⟨task, Table.find?_eq_some.mpr ⟨row, rfl⟩⟩
    · exact good.there m q deadline' items here stage'
  · split at here
    · obtain rfl := Option.some.inj here
      obtain ⟨rfl, rfl⟩ := PullStage.read.inj stage'
      intro task member until_ leased
      obtain ⟨row, -, -, due⟩ := mem_rows_of_mem_claims member
      obtain ⟨row', found, next⟩ := good.leased task.id until_ leased
      obtain rfl := Option.some.inj (found.symm.trans (Table.find?_eq_some.mpr ⟨row, rfl⟩))
      obtain ⟨t, same, early⟩ := due
      rw [next, Option.mem_def] at same
      obtain rfl := Option.some.inj same
      exact early
    · exact good.free m q deadline' items here stage' alive

/-- The commit, within the lifetime of the lock: nobody else counts on what was read. -/
theorem commit (good : s.Good) {deadline : ℤ} {items : List MonitorTask} (held : s.pulls n = some p)
    (stage : p.stage = .read deadline items) (alive : s.clock < deadline) (end_ : ℕ) :
    Good { s.put n (some { p with stage := .committed items }) with
      tasks := lease end_ s.tasks items
      leased := fun id => if id ∈ items.map MonitorTask.id then some end_ else s.leased id } := by
  have counting : p.stage.deadline? = some deadline := by
    rw [stage]
    rfl
  refine ⟨fun m q deadline' here stage' alive' => ?_, fun id until_ leased => ?_,
    fun m q deadline' others here stage' => ?_, fun m q deadline' others here stage' alive' => ?_⟩
  · simp only [Leases.put, Function.update_apply] at here
    split at here
    · obtain rfl := Option.some.inj here
      cases stage'
    · exact good.holds m q deadline' here stage' alive'
  · simp only [find?_lease] at leased ⊢
    split at leased
    · rename_i member
      obtain rfl := Option.some.inj leased
      obtain ⟨task, inside, rfl⟩ := List.mem_map.mp member
      obtain ⟨row, found⟩ :=
        Option.isSome_iff_exists.mp (good.there n p deadline items held stage task inside)
      exact ⟨{ row with nextRunAt := some end_ }, by simp [found, member], rfl⟩
    · rename_i outside
      obtain ⟨row, found, next⟩ := good.leased id until_ leased
      exact ⟨row, by simp [found, outside], next⟩
  · simp only [Leases.put, Function.update_apply] at here
    split at here
    · obtain rfl := Option.some.inj here
      cases stage'
    · intro task member
      simpa only [find?_lease, Option.isSome_map] using
        good.there m q deadline' others here stage' task member
  · simp only [Leases.put, Function.update_apply] at here
    split at here
    · obtain rfl := Option.some.inj here
      cases stage'
    · rename_i different
      have same := good.unique here (by rw [stage']; rfl) alive' held counting alive
      exact absurd same different

theorem release (good : s.Good) : Good { s.put n none with slot := (compareDelete s.clock s.slot n).1 } := by
  have others {m : ℕ} {q : Pull} (held : (s.put n none).pulls m = some q) : m ≠ n ∧ s.pulls m = some q := by
    simp only [Leases.put, Function.update_apply] at held
    split at held
    · cases held
    · rename_i different
      exact ⟨different, held⟩
  refine ⟨fun m q deadline held stage alive => ?_, good.leased,
    fun m q deadline items held => good.there m q deadline items (others held).2,
    fun m q deadline items held => good.free m q deadline items (others held).2⟩
  obtain ⟨different, held⟩ := others held
  have kept := good.holds m q deadline held stage alive
  have has : Has s.clock s.slot m :=
    has_of_live (live_eq_some.mpr ⟨kept, alive_some.mpr alive⟩)
  have other : ¬ Has s.clock s.slot n := fun also => different (has.unique also)
  simp only [compareDelete, if_neg other]
  exact kept

theorem advance (good : s.Good) (held : s.pulls n = some p) (intime : timely s (.advance n) = true) :
    (s.advance settings user n p).Good := by
  simp only [timely, held, Option.map_some] at intime
  cases stage : p.stage with
  | begun =>
    simp only [Leases.advance, stage]
    cases found : live s.clock s.slot with
    | none =>
      rw [setNx_of_absent found]
      exact good.lock held found
    | some entry =>
      rw [setNx_of_live found]
      exact good.put (by simp)
  | locked deadline =>
    simp only [Leases.advance, stage]
    exact good.read held stage _
  | read deadline items =>
    simp only [stage, decide_eq_true_eq] at intime
    simp only [Leases.advance, stage]
    exact good.commit held stage intime _
  | committed items =>
    simp only [Leases.advance, stage]
    exact good.release

theorem step {a : LeaseAction} (good : s.Good) (intime : timely s a = true)
    (taken : leaseStep settings user s a = some t) : t.Good := by
  cases a with
  | tick ms =>
    obtain rfl := Option.some.inj taken
    exact good.tick ms
  | begin n now limit =>
    simp only [leaseStep] at taken
    split at taken
    · cases taken
    · obtain rfl := Option.some.inj taken
      exact good.put (by rintro p ⟨⟩; rfl)
  | advance n =>
    obtain ⟨p, held, rfl⟩ := Option.map_eq_some_iff.mp taken
    exact good.advance held intime
  | report id status now =>
    obtain rfl := Option.some.inj taken
    exact good.wrote fun _ _ ran => reportLocalExecution_rewrites ran
  | request id now =>
    obtain rfl := Option.some.inj taken
    exact good.wrote fun _ _ ran => requestLocalExecution_rewrites ran
  | update id changes now =>
    obtain rfl := Option.some.inj taken
    exact good.wrote fun _ _ ran => updateTask_rewrites ran

theorem handedOnce {a : LeaseAction} (good : s.Good) (intime : timely s a = true) : HandedOnce s a := by
  cases a with
  | advance n =>
    intro p held deadline items stage task member until_ leased
    simp only [timely, Option.mem_def.mp held, Option.map_some, stage, decide_eq_true_eq] at intime
    exact good.free n p deadline items held stage intime task member until_ leased
  | _ => trivial

end Leases.Good

/-- While the locks last, nothing is handed out under a lease, and the pulls take all they should
exactly where the rows they query have enough local tasks. -/
theorem local_leases_iff (settings : ServiceSettings) (user : String) (tasks : Tasks)
    (actions : List LeaseAction)
    (intime : Along (leaseStep settings user) (fun s a => timely s a = true) { tasks := tasks } actions) :
    Along (leaseStep settings user) (fun s a => HandedOnce s a ∧ TakesAll settings user s a)
        { tasks := tasks } actions ↔
      Along (leaseStep settings user) (QueriesEnough settings user) { tasks := tasks } actions := by
  have once : Along (leaseStep settings user) HandedOnce { tasks := tasks } actions :=
    along_of_invariant (fun good intime taken => Leases.Good.step good intime taken)
      (fun good intime => good.handedOnce intime) (.initial tasks) intime
  constructor
  · intro lawful
    exact along_of_invariant (P := fun _ => True) (fun _ _ _ => trivial)
      (fun _ law => takesAll_iff.mp law.2) trivial lawful
  · intro enough
    exact along_of_invariant (P := fun _ => True) (fun _ _ _ => trivial)
      (fun _ law => ⟨law.1, takesAll_iff.mpr law.2⟩) trivial (along_and once enough)

section Runs

def dueTask (id : String) (target : ExecutionTarget) (next : ℕ) : MonitorTask where
  id := id
  userId := "user"
  title := id
  status := .active
  isActive := true
  target := target
  cron := none
  currentIntervalMinutes := 60
  nextRunAt := some next
  errorCount := 0
  lastExecutedAt := none

/-- Four tasks of the cloud, and one for the desktop that is due after them. -/
def crowded : Tasks where
  rows := ["a", "b", "c", "d"].map (fun id => dueTask id .cloud 1) ++ [dueTask "e" .desktop 2]
  unique := by decide

def single : Tasks where
  rows := [dueTask "e" .desktop 2]
  unique := by decide

def onePull : List LeaseAction :=
  [.begin 0 10 1, .advance 0, .advance 0, .advance 0, .advance 0]

/-- A pull of the only task that is due. -/
theorem single_leased :
    Along (leaseStep {} "user") (fun s a => HandedOnce s a ∧ TakesAll {} "user" s a)
        { tasks := single } onePull ↔
      Along (leaseStep {} "user") (QueriesEnough {} "user") { tasks := single } onePull :=
  local_leases_iff {} "user" single onePull (by decide +kernel)

/-- A pull of one task gets none. -/
theorem crowded_out :
    ∃ s, run (leaseStep {} "user") { tasks := crowded } [.begin 0 10 1, .advance 0] = some s ∧
      claims s.tasks "user" 10 1 = [] ∧ (localDue s.tasks "user" 10).length = 1 ∧
      ¬ TakesAll {} "user" s (.advance 0) := by
  have all_due : crowded.rows.filter (fun task => Pullable "user" 10 task) = crowded.rows := by
    decide +kernel
  have none_ : claims crowded "user" 10 1 = [] := by
    rw [claims_eq, queried, all_due, List.mergeSort_of_pairwise (by decide)]
    decide +kernel
  have one : (localDue crowded "user" 10).length = 1 := by decide +kernel
  refine ⟨_, rfl, none_, one, fun all => ?_⟩
  have taken := all _ rfl 5000 rfl
  change (claims crowded "user" 10 1).length = min 1 (localDue crowded "user" 10).length at taken
  rw [none_, one] at taken
  exact absurd taken (by decide)

end Runs
end Deeting.Monitor
