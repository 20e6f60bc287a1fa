import Mathlib.Logic.Function.Iterate
import Deeting.Json
import Deeting.Savepoints
import Deeting.Stream.Accumulator
import Deeting.Transition

/-! `TransactionAwareCelery` on one session: a flat list of pending tasks and listeners that
run once, against the transaction and the savepoints in which the tasks were scheduled. The
events of the session fire whenever one of its transactions ends, savepoints included. -/
namespace Deeting.Celery

open Transition

/-- `celery_is_available` under a value of `CELERY_BROKER_URL`. -/
def celeryIsAvailable (brokerUrl : Option String) : Bool :=
  !(Stream.strip (brokerUrl.getD "").toList).isEmpty

abbrev Kwargs := List (String × Json)

/-- Options are what is left of the keyword arguments of a call that names `args` and
`kwargs` itself. -/
structure Options where
  entries : Kwargs
  named : ∀ entry ∈ entries, entry.1 ≠ "args" ∧ entry.1 ≠ "kwargs"

def celeryOptionsKey : String := "__celery_options__"

/-- `kwargs.pop(key, None)`. -/
def pop (key : String) (kwargs : Kwargs) : Option Json × Kwargs :=
  ((kwargs.find? fun entry => entry.1 = key).map Prod.snd,
    kwargs.filter fun entry => entry.1 ≠ key)

inductive Handing where
  | delay (args : List Json) (kwargs : Kwargs)
  | applyAsync (args : List Json) (kwargs : Kwargs) (options : Kwargs)

/-- An entry of `_pending_tasks`, with the number of the call that scheduled it. -/
structure Pending where
  ticket : ℕ
  task : String
  args : List Json
  kwargs : Kwargs

/-- `none` where `**celery_options` raises before the task is called, which is logged only:
of what is no mapping, and of a second value for `args` or `kwargs`. -/
def Pending.handOver (p : Pending) : Option Handing :=
  match pop celeryOptionsKey p.kwargs with
  | (none, kwargs) => some (.delay p.args kwargs)
  | (some celeryOptions, kwargs) =>
      if celeryOptions.truthy then
        match celeryOptions with
        | .obj options =>
            if options.any fun entry => entry.1 = "args" ∨ entry.1 = "kwargs" then none
            else some (.applyAsync p.args kwargs options)
        | _ => none
      else some (.delay p.args kwargs)

/-- The listeners by their number: those of one event all do the same. `handed` is what
Celery has been given, `calls` the number of tasks scheduled so far. -/
structure Scheduler where
  pendingTasks : List Pending := []
  commitHooks : ℕ := 0
  rollbackHooks : ℕ := 0
  handed : List (ℕ × Handing) := []
  calls : ℕ := 0

namespace Scheduler

def registerHooks (s : Scheduler) : Scheduler :=
  { s with commitHooks := s.commitHooks + 1, rollbackHooks := s.rollbackHooks + 1 }

def append (task : String) (args : List Json) (kwargs : Kwargs) (s : Scheduler) : Scheduler :=
  let s := { s with
    pendingTasks := s.pendingTasks ++ [⟨s.calls, task, args, kwargs⟩], calls := s.calls + 1 }
  if s.pendingTasks.length = 1 then s.registerHooks else s

variable (brokerUrl : Option String)

def delayAfterCommit (task : String) (args : List Json) (kwargs : Kwargs) (s : Scheduler) :
    Scheduler :=
  if celeryIsAvailable brokerUrl then s.append task args kwargs else s

def applyAsyncAfterCommit (task : String) (args : Option (List Json)) (kwargs : Option Kwargs)
    (options : Options) (s : Scheduler) : Scheduler :=
  if celeryIsAvailable brokerUrl then
    s.append task (args.getD [])
      (Json.setEntry celeryOptionsKey (.obj options.entries) (kwargs.getD []))
  else s

def ready (s : Scheduler) : List (ℕ × Handing) :=
  s.pendingTasks.filterMap fun p => p.handOver.map fun handing => (p.ticket, handing)

def onCommit (s : Scheduler) : Scheduler :=
  if celeryIsAvailable brokerUrl then
    { s with handed := s.handed ++ s.ready, pendingTasks := [] }
  else { s with pendingTasks := [] }

def onRollback (s : Scheduler) : Scheduler :=
  if s.pendingTasks.isEmpty then s else { s with pendingTasks := [] }

def afterCommit (s : Scheduler) : Scheduler :=
  { (onCommit brokerUrl)^[ s.commitHooks] s with commitHooks := 0 }

def afterRollback (s : Scheduler) : Scheduler :=
  { onRollback^[ s.rollbackHooks] s with rollbackHooks := 0 }

end Scheduler

/-- The calls on the scheduler and on its session, `execute` being any statement; savepoints
end from the innermost on. -/
inductive Call where
  | delayAfterCommit (task : String) (args : List Json) (kwargs : Kwargs)
  | applyAsyncAfterCommit (task : String) (args : Option (List Json)) (kwargs : Option Kwargs)
      (options : Options)
  | execute
  | beginNested
  | releaseSavepoint
  | rollbackSavepoint
  | commit
  | rollback

/-- What happens in order: the innermost transaction of the session ends, by commit or
not. -/
inductive Event where
  | delayAfterCommit (task : String) (args : List Json) (kwargs : Kwargs)
  | applyAsyncAfterCommit (task : String) (args : Option (List Json)) (kwargs : Option Kwargs)
      (options : Options)
  | beginNested
  | ended (committed : Bool)

/-- The events of a call in a transaction with so many savepoints open, or before one has
begun, and what it leaves. The session's own `commit` and `rollback` end the open savepoints
first; a commit begins what it has to commit, a rollback of nothing does nothing. -/
def Call.events (depth : Option ℕ) : Call → List Event × Option ℕ
  | .delayAfterCommit task args kwargs => ([.delayAfterCommit task args kwargs], depth)
  | .applyAsyncAfterCommit task args kwargs options =>
      ([.applyAsyncAfterCommit task args kwargs options], depth)
  | .execute => ([], some (depth.getD 0))
  | .beginNested => ([.beginNested], some (depth.getD 0 + 1))
  | .releaseSavepoint =>
      (List.replicate (min (depth.getD 0) 1) (.ended true), depth.map fun n => n - 1)
  | .rollbackSavepoint =>
      (List.replicate (min (depth.getD 0) 1) (.ended false), depth.map fun n => n - 1)
  | .commit => (List.replicate (depth.getD 0 + 1) (.ended true), none)
  | .rollback => ((depth.map fun n => List.replicate (n + 1) (.ended false)).getD [], none)

def events (depth : Option ℕ) : List Call → List Event
  | [] => []
  | call :: rest => (call.events depth).1 ++ events (call.events depth).2 rest

/-- The scheduler, and in which of the open transactions the tasks were scheduled. -/
structure World where
  scheduler : Scheduler := {}
  scheduled : Savepoints ℕ := {}

def World.schedule (brokerUrl : Option String) (f : Scheduler → Scheduler) (w : World) :
    World where
  scheduler := f w.scheduler
  scheduled :=
    if celeryIsAvailable brokerUrl then w.scheduled.note w.scheduler.calls else w.scheduled

def World.handle (brokerUrl : Option String) (w : World) : Event → World
  | .delayAfterCommit task args kwargs =>
      w.schedule brokerUrl (Scheduler.delayAfterCommit brokerUrl task args kwargs)
  | .applyAsyncAfterCommit task args kwargs options =>
      w.schedule brokerUrl (Scheduler.applyAsyncAfterCommit brokerUrl task args kwargs options)
  | .beginNested => { w with scheduled := w.scheduled.beginNested }
  | .ended true => ⟨w.scheduler.afterCommit brokerUrl, w.scheduled.committed⟩
  | .ended false => ⟨w.scheduler.afterRollback, w.scheduled.rolledBack⟩

/-- Celery has been given each task whose transactions have all been committed once, and no
other. -/
def World.Dispatched (w : World) : Prop :=
  ∀ ticket, (w.scheduler.handed.map Prod.fst).count ticket =
    if ticket ∈ w.scheduled.lasting then 1 else 0

/-- At the release of a savepoint nothing waits to be handed over; at the outermost commit
all that is to last does. -/
def World.Timely (w : World) : Event → Prop
  | .ended true =>
      if w.scheduled.inner = [] then
        ∀ ticket ∈ w.scheduled.owed, ticket ∈ w.scheduler.ready.map Prod.fst
      else w.scheduler.ready = []
  | _ => True

section Scheduler

variable {b : Option String} {s : Scheduler}

theorem Scheduler.onCommit_of_empty (empty : s.pendingTasks = []) : s.onCommit b = s := by
  cases s with
  | mk pendingTasks commitHooks rollbackHooks handed calls =>
    cases empty
    simp [onCommit, ready]

theorem Scheduler.afterCommit_eq (hooked : s.pendingTasks ≠ [] → 0 < s.commitHooks) :
    s.afterCommit b = { s.onCommit b with commitHooks := 0 } := by
  have cleared : (s.onCommit b).pendingTasks = [] := by
    rw [onCommit]
    split <;> rfl
  have once : (onCommit b)^[ s.commitHooks] s = s.onCommit b := by
    by_cases empty : s.pendingTasks = []
    · rw [Function.iterate_fixed (onCommit_of_empty empty), onCommit_of_empty empty]
    · obtain ⟨n, more⟩ := Nat.exists_eq_succ_of_ne_zero (hooked empty).ne'
      rw [more, Function.iterate_succ_apply, Function.iterate_fixed (onCommit_of_empty cleared)]
  rw [afterCommit, once]

theorem Scheduler.onRollback_eq : s.onRollback = { s with pendingTasks := [] } := by
  rw [onRollback]
  split
  · rename_i empty
    rw [← List.isEmpty_iff.mp empty]
  · rfl

theorem Scheduler.afterRollback_eq (hooked : s.pendingTasks ≠ [] → 0 < s.rollbackHooks) :
    s.afterRollback = { s with pendingTasks := [], rollbackHooks := 0 } := by
  have fixed : onRollback { s with pendingTasks := [] } = { s with pendingTasks := [] } :=
    onRollback_eq
  have once : onRollback^[ s.rollbackHooks] s = { s with pendingTasks := [] } := by
    by_cases empty : s.pendingTasks = []
    · have same : s.onRollback = s := by rw [onRollback_eq, ← empty]
      rw [Function.iterate_fixed same, ← empty]
    · obtain ⟨n, more⟩ := Nat.exists_eq_succ_of_ne_zero (hooked empty).ne'
      rw [more, Function.iterate_succ_apply, onRollback_eq, Function.iterate_fixed fixed, more]
  rw [afterRollback, once]

end Scheduler

/-- Whatever waits is owed, the tasks have numbers of their own, and who waits has a listener
for either end. -/
structure World.Kept (brokerUrl : Option String) (w : World) : Prop where
  waiting : (w.scheduler.pendingTasks.map Pending.ticket).Sublist w.scheduled.owed
  distinct : (w.scheduled.lasting ++ w.scheduled.owed).Nodup
  older : ∀ ticket ∈ w.scheduled.lasting ++ w.scheduled.owed, ticket < w.scheduler.calls
  hooked : w.scheduler.pendingTasks ≠ [] →
    0 < w.scheduler.commitHooks ∧ 0 < w.scheduler.rollbackHooks
  skipped : celeryIsAvailable brokerUrl = false → w.scheduler.pendingTasks = []

variable {b : Option String} {w : World}

theorem World.Kept.initial : World.Kept b {} where
  waiting := List.Sublist.refl _
  distinct := List.nodup_nil
  older := by simp [Savepoints.owed]
  hooked nonempty := absurd rfl nonempty
  skipped _ := rfl

theorem World.Kept.append (kept : w.Kept b) (available : celeryIsAvailable b = true)
    (task : String) (args : List Json) (kwargs : Kwargs) :
    World.Kept b ⟨w.scheduler.append task args kwargs, w.scheduled.note w.scheduler.calls⟩ := by
  have fields : (w.scheduler.append task args kwargs).pendingTasks =
        w.scheduler.pendingTasks ++ [⟨w.scheduler.calls, task, args, kwargs⟩] ∧
      (w.scheduler.append task args kwargs).calls = w.scheduler.calls + 1 := by
    rw [Scheduler.append]
    dsimp only
    split <;> exact ⟨rfl, rfl⟩
  constructor
  · rw [fields.1, Savepoints.owed_note, List.map_append]
    exact kept.waiting.append (List.Sublist.refl _)
  · rw [Savepoints.owed_note, Savepoints.lasting_note, ← List.append_assoc]
    refine List.nodup_append.mpr ⟨kept.distinct, List.nodup_singleton _, fun a old c new => ?_⟩
    have older := kept.older a old
    have new : c = w.scheduler.calls := List.mem_singleton.mp new
    omega
  · intro ticket mem
    rw [Savepoints.owed_note, Savepoints.lasting_note, ← List.append_assoc] at mem
    rw [fields.2]
    rcases List.mem_append.mp mem with old | new
    · exact (kept.older ticket old).trans (Nat.lt_succ_self _)
    · have same : ticket = w.scheduler.calls := List.mem_singleton.mp new
      omega
  · intro _
    rw [Scheduler.append]
    dsimp only
    split
    · exact ⟨Nat.succ_pos _, Nat.succ_pos _⟩
    · rename_i several
      refine kept.hooked fun empty => several ?_
      rw [empty]
      rfl
  · intro unavailable
    rw [available] at unavailable
    cases unavailable

theorem World.Kept.schedule {f : Scheduler → Scheduler} {task : String} {args : List Json}
    {kwargs : Kwargs} (kept : w.Kept b)
    (appends : f w.scheduler =
      if celeryIsAvailable b then w.scheduler.append task args kwargs else w.scheduler) :
    (w.schedule b f).Kept b := by
  rw [World.schedule, appends]
  cases available : celeryIsAvailable b with
  | true =>
    rw [if_pos rfl, if_pos rfl]
    exact kept.append available task args kwargs
  | false =>
    rw [if_neg (by simp), if_neg (by simp)]
    exact kept

theorem World.Kept.cleared {s : Scheduler} {t : Savepoints ℕ} (kept : w.Kept b)
    (empty : s.pendingTasks = []) (calls : s.calls = w.scheduler.calls)
    (part : (t.lasting ++ t.owed).Sublist (w.scheduled.lasting ++ w.scheduled.owed)) :
    World.Kept b ⟨s, t⟩ where
  waiting := by
    rw [empty]
    exact List.nil_sublist _
  distinct := kept.distinct.sublist part
  older ticket mem := calls ▸ kept.older ticket (part.mem mem)
  hooked nonempty := absurd empty nonempty
  skipped _ := empty

/-- A commit hands over what waits, whatever listeners an earlier transaction has left. -/
theorem World.Kept.afterCommit (kept : w.Kept b) :
    (w.scheduler.afterCommit b).pendingTasks = [] ∧
      (w.scheduler.afterCommit b).calls = w.scheduler.calls ∧
      (w.scheduler.afterCommit b).handed = w.scheduler.handed ++ w.scheduler.ready := by
  rw [Scheduler.afterCommit_eq fun waits => (kept.hooked waits).1, Scheduler.onCommit]
  cases available : celeryIsAvailable b with
  | true =>
    rw [if_pos rfl]
    exact ⟨rfl, rfl, rfl⟩
  | false =>
    rw [if_neg (by simp)]
    refine ⟨rfl, rfl, ?_⟩
    rw [Scheduler.ready, kept.skipped available]
    simp

theorem World.Kept.handle (kept : w.Kept b) (event : Event) : (w.handle b event).Kept b := by
  cases event with
  | delayAfterCommit task args kwargs => exact kept.schedule rfl
  | applyAsyncAfterCommit task args kwargs options => exact kept.schedule rfl
  | beginNested =>
    have same : (w.scheduled.beginNested).lasting ++ (w.scheduled.beginNested).owed =
        w.scheduled.lasting ++ w.scheduled.owed := by
      rw [Savepoints.owed_beginNested, Savepoints.lasting_beginNested]
    refine ⟨?_, same ▸ kept.distinct, same ▸ kept.older, kept.hooked, kept.skipped⟩
    rw [World.handle, Savepoints.owed_beginNested]
    exact kept.waiting
  | ended committed =>
    cases committed with
    | true =>
      obtain ⟨empty, calls, -⟩ := kept.afterCommit
      refine kept.cleared empty calls ?_
      rw [Savepoints.committed_append]
    | false =>
      have hooked : w.scheduler.pendingTasks ≠ [] → 0 < w.scheduler.rollbackHooks :=
        fun waits => (kept.hooked waits).2
      refine kept.cleared ?_ ?_ ?_
      · rw [Scheduler.afterRollback_eq hooked]
      · rw [Scheduler.afterRollback_eq hooked]
      · rw [Savepoints.lasting_rolledBack]
        exact (List.Sublist.refl _).append Savepoints.owed_rolledBack.sublist

theorem Scheduler.ready_sublist {s : Scheduler} :
    (s.ready.map Prod.fst).Sublist (s.pendingTasks.map Pending.ticket) := by
  rw [ready]
  induction s.pendingTasks with
  | nil => exact List.Sublist.refl _
  | cons p rest ih =>
    rw [List.filterMap_cons]
    cases p.handOver with
    | none => exact ih.cons _
    | some handing => exact ih.cons_cons _

theorem World.Kept.count_ready (kept : w.Kept b) (ticket : ℕ) :
    (w.scheduler.ready.map Prod.fst).count ticket =
      if ticket ∈ w.scheduler.ready.map Prod.fst then 1 else 0 := by
  have nodup := (List.nodup_append.mp kept.distinct).2.1
  have once := nodup.sublist (Scheduler.ready_sublist.trans kept.waiting)
  split
  · exact List.count_eq_one_of_mem once ‹_›
  · exact List.count_eq_zero_of_not_mem ‹_›

theorem World.Kept.dispatched_committed_iff (kept : w.Kept b) (now : w.Dispatched) :
    (w.handle b (.ended true)).Dispatched ↔ w.Timely (.ended true) := by
  have handed := kept.afterCommit.2.2
  have count : ∀ ticket, ((w.handle b (.ended true)).scheduler.handed.map Prod.fst).count ticket =
      (if ticket ∈ w.scheduled.lasting then 1 else 0) +
        if ticket ∈ w.scheduler.ready.map Prod.fst then 1 else 0 := by
    intro ticket
    rw [World.handle, handed, List.map_append, List.count_append, now, kept.count_ready]
  rw [World.Dispatched, World.Timely]
  simp only [count]
  split
  · rename_i outermost
    have lasting : (w.handle b (.ended true)).scheduled.lasting =
        w.scheduled.lasting ++ w.scheduled.owed :=
      (Savepoints.committed_of_outermost outermost).2
    obtain ⟨-, -, apart⟩ := List.nodup_append.mp kept.distinct
    simp only [lasting, List.mem_append]
    constructor
    · intro given ticket owed
      have fresh : ticket ∉ w.scheduled.lasting := fun old => apart ticket old ticket owed rfl
      by_contra absent
      have one := given ticket
      rw [if_neg fresh, if_neg absent, if_pos (.inr owed)] at one
      cases one
    · intro waiting ticket
      by_cases old : ticket ∈ w.scheduled.lasting
      · have absent : ticket ∉ w.scheduler.ready.map Prod.fst := fun mem =>
          apart ticket old ticket ((Scheduler.ready_sublist.trans kept.waiting).mem mem) rfl
        rw [if_pos old, if_neg absent, if_pos (.inl old)]
      · by_cases owed : ticket ∈ w.scheduled.owed
        · rw [if_neg old, if_pos (waiting ticket owed), if_pos (.inr owed)]
        · have absent : ticket ∉ w.scheduler.ready.map Prod.fst := fun mem =>
            owed ((Scheduler.ready_sublist.trans kept.waiting).mem mem)
          rw [if_neg old, if_neg absent, if_neg (by simp [old, owed])]
  · rename_i nested
    have lasting : (w.handle b (.ended true)).scheduled.lasting = w.scheduled.lasting :=
      (Savepoints.committed_of_nested nested).2
    simp only [lasting]
    constructor
    · intro given
      refine List.eq_nil_iff_forall_not_mem.mpr fun entry mem => ?_
      have none := given entry.1
      rw [if_pos (List.mem_map_of_mem mem)] at none
      omega
    · intro none ticket
      simp [none]

theorem World.Kept.dispatched_handle_iff (kept : w.Kept b) (now : w.Dispatched) (event : Event) :
    (w.handle b event).Dispatched ↔ w.Timely event := by
  have noted : ∀ f : Scheduler → Scheduler, (f w.scheduler).handed = w.scheduler.handed →
      (w.schedule b f).Dispatched := by
    intro f same ticket
    rw [World.schedule, same]
    dsimp only
    split
    · rw [Savepoints.lasting_note]
      exact now ticket
    · exact now ticket
  have append : ∀ task args kwargs, (w.scheduler.append task args kwargs).handed =
      w.scheduler.handed := by
    intro task args kwargs
    rw [Scheduler.append]
    dsimp only
    split <;> rfl
  cases event with
  | delayAfterCommit task args kwargs =>
    refine iff_of_true (noted _ ?_) trivial
    rw [Scheduler.delayAfterCommit]
    split
    · exact append ..
    · rfl
  | applyAsyncAfterCommit task args kwargs options =>
    refine iff_of_true (noted _ ?_) trivial
    rw [Scheduler.applyAsyncAfterCommit]
    split
    · exact append ..
    · rfl
  | beginNested => exact iff_of_true now trivial
  | ended committed =>
    cases committed with
    | true => exact kept.dispatched_committed_iff now
    | false =>
      refine iff_of_true (fun ticket => ?_) trivial
      rw [World.handle, Scheduler.afterRollback_eq fun waits => (kept.hooked waits).2,
        Savepoints.lasting_rolledBack]
      exact now ticket

/-- The dispatch is in order throughout a sequence of calls just when each of its commits
finds what it should: the innermost ones nothing, the outermost ones all that is to last. -/
theorem dispatched_throughout_iff (brokerUrl : Option String) (calls : List Call) :
    (∀ first, first <+: events none calls →
      ∀ w, run (total (World.handle brokerUrl)) {} first = some w → w.Dispatched) ↔
    Along (total (World.handle brokerUrl)) World.Timely {} (events none calls) := by
  refine forall_prefix_iff_along (P := fun w => w.Kept brokerUrl ∧ w.Dispatched)
    (fun good => good.2) ?_ ?_ ?_ ⟨World.Kept.initial, fun ticket => rfl⟩
  · intro w event w' good timely taken
    cases taken
    exact ⟨good.1.handle event, (good.1.dispatched_handle_iff good.2 event).mpr timely⟩
  · intro w event w' good taken dispatched
    cases taken
    exact (good.1.dispatched_handle_iff good.2 event).mp dispatched
  · intro w event stuck
    cases stuck

/-- A task that was scheduled inside a savepoint is under way as soon as the savepoint is
released; no rollback takes it back. -/
theorem released_task_not_dispatched : ¬ ∀ (brokerUrl : Option String) (calls : List Call),
    ∀ first, first <+: events none calls →
      ∀ w, run (total (World.handle brokerUrl)) {} first = some w → w.Dispatched := by
  intro always
  have early := always (some "redis://localhost")
    [.beginNested, .delayAfterCommit "audit_log" [] [], .releaseSavepoint, .rollback] _
    List.prefix_rfl _ rfl 0
  revert early
  decide +kernel

/-- No savepoint ends while a task waits, and none is given the reserved keyword. -/
def World.Flat (w : World) : Event → Prop
  | .delayAfterCommit _ _ kwargs => ∀ entry ∈ kwargs, entry.1 ≠ celeryOptionsKey
  | .ended _ => w.scheduled.inner = [] ∨ w.scheduler.pendingTasks = []
  | _ => True

theorem handOver_delay {ticket : ℕ} {task : String} {args : List Json} {kwargs : Kwargs}
    (plain : ∀ entry ∈ kwargs, entry.1 ≠ celeryOptionsKey) :
    (Pending.handOver ⟨ticket, task, args, kwargs⟩).isSome := by
  have absent : kwargs.find? (fun entry => entry.1 = celeryOptionsKey) = none := by
    simpa using plain
  simp [Pending.handOver, pop, absent]

theorem handOver_applyAsync {ticket : ℕ} {task : String} {args : List Json} {kwargs : Kwargs}
    (options : Options) : (Pending.handOver ⟨ticket, task, args,
      Json.setEntry celeryOptionsKey (.obj options.entries) kwargs⟩).isSome := by
  have other : options.entries.any (fun entry => entry.1 = "args" ∨ entry.1 = "kwargs") =
      false := by
    simpa [List.any_eq_false] using options.named
  simp only [Pending.handOver, pop, Json.find?_setEntry, Option.map_some, other]
  split <;> rfl

structure World.Whole (w : World) : Prop where
  owed : w.scheduled.owed = w.scheduler.pendingTasks.map Pending.ticket
  sound : ∀ p ∈ w.scheduler.pendingTasks, p.handOver.isSome

theorem World.Whole.ready (whole : w.Whole) :
    w.scheduler.ready.map Prod.fst = w.scheduled.owed := by
  rw [whole.owed, Scheduler.ready]
  have sound := whole.sound
  revert sound
  induction w.scheduler.pendingTasks with
  | nil => exact fun _ => rfl
  | cons p rest ih =>
    intro sound
    obtain ⟨head, tail⟩ := List.forall_mem_cons.mp sound
    obtain ⟨handing, found⟩ := Option.isSome_iff_exists.mp head
    rw [List.filterMap_cons, found]
    simp [ih tail]

theorem World.Whole.append (whole : w.Whole) {task : String} {args : List Json} {kwargs : Kwargs}
    (sound : (Pending.handOver ⟨w.scheduler.calls, task, args, kwargs⟩).isSome) :
    World.Whole ⟨w.scheduler.append task args kwargs, w.scheduled.note w.scheduler.calls⟩ := by
  have pendingTasks : (w.scheduler.append task args kwargs).pendingTasks =
      w.scheduler.pendingTasks ++ [⟨w.scheduler.calls, task, args, kwargs⟩] := by
    rw [Scheduler.append]
    dsimp only
    split <;> rfl
  constructor
  · rw [Savepoints.owed_note, pendingTasks, List.map_append, whole.owed]
    rfl
  · intro p mem
    rw [pendingTasks] at mem
    rcases List.mem_append.mp mem with old | new
    · exact whole.sound p old
    · rw [List.mem_singleton.mp new]
      exact sound

theorem World.Whole.handle (kept : w.Kept b) (whole : w.Whole) {event : Event}
    (flat : w.Flat event) : (w.handle b event).Whole := by
  cases event with
  | delayAfterCommit task args kwargs =>
    rw [World.handle, World.schedule, Scheduler.delayAfterCommit]
    split
    · exact whole.append (handOver_delay flat)
    · exact whole
  | applyAsyncAfterCommit task args kwargs options =>
    rw [World.handle, World.schedule, Scheduler.applyAsyncAfterCommit]
    split
    · exact whole.append (handOver_applyAsync options)
    · exact whole
  | beginNested =>
    refine ⟨?_, whole.sound⟩
    rw [World.handle, Savepoints.owed_beginNested]
    exact whole.owed
  | ended committed =>
    have idle : w.scheduler.pendingTasks = [] → w.scheduled.owed = [] := by
      intro empty
      rw [whole.owed, empty]
      rfl
    cases committed with
    | true =>
      have empty : (w.handle b (.ended true)).scheduler.pendingTasks = [] := kept.afterCommit.1
      refine ⟨?_, by simp [empty]⟩
      rw [empty]
      by_cases outermost : w.scheduled.inner = []
      · exact (Savepoints.committed_of_outermost outermost).1
      · rw [World.handle, (Savepoints.committed_of_nested outermost).1]
        exact idle (flat.resolve_left outermost)
    | false =>
      have empty : (w.handle b (.ended false)).scheduler.pendingTasks = [] := by
        rw [World.handle, Scheduler.afterRollback_eq fun waits => (kept.hooked waits).2]
      refine ⟨?_, by simp [empty]⟩
      rw [empty]
      rcases flat with outermost | none
      · rw [World.handle, Savepoints.rolledBack, outermost]
        simp [Savepoints.owed]
      · have part : (w.handle b (.ended false)).scheduled.owed <+: w.scheduled.owed :=
          Savepoints.owed_rolledBack
        rw [idle none] at part
        exact List.prefix_nil.mp part

theorem World.Whole.timely (whole : w.Whole) {event : Event} (flat : w.Flat event) :
    w.Timely event := by
  cases event with
  | ended committed =>
    cases committed with
    | true =>
      rw [World.Timely]
      split
      · rw [whole.ready]
        exact fun _ owed => owed
      · rename_i nested
        rw [Scheduler.ready, flat.resolve_left nested]
        rfl
    | false => trivial
  | _ => trivial

/-- Transactions whose savepoints end with no task waiting are dispatched in order, one after
the other. -/
theorem timely_of_flat (brokerUrl : Option String) {calls : List Event}
    (flat : Along (total (World.handle brokerUrl)) World.Flat {} calls) :
    Along (total (World.handle brokerUrl)) World.Timely {} calls := by
  refine along_of_invariant (P := fun w => w.Kept brokerUrl ∧ w.Whole) ?_
    (fun good flat => good.2.timely flat) ⟨World.Kept.initial, rfl, by simp⟩ flat
  intro w event w' good flat taken
  cases taken
  exact ⟨good.1.handle event, good.2.handle good.1 flat⟩

/-- Where no savepoint ends while a task waits, Celery has been given just the tasks whose
transactions have all been committed, each of them once, after any sequence of calls. -/
theorem dispatched_of_flat {brokerUrl : Option String} {calls : List Call} {w : World}
    (flat : Along (total (World.handle brokerUrl)) World.Flat {} (events none calls))
    (reached : run (total (World.handle brokerUrl)) {} (events none calls) = some w) :
    w.Dispatched := by
  have start : (World.Kept brokerUrl {} ∧ World.Dispatched {}) ∧ World.Whole {} :=
    ⟨⟨World.Kept.initial, fun ticket => rfl⟩, rfl, by simp⟩
  refine (run_invariant (P := fun w => (w.Kept brokerUrl ∧ w.Dispatched) ∧ w.Whole) ?_ start flat
    reached).1.2
  rintro w event w' ⟨⟨kept, dispatched⟩, whole⟩ flat taken
  cases taken
  have timely := whole.timely flat
  exact ⟨⟨kept.handle event, (kept.dispatched_handle_iff dispatched event).mpr timely⟩,
    whole.handle kept flat⟩

/-- A savepoint is released before the task is scheduled. -/
def releasedBefore : List Call :=
  [.beginNested, .releaseSavepoint, .delayAfterCommit "audit_log" [] [], .commit]

theorem dispatched_of_flat_before : ∃ w, run (total (World.handle (some "redis://localhost"))) {}
    (events none releasedBefore) = some w ∧ w.scheduler.handed.map Prod.fst = [0] ∧
      w.Dispatched := by
  refine ⟨_, rfl, by decide +kernel, @dispatched_of_flat _ releasedBefore _ ?_ rfl⟩
  apply (along_cons_of_step rfl).mpr
  refine ⟨trivial, (along_cons_of_step rfl).mpr ⟨.inr rfl, ?_⟩⟩
  apply (along_cons_of_step rfl).mpr
  refine ⟨fun entry mem => (by cases mem), (along_cons_of_step rfl).mpr ⟨.inl rfl, trivial⟩⟩

end Deeting.Celery
