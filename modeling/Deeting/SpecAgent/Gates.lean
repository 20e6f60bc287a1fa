import Deeting.SpecAgent.Recovery

/-! A plan of actions and gates in which nothing fails: what the gates leave out, and that each
call of `run_step` brings the plan nearer to its completion. -/
namespace Deeting.SpecAgent
open Transition

/-- The nodes that a plan is to leave out: every child of a gate but the one that it chose, and
every node that needs one that is left out. -/
inductive LeftOut (m : SpecManifest) (chose : NodeId → NodeId → Prop) : NodeId → Prop where
  | branch {gate next child : NodeId} (chosen : chose gate next) (branches : child ∈ m.children gate)
      (other : child ≠ next) : LeftOut m chose child
  | under {id child : NodeId} (leftOut : LeftOut m chose id) (needs : child ∈ m.children id) :
      LeftOut m chose child

theorem LeftOut.mono {m : SpecManifest} {chose also : NodeId → NodeId → Prop} {id : NodeId}
    (more : ∀ gate next, chose gate next → also gate next) (leftOut : LeftOut m chose id) :
    LeftOut m also id := by
  induction leftOut with
  | branch chosen branches other => exact .branch (more _ _ chosen) branches other
  | under _ needs ih => exact .under ih needs

def SpecManifest.Plain (m : SpecManifest) : Prop :=
  ∀ node ∈ m.nodes, node.checkIn = false ∧ node.kind ≠ .replanTrigger

/-- No sub-agent and no gate raises, and no step is cut off. -/
def World.Smooth (w : World) : Action → Prop
  | .execute | .interrupt => w.Idle
  | .perform .raised => ∀ e node log rest, w.executor = some e → e.skips = [] →
      e.work ≠ .carry node log :: rest
  | _ => True

namespace Chronicle

structure Orderly (m : SpecManifest) (c : Chronicle) : Prop where
  leftOut : c.world.Idle → ∀ id, statusOf c.world.logs id = some .skipped ↔
    LeftOut m (fun gate next =>
      (gate, next) ∈ c.picks ∧ statusOf c.world.logs gate = some .success) id
  chosen : ∀ node ∈ m.nodes, node.kind = .logicGate → statusOf c.world.logs node.id = some .success →
    ∃ next, (node.id, next) ∈ c.picks
  marked : ∀ id, id ∈ c.skipped ↔ statusOf c.world.logs id = some .skipped
  apart : ∀ id ∈ c.started, id ∉ c.skipped
  once : c.started.Nodup
  results : ∃ (executed : List ℕ) (n : ℕ),
    c.results = executed.map .running ++ List.replicate n .completed ∧
      executed.length ≤ m.nodes.length
  goes : ∀ e, c.world.executor = some e → ¬ c.world.Idle →
    ∃ outcome, outcome ≠ .raised ∧ (watch m c (.perform outcome)).isSome
  ends : ∀ outcomes d, run (fun c outcome => watch m c (.perform outcome)) c outcomes = some d →
    outcomes.length ≤ c.world.weight m
  answered : c.world.Idle → c.results.length = c.calls

end Chronicle

structure Branching (m : SpecManifest) (statuses : NodeId → Option LogStatus)
    (picks : List (NodeId × NodeId)) (due : List NodeId) (work : List Work) : Prop where
  picked : ∀ gate next, (gate, next) ∈ picks →
    statuses gate = some .running ∨ statuses gate = some .success
  branches : ∀ gate next child, (gate, next) ∈ picks → child ∈ m.children gate → child ≠ next →
    statuses child = some .skipped ∨ child ∈ due
  leftOut : ∀ id, statuses id = some .skipped ∨ id ∈ due →
    LeftOut m (fun gate next => (gate, next) ∈ picks) id
  chosen : ∀ node ∈ m.nodes, node.kind = .logicGate →
    (statuses node.id = some .success ∨
      statuses node.id = some .running ∧ ∃ log rest, work = .close log :: rest) →
    ∃ next, (node.id, next) ∈ picks

section Branching

variable {m : SpecManifest} {f : NodeId → Option LogStatus} {picks : List (NodeId × NodeId)}
  {due ids : List NodeId} {work rest : List Work} {id : NodeId} {status : LogStatus}

namespace Branching

theorem goesOn (branching : Branching m f picks due work) {later : List Work}
    (closes : ∀ log rest, later ≠ .close log :: rest) : Branching m f picks due later where
  picked := branching.picked
  branches := branching.branches
  leftOut := branching.leftOut
  chosen node listed gate := by
    rintro (success | ⟨-, log, rest, close⟩)
    · exact branching.chosen node listed gate (.inl success)
    · exact absurd close (closes log rest)

theorem skipCached (branching : Branching m f picks (id :: ids) work)
    (skipped : f id = some .skipped) : Branching m f picks ids work where
  picked := branching.picked
  branches gate next child picked branch other := by
    rcases branching.branches gate next child picked branch other with done | mem
    · exact .inl done
    rcases List.mem_cons.mp mem with rfl | mem
    · exact .inl skipped
    · exact .inr mem
  leftOut other := fun due => branching.leftOut other (due.imp_right (List.mem_cons_of_mem _))
  chosen := branching.chosen

theorem skip (branching : Branching m f picks (id :: ids) work) (absent : f id = none) :
    Branching m (Function.update f id (some .skipped)) picks (m.children id ++ ids) work where
  picked gate next picked := by
    have elsewhere : gate ≠ id := by
      rintro rfl
      simpa [absent] using branching.picked gate next picked
    rw [Function.update_of_ne elsewhere]
    exact branching.picked gate next picked
  branches gate next child picked branch other := by
    by_cases same : child = id
    · rw [same, Function.update_self]
      exact .inl rfl
    · rw [Function.update_of_ne same]
      refine (branching.branches gate next child picked branch other).imp_right fun mem => ?_
      exact List.mem_append_right _ ((List.mem_cons.mp mem).resolve_left same)
  leftOut other due := by
    have now : LeftOut m (fun gate next => (gate, next) ∈ picks) id :=
      branching.leftOut id (.inr List.mem_cons_self)
    by_cases same : other = id
    · exact same ▸ now
    rw [Function.update_of_ne same] at due
    rcases due with done | mem
    · exact branching.leftOut other (.inl done)
    rcases List.mem_append.mp mem with needs | mem
    · exact .under now needs
    · exact branching.leftOut other (.inr (List.mem_cons_of_mem _ mem))
  chosen node listed gate due := by
    refine branching.chosen node listed gate ?_
    by_cases same : node.id = id
    · rw [same, Function.update_self] at due
      simp at due
    · rwa [Function.update_of_ne same] at due

theorem settle (branching : Branching m f picks [] work) (open_ : f id = none ∨ f id = some .running)
    (settles : status = .running ∨ status = .success)
    (gates : ∀ node ∈ m.nodes, node.kind = .logicGate → node.id = id → status = .success →
      ∃ next, (id, next) ∈ picks)
    {later : List Work} (closes : ∀ log rest, later ≠ .close log :: rest) :
    Branching m (Function.update f id (some status)) picks [] later where
  picked gate next picked := by
    by_cases same : gate = id
    · rw [same, Function.update_self]
      exact settles.imp (congrArg some) (congrArg some)
    · rw [Function.update_of_ne same]
      exact branching.picked gate next picked
  branches gate next child picked branch other := by
    refine (branching.branches gate next child picked branch other).imp_left fun done => ?_
    rw [Function.update_of_ne, done]
    rintro rfl
    simp [done] at open_
  leftOut other due := by
    refine branching.leftOut other (due.imp_left fun done => ?_)
    by_cases same : other = id
    · rw [same, Function.update_self, Option.some.injEq] at done
      simp [done] at settles
    · rwa [Function.update_of_ne same] at done
  chosen node listed gate := by
    rintro (success | ⟨-, log, rest, close⟩)
    · by_cases same : node.id = id
      · rw [same, Function.update_self, Option.some.injEq] at success
        rw [same]
        exact gates node listed gate same success
      · rw [Function.update_of_ne same] at success
        exact branching.chosen node listed gate (.inl success)
    · exact absurd close (closes log rest)

theorem chose {node : SpecNode} {log : ℕ} (branching : Branching m f picks [] work)
    (running : f node.id = some .running)
    (alone : ∀ a b, f a = some .running → f b = some .running → a = b) (next : NodeId) :
    Branching m f ((node.id, next) :: picks) ((m.children node.id).filter (· ≠ next))
      (.close log :: rest) where
  picked gate other picked := by
    rcases List.mem_cons.mp picked with same | picked
    · obtain ⟨rfl, -⟩ := Prod.mk.inj same
      exact .inl running
    · exact branching.picked gate other picked
  branches gate other child picked branch differs := by
    rcases List.mem_cons.mp picked with same | picked
    · obtain ⟨rfl, rfl⟩ := Prod.mk.inj same
      exact .inr (List.mem_filter.mpr ⟨branch, decide_eq_true differs⟩)
    · have done := branching.branches gate other child picked branch differs
      exact .inl (done.resolve_right List.not_mem_nil)
  leftOut id due := by
    rcases due with done | mem
    · exact (branching.leftOut id (.inl done)).mono fun _ _ => List.mem_cons_of_mem _
    · obtain ⟨branch, differs⟩ := List.mem_filter.mp mem
      exact .branch List.mem_cons_self branch (of_decide_eq_true differs)
  chosen other listed gate := by
    rintro (success | ⟨still, -⟩)
    · obtain ⟨before, picked⟩ := branching.chosen other listed gate (.inl success)
      exact ⟨before, List.mem_cons_of_mem _ picked⟩
    · exact ⟨next, alone other.id node.id still running ▸ List.mem_cons_self⟩

theorem skipped_iff (branching : Branching m f picks [] work) (sound : Sound m f [] work)
    (idle : ∀ id, f id ≠ some .running) : f id = some .skipped ↔
      LeftOut m (fun gate next => (gate, next) ∈ picks ∧ f gate = some .success) id := by
  constructor
  · intro skipped
    refine (branching.leftOut id (.inl skipped)).mono fun gate next picked => ⟨picked, ?_⟩
    exact (branching.picked gate next picked).resolve_left (idle gate)
  · intro leftOut
    induction leftOut with
    | branch chosen branch other =>
      have done := branching.branches _ _ _ chosen.1 branch other
      exact done.resolve_right List.not_mem_nil
    | under _ needs ih => exact (sound.closed _ _ ih needs).resolve_right List.not_mem_nil

end Branching

end Branching

structure Concluding (m : SpecManifest) (statuses : NodeId → Option LogStatus) (work : List Work)
    (results : List StepResult) : Prop where
  shape : ∃ (executed : List ℕ) (n : ℕ),
    results = executed.map .running ++ List.replicate n .completed ∧
      (n ≠ 0 → ∀ node ∈ m.nodes, Done (statuses node.id))
  reports : ∀ status result, .report status result ∈ work →
    status = some .completed ∧ result = .completed
  left : ∀ executed, .wrapUp executed ∈ work → .completed ∉ results

section Concluding

variable {m : SpecManifest} {f g : NodeId → Option LogStatus} {work rest : List Work}
  {results : List StepResult} {piece : Work}

namespace Concluding

theorem mono (concluding : Concluding m f work results)
    (kept : ∀ id, Done (f id) → Done (g id)) : Concluding m g work results where
  shape := by
    obtain ⟨executed, n, shape, done⟩ := concluding.shape
    exact ⟨executed, n, shape, fun some_ node listed => kept _ (done some_ node listed)⟩
  reports := concluding.reports
  left := concluding.left

theorem tail (concluding : Concluding m f (piece :: rest) results) : Concluding m f rest results where
  shape := concluding.shape
  reports status result mem := concluding.reports status result (List.mem_cons_of_mem _ mem)
  left executed mem := concluding.left executed (List.mem_cons_of_mem _ mem)

theorem cons (concluding : Concluding m f rest results) (goes : piece.ends = false) :
    Concluding m f (piece :: rest) results where
  shape := concluding.shape
  reports status result mem := by
    refine concluding.reports status result ((List.mem_cons.mp mem).resolve_left ?_)
    rintro rfl
    cases goes
  left executed mem := by
    refine concluding.left executed ((List.mem_cons.mp mem).resolve_left ?_)
    rintro rfl
    cases goes

theorem cut (concluding : Concluding m f work results) : Concluding m f [] results where
  shape := concluding.shape
  reports _ _ mem := by cases mem
  left _ mem := by cases mem

theorem report {status : Option PlanStatus} {result : StepResult}
    (concluding : Concluding m f [.report status result] results)
    (done : status = some .completed → ∀ node ∈ m.nodes, Done (f node.id)) :
    Concluding m f [] (results ++ [result]) where
  shape := by
    obtain ⟨executed, n, shape, -⟩ := concluding.shape
    obtain ⟨completed, rfl⟩ := concluding.reports status result List.mem_cons_self
    refine ⟨executed, n + 1, ?_, fun _ => done completed⟩
    rw [shape, List.append_assoc, List.replicate_succ']
  reports _ _ mem := by cases mem
  left _ mem := by cases mem

theorem wrapUp {executed : ℕ} (concluding : Concluding m f [.wrapUp executed] results) :
    Concluding m f [] (results ++ [.running executed]) where
  shape := by
    obtain ⟨before, n, shape, -⟩ := concluding.shape
    have none : n = 0 := by
      by_contra some_
      refine concluding.left executed List.mem_cons_self ?_
      rw [shape]
      exact List.mem_append_right _ (List.mem_replicate.mpr ⟨some_, rfl⟩)
    refine ⟨before ++ [executed], 0, ?_, fun some_ => absurd rfl some_⟩
    rw [shape, none, List.map_append]
    simp
  reports _ _ mem := by cases mem
  left _ mem := by cases mem

theorem schedule {logs : List LogRow} {ran : List NodeId} {e : Executor}
    (recorded : Recorded m logs ran) (concluding : Concluding m (statusOf logs) [] results)
    (sound : Sound m (statusOf logs) [] [])
    (settled : ∀ id status, statusOf logs id = some status →
      status = .running ∨ status = .success ∨ status = .skipped) :
    Concluding m (statusOf logs) (e.schedule m logs).work results := by
  have single := recorded.single
  have unfailed : ∀ id, statusOf logs id ≠ some .failed := fun id failed => by
    simpa using settled id _ failed
  have unwaiting : idsWith .waitingApproval (getLatestNodeLogs logs) = [] := by
    rw [List.eq_nil_iff_forall_not_mem]
    intro id mem
    simpa using settled id _ (single.mem_idsWith.mp mem)
  rw [Executor.schedule, if_neg (not_not.mpr ((failed_ids single).mpr unfailed))]
  dsimp only
  split
  · rename_i unready
    have moves := verdict_moves recorded unfailed sound unready
    have completes : verdict m (getLatestNodeLogs logs) = .report (some .completed) .completed := by
      unfold verdict at moves ⊢
      split
      · rfl
      · rename_i uncounted
        rw [if_neg uncounted, if_neg (not_not.mpr unwaiting)] at moves
        exact absurd rfl (moves none)
    rw [completes]
    exact ⟨concluding.shape, by simp, by simp⟩
  · rename_i some_
    obtain ⟨node, mem⟩ := List.exists_mem_of_ne_nil _ some_
    obtain ⟨listed, ready⟩ := List.mem_filter.mp mem
    refine ⟨concluding.shape, by simp, fun _ _ completed => ?_⟩
    obtain ⟨executed, n, shape, done⟩ := concluding.shape
    have many : n ≠ 0 := by
      rintro rfl
      simp [shape] at completed
    have open_ := (readiness_executable single (of_decide_eq_true ready)).1
    rcases done many node listed with success | skipped
    · simpa using open_ _ success
    · simpa using open_ _ skipped

end Concluding

end Concluding

namespace Chronicle

structure Smoothly (m : SpecManifest) (c : Chronicle) : Prop where
  recoverable : c.Recoverable m
  settled : ∀ id status, statusOf c.world.logs id = some status →
    status = .running ∨ status = .success ∨ status = .skipped
  marked : ∀ id, id ∈ c.skipped ↔ statusOf c.world.logs id = some .skipped
  branching : Branching m (statusOf c.world.logs) c.picks c.world.due c.world.work
  concluding : Concluding m (statusOf c.world.logs) c.world.work c.results

end Chronicle

section Steps

variable {m : SpecManifest} {c d : Chronicle} {a : Action} {w t : World} {e : Executor}
  {id : NodeId} {status : LogStatus}

namespace Chronicle.Smoothly

theorem unfailed (smoothly : c.Smoothly m) (id : NodeId) :
    statusOf c.world.logs id ≠ some .failed :=
  fun failed => by simpa using smoothly.settled id _ failed

theorem sound (smoothly : c.Smoothly m) :
    Sound m (statusOf c.world.logs) c.world.due c.world.work :=
  smoothly.recoverable.guarded.resolve_left (not_exists.mpr smoothly.unfailed)

theorem orderly (smoothly : c.Smoothly m) : c.Orderly m where
  leftOut idle id := by
    have sound := smoothly.sound
    have branching := smoothly.branching
    rw [idle.1, idle.2] at sound branching
    exact branching.skipped_iff sound (sound.quiet (List.forall_mem_nil _))
  chosen node listed gate success := smoothly.branching.chosen node listed gate (.inl success)
  marked := smoothly.marked
  apart id started skipped := by
    obtain ⟨status, found, unskipped⟩ := (smoothly.recoverable.seen.started id).mp started
    rw [(smoothly.marked id).mp skipped, Option.some.injEq] at found
    exact unskipped found.symm
  once := smoothly.recoverable.seen.once
  results := by
    obtain ⟨executed, n, shape, -⟩ := smoothly.concluding.shape
    have few := smoothly.recoverable.recovers.few
    refine ⟨executed, n, shape, ?_⟩
    simpa [shape, List.countP_replicate, Function.comp_def, StepResult.goesOn] using few
  goes _ current busy := exists_watch current busy
  ends _ _ := length_le_weight
  answered := smoothly.recoverable.recovers.answered

end Chronicle.Smoothly

theorem settled_update {logs later : List LogRow}
    (settled : ∀ id status, statusOf logs id = some status →
      status = .running ∨ status = .success ∨ status = .skipped)
    (sets : statusOf later = Function.update (statusOf logs) id (some status))
    (settles : status = .running ∨ status = .success ∨ status = .skipped) (other : NodeId)
    (now : LogStatus) (found : statusOf later other = some now) :
    now = .running ∨ now = .success ∨ now = .skipped := by
  by_cases same : other = id
  · rw [sets, same, Function.update_self, Option.some.injEq] at found
    exact found ▸ settles
  · rw [sets, Function.update_of_ne same] at found
    exact settled other now found

theorem marked_update {logs later : List LogRow} {skipped : List NodeId}
    (marked : ∀ id, id ∈ skipped ↔ statusOf logs id = some .skipped)
    (sets : statusOf later = Function.update (statusOf logs) id (some status))
    (open_ : statusOf logs id ≠ some .skipped) (unskipped : status ≠ .skipped) (other : NodeId) :
    other ∈ skipped ↔ statusOf later other = some .skipped := by
  rw [marked, sets]
  by_cases same : other = id
  · rw [same, Function.update_self, Option.some.injEq]
    exact iff_of_false open_ unskipped
  · rw [Function.update_of_ne same]

theorem survives_of_smooth (smooth : w.Smooth a) : w.Survives a := by
  cases a with
  | execute | interrupt => exact .inl smooth
  | runStep | perform | interact | tick => trivial

theorem done_of_step (tracked : Tracked m w) (taken : step m w a = some t) (id : NodeId)
    (done : Done (statusOf w.logs id)) : Done (statusOf t.logs id) := by
  rcases done with success | skipped
  · exact .inl (done_step tracked taken success (.inl rfl))
  · exact .inr (done_step tracked taken skipped (.inr rfl))

theorem ne_close {work : List Work} (waits : ∀ piece ∈ work, piece.waits = true) (log : ℕ)
    (rest : List Work) : work ≠ .close log :: rest := by
  rintro rfl
  cases waits _ List.mem_cons_self

theorem schedule_waits (e : Executor) {logs : List LogRow} {piece : Work}
    (mem : piece ∈ (e.schedule m logs).work) : piece.waits = true := by
  unfold Executor.schedule at mem
  dsimp only at mem
  split at mem
  · rw [List.mem_singleton.mp mem]
    rfl
  dsimp only at mem
  split at mem
  · rw [List.mem_singleton.mp mem]
    unfold verdict
    split
    · rfl
    split
    · rfl
    · rfl
  · exact waits_of_starts mem

theorem Branching.of_executor {picks : List (NodeId × NodeId)} (current : w.executor = some e)
    (skips : e.skips = []) (branching : Branching m (statusOf w.logs) picks [] e.work) :
    Branching m (statusOf w.logs) picks w.due w.work := by
  rwa [World.due_of current, World.work_of current, skips]

theorem smoothly_step (plain : m.Plain) (smoothly : c.Smoothly m) (smooth : c.world.Smooth a)
    (watched : watch m c a = some d) : d.Smoothly m := by
  have recoverable := recoverable_step smoothly.recoverable (survives_of_smooth smooth) watched
  obtain ⟨t, taken, rfl⟩ := watch_eq_some.mp watched
  have tracked := smoothly.recoverable.seen.tracked
  have concluding := smoothly.concluding.mono (done_of_step tracked taken)
  have branching := smoothly.branching
  have sound := smoothly.sound
  have settled := smoothly.settled
  have marked := smoothly.marked
  have rounds := smoothly.recoverable.seen.answering.rounds
  have last {e : Executor} {piece : Work} {rest : List Work} (current : c.world.executor = some e)
      (work : e.work = piece :: rest) (ends : piece.ends = true) : rest = [] := by
    rw [World.work_of current, work] at rounds
    exact (rounds.resolve_left (List.cons_ne_nil _ _)).of_ends ends
  cases Moves.of_step taken with
  | execute =>
    obtain ⟨skips, work⟩ := create_idle m c.world.planContext c.world.logs
    refine ⟨recoverable, settled, marked, ?_, ?_⟩
    · rw [smooth.1, smooth.2] at branching
      simpa [Chronicle.note, World.due, World.work, skips, work] using branching
    · simpa [Chronicle.note, World.work, work] using concluding.cut
  | interrupt =>
    rw [smooth.1, smooth.2] at branching
    exact ⟨recoverable, settled, marked, branching, concluding.cut⟩
  | schedule current idle =>
    rename_i e
    rw [World.due_of current, World.work_of current, idle.1, idle.2] at sound branching
    rw [World.work_of current, idle.2] at concluding
    have skips := schedule_skips e tracked.recorded.single sound smoothly.unfailed
    refine ⟨recoverable, settled, marked, ?_, concluding.schedule tracked.recorded sound settled⟩
    change Branching m _ c.picks (e.schedule m c.world.logs).skips _
    rw [skips]
    exact branching.goesOn (ne_close fun _ => schedule_waits e)
  | skipCached _ current skips cached =>
    rw [note_skipCached current skips cached] at recoverable ⊢
    rw [World.due_of current, World.work_of current, skips] at branching
    rw [World.work_of current] at concluding
    refine ⟨recoverable, settled, marked, branching.skipCached ?_, concluding⟩
    exact ((tracked.executing _ current).cache _).mp cached
  | skip outcome current skips uncached =>
    rename_i e id rest
    obtain ⟨absent, sets⟩ := tracked.skip_sets current skips uncached
    rw [note_skip current skips uncached] at recoverable ⊢
    rw [World.due_of current, World.work_of current, skips] at branching
    rw [World.work_of current] at concluding
    refine ⟨recoverable, settled_update settled sets (by simp), fun other => ?_, ?_, concluding⟩
    · rw [List.mem_cons, marked, sets]
      by_cases same : other = id
      · simp [same]
      · simp [same]
    · exact sets ▸ branching.skip absent
  | start _ current skips work =>
    obtain ⟨listed, absent, sets⟩ := tracked.start_sets current work
    rw [note_start current skips work] at recoverable ⊢
    rw [World.due_of current, World.work_of current, skips] at branching
    rw [World.work_of current, work] at concluding
    refine ⟨recoverable, settled_update settled sets (by simp),
      marked_update marked sets (by simp [absent]) (by simp), ?_, concluding.tail.cons rfl⟩
    exact .of_executor rfl skips
      (sets ▸ branching.settle (.inl absent) (.inl rfl) (by simp) (by simp))
  | checkIn _ current skips work asks =>
    obtain ⟨listed, -⟩ := tracked.carry_sets current work .waitingApproval none
    rw [(plain _ listed).1] at asks
    cases asks
  | returned result current skips work unasked action =>
    obtain ⟨listed, running, sets⟩ := tracked.carry_sets current work .success
      (some (wrapResult result))
    rw [note_carry current skips work (by simp)] at recoverable ⊢
    rw [World.due_of current, World.work_of current, skips, work] at branching
    rw [World.work_of current, work] at concluding
    refine ⟨recoverable, settled_update settled sets (by simp),
      marked_update marked sets (by simp [running]) (by simp), ?_, concluding.tail⟩
    refine .of_executor rfl skips (sets ▸ branching.settle (.inr running) (.inr rfl) ?_
      (ne_close ((tracked.executing _ current).rest_waits work)))
    intro other present gate same
    rw [SpecManifest.eq_of_id present listed same] at gate
    simp [SpecNode.isAction, gate] at action
  | chose next current skips work gate =>
    obtain ⟨listed, running, -⟩ := tracked.carry_sets current work .success none
    rw [note_chose current skips work gate] at recoverable ⊢
    rw [World.due_of current, World.work_of current, skips, work] at branching
    rw [World.work_of current, work] at concluding
    exact ⟨recoverable, settled, marked, branching.chose running sound.alone next,
      concluding.tail.cons rfl⟩
  | raised current skips work unasked kind => exact absurd work (smooth _ _ _ _ current skips)
  | replan _ current skips work kind =>
    obtain ⟨listed, -⟩ := tracked.carry_sets current work .failed none
    exact absurd kind (plain _ listed).2
  | close _ current skips work =>
    obtain ⟨node, listed, gate, running, sets⟩ := tracked.close_sets current work .success none
    rw [note_close current skips work] at recoverable ⊢
    rw [World.due_of current, World.work_of current, skips, work] at branching
    rw [World.work_of current, work] at concluding
    refine ⟨recoverable, settled_update settled sets (by simp),
      marked_update marked sets (by simp [running]) (by simp), ?_, concluding.tail⟩
    refine .of_executor rfl skips (sets ▸ branching.settle (.inr running) (.inr rfl) ?_
      (ne_close ((tracked.executing _ current).rest_waits work)))
    intro other present gate same _
    exact same ▸ branching.chosen other present gate (.inr ⟨same ▸ running, _, _, rfl⟩)
  | report _ current skips work =>
    rw [note_report current skips work] at recoverable ⊢
    rw [World.due_of current, World.work_of current, skips, work] at branching
    rw [World.work_of current, work] at concluding
    have fits := (tracked.executing _ current).fits _ (work ▸ List.mem_cons_self)
    have rest := last current work rfl
    subst rest
    refine ⟨recoverable, settled, marked, ?_, concluding.report fits⟩
    exact .of_executor rfl skips (branching.goesOn (by simp))
  | wrapUp _ current skips work =>
    rw [note_wrapUp current skips work] at recoverable ⊢
    rw [World.due_of current, World.work_of current, skips, work] at branching
    rw [World.work_of current, work] at concluding
    have rest := last current work rfl
    subst rest
    refine ⟨recoverable, settled, marked, ?_, concluding.wrapUp⟩
    exact .of_executor rfl skips (branching.goesOn (by simp))
  | refused => exact ⟨recoverable, settled, marked, branching, concluding⟩
  | approved feedback waits approves =>
    obtain ⟨waiting, -⟩ := tracked.decide_sets waits .success none
    simpa using settled _ _ waiting
  | rejected feedback waits =>
    obtain ⟨waiting, -⟩ := tracked.decide_sets waits .failed none
    simpa using settled _ _ waiting
  | tick => exact ⟨recoverable, settled, marked, branching, concluding⟩

end Steps

theorem smoothly_planned (m : SpecManifest) : (Chronicle.planned m).Smoothly m where
  recoverable := recoverable_planned m
  settled := by simp [Chronicle.planned, World.planned, statusOf_nil]
  marked := by simp [Chronicle.planned, World.planned, statusOf_nil]
  branching :=
    { picked := by simp [Chronicle.planned]
      branches := by simp [Chronicle.planned]
      leftOut := by simp [Chronicle.planned, World.planned, World.due, statusOf_nil]
      chosen := by simp [Chronicle.planned, World.planned, statusOf_nil] }
  concluding :=
    { shape := ⟨[], 0, rfl, fun some_ => absurd rfl some_⟩
      reports := by simp [Chronicle.planned, World.planned, World.work]
      left := by simp [Chronicle.planned, World.planned, World.work] }

/-- A plan of actions and gates in which nothing fails leaves out what its gates do not choose,
executes everything else once, and is completed after as many steps as it has nodes at most. -/
theorem orderly_throughout {m : SpecManifest} {actions : List Action} {c : Chronicle}
    (plain : m.Plain)
    (smooth : Along (watch m) (fun c a => c.world.Smooth a) (.planned m) actions)
    (reached : run (watch m) (.planned m) actions = some c) : c.Orderly m := by
  have smoothly := run_invariant (smoothly_step plain) (smoothly_planned m) smooth reached
  exact smoothly.orderly

section Fork

def fork : SpecManifest where
  nodes := [⟨"G", .logicGate, []⟩, ⟨"A", .action none false, ["G"]⟩,
    ⟨"B", .action none false, ["G"]⟩, ⟨"J", .action none false, ["A", "B"]⟩]
  distinct := by decide
  closed := by decide
  acyclic := by
    refine Digraph.acyclic_of_rank (fun id => if id = "G" then 0 else if id = "J" then 2 else 1) ?_
    rintro _ dep ⟨node, listed, rfl, need⟩
    simp only [List.mem_cons, List.not_mem_nil, or_false] at listed
    rcases listed with rfl | rfl | rfl | rfl
    · cases need
    · rw [List.mem_singleton.mp need]
      decide
    · rw [List.mem_singleton.mp need]
      decide
    · simp only [List.mem_cons, List.not_mem_nil, or_false] at need
      rcases need with rfl | rfl
      · decide
      · decide

/-- The gate chooses the first branch; the other and the join are skipped. -/
def forkRun : List Action :=
  [.execute, .runStep, .perform (.returned .null), .perform (.chose "A"), .perform (.returned .null),
    .perform (.returned .null), .perform (.returned .null), .perform (.returned .null),
    .runStep, .perform (.returned .null), .perform (.returned .null), .perform (.returned .null),
    .runStep, .perform (.returned .null)]

theorem fork_orderly :
    ∃ c, run (watch fork) (.planned fork) forkRun = some c ∧ c.Orderly fork ∧
      c.skipped = ["J", "B"] ∧ c.started = ["A", "G"] ∧
      c.results = [.running 1, .running 1, .completed] := by
  have plain : fork.Plain := by
    unfold SpecManifest.Plain
    decide
  have smooth : Along (watch fork) (fun c a => c.world.Smooth a) (.planned fork) forkRun := by
    refine (along_cons_of_step rfl).mpr ⟨⟨rfl, rfl⟩, ?_⟩
    repeat refine (along_cons_of_step rfl).mpr ⟨trivial, ?_⟩
    trivial
  exact ⟨_, rfl, orderly_throughout plain smooth rfl, rfl, rfl, rfl⟩

end Fork

end Deeting.SpecAgent
