import Deeting.SpecAgent.Chronicle

/-! Recovery from the end of a process. A row that runs belongs to the piece of work that is
carried out, so that a process that ends between two nodes leaves nothing that no later step
would take up. -/
namespace Deeting.SpecAgent
open Transition

section Sets

variable {m : SpecManifest} {w : World} {e : Executor} {node : SpecNode} {log : ℕ} {id : NodeId}
  {rest : List Work}

namespace Tracked

theorem start_sets (tracked : Tracked m w) (current : w.executor = some e)
    (work : e.work = .start node :: rest) :
    node ∈ m.nodes ∧ statusOf w.logs node.id = none ∧
      statusOf (w.addRow node.id .running none).logs =
        Function.update (statusOf w.logs) node.id (some .running) := by
  obtain ⟨listed, absent, -⟩ := (tracked.executing e current).fits (.start node)
    (work ▸ List.mem_cons_self)
  exact ⟨listed, absent, tracked.recorded.single.statusOf_append absent⟩

theorem skip_sets {rest : List NodeId} (tracked : Tracked m w) (current : w.executor = some e)
    (skips : e.skips = id :: rest) (uncached : id ∉ e.skippedCache) :
    statusOf w.logs id = none ∧ statusOf (w.addRow id .skipped (some w.now)).logs =
      Function.update (statusOf w.logs) id (some .skipped) := by
  obtain ⟨absent, -⟩ := (tracked.executing e current).skip_fresh tracked.recorded skips uncached
  exact ⟨absent, tracked.recorded.single.statusOf_append absent⟩

theorem carry_sets (tracked : Tracked m w) (current : w.executor = some e)
    (work : e.work = .carry node log :: rest) (status : LogStatus) (outputData : Option Json) :
    node ∈ m.nodes ∧ statusOf w.logs node.id = some .running ∧
      statusOf (w.finish log status outputData).logs =
        Function.update (statusOf w.logs) node.id (some status) := by
  obtain ⟨listed, row, found, own, running⟩ := (tracked.executing e current).fits (.carry node log)
    (work ▸ List.mem_cons_self)
  exact ⟨listed, running, own ▸ tracked.recorded.single.statusOf_finish found⟩

theorem close_sets (tracked : Tracked m w) (current : w.executor = some e)
    (work : e.work = .close log :: rest) (status : LogStatus) (outputData : Option Json) :
    ∃ node ∈ m.nodes, node.kind = .logicGate ∧ statusOf w.logs node.id = some .running ∧
      statusOf (w.finish log status outputData).logs =
        Function.update (statusOf w.logs) node.id (some status) := by
  obtain ⟨node, listed, gate, row, found, own, running⟩ := (tracked.executing e current).fits
    (.close log) (work ▸ List.mem_cons_self)
  exact ⟨node, listed, gate, running, own ▸ tracked.recorded.single.statusOf_finish found⟩

theorem decide_sets (tracked : Tracked m w) (waits : w.Waits id log) (status : LogStatus)
    (outputData : Option Json) :
    statusOf w.logs id = some .waitingApproval ∧
      statusOf (w.finish log status outputData).logs =
        Function.update (statusOf w.logs) id (some status) := by
  obtain ⟨row, found, own, waiting⟩ := waits.row
  have single := tracked.recorded.single
  refine ⟨single.statusOf_eq.mpr ⟨row, List.mem_of_getElem? found, own, waiting⟩, ?_⟩
  exact own ▸ single.statusOf_finish found

end Tracked

end Sets

def Begun (logs : List LogRow) (id : NodeId) : Prop :=
  ∃ status, statusOf logs id = some status ∧ status ≠ .skipped

structure Chronicle.Seen (m : SpecManifest) (c : Chronicle) : Prop where
  tracked : Tracked m c.world
  started : ∀ id, id ∈ c.started ↔ Begun c.world.logs id
  once : c.started.Nodup
  answering : Answering c.world.work c.results c.calls c.started.length

section Seen

variable {m : SpecManifest} {logs later : List LogRow} {id : NodeId} {status : LogStatus}

theorem begun_of_begun (begun : Begun logs id) (unskipped : status ≠ .skipped)
    (sets : statusOf later = Function.update (statusOf logs) id (some status)) (other : NodeId) :
    Begun later other ↔ Begun logs other := by
  by_cases same : other = id
  · subst same
    refine iff_of_true ⟨status, ?_, unskipped⟩ begun
    rw [sets, Function.update_self]
  · rw [Begun, sets, Function.update_of_ne same, Begun]

theorem begun_of_absent (absent : statusOf logs id = none) (unskipped : status ≠ .skipped)
    (sets : statusOf later = Function.update (statusOf logs) id (some status)) (other : NodeId) :
    Begun later other ↔ other = id ∨ Begun logs other := by
  by_cases same : other = id
  · subst same
    refine iff_of_true ⟨status, ?_, unskipped⟩ (.inl rfl)
    rw [sets, Function.update_self]
  · rw [Begun, sets, Function.update_of_ne same, Begun, or_iff_right same]

theorem begun_of_skipped (absent : statusOf logs id = none)
    (sets : statusOf later = Function.update (statusOf logs) id (some .skipped)) (other : NodeId) :
    Begun later other ↔ Begun logs other := by
  by_cases same : other = id
  · subst same
    rw [Begun, sets, Function.update_self, Begun, absent]
    simp
  · rw [Begun, sets, Function.update_of_ne same, Begun]

variable {c d : Chronicle} {a : Action}

theorem World.work_of {w : World} {e : Executor} (current : w.executor = some e) :
    w.work = e.work := by
  rw [World.work, current]
  rfl

theorem Chronicle.Seen.finish {node : SpecNode} {t : World} (seen : c.Seen m)
    (running : statusOf c.world.logs node.id = some .running) (unskipped : status ≠ .skipped)
    (sets : statusOf t.logs = Function.update (statusOf c.world.logs) node.id (some status))
    (tracked : Tracked m t) (answering : Answering t.work c.results c.calls c.started.length) :
    Seen m { c with world := t } where
  tracked := tracked
  started id := (seen.started id).trans
    (begun_of_begun ⟨.running, running, by decide⟩ unskipped sets id).symm
  once := seen.once
  answering := answering

theorem seen_step (seen : c.Seen m) (watched : watch m c a = some d) : d.Seen m := by
  obtain ⟨t, taken, rfl⟩ := watch_eq_some.mp watched
  have tracked := (goes_step seen.tracked taken).tracked
  have answering := seen.answering
  cases Moves.of_step taken with
  | execute =>
    refine ⟨tracked, seen.started, seen.once, ?_⟩
    obtain ⟨-, work⟩ := create_idle m c.world.planContext c.world.logs
    simpa [Chronicle.note, World.work, work] using answering.cut
  | schedule current idle =>
    refine ⟨tracked, seen.started, seen.once, ?_⟩
    rw [World.work_of current, idle.2] at answering
    exact answering.schedule c.world.logs _
  | skipCached outcome current skips cached =>
    rw [World.work_of current] at answering
    rw [note_skipCached current skips cached]
    exact ⟨tracked, seen.started, seen.once, answering⟩
  | skip outcome current skips uncached =>
    rw [World.work_of current] at answering
    obtain ⟨absent, sets⟩ := seen.tracked.skip_sets current skips uncached
    rw [note_skip current skips uncached]
    refine ⟨tracked, fun other => ?_, seen.once, answering⟩
    exact (seen.started other).trans (begun_of_skipped absent sets other).symm
  | start outcome current skips work =>
    rw [World.work_of current, work] at answering
    obtain ⟨listed, absent, sets⟩ := seen.tracked.start_sets current work
    rw [note_start current skips work]
    refine ⟨tracked, fun other => ?_, ?_, answering.start⟩
    · rw [List.mem_cons, seen.started]
      exact (begun_of_absent absent (by decide) sets other).symm
    · refine List.nodup_cons.mpr ⟨fun mem => ?_, seen.once⟩
      obtain ⟨status, found, -⟩ := (seen.started _).mp mem
      rw [absent] at found
      cases found
  | checkIn outcome current skips work asks =>
    rw [World.work_of current, work] at answering
    obtain ⟨listed, running, sets⟩ := seen.tracked.carry_sets current work .waitingApproval none
    rw [note_carry current skips work (by rintro _ - gate; simp [SpecNode.checkIn, gate] at asks)]
    exact seen.finish running (by decide) sets tracked (answering.halt (List.cons_ne_nil _ _) _ rfl)
  | returned result current skips work unasked action =>
    rw [World.work_of current, work] at answering
    obtain ⟨listed, running, sets⟩ := seen.tracked.carry_sets current work .success
      (some (wrapResult result))
    rw [note_carry current skips work (by simp)]
    exact seen.finish running (by decide) sets tracked (answering.tail rfl (by simp))
  | chose next current skips work gate =>
    rw [World.work_of current, work] at answering
    rw [note_chose current skips work gate]
    have more := (answering.now.tail rfl).ne_nil
    exact ⟨tracked, seen.started, seen.once, (answering.tail rfl (by simp)).cons more rfl⟩
  | raised current skips work unasked kind =>
    rw [World.work_of current, work] at answering
    obtain ⟨listed, running, sets⟩ := seen.tracked.carry_sets current work .failed none
    rw [note_carry current skips work (by simp)]
    exact seen.finish running (by decide) sets tracked (answering.halt (List.cons_ne_nil _ _) _ rfl)
  | replan outcome current skips work kind =>
    rw [World.work_of current, work] at answering
    obtain ⟨listed, running, sets⟩ := seen.tracked.carry_sets current work .failed none
    rw [note_carry current skips work (by simp [kind])]
    exact seen.finish running (by decide) sets tracked (answering.halt (List.cons_ne_nil _ _) _ rfl)
  | close outcome current skips work =>
    rw [World.work_of current, work] at answering
    obtain ⟨node, listed, gate, running, sets⟩ := seen.tracked.close_sets current work .success none
    rw [note_close current skips work]
    exact seen.finish running (by decide) sets tracked (answering.tail rfl (by simp))
  | report outcome current skips work =>
    rw [World.work_of current, work] at answering
    rw [note_report current skips work]
    refine ⟨tracked, seen.started, seen.once, answering.returns rfl fun goesOn => ?_⟩
    rw [answering.reports _ _ List.mem_cons_self] at goesOn
    cases goesOn
  | wrapUp outcome current skips work =>
    rw [World.work_of current, work] at answering
    rw [note_wrapUp current skips work]
    exact ⟨tracked, seen.started, seen.once, answering.returns rfl fun _ => ⟨_, rfl⟩⟩
  | refused decision feedback refused => exact ⟨tracked, seen.started, seen.once, answering⟩
  | approved feedback waits approves =>
    obtain ⟨waiting, sets⟩ := seen.tracked.decide_sets waits .success _
    refine ⟨tracked, fun other => (seen.started other).trans ?_, seen.once, answering⟩
    exact (begun_of_begun ⟨_, waiting, by decide⟩ (by decide) sets other).symm
  | rejected feedback waits =>
    obtain ⟨waiting, sets⟩ := seen.tracked.decide_sets waits .failed _
    refine ⟨tracked, fun other => (seen.started other).trans ?_, seen.once, answering⟩
    exact (begun_of_begun ⟨_, waiting, by decide⟩ (by decide) sets other).symm
  | interrupt => exact ⟨tracked, seen.started, seen.once, answering.cut⟩
  | tick => exact ⟨tracked, seen.started, seen.once, answering⟩

end Seen

/-- What the next step can build on: a row that runs is the one that is carried out, and what
needs a skipped node is skipped or about to be, by the gate that is carried out. -/
structure Sound (m : SpecManifest) (statuses : NodeId → Option LogStatus) (due : List NodeId)
    (work : List Work) : Prop where
  alone : ∀ a b, statuses a = some .running → statuses b = some .running → a = b
  quiet : (∀ piece ∈ work, piece.waits = true) → ∀ id, statuses id ≠ some .running
  closed : ∀ id child, statuses id = some .skipped → child ∈ m.children id →
    statuses child = some .skipped ∨ child ∈ due
  gating : due ≠ [] → ∃ log rest, work = .close log :: rest

section Sound

variable {m : SpecManifest} {f : NodeId → Option LogStatus} {due : List NodeId}
  {work rest : List Work} {piece : Work} {id : NodeId} {status : LogStatus}

theorem running_of_update {other : NodeId} (ended : status ≠ .running)
    (running : Function.update f id (some status) other = some .running) :
    f other = some .running ∧ other ≠ id := by
  by_cases same : other = id
  · rw [same, Function.update_self, Option.some.injEq] at running
    exact absurd running ended
  · rw [Function.update_of_ne same] at running
    exact ⟨running, same⟩

namespace Sound

theorem cut (sound : Sound m f due work) (none : ∀ id, f id ≠ some .running)
    (undue : due = []) : Sound m f [] [] where
  alone := sound.alone
  quiet _ := none
  closed id child skipped need := undue ▸ sound.closed id child skipped need
  gating some_ := absurd rfl some_

theorem waits (sound : Sound m f [] work) (before : ∀ piece ∈ work, piece.waits = true)
    (later : List Work) : Sound m f [] later where
  alone := sound.alone
  quiet _ := sound.quiet before
  closed := sound.closed
  gating some_ := absurd rfl some_

theorem skipCached {ids : List NodeId} (sound : Sound m f (id :: ids) work)
    (skipped : f id = some .skipped) : Sound m f ids work where
  alone := sound.alone
  quiet := sound.quiet
  closed other child before need := by
    rcases sound.closed other child before need with done | mem
    · exact .inl done
    rcases List.mem_cons.mp mem with rfl | mem
    · exact .inl skipped
    · exact .inr mem
  gating _ := sound.gating (List.cons_ne_nil _ _)

theorem skip {ids : List NodeId} (sound : Sound m f (id :: ids) work) (absent : f id = none) :
    Sound m (Function.update f id (some .skipped)) (m.children id ++ ids) work where
  alone a b first second := sound.alone a b (running_of_update (by decide) first).1
    (running_of_update (by decide) second).1
  quiet before other running := sound.quiet before other (running_of_update (by decide) running).1
  closed other child before need := by
    by_cases same : other = id
    · exact .inr (List.mem_append_left _ (same ▸ need))
    · rw [Function.update_of_ne same] at before
      rcases sound.closed other child before need with done | mem
      · left
        rw [Function.update_of_ne, done]
        rintro rfl
        rw [absent] at done
        cases done
      rcases List.mem_cons.mp mem with rfl | mem
      · exact .inl (Function.update_self ..)
      · exact .inr (List.mem_append_right _ mem)
  gating _ := sound.gating (List.cons_ne_nil _ _)

theorem closed_update (sound : Sound m f due work) (unskipped : f id ≠ some .skipped)
    (fresh : status ≠ .skipped) {other child : NodeId}
    (before : Function.update f id (some status) other = some .skipped)
    (need : child ∈ m.children other) :
    Function.update f id (some status) child = some .skipped ∨ child ∈ due := by
  by_cases same : other = id
  · rw [same, Function.update_self, Option.some.injEq] at before
    exact absurd before fresh
  · rw [Function.update_of_ne same] at before
    refine (sound.closed other child before need).imp_left fun done => ?_
    rw [Function.update_of_ne, done]
    rintro rfl
    exact unskipped done

theorem start {node : SpecNode} {log : ℕ} (sound : Sound m f [] (.start node :: rest))
    (absent : f node.id = none) (waits : ∀ piece ∈ rest, piece.waits = true) :
    Sound m (Function.update f node.id (some .running)) [] (.carry node log :: rest) where
  alone a b first second := by
    have none := sound.quiet (List.forall_mem_cons.mpr ⟨rfl, waits⟩)
    have own {c : NodeId} (running : Function.update f node.id (some .running) c = some .running) :
        c = node.id := by
      by_contra other
      rw [Function.update_of_ne other] at running
      exact none c running
    rw [own first, own second]
  quiet before := by
    have carried := before _ List.mem_cons_self
    cases carried
  closed _ _ before need := sound.closed_update (by simp [absent]) (by decide) before need
  gating some_ := absurd rfl some_

theorem finish (sound : Sound m f [] work) (running : f id = some .running)
    (ended : status ≠ .running) (unskipped : status ≠ .skipped) (later : List Work) :
    Sound m (Function.update f id (some status)) [] later := by
  have none (other : NodeId) : Function.update f id (some status) other ≠ some .running := by
    intro still
    obtain ⟨before, elsewhere⟩ := running_of_update ended still
    exact elsewhere (sound.alone other id before running)
  exact
    { alone := fun a b first => absurd first (none a)
      quiet := fun _ => none
      closed := fun _ _ before need => sound.closed_update (by simp [running]) unskipped before need
      gating := fun some_ => absurd rfl some_ }

theorem chose {node : SpecNode} {log log' : ℕ} (sound : Sound m f [] (.carry node log :: rest))
    (due : List NodeId) : Sound m f due (.close log' :: rest) where
  alone := sound.alone
  quiet before := by
    have closes := before _ List.mem_cons_self
    cases closes
  closed id child before need :=
    .inl ((sound.closed id child before need).resolve_right (List.not_mem_nil))
  gating _ := ⟨log', rest, rfl⟩

theorem decided (sound : Sound m f due work) (waiting : f id = some .waitingApproval)
    (ended : status ≠ .running) (unskipped : status ≠ .skipped) :
    Sound m (Function.update f id (some status)) due work where
  alone a b first second := sound.alone a b (running_of_update ended first).1
    (running_of_update ended second).1
  quiet before other running := sound.quiet before other (running_of_update ended running).1
  closed _ _ before need := sound.closed_update (by simp [waiting]) unskipped before need
  gating := sound.gating

end Sound

end Sound

section Verdict

variable {m : SpecManifest} {logs : List LogRow} {ran : List NodeId} {node : SpecNode}

theorem readiness_of_absent (single : Single logs) (absent : statusOf logs node.id = none)
    (needs : ∀ dep ∈ node.needs, statusOf logs dep = some .success) :
    readiness (getLatestNodeLogs logs) node = .executable := by
  have passed : (node.needs.find? fun dep => dep ∈ idsWith .skipped (getLatestNodeLogs logs) ∨
      dep ∉ idsWith .success (getLatestNodeLogs logs)) = none := by
    rw [List.find?_eq_none]
    intro dep need
    simp [single.mem_idsWith, needs dep need]
  have active : latestStatus (getLatestNodeLogs logs) node.id = none := absent
  rw [readiness, if_neg, passed]
  simp [active, single.mem_idsWith, absent]

theorem count_of_done (single : Single logs)
    (done : ∀ node ∈ m.nodes, Done (statusOf logs node.id)) :
    m.nodes.length ≤ (idsWith .success (getLatestNodeLogs logs)).dedup.length +
      (idsWith .skipped (getLatestNodeLogs logs)).dedup.length := by
  have counted : m.nodes.map SpecNode.id ⊆ (idsWith .success (getLatestNodeLogs logs)).dedup ++
      (idsWith .skipped (getLatestNodeLogs logs)).dedup := by
    intro id mem
    obtain ⟨node, listed, rfl⟩ := List.mem_map.mp mem
    rw [List.mem_append, List.mem_dedup, List.mem_dedup, single.mem_idsWith, single.mem_idsWith]
    exact done node listed
  have shorter := (List.subperm_of_subset m.distinct counted).length_le
  rwa [List.length_map, List.length_append] at shorter

/-- A node that is left has one before it, or is one itself, that can be taken up or waits. -/
theorem exists_open (recorded : Recorded m logs ran)
    (unfailed : ∀ id, statusOf logs id ≠ some .failed) (sound : Sound m (statusOf logs) [] [])
    (listed : node ∈ m.nodes) (left : ¬ Done (statusOf logs node.id)) :
    ∃ node ∈ m.nodes, readiness (getLatestNodeLogs logs) node = .executable ∨
      statusOf logs node.id = some .waitingApproval := by
  have known : ∀ id ∈ m.nodes.map SpecNode.id, ∀ dep,
      (∃ node ∈ m.nodes, node.id = id ∧ dep ∈ node.needs) → dep ∈ m.nodes.map SpecNode.id := by
    rintro id - dep ⟨node, present, -, need⟩
    exact m.closed node present dep need
  obtain ⟨id, mem, open_, needs⟩ := @Digraph.exists_ready NodeId _ _
    (fun id => Done (statusOf logs id)) m.acyclic known _ (List.mem_map_of_mem listed) left
  obtain ⟨next, present, rfl⟩ := List.mem_map.mp mem
  refine ⟨next, present, ?_⟩
  have succeeded : ∀ dep ∈ next.needs, statusOf logs dep = some .success := by
    intro dep need
    rcases needs dep ⟨next, present, rfl, need⟩ with success | skipped
    · exact success
    have child := mem_children.mpr ⟨next, present, rfl, need⟩
    rcases sound.closed dep next.id skipped child with done | due
    · exact absurd (.inr done) open_
    · cases due
  cases found : statusOf logs next.id with
  | none => exact .inl (readiness_of_absent recorded.single found succeeded)
  | some status =>
    cases status with
    | pending => exact absurd found (recorded.started _)
    | running => exact absurd found (sound.quiet (List.forall_mem_nil _) _)
    | success => exact absurd (.inl found) open_
    | failed => exact absurd found (unfailed _)
    | skipped => exact absurd (.inr found) open_
    | waitingApproval => exact .inr rfl

theorem verdict_moves (recorded : Recorded m logs ran)
    (unfailed : ∀ id, statusOf logs id ≠ some .failed) (sound : Sound m (statusOf logs) [] [])
    (none : (m.nodes.filter fun node => readiness (getLatestNodeLogs logs) node = .executable) = [])
    (status : Option PlanStatus) : verdict m (getLatestNodeLogs logs) ≠ .report status .stalled := by
  have single := recorded.single
  unfold verdict
  split
  · simp
  rename_i uncounted
  split
  · simp
  rename_i waitless
  exfalso
  refine uncounted (count_of_done single fun node listed => ?_)
  by_contra left
  obtain ⟨next, present, ready | waiting⟩ := exists_open recorded unfailed sound listed left
  · rw [List.filter_eq_nil_iff] at none
    exact none next present (decide_eq_true ready)
  · refine waitless (List.ne_nil_of_mem (single.mem_idsWith.mpr waiting))

end Verdict

namespace World

def Guarded (m : SpecManifest) (w : World) : Prop :=
  (∃ id, statusOf w.logs id = some .failed) ∨ Sound m (statusOf w.logs) w.due w.work

/-- A process ends, or leaves its work to a new request, while no row runs, or after a node
has failed. -/
def Survives (w : World) : Action → Prop
  | .execute | .interrupt =>
    w.Idle ∨ (∀ id, statusOf w.logs id ≠ some .running) ∨ ∃ id, statusOf w.logs id = some .failed
  | _ => True

end World

section Steps

variable {m : SpecManifest} {w t : World} {e : Executor} {a : Action} {id : NodeId}

theorem World.due_of (current : w.executor = some e) : w.due = e.skips := by
  rw [World.due, current]
  rfl

theorem failed_step (tracked : Tracked m w) (moves : Moves m w a t)
    (failed : statusOf w.logs id = some .failed) : statusOf t.logs id = some .failed := by
  have kept {other : NodeId} {status : LogStatus} (open_ : statusOf w.logs other ≠ some .failed)
      (sets : statusOf t.logs = Function.update (statusOf w.logs) other (some status)) :
      statusOf t.logs id = some .failed := by
    rw [sets, Function.update_of_ne, failed]
    rintro rfl
    exact open_ failed
  cases moves with
  | skip _ current skips uncached =>
    obtain ⟨absent, sets⟩ := tracked.skip_sets current skips uncached
    exact kept (by simp [absent]) sets
  | start _ current skips work =>
    obtain ⟨-, absent, sets⟩ := tracked.start_sets current work
    exact kept (by simp [absent]) sets
  | checkIn _ current skips work asks =>
    obtain ⟨-, running, sets⟩ := tracked.carry_sets current work .waitingApproval none
    exact kept (by simp [running]) sets
  | returned result current skips work unasked action =>
    obtain ⟨-, running, sets⟩ := tracked.carry_sets current work .success (some (wrapResult result))
    exact kept (by simp [running]) sets
  | raised current skips work unasked kind | replan _ current skips work kind =>
    obtain ⟨-, running, sets⟩ := tracked.carry_sets current work .failed none
    exact kept (by simp [running]) sets
  | close _ current skips work =>
    obtain ⟨node, -, -, running, sets⟩ := tracked.close_sets current work .success none
    exact kept (by simp [running]) sets
  | approved feedback waits approves =>
    obtain ⟨waiting, sets⟩ := tracked.decide_sets waits .success _
    exact kept (by simp [waiting]) sets
  | rejected feedback waits =>
    obtain ⟨waiting, sets⟩ := tracked.decide_sets waits .failed _
    exact kept (by simp [waiting]) sets
  | execute | schedule | skipCached | chose | report | wrapUp | refused | interrupt | tick =>
    exact failed

theorem sound_cut (tracked : Tracked m w) (sound : Sound m (statusOf w.logs) w.due w.work)
    (survives : w.Idle ∨ ∀ id, statusOf w.logs id ≠ some .running) :
    Sound m (statusOf w.logs) [] [] := by
  rcases survives with ⟨undue, idle⟩ | still
  · rwa [undue, idle] at sound
  refine sound.cut still ?_
  by_contra some_
  obtain ⟨log, rest, closes⟩ := sound.gating some_
  cases current : w.executor with
  | none =>
    rw [World.work, current] at closes
    cases closes
  | some e =>
    rw [World.work_of current] at closes
    obtain ⟨node, -, -, running, -⟩ := tracked.close_sets current closes .success none
    exact still _ running

theorem failed_ids {logs : List LogRow} (single : Single logs) :
    idsWith .failed (getLatestNodeLogs logs) = [] ↔ ∀ id, statusOf logs id ≠ some .failed := by
  rw [List.eq_nil_iff_forall_not_mem]
  simp only [single.mem_idsWith]

theorem schedule_skips (e : Executor) (single : Single w.logs) (sound : Sound m (statusOf w.logs) [] [])
    (unfailed : ∀ id, statusOf w.logs id ≠ some .failed) : (e.schedule m w.logs).skips = [] := by
  have skipless : m.nodes.filter (fun node => readiness (getLatestNodeLogs w.logs) node = .skip) =
      [] := by
    rw [List.filter_eq_nil_iff]
    intro node listed skip
    rw [decide_eq_true_eq] at skip
    obtain ⟨dep, need, skipped⟩ := readiness_skip single skip
    rcases sound.closed dep node.id skipped (mem_children.mpr ⟨node, listed, rfl, need⟩) with
      done | due
    · rw [readiness, if_pos (.inr (.inr (single.mem_idsWith.mpr done)))] at skip
      cases skip
    · cases due
  rw [Executor.schedule, if_neg (not_not.mpr ((failed_ids single).mpr unfailed))]
  dsimp only
  rw [skipless, List.map_nil]

theorem World.Guarded.of_sound (current : w.executor = some e) (skips : e.skips = [])
    (sound : Sound m (statusOf w.logs) [] e.work) : w.Guarded m := by
  refine .inr ?_
  rwa [World.due_of current, World.work_of current, skips]

theorem guarded_step (tracked : Tracked m w) (guarded : w.Guarded m) (survives : w.Survives a)
    (moves : Moves m w a t) : t.Guarded m := by
  rcases guarded with ⟨id, failed⟩ | sound
  · exact .inl ⟨id, failed_step tracked moves failed⟩
  have fails {id : NodeId}
      (sets : statusOf t.logs = Function.update (statusOf w.logs) id (some .failed)) :
      t.Guarded m := by
    refine .inl ⟨id, ?_⟩
    rw [sets, Function.update_self]
  have cut (survives : w.Idle ∨ (∀ id, statusOf w.logs id ≠ some .running) ∨
      ∃ id, statusOf w.logs id = some .failed) :
      (∃ id, statusOf w.logs id = some .failed) ∨ Sound m (statusOf w.logs) [] [] := by
    rcases survives with idle | still | failed
    · exact .inr (sound_cut tracked sound (.inl idle))
    · exact .inr (sound_cut tracked sound (.inr still))
    · exact .inl failed
  cases moves with
  | execute =>
    obtain ⟨skips, work⟩ := create_idle m w.planContext w.logs
    refine (cut survives).imp_right fun sound => ?_
    simpa [World.due, World.work, skips, work] using sound
  | interrupt => exact cut survives
  | schedule current idle =>
    by_cases failed : ∃ id, statusOf w.logs id = some .failed
    · exact .inl failed
    rw [World.due_of current, World.work_of current, idle.1, idle.2] at sound
    have unfailed := not_exists.mp failed
    exact .of_sound rfl (schedule_skips _ tracked.recorded.single sound unfailed)
      (sound.waits (List.forall_mem_nil _) _)
  | skipCached _ current skips cached =>
    rw [World.due_of current, World.work_of current, skips] at sound
    exact .inr (sound.skipCached (((tracked.executing _ current).cache _).mp cached))
  | skip _ current skips uncached =>
    obtain ⟨absent, sets⟩ := tracked.skip_sets current skips uncached
    rw [World.due_of current, World.work_of current, skips] at sound
    exact .inr (sets ▸ sound.skip absent)
  | start _ current skips work =>
    obtain ⟨-, absent, sets⟩ := tracked.start_sets current work
    rw [World.due_of current, World.work_of current, skips, work] at sound
    have waits := (tracked.executing _ current).rest_waits work
    exact .of_sound rfl skips (sets ▸ sound.start absent waits)
  | checkIn _ current skips work asks =>
    obtain ⟨-, running, sets⟩ := tracked.carry_sets current work .waitingApproval none
    rw [World.due_of current, skips] at sound
    exact .of_sound rfl skips (sets ▸ sound.finish running (by decide) (by decide) _)
  | returned result current skips work unasked action =>
    obtain ⟨-, running, sets⟩ := tracked.carry_sets current work .success (some (wrapResult result))
    rw [World.due_of current, skips] at sound
    exact .of_sound rfl skips (sets ▸ sound.finish running (by decide) (by decide) _)
  | raised current skips work unasked kind | replan _ current skips work kind =>
    obtain ⟨-, running, sets⟩ := tracked.carry_sets current work .failed none
    exact fails sets
  | chose next current skips work gate =>
    rw [World.due_of current, World.work_of current, skips, work] at sound
    exact .inr (sound.chose _)
  | close _ current skips work =>
    obtain ⟨node, -, -, running, sets⟩ := tracked.close_sets current work .success none
    rw [World.due_of current, skips] at sound
    exact .of_sound rfl skips (sets ▸ sound.finish running (by decide) (by decide) _)
  | report _ current skips work | wrapUp _ current skips work =>
    rw [World.due_of current, World.work_of current, skips, work] at sound
    have waits := (tracked.executing _ current).rest_waits work
    exact .of_sound rfl skips (sound.waits (List.forall_mem_cons.mpr ⟨rfl, waits⟩) _)
  | refused => exact .inr sound
  | approved feedback waits approves =>
    obtain ⟨waiting, sets⟩ := tracked.decide_sets waits .success _
    exact .inr (sets ▸ sound.decided waiting (by decide) (by decide))
  | rejected feedback waits =>
    obtain ⟨waiting, sets⟩ := tracked.decide_sets waits .failed _
    exact fails sets
  | tick => exact .inr sound

def World.Unstalled (w : World) : Prop := ∀ status, .report status .stalled ∉ w.work

theorem unstalled_schedule (tracked : Tracked m w) (guarded : w.Guarded m)
    (current : w.executor = some e) (idle : e.skips = [] ∧ e.work = []) (status : Option PlanStatus) :
    .report status .stalled ∉ (e.schedule m w.logs).work := by
  have single := tracked.recorded.single
  unfold Executor.schedule
  dsimp only
  split
  · simp
  rename_i unfailed
  have unfailed := (failed_ids single).mp (not_not.mp unfailed)
  rw [World.Guarded, World.due_of current, World.work_of current, idle.1, idle.2] at guarded
  have sound := guarded.resolve_left (not_exists.mpr unfailed)
  dsimp only
  split
  · rename_i none
    rw [List.mem_singleton]
    exact (verdict_moves tracked.recorded unfailed sound none status).symm
  · simp

theorem unstalled_step (tracked : Tracked m w) (guarded : w.Guarded m) (unstalled : w.Unstalled)
    (moves : Moves m w a t) : t.Unstalled := by
  have rest {e : Executor} {piece : Work} {more : List Work} (current : w.executor = some e)
      (work : e.work = piece :: more) (status : Option PlanStatus) :
      .report status .stalled ∉ more := by
    have before := unstalled status
    rw [World.work_of current, work] at before
    exact fun mem => before (List.mem_cons_of_mem _ mem)
  cases moves with
  | execute =>
    intro status
    obtain ⟨-, work⟩ := create_idle m w.planContext w.logs
    simp [World.work, work]
  | schedule current idle => exact unstalled_schedule tracked guarded current idle
  | skipCached _ current skips cached | skip _ current skips uncached =>
    rwa [World.Unstalled, World.work_of current] at unstalled
  | start _ current skips work | chose next current skips work gate =>
    intro status mem
    exact rest current work status ((List.mem_cons.mp mem).resolve_left (by simp))
  | checkIn _ current skips work asks | raised current skips work unasked kind
  | replan _ current skips work kind =>
    intro status
    simp [World.work]
  | returned result current skips work unasked action => exact rest current work
  | close _ current skips work => exact rest current work
  | report _ current skips work => exact rest current work
  | wrapUp _ current skips work => exact rest current work
  | refused | approved | rejected | tick => exact unstalled
  | interrupt =>
    intro status
    simp [World.work]

end Steps

namespace Chronicle

/-- After the end of a process the plan is brought on: each node is executed once at most and
not again after its success, a step that is going on ends and returns, at most as often as
there are nodes that the plan goes on, and never that it is stalled. -/
structure Recovers (m : SpecManifest) (c : Chronicle) : Prop where
  unstalled : .stalled ∉ c.results
  few : c.results.countP StepResult.goesOn ≤ m.nodes.length
  once : c.started.Nodup
  unsuccessful : ∀ node, .start node ∈ c.world.work → statusOf c.world.logs node.id ≠ some .success
  goes : ∀ e, c.world.executor = some e → ¬ c.world.Idle →
    ∃ outcome, (watch m c (.perform outcome)).isSome
  ends : ∀ outcomes d, run (fun c outcome => watch m c (.perform outcome)) c outcomes = some d →
    outcomes.length ≤ c.world.weight m
  answered : c.world.Idle → c.results.length = c.calls

structure Recoverable (m : SpecManifest) (c : Chronicle) : Prop where
  seen : c.Seen m
  guarded : c.world.Guarded m
  unstalled : .stalled ∉ c.results
  reports : c.world.Unstalled

end Chronicle

section Runs

variable {m : SpecManifest} {c d : Chronicle} {a : Action}

theorem Chronicle.Seen.started_le (seen : c.Seen m) : c.started.length ≤ m.nodes.length := by
  have listed : c.started ⊆ m.nodes.map SpecNode.id := by
    intro id mem
    obtain ⟨status, found, -⟩ := (seen.started id).mp mem
    obtain ⟨node, present, rfl, -⟩ := seen.tracked.recorded.known id status found
    exact List.mem_map_of_mem present
  have shorter := (List.subperm_of_subset seen.once listed).length_le
  rwa [List.length_map] at shorter

theorem exists_watch {e : Executor} (current : c.world.executor = some e) (busy : ¬ c.world.Idle) :
    ∃ outcome, outcome ≠ .raised ∧ (watch m c (.perform outcome)).isSome := by
  rw [World.Idle, World.due_of current, World.work_of current] at busy
  obtain ⟨outcome, quiet, goes⟩ := exists_perform (m := m) current busy
  refine ⟨outcome, quiet, ?_⟩
  rwa [watch, Option.isSome_map]

theorem length_le_weight {outcomes : List Outcome}
    (reached : run (fun c outcome => watch m c (.perform outcome)) c outcomes = some d) :
    outcomes.length ≤ c.world.weight m := by
  have lower {c d : Chronicle} {outcome : Outcome}
      (watched : watch m c (.perform outcome) = some d) : d.world.weight m < c.world.weight m := by
    obtain ⟨t, taken, rfl⟩ := watch_eq_some.mp watched
    rw [note_world]
    exact (Moves.of_step taken).weight
  have bound := length_le_of_decreases (fun c => c.world.weight m) lower reached
  omega

theorem Chronicle.Recoverable.recovers (recoverable : c.Recoverable m) : c.Recovers m where
  unstalled := recoverable.unstalled
  few := recoverable.seen.answering.counted.trans recoverable.seen.started_le
  once := recoverable.seen.once
  unsuccessful node mem := by
    cases current : c.world.executor with
    | none =>
      rw [World.work, current] at mem
      cases mem
    | some e =>
      rw [World.work_of current] at mem
      obtain ⟨-, absent, -⟩ := (recoverable.seen.tracked.executing e current).fits _ mem
      simp [absent]
  goes e current busy := by
    obtain ⟨outcome, -, goes⟩ := exists_watch current busy
    exact ⟨outcome, goes⟩
  ends _ _ := length_le_weight
  answered idle := by
    have answered := recoverable.seen.answering.answered
    rwa [idle.2] at answered

theorem recoverable_step (recoverable : c.Recoverable m) (survives : c.world.Survives a)
    (watched : watch m c a = some d) : d.Recoverable m := by
  have seen := seen_step recoverable.seen watched
  obtain ⟨t, taken, rfl⟩ := watch_eq_some.mp watched
  have moves := Moves.of_step taken
  have tracked := recoverable.seen.tracked
  have guarded := guarded_step tracked recoverable.guarded survives moves
  have reports := unstalled_step tracked recoverable.guarded recoverable.reports moves
  refine ⟨seen, by rwa [note_world], fun mem => ?_, by rwa [note_world]⟩
  rcases mem_results mem with before | ⟨status, reports⟩ | ⟨executed, goesOn⟩
  · exact recoverable.unstalled before
  · exact recoverable.reports status reports
  · cases goesOn

theorem seen_planned (m : SpecManifest) : (Chronicle.planned m).Seen m where
  tracked := tracked_planned m
  started id := by simp [Chronicle.planned, World.planned, Begun, statusOf_nil]
  once := List.nodup_nil
  answering :=
    { rounds := .inl rfl
      answered := rfl
      counted := Nat.le_refl _
      counting := by simp [Chronicle.planned, World.planned, World.work]
      reports := by simp [Chronicle.planned, World.planned, World.work] }

theorem recoverable_planned (m : SpecManifest) : (Chronicle.planned m).Recoverable m where
  seen := seen_planned m
  guarded := .inr
    { alone := by simp [Chronicle.planned, World.planned, statusOf_nil]
      quiet := by simp [Chronicle.planned, World.planned, statusOf_nil]
      closed := by simp [Chronicle.planned, World.planned, statusOf_nil]
      gating := fun some_ => absurd rfl some_ }
  unstalled := List.not_mem_nil
  reports status := by simp [Chronicle.planned, World.planned, World.work]

/-- A plan is brought to its end after every end of a process that comes while no row runs. -/
theorem recovers_throughout {actions : List Action}
    (survives : Along (watch m) (fun c a => c.world.Survives a) (.planned m) actions)
    (reached : run (watch m) (.planned m) actions = some c) : c.Recovers m := by
  have recoverable := run_invariant recoverable_step (recoverable_planned m) survives reached
  exact recoverable.recovers

end Runs

section Crash

def oneAction : SpecManifest where
  nodes := [⟨"T1", .action none false, []⟩]
  distinct := List.nodup_singleton _
  closed := by decide
  acyclic := by
    refine Digraph.acyclic_of_rank (fun _ => 0) ?_
    rintro _ dep ⟨node, listed, rfl, need⟩
    rw [List.mem_singleton.mp listed] at need
    cases need

def crashRun : List Action := [.execute, .runStep, .perform .raised, .interrupt]

/-- A new process and a call of `run_step`. -/
def retryRun : List Action := [.execute, .runStep, .perform .raised]

def orphan : LogRow := { nodeId := "T1", status := .running, createdAt := 0 }

theorem retry_stalls {c : Chronicle} (logs : c.world.logs = [orphan]) :
    ∃ d, run (watch oneAction) c retryRun = some d ∧ d.results = c.results ++ [.stalled] ∧
      d.world.logs = [orphan] := by
  obtain ⟨⟨logs, planStatus, planContext, executor, now, ran, premature⟩, started, skipped, picks,
    results, calls⟩ := c
  cases logs
  exact ⟨_, rfl, rfl, rfl⟩

theorem retries_stall {c : Chronicle} (logs : c.world.logs = [orphan]) (n : ℕ) :
    ∃ d, run (watch oneAction) c (List.replicate n retryRun).flatten = some d ∧
      d.results = c.results ++ List.replicate n .stalled := by
  induction n generalizing c with
  | zero => exact ⟨c, rfl, (List.append_nil _).symm⟩
  | succ n ih =>
    obtain ⟨d, retried, results, logs⟩ := retry_stalls logs
    obtain ⟨f, reached, more⟩ := ih logs
    refine ⟨f, ?_, ?_⟩
    · rw [List.replicate_succ, List.flatten_cons, run_append, retried]
      exact reached
    · rw [more, results, List.append_assoc, List.replicate_succ]
      rfl

/-- After the process has ended in the middle of its action, every call of every new process
returns that the plan is stalled. -/
theorem crash_stalls :
    ∃ c, run (watch oneAction) (.planned oneAction) crashRun = some c ∧
      (∀ n, ∃ d, run (watch oneAction) c (List.replicate n retryRun).flatten = some d ∧
        d.results = List.replicate n .stalled) ∧
      ∃ d, run (watch oneAction) (.planned oneAction) (crashRun ++ retryRun) = some d ∧
        ¬ d.Recovers oneAction := by
  refine ⟨_, rfl, retries_stall rfl, _, rfl, fun recovers => ?_⟩
  exact recovers.unstalled List.mem_cons_self

def twoActions : SpecManifest where
  nodes := [⟨"T1", .action none false, []⟩, ⟨"T2", .action none false, ["T1"]⟩]
  distinct := by decide
  closed := by decide
  acyclic := by
    refine Digraph.acyclic_of_rank (fun id => if id = "T2" then 1 else 0) ?_
    rintro _ dep ⟨node, listed, rfl, need⟩
    rcases List.mem_pair.mp listed with rfl | rfl
    · cases need
    · obtain rfl := List.mem_singleton.mp need
      decide

/-- The process ends between the success of the first action and the end of its `run_step`; a
new one executes the second. -/
def betweenRun : List Action :=
  [.execute, .runStep, .perform .raised, .perform (.returned .null), .interrupt, .tick, .execute,
    .runStep, .perform .raised, .perform (.returned .null), .perform .raised,
    .runStep, .perform .raised]

theorem between_recovers :
    ∃ c, run (watch twoActions) (.planned twoActions) betweenRun = some c ∧
      c.results = [.running 1, .completed] ∧ c.Recovers twoActions := by
  have survives : Along (watch twoActions) (fun c a => c.world.Survives a) (.planned twoActions)
      betweenRun := by
    refine (along_cons_of_step rfl).mpr ⟨.inl ⟨rfl, rfl⟩, ?_⟩
    repeat refine (along_cons_of_step rfl).mpr ⟨trivial, ?_⟩
    refine (along_cons_of_step rfl).mpr ⟨.inr (.inl fun id running => ?_), ?_⟩
    · have single : Single [⟨"T1", .success, some (wrapResult .null), 0, some 0⟩] :=
        List.nodup_singleton _
      obtain ⟨row, listed, -, same⟩ := single.statusOf_eq.mp running
      rw [List.mem_singleton.mp listed] at same
      cases same
    refine (along_cons_of_step rfl).mpr ⟨trivial, ?_⟩
    refine (along_cons_of_step rfl).mpr ⟨.inl ⟨rfl, rfl⟩, ?_⟩
    repeat refine (along_cons_of_step rfl).mpr ⟨trivial, ?_⟩
    trivial
  exact ⟨_, rfl, rfl, recovers_throughout survives rfl⟩

end Crash

end Deeting.SpecAgent
