import Deeting.SpecAgent.Completion
import Deeting.SpecAgent.Resume

/-! Cut at any commit, an executor is made again from the stored rows with the same context
and outputs, for as long as nothing is done that the rows do not keep the order of. -/
namespace Deeting.SpecAgent
open Transition

def Work.node? : Work → Option NodeId
  | .start node | .carry node _ => some node.id
  | .close _ | .report .. | .wrapUp _ => none

def Sits (m : SpecManifest) (logs : List LogRow) : Work → Prop
  | .start node => node ∈ m.nodes ∧ World.Silent logs node.id
  | .carry node log => node ∈ m.nodes ∧ ∃ row, logs[log]? = some row ∧ row.nodeId = node.id ∧
      World.Silent logs row.nodeId ∧ row.status = .running ∧ row.outputData = none
  | .close log => ∃ row, logs[log]? = some row ∧
      World.Silent logs row.nodeId ∧ row.status = .running ∧ row.outputData = none
  | .report .. | .wrapUp _ => True

structure Placing (m : SpecManifest) (logs : List LogRow) (work : List Work) : Prop where
  sits : ∀ piece ∈ work, Sits m logs piece
  once : (work.filterMap Work.node?).Nodup
  waits : ∀ piece ∈ work.tail, piece.waits = true

structure World.Placed (m : SpecManifest) (w : World) : Prop where
  stamped : ∀ row ∈ w.logs, row.stamp ≤ w.now
  placing : ∀ e, w.executor = some e → Placing m w.logs e.work

section Placing

variable {m : SpecManifest} {logs later : List LogRow} {row : LogRow} {e : Executor} {node : SpecNode}
  {piece : Work} {work rest : List Work}

theorem Sits.rewrites (sits : Sits m logs piece) (waits : piece.waits = true)
    (rewrites : Rewrites logs later row)
    (quiet : piece.node? = some row.nodeId → row.output = none) : Sits m later piece := by
  cases piece with
  | start node =>
    exact ⟨sits.1, rewrites.silent_of_silent sits.2 fun own => quiet (own ▸ rfl)⟩
  | carry node log | close log => cases waits
  | report status result | wrapUp executed => trivial

/-- And a row that puts out nothing and is not one that is carried out leaves all of it. -/
theorem Sits.kept (sits : Sits m logs piece) (rewrites : Rewrites logs later row)
    (quiet : row.output = none)
    (kept : ∀ (i : ℕ) (other : LogRow), logs[i]? = some other → other.status = .running →
      later[i]? = some other) :
    Sits m later piece := by
  have silent {id : NodeId} (silent : World.Silent logs id) : World.Silent later id :=
    rewrites.silent_of_silent silent fun _ => quiet
  cases piece with
  | start node => exact ⟨sits.1, silent sits.2⟩
  | carry node log =>
    obtain ⟨listed, other, found, own, before, running, empty⟩ := sits
    exact ⟨listed, other, kept log other found running, own, silent before, running, empty⟩
  | close log =>
    obtain ⟨other, found, before, running, empty⟩ := sits
    exact ⟨other, kept log other found running, silent before, running, empty⟩
  | report status result | wrapUp executed => trivial

namespace Placing

theorem tail (placing : Placing m logs (piece :: rest)) : Placing m logs rest where
  sits other mem := placing.sits other (List.mem_cons_of_mem _ mem)
  once := placing.once.sublist ((List.sublist_cons_self piece rest).filterMap _)
  waits other mem := placing.waits other (List.mem_of_mem_tail mem)

theorem apart (placing : Placing m logs (piece :: rest)) {id : NodeId}
    (own : piece.node? = some id) : ∀ other ∈ rest, other.node? ≠ some id := by
  have once := placing.once
  rw [List.filterMap_cons_some own, List.nodup_cons] at once
  intro other mem same
  exact once.1 (List.mem_filterMap.mpr ⟨other, mem, same⟩)

theorem rewrites (placing : Placing m logs work) (rewrites : Rewrites logs later row)
    (waits : ∀ piece ∈ work, piece.waits = true)
    (quiet : ∀ piece ∈ work, piece.node? = some row.nodeId → row.output = none) :
    Placing m later work where
  sits piece mem := (placing.sits piece mem).rewrites (waits piece mem) rewrites (quiet piece mem)
  once := placing.once
  waits := placing.waits

theorem cons (placing : Placing m logs rest) (sits : Sits m logs piece)
    (waits : ∀ other ∈ rest, other.waits = true)
    (apart : ∀ id, piece.node? = some id → ∀ other ∈ rest, other.node? ≠ some id) :
    Placing m logs (piece :: rest) where
  sits := List.forall_mem_cons.mpr ⟨sits, placing.sits⟩
  once := by
    cases own : piece.node? with
    | none =>
      rw [List.filterMap_cons_none own]
      exact placing.once
    | some id =>
      rw [List.filterMap_cons_some own, List.nodup_cons]
      refine ⟨fun mem => ?_, placing.once⟩
      obtain ⟨other, present, same⟩ := List.mem_filterMap.mp mem
      exact apart id own other present same
  waits := waits

theorem idle : Placing m later [] where
  sits := List.forall_mem_nil _
  once := List.nodup_nil
  waits := List.forall_mem_nil _

theorem halt (status : Option PlanStatus) (result : StepResult) :
    Placing m later [.report status result] where
  sits := by simp [Sits]
  once := List.nodup_nil
  waits := List.forall_mem_nil _

theorem schedule (e : Executor) : Placing m logs (e.schedule m logs).work := by
  unfold Executor.schedule
  dsimp only
  split
  · exact halt _ _
  dsimp only
  split
  · rw [verdict]
    split
    · exact halt _ _
    split
    · exact halt _ _
    · exact halt _ _
  · refine ⟨?_, ?_, ?_⟩
    · intro piece mem
      rcases List.mem_append.mp mem with mem | mem
      · obtain ⟨node, chosen, rfl⟩ := List.mem_map.mp mem
        obtain ⟨listed, ready⟩ := List.mem_filter.mp chosen
        exact ⟨listed, silent_of_executable (of_decide_eq_true ready)⟩
      · rw [List.mem_singleton.mp mem]
        trivial
    · rw [List.filterMap_append, List.filterMap_map]
      have ids (nodes : List SpecNode) :
          nodes.filterMap (Work.node? ∘ .start) = nodes.map SpecNode.id := by
        rw [← List.filterMap_eq_map]
        rfl
      rw [ids, List.filterMap_cons_none rfl, List.filterMap_nil, List.append_nil]
      exact m.distinct.sublist (List.filter_sublist.map SpecNode.id)
    · intro piece mem
      exact waits_of_starts (List.mem_of_mem_tail mem)

end Placing

theorem create_congr (planContext : String → Option Json)
    (same : ∀ p, lastWriter p later = lastWriter p logs) :
    (Executor.create m planContext later).context = (Executor.create m planContext logs).context ∧
    (Executor.create m planContext later).nodeOutputs =
      (Executor.create m planContext logs).nodeOutputs := by
  obtain ⟨context, nodeOutputs⟩ := create_spec m planContext logs
  obtain ⟨context', nodeOutputs'⟩ := create_spec m planContext later
  constructor
  · funext name
    rw [context', context, same]
  · funext id
    rw [nodeOutputs', nodeOutputs, same]

theorem Rewrites.create_eq (rewrites : Rewrites logs later row)
    (silent : World.Silent logs row.nodeId) (quiet : row.output = none)
    (planContext : String → Option Json) :
    (Executor.create m planContext later).context = (Executor.create m planContext logs).context ∧
    (Executor.create m planContext later).nodeOutputs =
      (Executor.create m planContext logs).nodeOutputs :=
  create_congr planContext fun _ => rewrites.lastWriter_same silent (by simp [quiet])

/-- A new output is what the rows say of its node and its name, whoever is replayed last. -/
theorem Rewrites.written {p : NodeId → Bool} {result : Json} (rewrites : Rewrites logs later row)
    (silent : World.Silent logs row.nodeId) (output : row.output = some result)
    (writes : p row.nodeId = true)
    (first : ∀ first, lastWriter p logs = some first →
      first.stamp = row.stamp ∧ first.nodeId ≤ row.nodeId ∨ first.outputData = some result) :
    (lastWriter p later).bind LogRow.output = some result := by
  obtain ⟨new, old⟩ := rewrites.lastWriter_new silent (p := p) (by rw [writes, output]; rfl)
  by_cases before : ∀ first, lastWriter p logs = some first →
      first.stamp = row.stamp ∧ first.nodeId ≤ row.nodeId
  · rw [new before, Option.bind_some, output]
  · simp only [not_forall] at before
    obtain ⟨other, last, after⟩ := before
    rw [old other last after, Option.bind_some, lastWriter_output last]
    exact (first other last).resolve_left after

theorem create_stored {planContext : String → Option Json}
    (context : (Executor.create m planContext logs).context = e.context) :
    (Executor.create m e.context logs).context = e.context := by
  funext name
  have known := congrFun context name
  rw [(create_spec m planContext logs).1] at known
  rw [(create_spec m e.context logs).1]
  cases written : (lastWriter (m.writesTo name) logs).bind LogRow.output with
  | some output =>
    rw [written] at known
    exact known
  | none =>
    rw [written] at known
    change (planContext name <|> m.context name) = e.context name at known
    change (e.context name <|> m.context name) = e.context name
    rw [← known]
    cases planContext name <;> cases m.context name <;> rfl

theorem SpecManifest.writesTo_id (listed : node ∈ m.nodes) (name : String) :
    m.writesTo name node.id = decide (node.outputAs = some name) := by
  have found : m.node? node.id = some node := by
    rw [SpecManifest.node?, List.find?_eq_some_iff_getElem]
    obtain ⟨i, within, here⟩ := List.mem_iff_getElem.mp listed
    refine ⟨by simp, i, within, here, fun j before => ?_⟩
    have apart : m.nodes[j] ≠ m.nodes[i] := by
      intro same
      have nodup := m.distinct.of_map
      exact absurd ((nodup.getElem_inj_iff).mp same) (by omega)
    have differ : (m.nodes[j]).id ≠ node.id := fun same => apart
      (here ▸ SpecManifest.eq_of_id (List.getElem_mem _) listed same)
    simpa using differ
  rw [SpecManifest.writesTo, found, Option.bind_some]

theorem Rewrites.create_remember {planContext : String → Option Json} {result : Json}
    (rewrites : Rewrites logs later row) (listed : node ∈ m.nodes) (own : row.nodeId = node.id)
    (silent : World.Silent logs row.nodeId) (output : row.output = some result)
    (first : ∀ name first, node.outputAs = some name →
      lastWriter (m.writesTo name) logs = some first →
        first.stamp = row.stamp ∧ first.nodeId ≤ row.nodeId ∨ first.outputData = some result)
    (known : (Executor.create m planContext logs).context = e.context ∧
      (Executor.create m planContext logs).nodeOutputs = e.nodeOutputs) :
    (Executor.create m planContext later).context = (e.remember node result).context ∧
    (Executor.create m planContext later).nodeOutputs = (e.remember node result).nodeOutputs := by
  obtain ⟨context, nodeOutputs⟩ := create_spec m planContext logs
  obtain ⟨context', nodeOutputs'⟩ := create_spec m planContext later
  constructor
  · funext name
    have writes := m.writesTo_id listed name
    rw [← own] at writes
    rw [context']
    by_cases named : node.outputAs = some name
    · rw [rewrites.written silent output (by simpa [named] using writes)
        fun other last => first name other named last]
      simp [Executor.remember, named]
    · rw [rewrites.lastWriter_same silent (by simp [writes, named]), ← context, known.1]
      cases as : node.outputAs with
      | none => simp [Executor.remember, as]
      | some other =>
        have differ : name ≠ other := by
          rintro rfl
          exact named as
        simp [Executor.remember, as, differ]
  · funext id
    rw [nodeOutputs']
    by_cases same : id = node.id
    · subst same
      rw [rewrites.written silent output (decide_eq_true own)]
      · simp [Executor.remember]
      · intro other last
        rw [← own, show lastWriter (· = row.nodeId) logs = none from silent] at last
        cases last
    · have elsewhere : row.nodeId ≠ id := fun is => same (is.symm.trans own)
      rw [rewrites.lastWriter_same silent (by simp [elsewhere]), ← nodeOutputs, known.2]
      simp [Executor.remember, same]

theorem schedule_context (m : SpecManifest) (logs : List LogRow) (e : Executor) :
    (e.schedule m logs).context = e.context ∧
    (e.schedule m logs).nodeOutputs = e.nodeOutputs := by
  unfold Executor.schedule
  dsimp only
  split
  · exact ⟨rfl, rfl⟩
  · exact ⟨rfl, rfl⟩

theorem normalizeResult_isObj (loads : String → Option Json) (response : String) :
    wrapResult (normalizeResult loads response) = normalizeResult loads response := by
  have isObj : (normalizeResult loads response).isObj = true := by
    unfold normalizeResult
    split
    · rfl
    · rfl
  rw [wrapResult, if_pos isObj]

end Placing

section Steps

variable {m : SpecManifest} {e : Executor} {w t : World} {row : LogRow} {node : SpecNode} {log : ℕ}
  {rest : List Work}

namespace World

/-- A step of the plan that leaves an executor as the rows have it. -/
structure Holds (m : SpecManifest) (w : World) : Prop where
  placed : w.Placed m
  resumes : w.Resumes m

theorem Holds.of_none (none : t.executor = none) (stamped : ∀ row ∈ t.logs, row.stamp ≤ t.now) :
    t.Holds m := by
  refine ⟨⟨stamped, fun e current => ?_⟩, fun e current => ?_⟩
  · rw [none] at current
    cases current
  · rw [none] at current
    cases current

theorem Placed.of_rewrites (placed : w.Placed m) (rewrites : Rewrites w.logs t.logs row)
    (stamp : row.stamp ≤ t.now) (now : w.now ≤ t.now) : ∀ row ∈ t.logs, row.stamp ≤ t.now := by
  intro other mem
  rcases rewrites.mem_of_mem mem with rfl | mem
  · exact stamp
  · exact (placed.stamped other mem).trans now

theorem Holds.of_logs {f : Executor} (holds : w.Holds m) (current : w.executor = some e)
    (logs : t.logs = w.logs) (now : w.now ≤ t.now) (later : t.executor = some f)
    (placing : Placing m w.logs f.work) (context : f.context = e.context)
    (nodeOutputs : f.nodeOutputs = e.nodeOutputs)
    (planContext : t.planContext = w.planContext ∨ t.planContext = e.context) : t.Holds m := by
  obtain ⟨resumes, resumes'⟩ := holds.resumes e current
  refine ⟨⟨?_, ?_⟩, ?_⟩
  · intro row mem
    exact (holds.placed.stamped row (logs ▸ mem)).trans now
  · intro g is
    rw [later, Option.some.injEq] at is
    rwa [logs, ← is]
  · intro g is
    rw [later, Option.some.injEq] at is
    rw [logs, ← is, context, nodeOutputs]
    rcases planContext with same | stored
    · rw [same]
      exact ⟨resumes, resumes'⟩
    · rw [stored]
      refine ⟨create_stored resumes, ?_⟩
      rw [← resumes']
      funext id
      rw [(create_spec m e.context w.logs).2, (create_spec m w.planContext w.logs).2]

theorem Holds.of_quiet {f : Executor} (holds : w.Holds m) (current : w.executor = some e)
    (rewrites : Rewrites w.logs t.logs row) (silent : Silent w.logs row.nodeId)
    (quiet : row.output = none) (stamp : row.stamp ≤ t.now) (now : w.now ≤ t.now)
    (planContext : t.planContext = w.planContext) (later : t.executor = some f)
    (placing : Placing m t.logs f.work) (context : f.context = e.context)
    (nodeOutputs : f.nodeOutputs = e.nodeOutputs) : t.Holds m := by
  refine ⟨⟨holds.placed.of_rewrites rewrites stamp now, ?_⟩, ?_⟩
  · intro g is
    rw [later, Option.some.injEq] at is
    rwa [← is]
  · intro g is
    rw [later, Option.some.injEq] at is
    obtain ⟨same, same'⟩ := rewrites.create_eq (m := m) silent quiet w.planContext
    obtain ⟨resumes, resumes'⟩ := holds.resumes e current
    rw [planContext, same, same', ← is, context, nodeOutputs]
    exact ⟨resumes, resumes'⟩

theorem Holds.of_finish {f : Executor} {status : LogStatus} (holds : w.Holds m)
    (current : w.executor = some e) (found : w.logs[log]? = some row)
    (silent : Silent w.logs row.nodeId) (empty : row.outputData = none)
    (logs : t.logs = finishNodeExecution w.now log status none w.logs) (now : t.now = w.now)
    (planContext : t.planContext = w.planContext) (later : t.executor = some f)
    (placing : Placing m w.logs f.work) (waits : ∀ piece ∈ f.work, piece.waits = true)
    (context : f.context = e.context) (nodeOutputs : f.nodeOutputs = e.nodeOutputs) : t.Holds m := by
  have rewrites := Rewrites.finish status none found holds.placed.stamped
  have quiet : ({ row with status, completedAt := some w.now, outputData := none <|> row.outputData } :
      LogRow).output = none := by
    rw [LogRow.output]
    split
    · exact empty
    · rfl
  rw [← logs] at rewrites
  exact holds.of_quiet current rewrites silent quiet now.ge now.ge planContext later
    (placing.rewrites rewrites waits fun _ _ _ => quiet) context nodeOutputs

theorem Holds.returned {result : Json} (holds : w.Holds m) (current : w.executor = some e)
    (work : e.work = .carry node log :: rest) (isObj : wrapResult result = result)
    (first : ∀ name first, node.outputAs = some name →
      lastWriter (m.writesTo name) w.logs = some first →
        first.stamp = w.now ∧ first.nodeId ≤ node.id ∨ first.outputData = some result) :
    Holds m { w.finish log .success (some (wrapResult result)) with
      executor := some { e.remember node result with work := rest }
      ran := node.id :: w.ran } := by
  have placing := holds.placed.placing e current
  rw [work] at placing
  obtain ⟨listed, row, found, own, silent, -, -⟩ := placing.sits _ List.mem_cons_self
  have rewrites := Rewrites.finish .success (some (wrapResult result)) found holds.placed.stamped
  refine ⟨⟨holds.placed.of_rewrites rewrites le_rfl le_rfl, ?_⟩, ?_⟩
  · rintro f ⟨⟩
    refine placing.tail.rewrites rewrites placing.waits fun piece mem same => ?_
    have first : (Work.carry node log).node? = some row.nodeId := congrArg some own.symm
    exact absurd same (placing.apart first piece mem)
  · rintro f ⟨⟩
    have output : ({ row with
        status := .success, completedAt := some w.now
        outputData := some (wrapResult result) <|> row.outputData } : LogRow).output =
        some result := by
      rw [LogRow.output, if_pos rfl, isObj]
      rfl
    exact rewrites.create_remember listed own silent output
      (fun name other named last => own ▸ first name other named last) (holds.resumes e current)

theorem Holds.addRow {f : Executor} {id : NodeId} {status : LogStatus} {completedAt : Option ℕ}
    (holds : w.Holds m) (current : w.executor = some e) (silent : Silent w.logs id)
    (open_ : status ≠ .success) (done : completedAt.getD w.now = w.now)
    (logs : t.logs = (w.addRow id status completedAt).logs) (now : t.now = w.now)
    (planContext : t.planContext = w.planContext) (later : t.executor = some f)
    (placing : (∀ row, row.nodeId = id → row.output = none → Rewrites w.logs t.logs row →
      Placing m t.logs f.work)) (context : f.context = e.context)
    (nodeOutputs : f.nodeOutputs = e.nodeOutputs) : t.Holds m := by
  let row : LogRow := { nodeId := id, status, createdAt := w.now, completedAt }
  have stamp : row.stamp = w.now := done
  have rewrites : Rewrites w.logs t.logs row := by
    rw [logs]
    exact .append fun other mem => (holds.placed.stamped other mem).trans stamp.ge
  have quiet : row.output = none := if_neg open_
  exact holds.of_quiet current rewrites silent quiet (by omega) now.ge planContext later
    (placing row rfl quiet rewrites) context nodeOutputs

/-- A row that waits is decided while nothing is at work, or rejected without an output. -/
theorem Holds.decide {id : NodeId} {status : LogStatus} {outputData : Option Json}
    {plan : PlanStatus} (holds : w.Holds m) (waits : w.Waits id log)
    (keeps : w.executor = none ∨ status = .failed ∧ Silent w.logs id) :
    Holds m { w.finish log status outputData with planStatus := plan } := by
  obtain ⟨row, found, own, waiting⟩ := waits.row
  have rewrites := Rewrites.finish status outputData found holds.placed.stamped
  cases current : w.executor with
  | none => exact .of_none current (holds.placed.of_rewrites rewrites le_rfl le_rfl)
  | some e =>
    obtain ⟨rfl, silent⟩ := keeps.resolve_left (by simp [current])
    have quiet : ({ row with
        status := .failed, completedAt := some w.now
        outputData := outputData <|> row.outputData } : LogRow).output = none := by
      rw [LogRow.output, if_neg LogStatus.noConfusion]
    have placing := holds.placed.placing e current
    refine holds.of_quiet current rewrites (own ▸ silent) quiet le_rfl le_rfl rfl current
      ⟨fun piece mem => ?_, placing.once, placing.waits⟩ rfl rfl
    refine (placing.sits piece mem).kept rewrites quiet fun i other listed running => ?_
    have elsewhere : log ≠ i := by
      rintro rfl
      rw [found, Option.some.injEq] at listed
      rw [← listed, waiting] at running
      cases running
    change (finishNodeExecution w.now log .failed outputData w.logs)[i]? = some other
    rw [finishNodeExecution, List.getElem?_modify, listed]
    simp [elsewhere]

end World

theorem holds_perform {outcome : Outcome} (holds : w.Holds m) (current : w.executor = some e)
    (kept : w.Keeps m (.act (.perform outcome)))
    (normal : ∀ result, outcome = .returned result → wrapResult result = result)
    (moves : Moves m w (.perform outcome) t) : t.Holds m := by
  obtain ⟨silent, first⟩ := kept e current
  have placing := holds.placed.placing e current
  cases moves with
  | skipCached _ at_ skips cached =>
    cases current.symm.trans at_
    exact holds.of_logs current rfl le_rfl rfl placing rfl rfl (.inl rfl)
  | skip _ at_ skips uncached =>
    cases current.symm.trans at_
    refine holds.addRow current (silent _ _ skips uncached) (by decide) rfl rfl rfl rfl rfl
      (fun row _ quiet rewrites => ?_) rfl rfl
    refine ⟨fun piece mem => ?_, placing.once, placing.waits⟩
    refine (placing.sits piece mem).kept rewrites quiet fun i other found running => ?_
    exact List.getElem?_append_left (List.getElem?_eq_some_iff.mp found).1 ▸ found
  | start _ at_ skips work =>
    cases current.symm.trans at_
    rw [work] at placing
    obtain ⟨listed, before⟩ := placing.sits _ List.mem_cons_self
    refine holds.addRow current before (by decide) rfl rfl rfl rfl rfl
      (fun row own quiet rewrites => ?_) rfl rfl
    have later := rewrites.silent_of_silent before fun _ => quiet
    refine (placing.tail.rewrites rewrites placing.waits fun _ _ _ => quiet).cons
      ⟨listed, _, List.getElem?_concat_length, rfl, later, rfl, rfl⟩ placing.waits ?_
    exact fun id is other mem => placing.apart is other mem
  | checkIn _ at_ skips work asks =>
    cases current.symm.trans at_
    rw [work] at placing
    obtain ⟨listed, row, found, own, silent, -, empty⟩ := placing.sits _ List.mem_cons_self
    exact holds.of_finish current found silent empty rfl rfl rfl rfl (.halt _ _) (by simp [Work.waits])
      rfl rfl
  | returned result at_ skips work unasked action =>
    cases current.symm.trans at_
    exact holds.returned current work (normal result rfl) fun name other named last =>
      first result _ _ _ name other rfl skips work unasked named last
  | chose next at_ skips work gate =>
    cases current.symm.trans at_
    rw [work] at placing
    obtain ⟨listed, row, found, own, silent, running, empty⟩ := placing.sits _ List.mem_cons_self
    refine holds.of_logs current rfl le_rfl rfl ?_ rfl rfl (.inl rfl)
    exact placing.tail.cons ⟨row, found, silent, running, empty⟩ placing.waits (by simp [Work.node?])
  | raised at_ skips work unasked kind | replan _ at_ skips work kind =>
    cases current.symm.trans at_
    rw [work] at placing
    obtain ⟨listed, row, found, own, silent, -, empty⟩ := placing.sits _ List.mem_cons_self
    exact holds.of_finish current found silent empty rfl rfl rfl rfl (.halt _ _) (by simp [Work.waits])
      rfl rfl
  | close _ at_ skips work =>
    cases current.symm.trans at_
    rw [work] at placing
    obtain ⟨row, found, silent, -, empty⟩ := placing.sits _ List.mem_cons_self
    exact holds.of_finish current found silent empty rfl rfl rfl rfl placing.tail placing.waits rfl rfl
  | report _ at_ skips work =>
    cases current.symm.trans at_
    rw [work] at placing
    exact holds.of_logs current rfl le_rfl rfl placing.tail rfl rfl (.inl rfl)
  | wrapUp _ at_ skips work =>
    cases current.symm.trans at_
    rw [work] at placing
    exact holds.of_logs current rfl le_rfl rfl placing.tail rfl rfl (.inr rfl)

theorem holds_rerun (holds : w.Holds m) (idle : w.executor = none) (id : NodeId) :
    (w.rerunPlanNode m id).Holds m := by
  unfold World.rerunPlanNode
  split
  · refine .of_none idle fun row mem => ?_
    rcases List.mem_append.mp mem with mem | mem
    · exact (holds.placed.stamped row mem).trans (Nat.le_add_right _ 2)
    · obtain ⟨id, -, rfl⟩ := List.mem_map.mp mem
      exact Nat.le_succ _
  · exact holds

theorem holds_step {loads : String → Option Json} {a : PlanAction} (holds : w.Holds m)
    (kept : w.Keeps m a) (normal : a.Normalized loads) (taken : planStep m w a = some t) :
    t.Holds m := by
  cases a with
  | rerun id =>
    cases taken
    exact holds_rerun holds kept id
  | act a =>
    have taken : step m w a = some t := taken
    cases a with
    | execute =>
      cases taken
      refine ⟨⟨holds.placed.stamped, ?_⟩, ?_⟩
      · rintro e ⟨⟩
        rw [(create_idle _ _ _).2]
        exact .idle
      · rintro e ⟨⟩
        exact ⟨rfl, rfl⟩
    | runStep =>
      cases Moves.of_step taken with
      | schedule current idle =>
        obtain ⟨context, nodeOutputs⟩ := schedule_context m w.logs _
        exact holds.of_logs current rfl le_rfl rfl (.schedule _) context nodeOutputs (.inl rfl)
    | perform outcome =>
      cases current : w.executor with
      | none =>
        rw [step, current] at taken
        cases taken
      | some e =>
        refine holds_perform holds current kept ?_ (Moves.of_step taken)
        rintro result rfl
        obtain ⟨response, rfl⟩ := normal
        exact normalizeResult_isObj loads response
    | interact id decision feedback =>
      cases Moves.of_step taken with
      | refused => exact holds
      | approved feedback waits approves =>
        refine holds.decide waits ?_
        rcases kept with idle | none | ⟨reject, -⟩
        · exact .inl idle
        · exact absurd waits (none _)
        · exact absurd reject approves
      | rejected feedback waits =>
        refine holds.decide waits ?_
        rcases kept with idle | none | ⟨-, silent⟩
        · exact .inl idle
        · exact absurd waits (none _)
        · exact .inr ⟨rfl, silent⟩
    | interrupt =>
      cases taken
      exact .of_none rfl holds.placed.stamped
    | tick =>
      cases taken
      have stamped (row : LogRow) (mem : row ∈ w.logs) : row.stamp ≤ w.now + 1 :=
        (holds.placed.stamped row mem).trans (Nat.le_succ _)
      exact ⟨⟨stamped, holds.placed.placing⟩, holds.resumes⟩

end Steps

/-- Cut anywhere, an executor is made again with the context and the outputs that it had, in
every run that keeps the rows true to it. -/
theorem resumes_throughout {m : SpecManifest} {loads : String → Option Json}
    {actions : List PlanAction} {w : World} (normal : ∀ a ∈ actions, a.Normalized loads)
    (kept : Along (planStep m) (World.Keeps m) (.planned m) actions)
    (reached : run (planStep m) (.planned m) actions = some w) : w.Resumes m := by
  have normal : Along (planStep m) (fun _ a => a.Normalized loads) (.planned m) actions :=
    along_of_mem (fun a mem _ => normal a mem) _
  refine (run_invariant (P := World.Holds m) ?_ ?_ (along_and kept normal) reached).resumes
  · intro w a t holds also taken
    exact holds_step holds also.1 also.2 taken
  · exact .of_none rfl (List.forall_mem_nil _)

theorem keeps_raised {m : SpecManifest} {w : World} {e : Executor} (current : w.executor = some e)
    (skips : e.skips = []) : w.Keeps m (.act (.perform .raised)) := by
  intro f is
  cases current.symm.trans is
  refine ⟨fun id rest due => ?_, fun result node log rest name first returned => ?_⟩
  · rw [skips] at due
    cases due
  · cases returned

section SharedName

/-- Two actions, one after the other, that put out under one name. -/
def sharedName : SpecManifest where
  nodes := [⟨"T1", .action (some "x") false, []⟩, ⟨"T2", .action (some "x") false, ["T1"]⟩]
  distinct := by decide
  closed := by decide
  acyclic := by
    refine Digraph.acyclic_of_rank (fun id => if id = "T2" then 1 else 0) ?_
    rintro _ dep ⟨node, listed, rfl, need⟩
    simp only [List.mem_cons, List.not_mem_nil, or_false] at listed
    rcases listed with rfl | rfl
    · cases need
    · rw [List.mem_singleton.mp need]
      decide

def sharedRun (first second : String) : List PlanAction :=
  [.act .execute, .act .runStep, .act (.perform .raised),
    .act (.perform (.returned (.obj [("result", .str first)]))), .act (.perform .raised), .act .tick,
    .act .runStep, .act (.perform .raised),
    .act (.perform (.returned (.obj [("result", .str second)])))]

theorem keeps_shared (text : String) :
    Along (planStep sharedName) (World.Keeps sharedName) (.planned sharedName)
      (sharedRun text text) := by
  refine (along_cons_of_step rfl).mpr ⟨trivial, ?_⟩
  refine (along_cons_of_step rfl).mpr ⟨trivial, ?_⟩
  refine (along_cons_of_step rfl).mpr ⟨keeps_raised rfl rfl, ?_⟩
  refine (along_cons_of_step rfl).mpr ⟨?_, ?_⟩
  · rintro e ⟨⟩
    refine ⟨fun id rest due => (by cases due), ?_⟩
    rintro result node log rest name first ⟨⟩ - ⟨⟩ - ⟨⟩ ⟨⟩
  refine (along_cons_of_step rfl).mpr ⟨keeps_raised rfl rfl, ?_⟩
  refine (along_cons_of_step rfl).mpr ⟨trivial, ?_⟩
  refine (along_cons_of_step rfl).mpr ⟨trivial, ?_⟩
  refine (along_cons_of_step rfl).mpr ⟨keeps_raised rfl rfl, ?_⟩
  refine (along_cons_of_step rfl).mpr ⟨?_, trivial⟩
  rintro e ⟨⟩
  refine ⟨fun id rest due => (by cases due), ?_⟩
  rintro result node log rest name first ⟨⟩ - ⟨⟩ - ⟨⟩ ⟨⟩
  exact .inr rfl

theorem shared_name_kept :
    ∃ w, run (planStep sharedName) (.planned sharedName) (sharedRun "done" "done") = some w ∧
      w.Resumes sharedName := by
  obtain ⟨w, reached⟩ : ∃ w, run (planStep sharedName) (.planned sharedName)
    (sharedRun "done" "done") = some w := ⟨_, rfl⟩
  have normal : ∀ a ∈ sharedRun "done" "done", a.Normalized fun _ => none := by
    simp [sharedRun, PlanAction.Normalized, normalizeResult]
  exact ⟨w, reached, resumes_throughout normal (keeps_shared "done") reached⟩

def sharedText (e : Executor) : Option String :=
  ((e.context "x").bind (Json.get? "result")).bind Json.string?

/-- The executor that is cut has the second output, the one made again the first. -/
theorem shared_name_lost :
    ∃ w e, run (planStep sharedName) (.planned sharedName) (sharedRun "first" "second") = some w ∧
      (∀ a ∈ sharedRun "first" "second", a.Normalized fun _ => none) ∧
      w.executor = some e ∧ sharedText e = some "second" ∧
      sharedText (.create sharedName w.planContext w.logs) = some "first" ∧
      ¬ w.Resumes sharedName := by
  have told : ((run (planStep sharedName) (.planned sharedName) (sharedRun "first" "second")).bind
      fun w => w.executor.map fun e =>
        (sharedText e, sharedText (.create sharedName w.planContext w.logs))) =
      some (some "second", some "first") := by decide +kernel
  obtain ⟨w, reached, told⟩ := Option.bind_eq_some_iff.mp told
  obtain ⟨e, current, told⟩ := Option.map_eq_some_iff.mp told
  obtain ⟨cut, made⟩ := Prod.mk.inj told
  refine ⟨w, e, reached, ?_, current, cut, made, fun resumes => ?_⟩
  · simp [sharedRun, PlanAction.Normalized, normalizeResult]
  · rw [sharedText, (resumes e current).1] at made
    exact absurd (cut.symm.trans made) (by decide)

end SharedName

end Deeting.SpecAgent
