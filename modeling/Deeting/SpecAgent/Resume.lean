import Deeting.Sorting
import Deeting.SpecAgent.Moves
import Deeting.Transition

/-! An executor made from the stored rows against the one that was cut, after any number of
steps of the plan, with nodes that are run again. -/
namespace Deeting.SpecAgent
open Transition

/-- The output that `initialize` takes from a row. -/
def LogRow.output (row : LogRow) : Option Json :=
  if row.status = .success then row.outputData else none

def Newest (logs : List LogRow) (row : LogRow) : Prop :=
  ∀ other ∈ logs, other.nodeId = row.nodeId → other.stamp ≤ row.stamp
  deriving Decidable

def writers (p : NodeId → Bool) (logs : List LogRow) : List LogRow :=
  logs.filter fun row => decide (Newest logs row) && (p row.nodeId && row.output.isSome)

def lastWriter (p : NodeId → Bool) (logs : List LogRow) : Option LogRow :=
  ((writers p logs).insertionSort LogRow.Precedes).getLast?

namespace SpecManifest

def writesTo (m : SpecManifest) (name : String) (id : NodeId) : Bool :=
  (m.node? id).bind SpecNode.outputAs = some name

theorem requeued_decreases (m : SpecManifest) {visited queue : List NodeId} {current : NodeId}
    (fresh : current ∉ visited) :
    Prod.Lex (· < ·) (· < ·)
      (((m.nodes.map SpecNode.id).filter fun id => id ∉ current :: visited).length,
        (queue ++ m.children current).length)
      (((m.nodes.map SpecNode.id).filter fun id => id ∉ visited).length,
        (current :: queue).length) := by
  have fewer : ((m.nodes.map SpecNode.id).filter fun id => id ∉ current :: visited) =
      ((m.nodes.map SpecNode.id).filter fun id => id ∉ visited).filter fun id => id ≠ current := by
    rw [List.filter_filter]
    refine List.filter_congr fun id _ => ?_
    simp only [List.mem_cons, not_or, Bool.decide_and]
  rw [fewer]
  by_cases known : current ∈ m.nodes.map SpecNode.id
  · refine .left _ _ (List.length_filter_lt_length_iff_exists.mpr ⟨current, ?_, by simp⟩)
    exact List.mem_filter.mpr ⟨known, by simpa using fresh⟩
  · rw [m.children_eq_nil known, List.append_nil, List.filter_eq_self.mpr]
    · exact .right _ (Nat.lt_succ_self _)
    · intro id mem
      have listed := List.mem_of_mem_filter mem
      simp only [ne_eq, decide_not, Bool.not_eq_true', decide_eq_false_iff_not]
      rintro rfl
      exact known listed

/-- The queue of `rerun_plan_node`; `visited` are the nodes it has taken from it. -/
def requeued (m : SpecManifest) (visited : List NodeId) : List NodeId → List NodeId
  | [] => visited
  | current :: queue =>
      if current ∈ visited then m.requeued visited queue
      else m.requeued (current :: visited) (queue ++ m.children current)
  termination_by queue =>
    (((m.nodes.map SpecNode.id).filter fun id => id ∉ visited).length, queue.length)
  decreasing_by
    · exact Prod.Lex.right _ (Nat.lt_succ_self _)
    · exact m.requeued_decreases ‹_›

end SpecManifest

/-- `rerun_plan_node`, in a moment of its own. -/
def World.rerunPlanNode (m : SpecManifest) (w : World) (id : NodeId) : World :=
  if id ∈ m.nodes.map SpecNode.id then
    let queued := (m.requeued [] [id]).insertionSort (· ≤ ·)
    { w with
      logs := w.logs ++ queued.map fun id =>
        { nodeId := id, status := .pending, createdAt := w.now + 1 }
      planContext := fun name =>
        if queued.any (m.writesTo name) then none else w.planContext name
      planStatus := .running
      now := w.now + 2 }
  else w

inductive PlanAction where
  | act (a : Action)
  | rerun (id : NodeId)

def planStep (m : SpecManifest) (w : World) : PlanAction → Option World
  | .act a => step m w a
  | .rerun id => some (w.rerunPlanNode m id)

/-- `_normalize_result`; `loads` is `json.loads` where it does not raise. -/
def normalizeResult (loads : String → Option Json) (response : String) : Json :=
  match loads response with
  | some (.obj entries) => .obj entries
  | _ => .obj [("result", .str response)]

def PlanAction.Normalized (loads : String → Option Json) : PlanAction → Prop
  | .act (.perform (.returned result)) => ∃ response, result = normalizeResult loads response
  | _ => True

namespace World

/-- The executor that a new request would make knows what the one at work knows. -/
def Resumes (m : SpecManifest) (w : World) : Prop :=
  ∀ e, w.executor = some e →
    (Executor.create m w.planContext w.logs).context = e.context ∧
    (Executor.create m w.planContext w.logs).nodeOutputs = e.nodeOutputs

def Silent (logs : List LogRow) (id : NodeId) : Prop := lastWriter (· = id) logs = none

/-- What keeps the stored rows true to the executor. A node that puts its output under the
name of one finished before returns the same as the one that was finished first; a node with
an output is not skipped; and nobody decides on a node or has one run again while an executor
is at work. -/
def Keeps (m : SpecManifest) (w : World) : PlanAction → Prop
  | .act (.perform outcome) => ∀ e, w.executor = some e →
      (∀ id rest, e.skips = id :: rest → id ∉ e.skippedCache → Silent w.logs id) ∧
      ∀ result node log rest name first, outcome = .returned result → e.skips = [] →
        e.work = .carry node log :: rest → node.checkIn = false → node.outputAs = some name →
        lastWriter (m.writesTo name) w.logs = some first →
          first.stamp = w.now ∧ first.nodeId ≤ node.id ∨ first.outputData = some result
  | .act (.interact id decision _) => w.executor = none ∨ (∀ log, ¬ w.Waits id log) ∨
      decision = .reject ∧ Silent w.logs id
  | .rerun _ => w.executor = none
  | _ => True

end World

section Replay

variable {m : SpecManifest} {e : Executor} {row : LogRow} {logs : List LogRow}

theorem replay_of_none (none : row.output = none) :
    (e.replay m row).context = e.context ∧ (e.replay m row).nodeOutputs = e.nodeOutputs := by
  obtain ⟨id, status, outputData, createdAt, completedAt⟩ := row
  cases status with
  | success =>
    cases outputData with
    | none => exact ⟨rfl, rfl⟩
    | some output => cases none
  | _ => cases outputData <;> exact ⟨rfl, rfl⟩

theorem replay_of_some {output : Json} (some_ : row.output = some output) :
    (∀ name, (e.replay m row).context name =
      if m.writesTo name row.nodeId then some output else e.context name) ∧
    ∀ id, (e.replay m row).nodeOutputs id =
      if row.nodeId = id then some output else e.nodeOutputs id := by
  obtain ⟨rowId, status, outputData, createdAt, completedAt⟩ := row
  cases status with
  | success =>
    cases outputData with
    | none => cases some_
    | some value =>
      cases some_
      constructor
      · intro name
        cases named : (m.node? rowId).bind SpecNode.outputAs with
        | none => simp [Executor.replay, SpecManifest.writesTo, named]
        | some other =>
          simp [Executor.replay, SpecManifest.writesTo, named, Function.update_apply, eq_comm]
      · intro id
        simp only [Executor.replay, Function.update_apply, eq_comm]
  | _ => cases some_

theorem foldl_replay (e : Executor) (rows : List LogRow) :
    (∀ name, (rows.foldl (Executor.replay m) e).context name =
      ((rows.filter fun row => m.writesTo name row.nodeId && row.output.isSome).getLast?.bind
        LogRow.output <|> e.context name)) ∧
    ∀ id, (rows.foldl (Executor.replay m) e).nodeOutputs id =
      ((rows.filter fun row => decide (row.nodeId = id) && row.output.isSome).getLast?.bind
        LogRow.output <|> e.nodeOutputs id) := by
  induction rows using List.reverseRecOn with
  | nil => exact ⟨fun _ => rfl, fun _ => rfl⟩
  | append_singleton rows row ih =>
    rw [List.foldl_concat]
    cases output : row.output with
    | none =>
      obtain ⟨context, nodeOutputs⟩ := replay_of_none (m := m) (e := rows.foldl (Executor.replay m) e)
        output
      simp only [context, nodeOutputs, List.filter_append, List.filter_cons, List.filter_nil, output,
        Option.isSome_none, Bool.and_false, Bool.false_eq_true, if_false, List.append_nil]
      exact ih
    | some value =>
      obtain ⟨context, nodeOutputs⟩ := replay_of_some (m := m) (e := rows.foldl (Executor.replay m) e)
        output
      constructor
      · intro name
        rw [context]
        cases writes : m.writesTo name row.nodeId with
        | true => simp [output, writes]
        | false => simp [writes, ih.1]
      · intro id
        rw [nodeOutputs]
        by_cases own : row.nodeId = id
        · simp [output, own]
        · simp [own, ih.2]

instance : IsTrans LogRow LogRow.Precedes where
  trans r s t first second := by
    rcases first with newer | ⟨same, before⟩
    · rcases second with newer' | ⟨same', -⟩
      · exact .inl (newer'.trans newer)
      · exact .inl (same' ▸ newer)
    · rcases second with newer' | ⟨same', before'⟩
      · exact .inl (same ▸ newer')
      · exact .inr ⟨same.trans same', String.le_trans before before'⟩

instance : Std.Total LogRow.Precedes where
  total r s := by
    rcases Nat.lt_trichotomy r.stamp s.stamp with older | same | newer
    · exact .inr (.inl older)
    · exact (String.le_total r.nodeId s.nodeId).imp (fun before => .inr ⟨same, before⟩)
        fun before => .inr ⟨same.symm, before⟩
    · exact .inl (.inl newer)

theorem filter_latest (q : LogRow → Bool) :
    (getLatestNodeLogs logs).filter q =
      ((logs.filter fun row => Newest logs row).filter q).insertionSort LogRow.Precedes :=
  Sorting.filter_insertionSort q _

theorem create_spec (m : SpecManifest) (planContext : String → Option Json) (logs : List LogRow) :
    (∀ name, (Executor.create m planContext logs).context name =
      ((lastWriter (m.writesTo name) logs).bind LogRow.output <|>
        (planContext name <|> m.context name))) ∧
    ∀ id, (Executor.create m planContext logs).nodeOutputs id =
      (lastWriter (· = id) logs).bind LogRow.output := by
  obtain ⟨context, nodeOutputs⟩ := foldl_replay (m := m)
    { context := fun name => planContext name <|> m.context name, nodeOutputs := fun _ => none
      skippedCache := [] } (getLatestNodeLogs logs)
  constructor
  · intro name
    refine (context name).trans ?_
    rw [filter_latest, List.filter_filter]
    simp only [lastWriter, writers, Bool.and_comm]
  · intro id
    refine (nodeOutputs id).trans ?_
    rw [filter_latest, List.filter_filter]
    simp only [lastWriter, writers, Bool.and_comm]
    cases (List.getLast? _ : Option LogRow) <;> simp

end Replay

structure Rewrites (logs later : List LogRow) (row : LogRow) : Prop where
  split : ∃ before old after, logs = before ++ old ++ after ∧ later = before ++ row :: after ∧
    ∀ other ∈ old, LogRow.nodeId other = row.nodeId
  stamped : ∀ other ∈ logs, other.stamp ≤ row.stamp

section Rewrites

variable {m : SpecManifest} {logs later : List LogRow} {row other : LogRow} {id : NodeId}
  {p : NodeId → Bool}

theorem lastWriter_eq_none : lastWriter p logs = none ↔
    ∀ row ∈ logs, Newest logs row → p row.nodeId = true → row.output = none := by
  rw [lastWriter, List.getLast?_eq_none_iff, ← List.length_eq_zero_iff, List.length_insertionSort,
    List.length_eq_zero_iff, writers, List.filter_eq_nil_iff]
  simp only [Bool.and_eq_true, decide_eq_true_eq, not_and, Option.isSome_iff_ne_none, ne_eq, not_not]

theorem silent_iff : World.Silent logs id ↔
    ∀ row ∈ logs, Newest logs row → row.nodeId = id → row.output = none := by
  rw [World.Silent, lastWriter_eq_none]
  simp only [decide_eq_true_eq]

namespace Rewrites

theorem append (stamped : ∀ other ∈ logs, other.stamp ≤ row.stamp) :
    Rewrites logs (logs ++ [row]) row :=
  ⟨⟨logs, [], [], by simp, rfl, List.forall_mem_nil _⟩, stamped⟩

theorem finish {log now : ℕ} (status : LogStatus) (outputData : Option Json)
    (found : logs[log]? = some row) (stamped : ∀ other ∈ logs, other.stamp ≤ now) :
    Rewrites logs (finishNodeExecution now log status outputData logs)
      { row with status, completedAt := some now, outputData := outputData <|> row.outputData } := by
  obtain ⟨within, here⟩ := List.getElem?_eq_some_iff.mp found
  refine ⟨⟨logs.take log, [row], logs.drop (log + 1), ?_, ?_, ?_⟩, stamped⟩
  · rw [← here, List.append_assoc, List.singleton_append, List.getElem_cons_drop,
      List.take_append_drop]
  · rw [finishNodeExecution, List.modify_eq_take_cons_drop within, here]
  · intro other mem
    rw [List.mem_singleton.mp mem]

theorem mem_of_mem (rewrites : Rewrites logs later row) (mem : other ∈ later) :
    other = row ∨ other ∈ logs := by
  obtain ⟨before, old, after, rfl, rfl, -⟩ := rewrites.split
  simp only [List.mem_append, List.mem_cons] at mem ⊢
  tauto

theorem mem_of_ne (rewrites : Rewrites logs later row) (mem : other ∈ logs)
    (elsewhere : other.nodeId ≠ row.nodeId) : other ∈ later := by
  obtain ⟨before, old, after, rfl, rfl, own⟩ := rewrites.split
  simp only [List.mem_append, List.mem_cons] at mem ⊢
  rcases mem with (mem | mem) | mem
  · exact .inl mem
  · exact absurd (own other mem) elsewhere
  · exact .inr (.inr mem)

theorem mem_row (rewrites : Rewrites logs later row) : row ∈ later := by
  obtain ⟨before, old, after, -, rfl, -⟩ := rewrites.split
  simp

theorem newest_row (rewrites : Rewrites logs later row) : Newest later row := by
  intro other mem _
  rcases rewrites.mem_of_mem mem with rfl | mem
  · exact le_rfl
  · exact rewrites.stamped other mem

theorem newest_iff (rewrites : Rewrites logs later row) (elsewhere : other.nodeId ≠ row.nodeId) :
    Newest later other ↔ Newest logs other := by
  constructor
  · intro newest third mem same
    exact newest third (rewrites.mem_of_ne mem (same ▸ elsewhere)) same
  · intro newest third mem same
    rcases rewrites.mem_of_mem mem with rfl | mem
    · exact absurd same.symm elsewhere
    · exact newest third mem same

theorem newest_of_newest (rewrites : Rewrites logs later row) (own : other.nodeId = row.nodeId)
    (newest : Newest later other) : Newest logs other := by
  intro third mem _
  exact (rewrites.stamped third mem).trans (newest row rewrites.mem_row own.symm)

/-- Where the node had no output before, the writers are those from before and the row. -/
theorem writers_eq (rewrites : Rewrites logs later row) (silent : World.Silent logs row.nodeId) :
    ∃ before after, writers p logs = before ++ after ∧
      writers p later = before ++ (if p row.nodeId && row.output.isSome then [row] else []) ++ after ∧
      ∀ other ∈ writers p logs, other.nodeId ≠ row.nodeId := by
  rw [silent_iff] at silent
  have kept (other : LogRow) (mem : other ∈ logs) :
      (decide (Newest later other) && (p other.nodeId && other.output.isSome)) =
        (decide (Newest logs other) && (p other.nodeId && other.output.isSome)) := by
    by_cases own : other.nodeId = row.nodeId
    · by_cases newest : Newest logs other
      · simp [silent other mem newest own]
      · simp [newest, mt (rewrites.newest_of_newest own) newest]
    · simp only [rewrites.newest_iff own]
  obtain ⟨before, old, after, whole, changed, own⟩ := rewrites.split
  let keep (other : LogRow) : Bool :=
    decide (Newest logs other) && (p other.nodeId && other.output.isSome)
  refine ⟨before.filter keep, after.filter keep, ?_, ?_, ?_⟩
  · have gone : old.filter keep = [] := by
      rw [List.filter_eq_nil_iff]
      intro other mem
      have listed : other ∈ logs := by simp [whole, mem]
      by_cases newest : Newest logs other
      · simp [keep, silent other listed newest (own other mem)]
      · simp [keep, newest]
    have listed : writers p logs = (before ++ old ++ after).filter keep := by
      rw [← whole]
      rfl
    rw [listed, List.filter_append, List.filter_append, gone, List.append_nil]
  · have first : before.filter (fun other => decide (Newest later other) &&
        (p other.nodeId && other.output.isSome)) = before.filter keep :=
      List.filter_congr fun other mem => kept other (by simp [whole, mem])
    have last : after.filter (fun other => decide (Newest later other) &&
        (p other.nodeId && other.output.isSome)) = after.filter keep :=
      List.filter_congr fun other mem => kept other (by simp [whole, mem])
    have listed : writers p later = (before ++ row :: after).filter (fun other =>
        decide (Newest later other) && (p other.nodeId && other.output.isSome)) := by
      rw [← changed]
      rfl
    rw [listed, List.filter_append, List.filter_cons, first, last,
      decide_eq_true rewrites.newest_row, Bool.true_and]
    split
    · rw [List.append_assoc, List.singleton_append]
    · rw [List.append_nil]
  · intro other mem same
    obtain ⟨listed, counts⟩ := List.mem_filter.mp mem
    simp only [Bool.and_eq_true, decide_eq_true_eq] at counts
    rw [silent other listed counts.1 same] at counts
    cases counts.2.2

theorem lastWriter_same (rewrites : Rewrites logs later row)
    (silent : World.Silent logs row.nodeId) (quiet : (p row.nodeId && row.output.isSome) = false) :
    lastWriter p later = lastWriter p logs := by
  obtain ⟨before, after, was, is, -⟩ := rewrites.writers_eq (p := p) silent
  rw [quiet] at is
  simp only [Bool.false_eq_true, if_false, List.append_nil] at is
  rw [lastWriter, lastWriter, is, was]

theorem lastWriter_new (rewrites : Rewrites logs later row)
    (silent : World.Silent logs row.nodeId) (writes : (p row.nodeId && row.output.isSome) = true) :
    ((∀ first, lastWriter p logs = some first →
        first.stamp = row.stamp ∧ first.nodeId ≤ row.nodeId) → lastWriter p later = some row) ∧
    ∀ first, lastWriter p logs = some first →
      ¬ (first.stamp = row.stamp ∧ first.nodeId ≤ row.nodeId) → lastWriter p later = some first := by
  obtain ⟨before, after, was, is, elsewhere⟩ := rewrites.writers_eq (p := p) silent
  rw [writes, if_pos rfl] at is
  have apart (other : LogRow) (mem : other ∈ before ∨ other ∈ after) :
      other.nodeId ≠ row.nodeId :=
    elsewhere other (was ▸ List.mem_append.mpr mem)
  have others : ((writers p later).filter fun other => !decide (other.nodeId = row.nodeId)) =
      writers p logs := by
    have first : (before.filter fun other => !decide (other.nodeId = row.nodeId)) = before :=
      List.filter_eq_self.mpr fun other mem => by simpa using apart other (.inl mem)
    have last : (after.filter fun other => !decide (other.nodeId = row.nodeId)) = after :=
      List.filter_eq_self.mpr fun other mem => by simpa using apart other (.inr mem)
    simp [is, was, List.filter_append, first, last]
  have one : ((writers p later).filter fun other => decide (other.nodeId = row.nodeId)) = [row] := by
    have first : (before.filter fun other => decide (other.nodeId = row.nodeId)) = [] :=
      List.filter_eq_nil_iff.mpr fun other mem => by simpa using apart other (.inl mem)
    have last : (after.filter fun other => decide (other.nodeId = row.nodeId)) = [] :=
      List.filter_eq_nil_iff.mpr fun other mem => by simpa using apart other (.inr mem)
    simp [is, List.filter_append, first, last]
  have listed (first : LogRow) (last : lastWriter p logs = some first) :
      first ∈ logs ∧ first.nodeId ≠ row.nodeId := by
    have mem := (List.mem_insertionSort _).mp (List.mem_of_getLast? last)
    exact ⟨List.mem_of_mem_filter mem, elsewhere first mem⟩
  constructor
  · intro before
    refine Sorting.getLast?_sort_new others one fun first last precedes => ?_
    obtain ⟨same, lower⟩ := before first last
    rcases precedes with older | ⟨-, upper⟩
    · omega
    · exact (listed first last).2 (String.le_antisymm lower upper)
  · intro first last after
    refine Sorting.getLast?_sort_old others one last fun precedes => ?_
    rcases precedes with newer | same
    · exact absurd (rewrites.stamped first (listed first last).1) (by omega)
    · exact after same

theorem silent_of_silent (rewrites : Rewrites logs later row) (silent : World.Silent logs id)
    (quiet : row.nodeId = id → row.output = none) : World.Silent later id := by
  rw [silent_iff] at silent ⊢
  intro other mem newest own
  rcases rewrites.mem_of_mem mem with rfl | mem
  · exact quiet own
  · by_cases same : other.nodeId = row.nodeId
    · exact silent other mem (rewrites.newest_of_newest same newest) own
    · exact silent other mem ((rewrites.newest_iff same).mp newest) own

end Rewrites

theorem mem_latest : row ∈ getLatestNodeLogs logs ↔ row ∈ logs ∧ Newest logs row := by
  rw [getLatestNodeLogs, List.mem_insertionSort, List.mem_filter, decide_eq_true_eq]
  rfl

theorem output_eq_some {output : Json} (counts : row.output = some output) :
    row.status = .success ∧ row.outputData = some output := by
  unfold LogRow.output at counts
  split at counts
  · exact ⟨‹_›, counts⟩
  · cases counts

theorem lastWriter_output {first : LogRow} (last : lastWriter p logs = some first) :
    first.output = first.outputData := by
  have mem := (List.mem_insertionSort _).mp (List.mem_of_getLast? last)
  obtain ⟨-, counts⟩ := List.mem_filter.mp mem
  simp only [Bool.and_eq_true] at counts
  obtain ⟨output, counts⟩ := Option.isSome_iff_exists.mp counts.2.2
  rw [counts, (output_eq_some counts).2]

theorem silent_of_unsuccessful (open_ : id ∉ idsWith .success (getLatestNodeLogs logs)) :
    World.Silent logs id := by
  rw [silent_iff]
  rintro row mem newest rfl
  cases output : row.output with
  | none => rfl
  | some value =>
    refine absurd ?_ open_
    refine List.mem_map.mpr ⟨row, List.mem_filter.mpr ⟨mem_latest.mpr ⟨mem, newest⟩, ?_⟩, rfl⟩
    exact decide_eq_true (output_eq_some output).1

theorem silent_of_executable {node : SpecNode}
    (ready : readiness (getLatestNodeLogs logs) node = .executable) :
    World.Silent logs node.id := by
  refine silent_of_unsuccessful fun success => ?_
  rw [readiness, if_pos (.inr (.inl success))] at ready
  cases ready

end Rewrites

end Deeting.SpecAgent
