import Deeting.Digraph
import Deeting.Json
import Mathlib.Data.List.Sort
import Mathlib.Logic.Function.Basic

/-! `SpecExecutor` on the execution log of its plan. A step of the machine ends with the next
commit, so that a process can die between any two of them; `run_step` is cut into a schedule
and the list of work it leaves. Sub-agents and gates answer as they like. -/
namespace Deeting.SpecAgent

abbrev NodeId := String

inductive NodeKind where
  | action (outputAs : Option String) (checkIn : Bool)
  | logicGate
  | replanTrigger
  deriving DecidableEq, Repr

structure SpecNode where
  id : NodeId
  kind : NodeKind
  needs : List NodeId
  deriving DecidableEq, Repr

namespace SpecNode

def isAction (node : SpecNode) : Bool :=
  match node.kind with
  | .action .. => true
  | _ => false

/-- `getattr(node, "check_in", False)`. -/
def checkIn (node : SpecNode) : Bool :=
  match node.kind with
  | .action _ checkIn => checkIn
  | _ => false

/-- `getattr(node, "output_as", None)`, where it is not empty. -/
def outputAs (node : SpecNode) : Option String :=
  match node.kind with
  | .action outputAs _ => outputAs.filter (· ≠ "")
  | _ => none

end SpecNode

/-- A plan's nodes: each id once, no node needs one that is not there, and no circles. -/
structure SpecManifest where
  nodes : List SpecNode
  context : String → Option Json := fun _ => none
  distinct : (nodes.map SpecNode.id).Nodup
  closed : ∀ node ∈ nodes, ∀ dep ∈ node.needs, dep ∈ nodes.map SpecNode.id
  acyclic : Digraph.Acyclic fun a b => ∃ node ∈ nodes, node.id = a ∧ b ∈ node.needs

namespace SpecManifest

/-- `dag_children`. -/
def children (m : SpecManifest) (id : NodeId) : List NodeId :=
  m.nodes.flatMap fun node => (node.needs.filter (· = id)).map fun _ => node.id

theorem children_eq_nil (m : SpecManifest) {id : NodeId} (unknown : id ∉ m.nodes.map SpecNode.id) :
    m.children id = [] := by
  rw [children, List.flatMap_eq_nil_iff]
  intro node listed
  rw [List.map_eq_nil_iff, List.filter_eq_nil_iff]
  intro dep need same
  rw [decide_eq_true_eq] at same
  exact unknown (same ▸ m.closed node listed dep need)

/-- `node_map.get`. -/
def node? (m : SpecManifest) (id : NodeId) : Option SpecNode :=
  m.nodes.find? fun node => node.id = id

end SpecManifest

inductive LogStatus where
  | pending
  | running
  | success
  | failed
  | skipped
  | waitingApproval
  deriving DecidableEq, Repr

/-- A row of `spec_execution_log`; its id is its place in the list. -/
structure LogRow where
  nodeId : NodeId
  status : LogStatus
  outputData : Option Json := none
  createdAt : ℕ
  completedAt : Option ℕ := none

/-- `latest_ts`. -/
def LogRow.stamp (row : LogRow) : ℕ := row.completedAt.getD row.createdAt

def LogRow.Precedes (r s : LogRow) : Prop :=
  s.stamp < r.stamp ∨ r.stamp = s.stamp ∧ r.nodeId ≤ s.nodeId
  deriving Decidable

def getLatestNodeLogs (logs : List LogRow) : List LogRow :=
  (logs.filter fun row => ∀ other ∈ logs, other.nodeId = row.nodeId → other.stamp ≤ row.stamp)
    |>.insertionSort LogRow.Precedes

def getLatestLogForNode (logs : List LogRow) (id : NodeId) : Option ℕ :=
  logs.findIdx? fun row => row.nodeId = id ∧
    ∀ other ∈ logs, other.nodeId = id → other.createdAt ≤ row.createdAt

def finishNodeExecution (now : ℕ) (log : ℕ) (status : LogStatus) (outputData : Option Json)
    (logs : List LogRow) : List LogRow :=
  logs.modify log fun row =>
    { row with status, completedAt := some now, outputData := outputData <|> row.outputData }

def idsWith (status : LogStatus) (latest : List LogRow) : List NodeId :=
  (latest.filter fun row => row.status = status).map LogRow.nodeId

/-- `latest_status.get`; the last row of a node counts. -/
def latestStatus (latest : List LogRow) (id : NodeId) : Option LogStatus :=
  (latest.reverse.find? fun row => row.nodeId = id).map LogRow.status

inductive PlanStatus where
  | draft
  | running
  | paused
  | completed
  | failed
  deriving DecidableEq, Repr

inductive StepResult where
  | failed (nodes : List NodeId)
  | completed
  | waitingApproval (nodes : List NodeId)
  | stalled
  | running (executed : ℕ)
  deriving DecidableEq, Repr

/-- What is left of a `run_step`, besides the subtrees it is skipping. -/
inductive Work where
  /-- `execute_node`, up to the commit of the started row. -/
  | start (node : SpecNode)
  /-- The rest of `execute_node`. -/
  | carry (node : SpecNode) (log : ℕ)
  /-- The success of a gate whose branches are skipped. -/
  | close (log : ℕ)
  /-- The end, with a new status of the plan if there is one. -/
  | report (status : Option PlanStatus) (result : StepResult)
  /-- The end after all nodes, with the context stored. -/
  | wrapUp (executed : ℕ)
  deriving DecidableEq, Repr

structure Executor where
  context : String → Option Json
  nodeOutputs : NodeId → Option Json
  skippedCache : List NodeId
  /-- The calls of `skip_subtree_db` that are still to come. -/
  skips : List NodeId := []
  work : List Work := []
  returned : Option StepResult := none

/-- `initialize`, one log after another. -/
def Executor.replay (m : SpecManifest) (e : Executor) (log : LogRow) : Executor :=
  match log.status, log.outputData with
  | .success, some output =>
      { e with
        nodeOutputs := Function.update e.nodeOutputs log.nodeId (some output)
        context :=
          match (m.node? log.nodeId).bind SpecNode.outputAs with
          | some name => Function.update e.context name (some output)
          | none => e.context }
  | .skipped, _ => { e with skippedCache := log.nodeId :: e.skippedCache }
  | _, _ => e

/-- The executor that `execute_plan` makes from what is stored. -/
def Executor.create (m : SpecManifest) (planContext : String → Option Json)
    (logs : List LogRow) : Executor :=
  (getLatestNodeLogs logs).foldl (Executor.replay m)
    { context := fun name => planContext name <|> m.context name, nodeOutputs := fun _ => none
      skippedCache := [] }

/-- What the scheduling loop of `run_step` finds for a node. -/
inductive Readiness where
  | settled
  | skip
  | blocked
  | executable
  deriving DecidableEq, Repr

def readiness (latest : List LogRow) (node : SpecNode) : Readiness :=
  if latestStatus latest node.id ∈ [some .running, some .waitingApproval] ∨
      node.id ∈ idsWith .success latest ∨ node.id ∈ idsWith .skipped latest then .settled
  else
    match node.needs.find? fun dep =>
      dep ∈ idsWith .skipped latest ∨ dep ∉ idsWith .success latest with
    | none => .executable
    | some dep => if dep ∈ idsWith .skipped latest then .skip else .blocked

/-- How `run_step` ends when nothing can be executed. -/
def verdict (m : SpecManifest) (latest : List LogRow) : Work :=
  if m.nodes.length ≤
      (idsWith .success latest).dedup.length + (idsWith .skipped latest).dedup.length then
    .report (some .completed) .completed
  else if idsWith .waitingApproval latest ≠ [] then
    .report (some .paused) (.waitingApproval (idsWith .waitingApproval latest))
  else .report none .stalled

/-- `run_step` up to its first write. -/
def Executor.schedule (m : SpecManifest) (logs : List LogRow) (e : Executor) : Executor :=
  let latest := getLatestNodeLogs logs
  let failed := idsWith .failed latest
  if failed ≠ [] then
    { e with returned := none, work := [.report (some .failed) (.failed failed.dedup)] }
  else
    let executable := m.nodes.filter fun node => readiness latest node = .executable
    { e with
      returned := none
      skips := (m.nodes.filter fun node => readiness latest node = .skip).map SpecNode.id
      work := if executable = [] then [verdict m latest]
        else executable.map .start ++ [.wrapUp executable.length] }

structure World where
  logs : List LogRow := []
  planStatus : PlanStatus := .draft
  planContext : String → Option Json := fun _ => none
  executor : Option Executor := none
  now : ℕ := 0
  /-- The nodes whose sub-agent has returned. -/
  ran : List NodeId := []
  /-- The nodes started while one they need was neither successful nor skipped. -/
  premature : List NodeId := []

/-- What a sub-agent or a gate does: it returns a result, chooses the next node, or raises. -/
inductive Outcome where
  | returned (result : Json)
  | chose (next : NodeId)
  | raised

inductive Decision where
  | approve
  | modify
  | reject
  deriving DecidableEq, Repr

inductive Action where
  /-- `execute_plan`: the executor of a new request. -/
  | execute
  /-- `run_step` is called. -/
  | runStep
  /-- It goes on to its next commit. -/
  | perform (outcome : Outcome)
  /-- `interact_with_plan`. -/
  | interact (node : NodeId) (decision : Decision) (feedback : Option String)
  /-- The process dies, or the step raises. -/
  | interrupt
  | tick

def wrapResult (result : Json) : Json :=
  if result.isObj then result else .obj [("result", result)]

def Executor.remember (node : SpecNode) (result : Json) (e : Executor) : Executor :=
  { e with
    nodeOutputs := Function.update e.nodeOutputs node.id (some result)
    context :=
      match node.outputAs with
      | some name => Function.update e.context name (some result)
      | none => e.context }

namespace World

def Met (w : World) (node : SpecNode) : Prop :=
  ∀ dep ∈ node.needs,
    latestStatus (getLatestNodeLogs w.logs) dep ∈ [some .success, some .skipped]
  deriving Decidable

def addRow (w : World) (id : NodeId) (status : LogStatus) (completedAt : Option ℕ) : World :=
  { w with logs := w.logs ++ [{ nodeId := id, status, createdAt := w.now, completedAt }] }

def finish (w : World) (log : ℕ) (status : LogStatus) (outputData : Option Json) : World :=
  { w with logs := finishNodeExecution w.now log status outputData w.logs }

/-- `mark_node_skipped` for a node that is not in the cache yet, its children next. -/
def skip (m : SpecManifest) (w : World) (e : Executor) (id : NodeId) (rest : List NodeId) : World :=
  if id ∈ e.skippedCache then { w with executor := some { e with skips := rest } }
  else
    { w.addRow id .skipped (some w.now) with
      executor := some { e with
        skippedCache := id :: e.skippedCache, skips := m.children id ++ rest } }

/-- `execute_node` after the start of a node, and what `run_step` makes of its result. -/
def carry (m : SpecManifest) (w : World) (e : Executor) (node : SpecNode) (log : ℕ)
    (rest : List Work) (outcome : Outcome) : Option World :=
  if node.checkIn then
    some { w.finish log .waitingApproval none with
      executor := some { e with work := [.report (some .paused) (.waitingApproval [node.id])] } }
  else
    match node.kind, outcome with
    | .action .., .returned result =>
        some { w.finish log .success (some (wrapResult result)) with
          executor := some { e.remember node result with work := rest }
          ran := node.id :: w.ran }
    | .logicGate, .chose next =>
        some { w with
          executor := some { e with
            skips := (m.children node.id).filter (· ≠ next), work := .close log :: rest } }
    | .action .., .raised | .logicGate, .raised =>
        some { w.finish log .failed none with
          executor := some { e with work := [.report (some .failed) (.failed [node.id])] } }
    | .replanTrigger, _ =>
        some { w.finish log .failed none with
          planStatus := .failed
          executor := some { e with work := [.report (some .failed) (.failed [node.id])] } }
    | _, _ => none

def perform (m : SpecManifest) (w : World) (e : Executor) (outcome : Outcome) : Option World :=
  match e.skips, e.work with
  | id :: rest, _ => some (w.skip m e id rest)
  | [], .start node :: rest =>
      some { w.addRow node.id .running none with
        executor := some { e with work := .carry node w.logs.length :: rest }
        premature := if w.Met node then w.premature else node.id :: w.premature }
  | [], .carry node log :: rest => w.carry m e node log rest outcome
  | [], .close log :: rest =>
      some { w.finish log .success none with executor := some { e with work := rest } }
  | [], .report status result :: rest =>
      some { w with
        planStatus := status.getD w.planStatus
        executor := some { e with work := rest, returned := some result } }
  | [], .wrapUp executed :: rest =>
      some { w with
        planContext := e.context
        executor := some { e with work := rest, returned := some (.running executed) } }
  | [], [] => none

/-- `interact_with_plan`, which refuses any node that does not wait. -/
def interact (w : World) (id : NodeId) (decision : Decision) (feedback : Option String) : World :=
  match getLatestLogForNode w.logs id with
  | none => w
  | some log =>
      if (w.logs[log]?).map LogRow.status = some .waitingApproval then
        let payload (name : String) : Json :=
          .obj [("decision", .str name), ("feedback", feedback.elim .null .str)]
        match decision with
        | .approve =>
            { w.finish log .success (some (payload "approve")) with planStatus := .running }
        | .modify =>
            { w.finish log .success (some (payload "modify")) with planStatus := .running }
        | .reject =>
            { w.finish log .failed (some (payload "reject")) with planStatus := .failed }
      else w

end World

def step (m : SpecManifest) (w : World) : Action → Option World
  | .execute =>
    some { w with
      planStatus := if w.planStatus ∈ [.draft, .paused] then .running else w.planStatus
      executor := some (.create m w.planContext w.logs) }
  | .runStep =>
    match w.executor with
    | some e =>
        if e.skips = [] ∧ e.work = [] then some { w with executor := some (e.schedule m w.logs) }
        else none
    | none => none
  | .perform outcome =>
    match w.executor with
    | some e => w.perform m e outcome
    | none => none
  | .interact id decision feedback => some (w.interact id decision feedback)
  | .interrupt => some { w with executor := none }
  | .tick => some { w with now := w.now + 1 }

end Deeting.SpecAgent
