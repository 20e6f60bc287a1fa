import Deeting.SpecAgent.Executor

/-! The steps of a plan one by one: what each is taken on and where it leads. -/
namespace Deeting.SpecAgent

namespace World

/-- `interact_with_plan` finds a row that waits for a decision. -/
def Waits (w : World) (id : NodeId) (log : ℕ) : Prop :=
  getLatestLogForNode w.logs id = some log ∧
    (w.logs[log]?).map LogRow.status = some .waitingApproval

def decisionPayload (name : String) (feedback : Option String) : Json :=
  .obj [("decision", .str name), ("feedback", feedback.elim .null .str)]

end World

inductive Moves (m : SpecManifest) (w : World) : Action → World → Prop where
  | execute :
      Moves m w .execute
        { w with
          planStatus := if w.planStatus ∈ [.draft, .paused] then .running else w.planStatus
          executor := some (.create m w.planContext w.logs) }
  | schedule {e : Executor} (current : w.executor = some e) (idle : e.skips = [] ∧ e.work = []) :
      Moves m w .runStep { w with executor := some (e.schedule m w.logs) }
  | skipCached {e : Executor} {id : NodeId} {rest : List NodeId} (outcome : Outcome)
      (current : w.executor = some e) (skips : e.skips = id :: rest)
      (cached : id ∈ e.skippedCache) :
      Moves m w (.perform outcome) { w with executor := some { e with skips := rest } }
  | skip {e : Executor} {id : NodeId} {rest : List NodeId} (outcome : Outcome)
      (current : w.executor = some e) (skips : e.skips = id :: rest)
      (uncached : id ∉ e.skippedCache) :
      Moves m w (.perform outcome)
        { w.addRow id .skipped (some w.now) with
          executor := some { e with
            skippedCache := id :: e.skippedCache, skips := m.children id ++ rest } }
  | start {e : Executor} {node : SpecNode} {rest : List Work} (outcome : Outcome)
      (current : w.executor = some e) (skips : e.skips = []) (work : e.work = .start node :: rest) :
      Moves m w (.perform outcome)
        { w.addRow node.id .running none with
          executor := some { e with work := .carry node w.logs.length :: rest }
          premature := if w.Met node then w.premature else node.id :: w.premature }
  | checkIn {e : Executor} {node : SpecNode} {log : ℕ} {rest : List Work} (outcome : Outcome)
      (current : w.executor = some e) (skips : e.skips = [])
      (work : e.work = .carry node log :: rest) (asks : node.checkIn = true) :
      Moves m w (.perform outcome)
        { w.finish log .waitingApproval none with
          executor := some { e with
            work := [.report (some .paused) (.waitingApproval [node.id])] } }
  | returned {e : Executor} {node : SpecNode} {log : ℕ} {rest : List Work} (result : Json)
      (current : w.executor = some e) (skips : e.skips = [])
      (work : e.work = .carry node log :: rest) (unasked : node.checkIn = false)
      (action : node.isAction = true) :
      Moves m w (.perform (.returned result))
        { w.finish log .success (some (wrapResult result)) with
          executor := some { e.remember node result with work := rest }
          ran := node.id :: w.ran }
  | chose {e : Executor} {node : SpecNode} {log : ℕ} {rest : List Work} (next : NodeId)
      (current : w.executor = some e) (skips : e.skips = [])
      (work : e.work = .carry node log :: rest) (gate : node.kind = .logicGate) :
      Moves m w (.perform (.chose next))
        { w with
          executor := some { e with
            skips := (m.children node.id).filter (· ≠ next), work := .close log :: rest } }
  | raised {e : Executor} {node : SpecNode} {log : ℕ} {rest : List Work}
      (current : w.executor = some e) (skips : e.skips = [])
      (work : e.work = .carry node log :: rest) (unasked : node.checkIn = false)
      (kind : node.kind ≠ .replanTrigger) :
      Moves m w (.perform .raised)
        { w.finish log .failed none with
          executor := some { e with work := [.report (some .failed) (.failed [node.id])] } }
  | replan {e : Executor} {node : SpecNode} {log : ℕ} {rest : List Work} (outcome : Outcome)
      (current : w.executor = some e) (skips : e.skips = [])
      (work : e.work = .carry node log :: rest) (kind : node.kind = .replanTrigger) :
      Moves m w (.perform outcome)
        { w.finish log .failed none with
          planStatus := .failed
          executor := some { e with work := [.report (some .failed) (.failed [node.id])] } }
  | close {e : Executor} {log : ℕ} {rest : List Work} (outcome : Outcome)
      (current : w.executor = some e) (skips : e.skips = []) (work : e.work = .close log :: rest) :
      Moves m w (.perform outcome)
        { w.finish log .success none with executor := some { e with work := rest } }
  | report {e : Executor} {status : Option PlanStatus} {result : StepResult} {rest : List Work}
      (outcome : Outcome) (current : w.executor = some e) (skips : e.skips = [])
      (work : e.work = .report status result :: rest) :
      Moves m w (.perform outcome)
        { w with
          planStatus := status.getD w.planStatus
          executor := some { e with work := rest, returned := some result } }
  | wrapUp {e : Executor} {executed : ℕ} {rest : List Work} (outcome : Outcome)
      (current : w.executor = some e) (skips : e.skips = [])
      (work : e.work = .wrapUp executed :: rest) :
      Moves m w (.perform outcome)
        { w with
          planContext := e.context
          executor := some { e with work := rest, returned := some (.running executed) } }
  | refused {id : NodeId} (decision : Decision) (feedback : Option String)
      (refused : ∀ log, ¬ w.Waits id log) : Moves m w (.interact id decision feedback) w
  | approved {id : NodeId} {log : ℕ} {decision : Decision} {name : String}
      (feedback : Option String) (waits : w.Waits id log) (approves : decision ≠ .reject) :
      Moves m w (.interact id decision feedback)
        { w.finish log .success (some (World.decisionPayload name feedback)) with
          planStatus := .running }
  | rejected {id : NodeId} {log : ℕ} (feedback : Option String) (waits : w.Waits id log) :
      Moves m w (.interact id .reject feedback)
        { w.finish log .failed (some (World.decisionPayload "reject" feedback)) with
          planStatus := .failed }
  | interrupt : Moves m w .interrupt { w with executor := none }
  | tick : Moves m w .tick { w with now := w.now + 1 }

section Moves

variable {m : SpecManifest} {w t : World} {e : Executor} {a : Action}

theorem World.Waits.row {id : NodeId} {log : ℕ} (waits : w.Waits id log) :
    ∃ row, w.logs[log]? = some row ∧ row.nodeId = id ∧ row.status = .waitingApproval := by
  obtain ⟨latest, status⟩ := waits
  obtain ⟨row, found, status⟩ := Option.map_eq_some_iff.mp status
  refine ⟨row, found, ?_, status⟩
  obtain ⟨within, own, -⟩ := List.findIdx?_eq_some_iff_getElem.mp latest
  rw [List.getElem?_eq_getElem within, Option.some.injEq] at found
  subst found
  exact (of_decide_eq_true own).1

theorem Moves.of_carry {node : SpecNode} {log : ℕ} {rest : List Work} {outcome : Outcome}
    (current : w.executor = some e) (skips : e.skips = []) (work : e.work = .carry node log :: rest)
    (taken : w.carry m e node log rest outcome = some t) : Moves m w (.perform outcome) t := by
  unfold World.carry at taken
  split at taken
  · rename_i asks
    cases taken
    exact .checkIn outcome current skips work asks
  rename_i unasked
  rw [Bool.not_eq_true] at unasked
  split at taken
  · rename_i outputAs asks result kind
    cases taken
    exact .returned result current skips work unasked (by simp only [SpecNode.isAction, kind])
  · rename_i next kind
    cases taken
    exact .chose next current skips work kind
  · rename_i kind
    cases taken
    exact .raised current skips work unasked (by simp [kind])
  · rename_i kind
    cases taken
    exact .raised current skips work unasked (by simp [kind])
  · rename_i kind
    cases taken
    exact .replan _ current skips work kind
  · cases taken

theorem Moves.of_perform {outcome : Outcome} (current : w.executor = some e)
    (taken : w.perform m e outcome = some t) : Moves m w (.perform outcome) t := by
  unfold World.perform at taken
  split at taken
  · rename_i id rest skips
    cases taken
    unfold World.skip
    split
    · rename_i cached
      exact .skipCached outcome current skips cached
    · rename_i uncached
      exact .skip outcome current skips uncached
  · rename_i skips work
    cases taken
    exact .start outcome current skips work
  · rename_i skips work
    exact .of_carry current skips work taken
  · rename_i skips work
    cases taken
    exact .close outcome current skips work
  · rename_i skips work
    cases taken
    exact .report outcome current skips work
  · rename_i skips work
    cases taken
    exact .wrapUp outcome current skips work
  · cases taken

theorem Moves.of_interact (id : NodeId) (decision : Decision) (feedback : Option String) :
    Moves m w (.interact id decision feedback) (w.interact id decision feedback) := by
  unfold World.interact
  split
  · rename_i missing
    refine .refused decision feedback fun log waits => ?_
    rw [World.Waits, missing] at waits
    cases waits.1
  rename_i log latest
  split
  · rename_i status
    cases decision with
    | approve => exact .approved feedback ⟨latest, status⟩ nofun
    | modify => exact .approved feedback ⟨latest, status⟩ nofun
    | reject => exact .rejected feedback ⟨latest, status⟩
  · rename_i status
    refine .refused decision feedback fun other waits => status ?_
    rw [Option.some.inj (latest.symm.trans waits.1)]
    exact waits.2

theorem Moves.of_step (taken : step m w a = some t) : Moves m w a t := by
  cases a with
  | execute =>
    cases taken
    exact .execute
  | runStep =>
    rw [step] at taken
    split at taken
    · rename_i current
      split at taken
      · rename_i idle
        cases taken
        exact .schedule current idle
      · cases taken
    · cases taken
  | perform outcome =>
    rw [step] at taken
    split at taken
    · rename_i current
      exact .of_perform current taken
    · cases taken
  | interact id decision feedback =>
    cases taken
    exact .of_interact id decision feedback
  | interrupt =>
    cases taken
    exact .interrupt
  | tick =>
    cases taken
    exact .tick

end Moves

end Deeting.SpecAgent
