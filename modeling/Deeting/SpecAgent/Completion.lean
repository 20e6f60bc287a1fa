import Deeting.SpecAgent.Tracking

/-! What a completed plan has executed. An approval ends the node it is asked for, so a node
with a check-in is never executed, and everything else is. -/
namespace Deeting.SpecAgent
open Transition

namespace World

/-- A plan that is completed has executed every action that it has not skipped, and no node
was started before its needs were met. -/
structure Executed (m : SpecManifest) (w : World) : Prop where
  completed : w.planStatus = .completed → ∀ node ∈ m.nodes, node.isAction = true →
    statusOf w.logs node.id = some .skipped ∨ node.id ∈ w.ran
  ordered : w.premature = []

def Completing (w : World) : Action → Prop
  | .perform _ => ∃ e result rest, w.executor = some e ∧ e.skips = [] ∧
      e.work = .report (some .completed) result :: rest
  | _ => False

/-- Nobody has approved the check-in of a plan that is reported completed. -/
def Unapproved (m : SpecManifest) (w : World) (a : Action) : Prop :=
  w.Completing a → ∀ node ∈ m.nodes, node.checkIn = true → statusOf w.logs node.id ≠ some .success

end World

section Steps

variable {m : SpecManifest} {e : Executor} {w t : World} {a : Action}

namespace World

@[simp] theorem skip_planStatus (id : NodeId) (rest : List NodeId) :
    (w.skip m e id rest).planStatus = w.planStatus := by
  unfold World.skip
  split
  · rfl
  · rfl

theorem carry_planStatus {node : SpecNode} {log : ℕ} {rest : List Work} {outcome : Outcome}
    (taken : w.carry m e node log rest outcome = some t) :
    t.planStatus = w.planStatus ∨ t.planStatus = .failed := by
  unfold World.carry at taken
  split at taken
  · cases taken
    exact .inl rfl
  split at taken
  all_goals cases taken
  · exact .inl rfl
  · exact .inl rfl
  · exact .inl rfl
  · exact .inl rfl
  · exact .inr rfl

theorem interact_planStatus (id : NodeId) (decision : Decision) (feedback : Option String) :
    (w.interact id decision feedback).planStatus = w.planStatus ∨
      (w.interact id decision feedback).planStatus ∈ [.running, .failed] := by
  unfold World.interact
  split
  · exact .inl rfl
  split
  · cases decision with
    | approve | modify => exact .inr List.mem_cons_self
    | reject => exact .inr (List.mem_cons_of_mem _ List.mem_cons_self)
  · exact .inl rfl

theorem completed_perform {outcome : Outcome} (current : w.executor = some e)
    (taken : w.perform m e outcome = some t) (completed : t.planStatus = .completed) :
    w.planStatus = .completed ∨ w.Completing (.perform outcome) ∧ t.logs = w.logs := by
  unfold World.perform at taken
  split at taken
  · cases taken
    rw [skip_planStatus] at completed
    exact .inl completed
  · cases taken
    exact .inl completed
  · rcases carry_planStatus taken with same | failed
    · exact .inl (same ▸ completed)
    · rw [failed] at completed
      cases completed
  · cases taken
    exact .inl completed
  · rename_i status result rest skips work
    cases taken
    cases status with
    | none => exact .inl completed
    | some status =>
      cases completed
      exact .inr ⟨⟨e, result, rest, current, skips, work⟩, rfl⟩
  · cases taken
    exact .inl completed
  · cases taken

end World

theorem completed_step (taken : step m w a = some t) (completed : t.planStatus = .completed) :
    w.planStatus = .completed ∨ w.Completing a ∧ t.logs = w.logs := by
  cases a with
  | execute =>
    cases taken
    simp only at completed
    split at completed
    · cases completed
    · exact .inl completed
  | runStep =>
    simp only [step] at taken
    split at taken
    · split at taken
      · cases taken
        exact .inl completed
      · cases taken
    · cases taken
  | perform outcome =>
    simp only [step] at taken
    split at taken
    · rename_i e current
      exact World.completed_perform current taken completed
    · cases taken
  | interact id decision feedback =>
    cases taken
    rcases w.interact_planStatus id decision feedback with same | open_
    · exact .inl (same ▸ completed)
    · rw [completed] at open_
      simp at open_
  | interrupt | tick =>
    cases taken
    exact .inl completed

structure Finished (m : SpecManifest) (w : World) : Prop where
  tracked : Tracked m w
  done : w.planStatus = .completed → ∀ node ∈ m.nodes, Done (statusOf w.logs node.id) ∧
    (node.checkIn = true → statusOf w.logs node.id ≠ some .success)

theorem Finished.executed (finished : Finished m w) : w.Executed m where
  completed completed node listed action := by
    obtain ⟨success | skipped, unapproved⟩ := finished.done completed node listed
    · cases checkIn : node.checkIn with
      | true => exact absurd success (unapproved checkIn)
      | false => exact .inr (finished.tracked.recorded.returned node listed action checkIn success)
    · exact .inl skipped
  ordered := finished.tracked.ordered

theorem Tracked.completing (tracked : Tracked m w) (completing : w.Completing a) :
    ∀ node ∈ m.nodes, Done (statusOf w.logs node.id) := by
  cases a with
  | perform outcome =>
    obtain ⟨e, result, rest, current, -, work⟩ := completing
    exact (tracked.executing e current).fits (.report (some .completed) result)
      (work ▸ List.mem_cons_self) rfl
  | _ => exact completing.elim

theorem finished_step (finished : Finished m w) (unapproved : w.Unapproved m a)
    (taken : step m w a = some t) : Finished m t := by
  refine ⟨(goes_step finished.tracked taken).tracked, fun completed node listed => ?_⟩
  rcases completed_step taken completed with before | ⟨completing, same⟩
  · obtain ⟨done, asked⟩ := finished.done before node listed
    rcases done with success | skipped
    · refine ⟨.inl (done_step finished.tracked taken success (.inl rfl)), fun checkIn => ?_⟩
      exact absurd success (asked checkIn)
    · have later := done_step finished.tracked taken skipped (.inr rfl)
      exact ⟨.inr later, fun _ => by simp [later]⟩
  · rw [same]
    exact ⟨finished.tracked.completing completing node listed, unapproved completing node listed⟩

theorem unapproved_of_executed (tracked : Tracked m w) (taken : step m w a = some t)
    (executed : t.Executed m) : w.Unapproved m a := by
  intro completing node listed checkIn success
  cases a with
  | perform outcome =>
    obtain ⟨e, result, rest, current, skips, work⟩ := completing
    simp only [step, current, World.perform] at taken
    rw [skips, work] at taken
    cases taken
    rcases executed.completed rfl node listed (SpecNode.isAction_of_checkIn checkIn) with
      skipped | ran
    · rw [show statusOf w.logs node.id = some .skipped from skipped] at success
      cases success
    · exact tracked.recorded.asked node listed checkIn ran
  | _ => exact completing.elim

end Steps

/-- The plan as `generate_plan` stores it. -/
def World.planned (m : SpecManifest) : World := { planContext := m.context }

theorem statusOf_nil (id : NodeId) : statusOf [] id = none := by
  have single : Single [] := List.nodup_nil
  exact single.statusOf_eq_none.mpr (List.forall_mem_nil _)

theorem tracked_planned (m : SpecManifest) : Tracked m (.planned m) := by
  have single : Single [] := List.nodup_nil
  refine ⟨⟨single, ?_, ?_, ?_, ?_, ?_⟩, rfl, ?_⟩
  all_goals
    simp [World.planned, statusOf_nil]

/-- A completed plan has executed its actions, in every run in which no check-in is approved
before the plan is completed. -/
theorem executed_throughout_iff {m : SpecManifest} {actions : List Action} :
    (∀ first, first <+: actions → ∀ w, run (step m) (.planned m) first = some w → w.Executed m) ↔
      Along (step m) (World.Unapproved m) (.planned m) actions := by
  refine forall_prefix_iff_along (P := Finished m) Finished.executed finished_step ?_ ?_ ?_
  · intro w a t finished taken executed
    exact unapproved_of_executed finished.tracked taken executed
  · intro w a stuck completing
    cases a with
    | perform outcome =>
      obtain ⟨e, result, rest, current, skips, work⟩ := completing
      simp only [step, current, World.perform] at stuck
      rw [skips, work] at stuck
      cases stuck
    | _ => exact completing.elim
  · refine ⟨tracked_planned m, ?_⟩
    simp [World.planned]

section Approval

def approvedAction : SpecManifest where
  nodes := [⟨"T1", .action none true, []⟩]
  distinct := List.nodup_singleton _
  closed := by simp
  acyclic := by
    rintro id cycle
    obtain ⟨dep, ⟨node, listed, -, need⟩, -⟩ := Relation.TransGen.head'_iff.mp cycle
    rw [List.mem_singleton] at listed
    subst listed
    cases need

/-- A step up to the check-in, the approval, and the next step. -/
def approvedRun : List Action :=
  [.execute, .runStep, .perform .raised, .perform .raised, .perform .raised,
    .interact "T1" .approve none, .execute, .runStep, .perform .raised]

/-- The approved action is successful, the plan completed, and no sub-agent has run. -/
theorem approved_never_executed :
    ∃ w, run (step approvedAction) (.planned approvedAction) approvedRun = some w ∧
      w.planStatus = .completed ∧ statusOf w.logs "T1" = some .success ∧ w.ran = [] ∧
      ¬ w.Executed approvedAction := by
  refine ⟨_, rfl, rfl, rfl, rfl, ?_⟩
  intro executed
  rcases executed.completed rfl ⟨"T1", .action none true, []⟩ List.mem_cons_self rfl with
    skipped | ran
  · exact absurd skipped (by decide +kernel)
  · cases ran

end Approval

end Deeting.SpecAgent
