import Deeting.Counting
import Deeting.Transition
import Mathlib.Order.Basic

/-! One image generation task: `process_task`, as often as the queue delivers it, `cancel_task`
and `cancel_task_by_request_id`. Every query, every commit and every cache command is a step, and
the calls take theirs in any order. A session reads the row once: until it drops it, the later
reads of a call find what the session holds, with the updates of that call. -/
namespace Deeting.ImageGeneration
open Transition Counting

inductive GenerationStatus where
  | queued
  | running
  | succeeded
  | failed
  | canceled
  deriving DecidableEq

def GenerationStatus.final : GenerationStatus → Bool
  | .succeeded | .failed | .canceled => true
  | _ => false

inductive Outcome where
  | crashed
  | returned (success : Bool) (errorCode : Option String)

/-- The places at which `process_task` looks for a cancellation. -/
inductive CheckPoint where
  | start
  | beforeFinalize (success : Bool) (errorCode : Option String)
  | beforePersist
  | beforeCommit
  deriving DecidableEq

/-- The next step of `process_task`. -/
inductive ProcessStage where
  | load
  | look (at_ : CheckPoint)
  | marker (at_ : CheckPoint)
  | dropMarker
  | cancel
  | start
  | upstream
  | persist
  | fail (errorCode : String)
  | succeed
  | ended
  deriving DecidableEq

/-- A run of `process_task`: whether another was in progress when it was delivered, whether it
has run the orchestrator, and the status that its session holds. -/
structure ProcessRun where
  late : Bool
  ran : Bool := false
  held : Option GenerationStatus := none
  stage : ProcessStage := .load
  deriving DecidableEq

inductive CancelStage where
  | load
  | commit
  | returned (status : GenerationStatus)
  deriving DecidableEq

inductive GenerationCall where
  | process (run : ProcessRun)
  | cancel (stage : CancelStage)
  deriving DecidableEq

def GenerationCall.inProgress : GenerationCall → Bool
  | .process run => run.stage ≠ .ended
  | .cancel _ => false

/-- The row, the cancel marker, the calls, and the first final status that was stored. -/
structure GenerationTask where
  /-- The row has a request id and a user. -/
  identified : Bool
  status : GenerationStatus := .queued
  errorCode : Option String := none
  marker : Bool := false
  calls : List GenerationCall := []
  settled : Option GenerationStatus := none

inductive GenerationAction where
  | deliver
  | cancelTask
  | cancelTaskByRequestId
  | markCancel
  | markerExpires
  | advance (call : ℕ)
  | upstreamEnds (call : ℕ) (outcome : Outcome)
  | persisted (call : ℕ) (outputs : Bool)
  /-- The session drops the row that it holds. -/
  | expire (call : ℕ)
  /-- The run ends with an exception, or its worker is lost. -/
  | die (call : ℕ)

namespace GenerationTask

def begin (w : GenerationTask) (c : GenerationCall) : GenerationTask :=
  { w with calls := w.calls ++ [c] }

def goOn (w : GenerationTask) (i : ℕ) (c : GenerationCall) : GenerationTask :=
  { w with calls := w.calls.set i c }

/-- `update_status` and `update_fields`: an update of the row by its id. -/
def store (w : GenerationTask) (status : GenerationStatus) (errorCode : Option String) :
    GenerationTask :=
  { w with
    status := status
    errorCode := errorCode <|> w.errorCode
    settled := w.settled <|> if status.final then some status else none }

/-- What `process_task` does once it has found no cancellation. -/
def proceed (status : GenerationStatus) : CheckPoint → ProcessStage
  | .start => if status = .queued ∨ status = .running then .start else .ended
  | .beforeFinalize success errorCode =>
    if success then .look .beforePersist
    else .fail (errorCode.getD "IMAGE_GENERATION_FAILED")
  | .beforePersist => .persist
  | .beforeCommit => .succeed

/-- `_maybe_cancel_task`, as far as the cache. -/
def maybeCancel (w : GenerationTask) (status : GenerationStatus) (at_ : CheckPoint) :
    ProcessStage :=
  if status = .canceled then .ended
  else if status.final ∨ ¬ w.identified then proceed status at_
  else .marker at_

def look (w : GenerationTask) (i : ℕ) (run : ProcessRun) (at_ : CheckPoint) : GenerationTask :=
  let status := run.held.getD w.status
  w.goOn i (.process { run with held := some status, stage := w.maybeCancel status at_ })

/-- A run commits a status, and its session holds it from then on. -/
def commit (w : GenerationTask) (i : ℕ) (run : ProcessRun) (status : GenerationStatus)
    (errorCode : Option String) (next : ProcessStage) : GenerationTask :=
  (w.store status errorCode).goOn i (.process { run with held := some status, stage := next })

def advanceRun (w : GenerationTask) (i : ℕ) (run : ProcessRun) : Option GenerationTask :=
  match run.stage with
  | .load => some (w.look i run .start)
  | .look at_ => some (w.look i run at_)
  | .marker at_ =>
    let next := if w.marker then .dropMarker else proceed (run.held.getD w.status) at_
    some (w.goOn i (.process { run with stage := next }))
  | .dropMarker => some ({ w with marker := false }.goOn i (.process { run with stage := .cancel }))
  | .cancel => some (w.commit i run .canceled none .ended)
  | .start => some (w.commit i { run with ran := true } .running none .upstream)
  | .fail errorCode => some (w.commit i run .failed (some errorCode) .ended)
  | .succeed => some (w.commit i run .succeeded none .ended)
  | .upstream | .persist | .ended => none

def advance (w : GenerationTask) (i : ℕ) : GenerationCall → Option GenerationTask
  | .process run => w.advanceRun i run
  | .cancel .load =>
    some (w.goOn i (.cancel (if w.status.final then .returned w.status else .commit)))
  | .cancel .commit => some ((w.store .canceled none).goOn i (.cancel (.returned .canceled)))
  | .cancel (.returned _) => none

/-- `process_task` after the orchestrator. -/
def afterUpstream : Outcome → ProcessStage
  | .crashed => .fail "ORCHESTRATION_CRASH"
  | .returned success errorCode => .look (.beforeFinalize success errorCode)

def ofRun (w : GenerationTask) (i : ℕ) (f : ProcessRun → Option GenerationTask) :
    Option GenerationTask :=
  match w.calls[i]? with
  | some (.process run) => f run
  | _ => none

end GenerationTask

def generationStep (w : GenerationTask) : GenerationAction → Option GenerationTask
  | .deliver => some (w.begin (.process { late := w.calls.any GenerationCall.inProgress }))
  | .cancelTask => some (w.begin (.cancel .load))
  | .cancelTaskByRequestId => if w.identified then some (w.begin (.cancel .load)) else none
  | .markCancel => some { w with marker := true }
  | .markerExpires => some { w with marker := false }
  | .advance i => w.calls[i]?.bind fun c => w.advance i c
  | .upstreamEnds i outcome => w.ofRun i fun run =>
    if run.stage = .upstream then
      some (w.goOn i (.process { run with stage := GenerationTask.afterUpstream outcome }))
    else none
  | .persisted i outputs => w.ofRun i fun run =>
    if run.stage = .persist then
      some (w.goOn i (.process { run with
        stage := if outputs then .look .beforeCommit else .fail "IMAGE_NO_OUTPUT" }))
    else none
  | .expire i => w.ofRun i fun run => some (w.goOn i (.process { run with held := none }))
  | .die i => w.ofRun i fun run => some (w.goOn i (.process { run with stage := .ended }))

def GenerationCall.commits : GenerationCall → Option GenerationStatus
  | .process run =>
    match run.stage with
    | .cancel => some .canceled
    | .start => some .running
    | .fail _ => some .failed
    | .succeed => some .succeeded
    | _ => none
  | .cancel .commit => some .canceled
  | .cancel _ => none

def GenerationCall.again : GenerationCall → Bool
  | .process run => run.late ∧ run.ran
  | .cancel _ => false

def GenerationCall.starts : GenerationCall → Bool
  | .process run => run.stage = .start
  | .cancel _ => false

def GenerationCall.late : GenerationCall → Bool
  | .process run => run.late
  | .cancel _ => false

inductive GenerationTask.Moves (w : GenerationTask) : GenerationAction → GenerationTask → Prop
  | begun {a : GenerationAction} {c : GenerationCall} (fresh : c.again = false)
      (unanswered : ∀ status, c ≠ .cancel (.returned status)) : Moves w a (w.begin c)
  | marked {a : GenerationAction} (marker : Bool) : Moves w a { w with marker := marker }
  | led {a : GenerationAction} {i : ℕ} {c next : GenerationCall} (at_ : w.calls[i]? = some c)
      (again : next.again = c.again)
      (answer : ∀ status, next = .cancel (.returned status) → w.status = status) :
      Moves w a (w.goOn i next)
  | dropped {i : ℕ} {run : ProcessRun} (at_ : w.calls[i]? = some (.process run)) :
      Moves w (.advance i)
        ({ w with marker := false }.goOn i (.process { run with stage := .cancel }))
  | committed {i : ℕ} {c next : GenerationCall} {status : GenerationStatus}
      {errorCode : Option String} (at_ : w.calls[i]? = some c) (commits : c.commits = some status)
      (again : next.again = (c.again || (c.starts && c.late)))
      (answer : ∀ answer, next = .cancel (.returned answer) → status = answer) :
      Moves w (.advance i) ((w.store status errorCode).goOn i next)

section Inversion

variable {w t : GenerationTask} {i : ℕ}

theorem GenerationTask.Moves.of_advanceRun {run : ProcessRun}
    (at_ : w.calls[i]? = some (.process run)) (taken : w.advanceRun i run = some t) :
    w.Moves (.advance i) t := by
  obtain ⟨late, ran, held, stage⟩ := run
  cases stage with
  | load | look | marker =>
    cases taken
    exact .led at_ rfl fun _ same => by cases same
  | dropMarker =>
    cases taken
    exact .dropped at_
  | cancel | fail | succeed =>
    cases taken
    refine .committed at_ rfl ?_ fun _ same => by cases same
    simp [GenerationCall.again, GenerationCall.starts]
  | start =>
    cases taken
    refine .committed at_ rfl ?_ fun _ same => by cases same
    cases late <;> simp [GenerationCall.again, GenerationCall.starts, GenerationCall.late]
  | upstream | persist | ended => cases taken

theorem GenerationTask.Moves.of_advance {c : GenerationCall} (at_ : w.calls[i]? = some c)
    (taken : w.advance i c = some t) : w.Moves (.advance i) t := by
  cases c with
  | process run => exact .of_advanceRun at_ taken
  | cancel stage =>
    cases stage with
    | load =>
      cases taken
      refine .led at_ rfl fun status same => ?_
      split at same
      · cases same
        rfl
      · cases same
    | commit =>
      cases taken
      exact .committed at_ rfl rfl fun _ same => by cases same; rfl
    | returned => cases taken

theorem ofRun_eq_some {f : ProcessRun → Option GenerationTask} :
    w.ofRun i f = some t ↔ ∃ run, w.calls[i]? = some (.process run) ∧ f run = some t := by
  rw [GenerationTask.ofRun]
  split
  · rename_i run at_
    simp [at_]
  · rename_i other
    simp only [reduceCtorEq, false_iff, not_exists, not_and]
    exact fun run at_ => absurd at_ (other run)

theorem GenerationTask.Moves.of_step {a : GenerationAction} (taken : generationStep w a = some t) :
    w.Moves a t := by
  have plain {i : ℕ} {run : ProcessRun} (at_ : w.calls[i]? = some (.process run))
      (held : Option GenerationStatus) (stage : ProcessStage) (a : GenerationAction) :
      w.Moves a (w.goOn i (.process { run with held := held, stage := stage })) :=
    .led at_ rfl fun _ same => by cases same
  cases a with
  | deliver =>
    cases taken
    exact .begun (by simp [GenerationCall.again]) fun _ same => by cases same
  | cancelTask =>
    cases taken
    exact .begun rfl fun _ same => by cases same
  | cancelTaskByRequestId =>
    obtain ⟨-, same⟩ := Option.ite_none_right_eq_some.mp taken
    cases same
    exact .begun rfl fun _ same => by cases same
  | markCancel | markerExpires =>
    cases taken
    exact .marked _
  | advance i =>
    obtain ⟨c, at_, taken⟩ := Option.bind_eq_some_iff.mp taken
    exact .of_advance at_ taken
  | upstreamEnds i outcome =>
    obtain ⟨run, at_, taken⟩ := ofRun_eq_some.mp taken
    obtain ⟨-, same⟩ := Option.ite_none_right_eq_some.mp taken
    cases same
    exact plain at_ run.held _ _
  | persisted i outputs =>
    obtain ⟨run, at_, taken⟩ := ofRun_eq_some.mp taken
    obtain ⟨-, same⟩ := Option.ite_none_right_eq_some.mp taken
    cases same
    exact plain at_ run.held _ _
  | expire i =>
    obtain ⟨run, at_, taken⟩ := ofRun_eq_some.mp taken
    cases taken
    exact plain at_ none run.stage _
  | die i =>
    obtain ⟨run, at_, taken⟩ := ofRun_eq_some.mp taken
    cases taken
    exact plain at_ run.held .ended _

theorem advance_of_commits {c : GenerationCall} {status : GenerationStatus}
    (commits : c.commits = some status) :
    ∃ errorCode next, w.advance i c = some ((w.store status errorCode).goOn i next) ∧
      next.again = (c.again || (c.starts && c.late)) := by
  cases c with
  | process run =>
    obtain ⟨late, ran, held, stage⟩ := run
    cases stage with
    | cancel | fail | succeed =>
      cases commits
      refine ⟨_, _, rfl, ?_⟩
      simp [GenerationCall.again, GenerationCall.starts]
    | start =>
      cases commits
      refine ⟨_, _, rfl, ?_⟩
      cases late <;> simp [GenerationCall.again, GenerationCall.starts, GenerationCall.late]
    | load | look | marker | dropMarker | upstream | persist | ended => cases commits
  | cancel stage =>
    cases stage with
    | commit =>
      cases commits
      exact ⟨_, _, rfl, rfl⟩
    | load | returned => cases commits

theorem commits_of_starts {c : GenerationCall} (starts : c.starts = true) :
    c.commits = some .running := by
  cases c with
  | process run => rw [GenerationCall.commits, of_decide_eq_true starts]
  | cancel => cases starts

end Inversion

end Deeting.ImageGeneration
