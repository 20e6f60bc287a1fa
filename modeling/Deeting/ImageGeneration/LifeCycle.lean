import Deeting.ImageGeneration.Tasks

/-! When a task that has ended stays as it is, and is not generated twice: in the runs in which
no call commits over a final status, and no run that is late gets to the orchestrator. -/
namespace Deeting.ImageGeneration
open Transition Counting

namespace GenerationTask

structure Ordered (w : GenerationTask) : Prop where
  final : ∀ status ∈ w.settled, w.status = status
  canceled : .cancel (.returned .canceled) ∈ w.calls → w.status ≠ .succeeded
  once : ∀ c ∈ w.calls, c.again = false

/-- What a call commits meets a task that has not ended, or ended just so; and a run that was
delivered while another was in progress does not set the task running. -/
def Meets (w : GenerationTask) : GenerationAction → Prop
  | .advance i => ∀ c ∈ w.calls[i]?,
    (∀ status ∈ c.commits, w.status.final → w.status = status) ∧ (c.starts → c.late = false)
  | _ => True

structure Sound (w : GenerationTask) : Prop where
  settled : w.settled = if w.status.final then some w.status else none
  canceled : .cancel (.returned .canceled) ∈ w.calls → w.status = .canceled
  once : ∀ c ∈ w.calls, c.again = false

end GenerationTask

section Steps

open GenerationTask

variable {w t : GenerationTask} {a : GenerationAction} {i : ℕ} {c next : GenerationCall}

theorem GenerationTask.Sound.ordered (sound : w.Sound) : w.Ordered where
  final status stored := by
    rw [sound.settled] at stored
    exact (Option.ite_none_right_eq_some.mp stored).2 |> Option.some.inj
  canceled answered := by
    rw [sound.canceled answered]
    decide
  once := sound.once

theorem settled_store (settled : w.settled = if w.status.final then some w.status else none)
    {status : GenerationStatus} (errorCode : Option String)
    (keeps : w.status.final → w.status = status) :
    (w.store status errorCode).settled = if status.final then some status else none := by
  rw [store, settled]
  by_cases ended : w.status.final
  · rw [if_pos ended, ← keeps ended, if_pos ended]
    rfl
  · rw [if_neg ended]
    rfl

theorem GenerationTask.Sound.step (sound : w.Sound) (moves : w.Moves a t) (meets : w.Meets a) :
    t.Sound := by
  cases moves with
  | begun fresh unanswered =>
    refine ⟨sound.settled, fun answered => ?_, forall_mem_concat sound.once fresh⟩
    rcases List.mem_append.mp answered with earlier | last
    · exact sound.canceled earlier
    · exact absurd (List.mem_singleton.mp last).symm (unanswered .canceled)
  | marked => exact ⟨sound.settled, sound.canceled, sound.once⟩
  | @led _ i c next at_ again answer =>
    refine ⟨sound.settled, fun answered => ?_, forall_mem_set sound.once ?_⟩
    · rcases List.mem_or_eq_of_mem_set answered with earlier | same
      · exact sound.canceled earlier
      · exact answer .canceled same.symm
    · rw [again]
      exact sound.once c (List.mem_of_getElem? at_)
  | @dropped i run at_ =>
    refine ⟨sound.settled, fun answered => ?_, forall_mem_set sound.once ?_⟩
    · rcases List.mem_or_eq_of_mem_set answered with earlier | same
      · exact sound.canceled earlier
      · cases same
    · exact sound.once (.process run) (List.mem_of_getElem? at_)
  | @committed i c next status errorCode at_ commits again answer =>
    obtain ⟨keeps, first⟩ := meets c at_
    have keeps := keeps status commits
    refine ⟨settled_store sound.settled errorCode keeps, fun answered => ?_,
      forall_mem_set sound.once ?_⟩
    · rcases List.mem_or_eq_of_mem_set answered with earlier | same
      · have canceled := sound.canceled earlier
        rw [canceled] at keeps
        exact (keeps rfl).symm
      · exact answer .canceled same.symm
    · rw [again, sound.once c (List.mem_of_getElem? at_), Bool.false_or, Bool.and_eq_false_imp]
      exact first

theorem GenerationTask.Sound.back (sound : w.Sound) (taken : generationStep w a = some t)
    (ordered : t.Ordered) : w.Meets a := by
  cases a with
  | advance i =>
    intro c at_
    obtain ⟨d, there, taken⟩ := Option.bind_eq_some_iff.mp taken
    cases Option.some.inj (there.symm.trans at_)
    constructor
    · intro status commits ended
      obtain ⟨errorCode, next, same, -⟩ := advance_of_commits (w := w) (i := i) commits
      cases Option.some.inj (same.symm.trans taken)
      have settled := sound.settled
      rw [if_pos ended] at settled
      refine (ordered.final w.status ?_).symm
      simp [goOn, store, settled]
    · intro starts
      obtain ⟨errorCode, next, same, again⟩ :=
        advance_of_commits (w := w) (i := i) (commits_of_starts starts)
      cases Option.some.inj (same.symm.trans taken)
      have inside : i < w.calls.length := (List.getElem?_eq_some_iff.mp at_).1
      have once := ordered.once next (List.mem_set inside next)
      rw [again, starts, Bool.true_and, Bool.or_eq_false_iff] at once
      exact once.2
  | _ => trivial

theorem meets_of_stuck (stuck : generationStep w a = none) : w.Meets a := by
  cases a with
  | advance i =>
    intro c at_
    have silent (status : GenerationStatus) : c.commits ≠ some status := by
      intro commits
      obtain ⟨errorCode, next, same, -⟩ := advance_of_commits (w := w) (i := i) commits
      rw [generationStep, Option.mem_def.mp at_, Option.bind_some, same] at stuck
      cases stuck
    exact ⟨fun status commits => absurd commits (silent status),
      fun starts => absurd (commits_of_starts starts) (silent .running)⟩
  | _ => trivial

end Steps

section Schedules

open GenerationTask

def GenerationTask.Separate (w : GenerationTask) : GenerationAction → Prop
  | .deliver => w.calls.countP GenerationCall.inProgress = 0
  | .advance i => w.calls[i]? = some (.cancel .commit) →
      w.calls.countP GenerationCall.inProgress = 0 ∧ w.status.final = false
  | _ => True

def GenerationCall.Goes (status : GenerationStatus) : GenerationCall → Prop
  | .process run => run.late = false ∧
      (run.stage = .load ∧ run.held = none ∨ run.stage = .ended ∨ status.final = false)
  | .cancel _ => True

structure GenerationTask.Lone (w : GenerationTask) : Prop where
  single : w.calls.countP GenerationCall.inProgress ≤ 1
  goes : ∀ c ∈ w.calls, c.Goes w.status

variable {w t : GenerationTask} {a : GenerationAction} {i : ℕ} {c next : GenerationCall}
  {run : ProcessRun} {status : GenerationStatus}

theorem lone_new (identified : Bool) : Lone { identified } :=
  ⟨Nat.zero_le 1, fun _ mem => (List.not_mem_nil mem).elim⟩

theorem GenerationCall.Goes.quit (goes : c.Goes w.status) (quit : c.inProgress = false) :
    c.Goes status := by
  cases c with
  | process run => exact ⟨goes.1, .inr (.inl (by simpa [GenerationCall.inProgress] using quit))⟩
  | cancel => trivial

theorem GenerationCall.Goes.running (goes : c.Goes status) : c.Goes .running := by
  cases c with
  | process run => exact ⟨goes.1, .inr (.inr rfl)⟩
  | cancel => trivial

theorem GenerationTask.Lone.goOn (lone : w.Lone) (at_ : w.calls[i]? = some c)
    (inside : next.inProgress = true → c.inProgress = true) (goes : next.Goes w.status) :
    (w.goOn i next).Lone := by
  refine ⟨?_, forall_mem_set lone.goes goes⟩
  have count := countP_set_add GenerationCall.inProgress next at_
  have single := lone.single
  change (w.calls.set i next).countP _ ≤ 1
  cases inNext : next.inProgress with
  | true =>
    rw [inNext, inside inNext] at count
    omega
  | false =>
    rw [inNext] at count
    simp only [Bool.false_eq_true, if_false] at count
    omega

/-- With no run left in progress any status may be stored. -/
theorem GenerationTask.Lone.settle (lone : w.Lone) (errorCode : Option String)
    (none_ : (w.calls.set i next).countP GenerationCall.inProgress = 0)
    (goes : next.Goes w.status) : ((w.store status errorCode).goOn i next).Lone := by
  refine ⟨by rw [GenerationTask.goOn, store, none_]; exact Nat.zero_le 1, fun d mem => ?_⟩
  have quit : d.inProgress = false := by simpa using List.countP_eq_zero.mp none_ d mem
  exact (forall_mem_set lone.goes goes d mem).quit quit

/-- A run takes a step of its own, and the row stays as it is. -/
theorem GenerationTask.Lone.ofRun (lone : w.Lone) (at_ : w.calls[i]? = some (.process run))
    (next : ProcessRun) (late : next.late = run.late) (quit : run.stage = .ended → next.stage = .ended)
    (fresh : run.stage = .load → run.held = none →
      next.stage = .load ∧ next.held = none ∨ next.stage = .ended ∨ w.status.final = false) :
    (w.goOn i (.process next)).Lone := by
  obtain ⟨alone, goes⟩ := lone.goes _ (List.mem_of_getElem? at_)
  refine lone.goOn at_ (fun inside => ?_) ⟨late ▸ alone, ?_⟩
  · simp only [GenerationCall.inProgress, decide_eq_true_eq] at inside ⊢
    exact fun ended => inside (quit ended)
  · rcases goes with ⟨load, free⟩ | ended | still
    · exact fresh load free
    · exact .inr (.inl (quit ended))
    · exact .inr (.inr still)

theorem GenerationTask.Lone.advanceRun (lone : w.Lone) (at_ : w.calls[i]? = some (.process run))
    (taken : w.advanceRun i run = some t) : t.Lone := by
  obtain ⟨alone, -⟩ := lone.goes _ (List.mem_of_getElem? at_)
  -- the only run in progress, it ends with the status it commits
  have settles (next : ProcessRun) (errorCode : Option String) (status : GenerationStatus)
      (late : next.late = run.late) (quit : next.stage = .ended) (going : run.stage ≠ .ended) :
      ((w.store status errorCode).goOn i (.process next)).Lone := by
    refine lone.settle errorCode ?_ ⟨late ▸ alone, .inr (.inl quit)⟩
    have count := countP_set_add GenerationCall.inProgress (.process next) at_
    have single := lone.single
    simp only [GenerationCall.inProgress, quit, going, ne_eq, not_true_eq_false,
      not_false_eq_true, decide_true, decide_false, if_true, Bool.false_eq_true, if_false] at count
    omega
  unfold GenerationTask.advanceRun at taken
  split at taken <;> cases taken <;> rename_i stage
  · refine lone.ofRun at_ _ rfl (by simp [stage]) fun _ free => ?_
    simp only [free, Option.getD_none, maybeCancel, proceed]
    cases w.status <;> simp [GenerationStatus.final]
  · exact lone.ofRun at_ _ rfl (by simp [stage]) (by simp [stage])
  · exact lone.ofRun at_ _ rfl (by simp [stage]) (by simp [stage])
  · have dropped : (w.goOn i (.process { run with stage := .cancel })).Lone :=
      lone.ofRun at_ _ rfl (by simp [stage]) (by simp [stage])
    exact ⟨dropped.single, dropped.goes⟩
  · exact settles _ _ _ rfl rfl (by simp [stage])
  · have running : (w.goOn i (.process { run with
        ran := true, held := some .running, stage := .upstream })).Lone :=
      lone.ofRun at_ _ rfl (by simp [stage]) (by simp [stage])
    exact ⟨running.single, fun c mem => (running.goes c mem).running⟩
  · exact settles _ _ _ rfl rfl (by simp [stage])
  · exact settles _ _ _ rfl rfl (by simp [stage])

theorem GenerationTask.Lone.begin (lone : w.Lone) (c : GenerationCall) (goes : c.Goes w.status)
    (free : c.inProgress = true → w.calls.countP GenerationCall.inProgress = 0) :
    (w.begin c).Lone := by
  refine ⟨?_, forall_mem_concat lone.goes goes⟩
  have single := lone.single
  change (w.calls ++ [c]).countP _ ≤ 1
  rw [countP_concat]
  split
  · rename_i inside
    rw [free inside]
  · exact single

theorem GenerationTask.Lone.step (lone : w.Lone) (separate : w.Separate a)
    (taken : generationStep w a = some t) : t.Lone := by
  cases a with
  | deliver =>
    cases taken
    refine lone.begin _ ⟨?_, .inl ⟨rfl, rfl⟩⟩ fun _ => separate
    simpa using List.countP_eq_zero.mp separate
  | cancelTask =>
    cases taken
    exact lone.begin _ trivial nofun
  | cancelTaskByRequestId =>
    obtain ⟨-, same⟩ := Option.ite_none_right_eq_some.mp taken
    cases same
    exact lone.begin _ trivial nofun
  | markCancel | markerExpires =>
    cases taken
    exact ⟨lone.single, lone.goes⟩
  | advance i =>
    obtain ⟨c, at_, taken⟩ := Option.bind_eq_some_iff.mp taken
    cases c with
    | process run => exact lone.advanceRun at_ taken
    | cancel stage =>
      cases stage with
      | load =>
        cases taken
        exact lone.goOn at_ nofun trivial
      | commit =>
        cases taken
        refine lone.settle none ?_ trivial
        have count := countP_set_add GenerationCall.inProgress
          (.cancel (.returned .canceled)) at_
        rw [(separate at_).1] at count
        simpa [GenerationCall.inProgress] using count
      | returned => cases taken
  | upstreamEnds i outcome =>
    obtain ⟨run, at_, taken⟩ := ofRun_eq_some.mp taken
    obtain ⟨stage, same⟩ := Option.ite_none_right_eq_some.mp taken
    cases same
    exact lone.ofRun at_ _ rfl (by simp [stage]) (by simp [stage])
  | persisted i outputs =>
    obtain ⟨run, at_, taken⟩ := ofRun_eq_some.mp taken
    obtain ⟨stage, same⟩ := Option.ite_none_right_eq_some.mp taken
    cases same
    exact lone.ofRun at_ _ rfl (by simp [stage]) (by simp [stage])
  | expire i =>
    obtain ⟨run, at_, taken⟩ := ofRun_eq_some.mp taken
    cases taken
    exact lone.ofRun at_ _ rfl id fun first _ => .inl ⟨first, rfl⟩
  | die i =>
    obtain ⟨run, at_, taken⟩ := ofRun_eq_some.mp taken
    cases taken
    exact lone.ofRun at_ _ rfl (fun _ => rfl) fun _ _ => .inr (.inl rfl)

theorem GenerationTask.Lone.meets (lone : w.Lone) (separate : w.Separate a) : w.Meets a := by
  cases a with
  | advance i =>
    intro c at_
    have goes := lone.goes c (List.mem_of_getElem? at_)
    cases c with
    | process run =>
      obtain ⟨alone, goes⟩ := goes
      refine ⟨fun status commits ended => ?_, fun _ => alone⟩
      have still : w.status.final = false := by
        rcases goes with ⟨first, -⟩ | quit | still
        · simp [GenerationCall.commits, first] at commits
        · simp [GenerationCall.commits, quit] at commits
        · exact still
      rw [still] at ended
      cases ended
    | cancel stage =>
      refine ⟨fun status commits ended => ?_, fun starts => by cases starts⟩
      cases stage with
      | commit =>
        rw [(separate at_).2] at ended
        cases ended
      | load | returned => cases commits
  | _ => trivial

end Schedules

section Runs

open GenerationTask

/-- A task keeps the first final status that is stored, does not succeed once a cancellation was
answered, and is not generated again while a run is in progress, in every state of a run, exactly
when all the steps of the run meet the condition. -/
theorem ordered_throughout (identified : Bool) (actions : List GenerationAction) :
    (∀ first, first <+: actions → ∀ w,
        run generationStep { identified } first = some w → w.Ordered) ↔
      Along generationStep Meets { identified } actions := by
  refine forall_prefix_iff_along (P := Sound) Sound.ordered
    (fun sound meets taken => sound.step (.of_step taken) meets) Sound.back meets_of_stuck ?_
  exact ⟨rfl, fun answered => (List.not_mem_nil answered).elim,
    fun c mem => (List.not_mem_nil mem).elim⟩

/-- Where no run begins and no cancellation is committed while a run is in progress, nor a
cancellation once the task has ended, the checks of `process_task` keep the task. -/
theorem ordered_of_separate (identified : Bool) {actions : List GenerationAction}
    (separate : Along generationStep Separate { identified } actions) {w : GenerationTask}
    (reached : run generationStep { identified } actions = some w) : w.Ordered := by
  have meets : Along generationStep Meets { identified } actions :=
    along_of_invariant Lone.step Lone.meets (lone_new identified) separate
  exact (ordered_throughout identified actions).mpr meets actions (List.prefix_refl _) w reached

/-- A cancellation is answered while a run is past its last look for one, and the task succeeds.
A run that is delivered while another is upstream goes upstream too. -/
theorem canceled_succeeds :
    (∃ w, run generationStep { identified := true } [.deliver, .advance 0, .advance 0, .advance 0,
        .upstreamEnds 0 (.returned true none), .advance 0, .advance 0, .advance 0, .advance 0,
        .persisted 0 true, .advance 0, .advance 0, .markCancel, .cancelTaskByRequestId, .advance 1,
        .advance 1, .advance 0] = some w ∧
      w.calls[1]? = some (.cancel (.returned .canceled)) ∧ w.status = .succeeded ∧
      ¬ w.Ordered) ∧
    ∃ w, run generationStep { identified := true } [.deliver, .advance 0, .advance 0, .advance 0,
        .deliver, .advance 1, .advance 1, .advance 1] = some w ∧
      w.calls = [.process ⟨false, true, some .running, .upstream⟩,
        .process ⟨true, true, some .running, .upstream⟩] ∧ ¬ w.Ordered := by
  constructor
  · refine ⟨_, rfl, rfl, rfl, fun ordered => ?_⟩
    exact ordered.canceled (by decide) rfl
  · refine ⟨_, rfl, rfl, fun ordered => ?_⟩
    exact absurd (ordered.once (.process ⟨true, true, some .running, .upstream⟩) (by decide))
      (by decide)

end Runs

end Deeting.ImageGeneration
