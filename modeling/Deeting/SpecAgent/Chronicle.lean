import Deeting.SpecAgent.Completion
import Deeting.SpecAgent.Moves
import Mathlib.Algebra.GroupWithZero.Nat

/-! What is seen of a run: the nodes it starts and skips, what the gates choose, and what the
calls of `run_step` return, none of which takes more than a bounded number of commits. -/
namespace Deeting.SpecAgent
open Transition

def World.work (w : World) : List Work := w.executor.elim [] Executor.work

def World.due (w : World) : List NodeId := w.executor.elim [] Executor.skips

/-- No `run_step` is going on. -/
def World.Idle (w : World) : Prop := w.due = [] ∧ w.work = []

structure Chronicle where
  world : World
  /-- The nodes that were started, and those that were marked skipped. -/
  started : List NodeId := []
  skipped : List NodeId := []
  /-- The gates that were carried out, with the node that each chose. -/
  picks : List (NodeId × NodeId) := []
  /-- What the calls of `run_step` returned, the latest last. -/
  results : List StepResult := []
  /-- The calls that were not cut off. -/
  calls : ℕ := 0

namespace Chronicle

def noteWork (c : Chronicle) (e : Executor) (outcome : Outcome) : Chronicle :=
  match e.skips, e.work with
  | id :: _, _ => if id ∈ e.skippedCache then c else { c with skipped := id :: c.skipped }
  | [], .start node :: _ => { c with started := node.id :: c.started }
  | [], .carry node _ :: _ =>
    match node.kind, outcome with
    | .logicGate, .chose next => { c with picks := (node.id, next) :: c.picks }
    | _, _ => c
  | [], .report _ result :: _ => { c with results := c.results ++ [result] }
  | [], .wrapUp executed :: _ => { c with results := c.results ++ [.running executed] }
  | [], _ => c

def note (c : Chronicle) (a : Action) (t : World) : Chronicle :=
  match a, c.world.executor with
  | .execute, _ | .interrupt, _ => { c with world := t, calls := c.results.length }
  | .runStep, _ => { c with world := t, calls := c.calls + 1 }
  | .perform outcome, some e => { c.noteWork e outcome with world := t }
  | _, _ => { c with world := t }

def planned (m : SpecManifest) : Chronicle := { world := .planned m }

end Chronicle

def watch (m : SpecManifest) (c : Chronicle) (a : Action) : Option Chronicle :=
  (step m c.world a).map (c.note a)

theorem watch_eq_some {m : SpecManifest} {c d : Chronicle} {a : Action} :
    watch m c a = some d ↔ ∃ t, step m c.world a = some t ∧ c.note a t = d :=
  Option.map_eq_some_iff

section Notes

variable {c : Chronicle} {t : World} {e : Executor} {outcome : Outcome} {node : SpecNode} {log : ℕ}
  {id : NodeId} {rest : List Work} {ids : List NodeId}

attribute [local simp] Chronicle.note Chronicle.noteWork

@[simp] theorem note_world (a : Action) : (c.note a t).world = t := by
  unfold Chronicle.note
  split
  · rfl
  · rfl
  · rfl
  · rfl
  · rfl

theorem mem_results {a : Action} {result : StepResult} (mem : result ∈ (c.note a t).results) :
    result ∈ c.results ∨ (∃ status, .report status result ∈ c.world.work) ∨
      ∃ executed, result = .running executed := by
  unfold Chronicle.note at mem
  split at mem
  · exact .inl mem
  · exact .inl mem
  · exact .inl mem
  · rename_i outcome e current
    have work : c.world.work = e.work := by
      rw [World.work, current]
      rfl
    rw [work]
    dsimp only at mem
    unfold Chronicle.noteWork at mem
    split at mem
    · split at mem
      · exact .inl mem
      · exact .inl mem
    · exact .inl mem
    · split at mem
      · exact .inl mem
      · exact .inl mem
    · rename_i status returned rest skips work
      rcases List.mem_append.mp mem with before | new
      · exact .inl before
      · rw [List.mem_singleton.mp new, work]
        exact .inr (.inl ⟨status, List.mem_cons_self⟩)
    · rename_i executed rest skips work
      rcases List.mem_append.mp mem with before | new
      · exact .inl before
      · exact .inr (.inr ⟨executed, List.mem_singleton.mp new⟩)
    · exact .inl mem
  · exact .inl mem

theorem note_skipCached (current : c.world.executor = some e) (skips : e.skips = id :: ids)
    (cached : id ∈ e.skippedCache) : c.note (.perform outcome) t = { c with world := t } := by
  simp only [Chronicle.note, Chronicle.noteWork, current, skips, if_pos cached]

theorem note_skip (current : c.world.executor = some e) (skips : e.skips = id :: ids)
    (uncached : id ∉ e.skippedCache) :
    c.note (.perform outcome) t = { c with world := t, skipped := id :: c.skipped } := by
  simp only [Chronicle.note, Chronicle.noteWork, current, skips, if_neg uncached]

theorem note_start (current : c.world.executor = some e) (skips : e.skips = [])
    (work : e.work = .start node :: rest) :
    c.note (.perform outcome) t = { c with world := t, started := node.id :: c.started } := by
  simp only [Chronicle.note, Chronicle.noteWork, current, skips, work]

theorem note_chose {next : NodeId} (current : c.world.executor = some e) (skips : e.skips = [])
    (work : e.work = .carry node log :: rest) (gate : node.kind = .logicGate) :
    c.note (.perform (.chose next)) t =
      { c with world := t, picks := (node.id, next) :: c.picks } := by
  simp only [Chronicle.note, Chronicle.noteWork, current, skips, work, gate]

theorem note_carry (current : c.world.executor = some e) (skips : e.skips = [])
    (work : e.work = .carry node log :: rest)
    (chooses : ∀ next, outcome = .chose next → node.kind ≠ .logicGate) :
    c.note (.perform outcome) t = { c with world := t } := by
  simp only [Chronicle.note, Chronicle.noteWork, current, skips, work]
  split
  · rename_i next gate
    exact absurd gate (chooses next rfl)
  · rfl

theorem note_close (current : c.world.executor = some e) (skips : e.skips = [])
    (work : e.work = .close log :: rest) :
    c.note (.perform outcome) t = { c with world := t } := by
  simp only [Chronicle.note, Chronicle.noteWork, current, skips, work]

theorem note_report {status : Option PlanStatus} {result : StepResult}
    (current : c.world.executor = some e) (skips : e.skips = [])
    (work : e.work = .report status result :: rest) :
    c.note (.perform outcome) t = { c with world := t, results := c.results ++ [result] } := by
  simp only [Chronicle.note, Chronicle.noteWork, current, skips, work]

theorem note_wrapUp {executed : ℕ} (current : c.world.executor = some e) (skips : e.skips = [])
    (work : e.work = .wrapUp executed :: rest) :
    c.note (.perform outcome) t =
      { c with world := t, results := c.results ++ [.running executed] } := by
  simp only [Chronicle.note, Chronicle.noteWork, current, skips, work]

end Notes

section Weight

variable {m : SpecManifest} {w t : World} {e : Executor} {outcome : Outcome}

def Work.weight (m : SpecManifest) : Work → ℕ
  | .start node => (m.children node.id).length + 3
  | .carry node _ => (m.children node.id).length + 2
  | .close _ | .report .. | .wrapUp _ => 1

def SpecManifest.skippable (m : SpecManifest) (cache : List NodeId) : ℕ :=
  (((m.nodes.map SpecNode.id).filter fun id => id ∉ cache).map fun id => (m.children id).length).sum

def Executor.weight (m : SpecManifest) (e : Executor) : ℕ :=
  e.skips.length + m.skippable e.skippedCache + (e.work.map (Work.weight m)).sum

def World.weight (m : SpecManifest) (w : World) : ℕ := w.executor.elim 0 (Executor.weight m)

theorem SpecManifest.skippable_cons {cache : List NodeId} {id : NodeId} (uncached : id ∉ cache) :
    m.skippable (id :: cache) + (m.children id).length = m.skippable cache := by
  have fewer : ((m.nodes.map SpecNode.id).filter fun other => other ∉ id :: cache) =
      ((m.nodes.map SpecNode.id).filter fun other => other ∉ cache).filter (· ≠ id) := by
    rw [List.filter_filter]
    refine List.filter_congr fun other _ => ?_
    simp only [List.mem_cons, not_or, Bool.decide_and]
  rw [skippable, skippable, fewer]
  by_cases known : id ∈ m.nodes.map SpecNode.id
  · have open_ : id ∈ (m.nodes.map SpecNode.id).filter fun other => other ∉ cache :=
      List.mem_filter.mpr ⟨known, decide_eq_true uncached⟩
    have erased : ((m.nodes.map SpecNode.id).filter fun other => other ∉ cache).erase id =
        ((m.nodes.map SpecNode.id).filter fun other => other ∉ cache).filter (· ≠ id) := by
      rw [(m.distinct.filter _).erase_eq_filter]
      refine List.filter_congr fun other _ => ?_
      rw [Bool.eq_iff_iff, bne_iff_ne, decide_eq_true_eq]
    have count := ((List.perm_cons_erase open_).map fun other => (m.children other).length).sum_eq
    rw [List.map_cons, List.sum_cons, erased] at count
    rw [count, Nat.add_comm]
  · rw [m.children_eq_nil known, List.filter_eq_self.mpr]
    · rfl
    · intro other mem
      have listed := List.mem_of_mem_filter mem
      rw [decide_eq_true_eq]
      rintro rfl
      exact known listed

theorem World.weight_of (current : w.executor = some e) : w.weight m = e.weight m := by
  rw [World.weight, current]
  rfl

theorem Moves.weight (moves : Moves m w (.perform outcome) t) : t.weight m < w.weight m := by
  cases moves with
  | skipCached _ current skips cached =>
    rw [World.weight_of current, Executor.weight, skips]
    simp only [World.weight, Option.elim_some, Executor.weight, List.length_cons]
    omega
  | skip _ current skips uncached =>
    have count := m.skippable_cons uncached
    rw [World.weight_of current, Executor.weight, skips]
    simp only [World.weight, Option.elim_some, Executor.weight, List.length_cons, List.length_append]
    omega
  | start _ current skips work | checkIn _ current skips work | returned _ current skips work
  | raised current skips work | replan _ current skips work | close _ current skips work
  | report _ current skips work | wrapUp _ current skips work =>
    rw [World.weight_of current, Executor.weight, work]
    simp only [World.weight, Option.elim_some, Executor.weight, Executor.remember, List.map_cons,
      List.map_nil, List.sum_cons, List.sum_nil, Work.weight]
    omega
  | chose next current skips work gate =>
    rename_i e node log rest
    have branches := List.length_filter_le (fun child => decide (child ≠ next)) (m.children node.id)
    rw [World.weight_of current, Executor.weight, skips, work]
    simp only [World.weight, Option.elim_some, Executor.weight, List.map_cons, List.sum_cons,
      List.length_nil, Work.weight]
    omega

theorem exists_perform (current : w.executor = some e) (busy : ¬ (e.skips = [] ∧ e.work = [])) :
    ∃ outcome, outcome ≠ .raised ∧ (step m w (.perform outcome)).isSome := by
  have quiet : Outcome.returned .null ≠ .raised := by simp
  simp only [step, current]
  unfold World.perform
  split
  · exact ⟨_, quiet, rfl⟩
  · exact ⟨_, quiet, rfl⟩
  · rename_i node log rest skips work
    cases asks : node.checkIn with
    | true => exact ⟨_, quiet, by simp [World.carry, asks]⟩
    | false =>
      cases kind : node.kind with
      | action outputAs checkIn | replanTrigger =>
        exact ⟨_, quiet, by simp [World.carry, asks, kind]⟩
      | logicGate => exact ⟨.chose node.id, by simp, by simp [World.carry, asks, kind]⟩
  · exact ⟨_, quiet, rfl⟩
  · exact ⟨_, quiet, rfl⟩
  · exact ⟨_, quiet, rfl⟩
  · rename_i skips work
    exact absurd ⟨skips, work⟩ busy

end Weight

section Answers

def Work.ends : Work → Bool
  | .report .. | .wrapUp _ => true
  | .start _ | .carry .. | .close _ => false

inductive Rounds : List Work → Prop where
  | last {piece : Work} (ends : piece.ends = true) : Rounds [piece]
  | cons {piece : Work} {rest : List Work} (goes : piece.ends = false) (tail : Rounds rest) :
      Rounds (piece :: rest)

def StepResult.goesOn : StepResult → Bool
  | .running _ => true
  | _ => false

/-- What the calls of `run_step` have returned, against the work of the one that is going on
and the number of nodes that were started. -/
structure Answering (work : List Work) (results : List StepResult) (calls began : ℕ) : Prop where
  rounds : work = [] ∨ Rounds work
  answered : results.length + work.countP Work.ends = calls
  counted : results.countP StepResult.goesOn ≤ began
  counting : ∀ executed, .wrapUp executed ∈ work →
    results.countP StepResult.goesOn < began ∨ ∃ node, .start node ∈ work
  reports : ∀ status result, .report status result ∈ work → result.goesOn = false

variable {m : SpecManifest} {work rest : List Work} {results : List StepResult} {calls began : ℕ}
  {piece : Work}

theorem Rounds.countP (rounds : Rounds work) : work.countP Work.ends = 1 := by
  induction rounds with
  | last ends => simp [ends]
  | cons goes tail ih => simp [goes, ih]

theorem Rounds.of_ends (rounds : Rounds (piece :: rest)) (ends : piece.ends = true) : rest = [] := by
  cases rounds with
  | last _ => rfl
  | cons goes tail =>
    rw [goes] at ends
    cases ends

theorem Rounds.tail (rounds : Rounds (piece :: rest)) (goes : piece.ends = false) : Rounds rest := by
  cases rounds with
  | last ends =>
    rw [goes] at ends
    cases ends
  | cons _ tail => exact tail

theorem Rounds.ne_nil (rounds : Rounds work) : work ≠ [] := by
  cases rounds with
  | last ends => exact List.cons_ne_nil _ _
  | cons goes tail => exact List.cons_ne_nil _ _

namespace Answering

theorem now (answering : Answering (piece :: rest) results calls began) : Rounds (piece :: rest) :=
  answering.rounds.resolve_left (List.cons_ne_nil _ _)

theorem tail (answering : Answering (piece :: rest) results calls began)
    (goes : piece.ends = false) (begun : ∀ node, piece ≠ .start node) :
    Answering rest results calls began where
  rounds := .inr (answering.now.tail goes)
  answered := by
    have answered := answering.answered
    rwa [List.countP_cons_of_neg (by simp [goes])] at answered
  counted := answering.counted
  counting executed mem := by
    refine (answering.counting executed (List.mem_cons_of_mem _ mem)).imp_right ?_
    rintro ⟨node, start⟩
    exact ⟨node, (List.mem_cons.mp start).resolve_left fun same => begun node same.symm⟩
  reports status result mem := answering.reports status result (List.mem_cons_of_mem _ mem)

theorem cons (answering : Answering rest results calls began) (more : rest ≠ [])
    (goes : piece.ends = false) : Answering (piece :: rest) results calls began where
  rounds := .inr (.cons goes (answering.rounds.resolve_left more))
  answered := by
    rw [List.countP_cons_of_neg (by simp [goes])]
    exact answering.answered
  counted := answering.counted
  counting executed mem := by
    have mem : .wrapUp executed ∈ rest := by
      refine (List.mem_cons.mp mem).resolve_left fun same => ?_
      rw [← same] at goes
      cases goes
    refine (answering.counting executed mem).imp_right ?_
    exact fun ⟨node, start⟩ => ⟨node, List.mem_cons_of_mem _ start⟩
  reports status result mem := by
    refine answering.reports status result ((List.mem_cons.mp mem).resolve_left fun same => ?_)
    rw [← same] at goes
    cases goes

theorem start {node : SpecNode} {log : ℕ}
    (answering : Answering (.start node :: rest) results calls began) :
    Answering (.carry node log :: rest) results calls (began + 1) where
  rounds := .inr (.cons rfl (answering.now.tail rfl))
  answered := answering.answered
  counted := answering.counted.trans (Nat.le_succ _)
  counting _ _ := .inl (Nat.lt_succ_of_le answering.counted)
  reports status result mem := by
    refine answering.reports status result (List.mem_cons_of_mem _ ?_)
    exact (List.mem_cons.mp mem).resolve_left (by simp)

theorem halt (answering : Answering work results calls began) (going : work ≠ [])
    (status : Option PlanStatus) {result : StepResult} (stops : result.goesOn = false) :
    Answering [.report status result] results calls began where
  rounds := .inr (.last rfl)
  answered := by
    have answered := answering.answered
    rwa [(answering.rounds.resolve_left going).countP] at answered
  counted := answering.counted
  counting := by simp
  reports := by simpa using stops

theorem returns {result : StepResult}
    (answering : Answering (piece :: rest) results calls began) (ends : piece.ends = true)
    (goesOn : result.goesOn = true → ∃ executed, piece = .wrapUp executed) :
    Answering rest (results ++ [result]) calls began where
  rounds := .inl (answering.now.of_ends ends)
  answered := by
    have answered := answering.answered
    rw [answering.now.of_ends ends] at answered ⊢
    simpa [ends] using answered
  counted := by
    rw [List.countP_append]
    cases more : result.goesOn with
    | false => simpa [more] using answering.counted
    | true =>
      obtain ⟨executed, rfl⟩ := goesOn more
      have last := answering.now.of_ends rfl
      rcases answering.counting executed List.mem_cons_self with fewer | ⟨node, start⟩
      · rw [List.countP_cons_of_pos more, List.countP_nil]
        omega
      · simp [last] at start
  counting executed mem := by
    rw [answering.now.of_ends ends] at mem
    cases mem
  reports status result mem := by
    rw [answering.now.of_ends ends] at mem
    cases mem

theorem cut (answering : Answering work results calls began) :
    Answering [] results results.length began where
  rounds := .inl rfl
  answered := rfl
  counted := answering.counted
  counting := by simp
  reports := by simp

theorem call (answering : Answering [] results calls began) (rounds : Rounds work)
    (starts : ∀ executed, .wrapUp executed ∈ work → ∃ node, .start node ∈ work)
    (reports : ∀ status result, .report status result ∈ work → result.goesOn = false) :
    Answering work results (calls + 1) began where
  rounds := .inr rounds
  answered := by
    rw [rounds.countP, ← answering.answered]
    rfl
  counted := answering.counted
  counting executed mem := .inr (starts executed mem)
  reports := reports

end Answering

theorem Answering.schedule (answering : Answering [] results calls began) (logs : List LogRow)
    (e : Executor) : Answering (e.schedule m logs).work results (calls + 1) began := by
  unfold Executor.schedule
  dsimp only
  split
  · exact answering.call (.last rfl) (by simp) (by simp [StepResult.goesOn])
  dsimp only
  split
  · unfold verdict
    split
    · exact answering.call (.last rfl) (by simp) (by simp [StepResult.goesOn])
    split
    · exact answering.call (.last rfl) (by simp) (by simp [StepResult.goesOn])
    · exact answering.call (.last rfl) (by simp) (by simp [StepResult.goesOn])
  · rename_i some_
    obtain ⟨node, mem⟩ := List.exists_mem_of_ne_nil _ some_
    refine answering.call ?_ (fun _ _ => ⟨node, ?_⟩) (by simp)
    · generalize List.filter _ m.nodes = nodes
      have starts (executed : ℕ) : Rounds (nodes.map .start ++ [.wrapUp executed]) := by
        induction nodes with
        | nil => exact .last rfl
        | cons node rest ih => exact .cons rfl ih
      exact starts _
    · exact List.mem_append_left _ (List.mem_map_of_mem mem)

end Answers

end Deeting.SpecAgent
