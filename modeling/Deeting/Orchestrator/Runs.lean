import Deeting.Orchestrator.Layers
import Deeting.Transition

/-! The runs of `OrchestrationEngine.execute` in both of its modes. A layer is entered
with any answers of `should_skip`, its steps run one after another or gathered in any
interleaving, and every attempt ends as its label says; the engine goes on when the layer
allows it. After an exception among gathered steps `execute` returns while the others
still run. -/
namespace Deeting.Orchestrator
open Deeting.Digraph Transition

/-- How far `_execute_step` has come with a step, with its local variables. -/
inductive Task where
  | idle
  | ready (made : ℕ)
  | executing (attempt : ℕ)
  | failing (e : StepError) (attempt : ℕ)
  | finished
  | aborted
  deriving DecidableEq, Repr

def Task.running : Task → Bool
  | .ready _ | .executing _ | .failing .. => true
  | .idle | .finished | .aborted => false

/-- How far `execute` has come: before a layer, in one with some steps not begun yet, or
at its end. An exception leaves `failed_step` unset. -/
inductive Control (N : Type) where
  | between (rest : List (List N))
  | running (executable pending : List N) (rest : List (List N))
  | returned (success : Bool) (failedStep : Option N)
  deriving DecidableEq, Repr

/-- `started` counts the calls of the step's `execute`. -/
structure Execution (N C : Type) extends Progress N C where
  started : N → ℕ
  task : N → Task
  control : Control N

inductive Action (N C : Type) where
  | enter (skipped : List N) (session : Bool)
  | begin (name : N)
  | returns (name : N) (r : StepResult) (c : C)
  | raises (name : N) (e : StepError) (c : C)
  | settles (name : N) (action : FailureAction) (degraded : StepResult) (c : C)
  | proceed

variable {N C : Type} [DecidableEq N]

namespace Execution

def record (s : Execution N C) (name : N) (r : StepResult) (task : Task) (c : C) : Execution N C :=
  { s with
    ctx := c
    results := Function.update s.results name (some r)
    task := Function.update s.task name task }

def awake (s : Execution N C) (woken : List N) : Execution N C :=
  { s with task := fun a => if a ∈ woken then .ready 0 else s.task a }

def skip (s : Execution N C) (layer skipped : List N) : Execution N C :=
  { s with results := fun a =>
      if a ∈ layer ∧ a ∈ skipped then some { status := .skipped } else s.results a }

/-- The beginning of a layer: gathered without a session, if there is more than one step. -/
def enter (s : Execution N C) (layer skipped : List N) (session : Bool) (rest : List (List N)) :
    Execution N C :=
  match layer.filter fun name => name ∉ skipped with
  | [] => { s.skip layer skipped with control := .between rest }
  | first :: others =>
      if session = true ∨ others = [] then
        { s.skip layer skipped with
          control := .running (first :: others) others rest }.awake [first]
      else
        { s.skip layer skipped with
          control := .running (first :: others) [] rest }.awake (first :: others)

def settle (maxRetries : N → ℕ) (s : Execution N C) (name : N) (e : StepError) (attempt : ℕ)
    (action : FailureAction) (degraded : StepResult) (c : C) : Execution N C :=
  if action = .retry ∧ attempt < maxRetries name + 1 then
    { s with ctx := c, task := Function.update s.task name (.ready attempt) }
  else
    match action with
    | .skip => s.record name { status := .skipped, message := some e.text } .finished c
    | .degrade => s.record name degraded .finished c
    | .retry | .abort => s.record name { status := .failed, message := some e.text } .aborted c

def failed (s : Execution N C) (name : N) : Bool :=
  (s.results name).any fun r => r.status = .failed

/-- What `execute` does next: raise, go on in the layer, check it, or return. -/
def proceed (s : Execution N C) : Option (Execution N C) :=
  match s.control with
  | .between [] => some { s with control := .returned true none }
  | .between (_ :: _) => none
  | .running executable pending rest =>
      if ∃ a ∈ executable, s.task a = .aborted then
        some { s with control := .returned false none }
      else if ∀ a ∈ executable, a ∈ pending ∨ s.task a = .finished then
        match pending with
        | next :: pending => some ({ s with control := .running executable pending rest }.awake [next])
        | [] =>
            match executable.find? s.failed with
            | some name => some { s with control := .returned false (some name) }
            | none => some { s with control := .between rest }
      else none
  | .returned .. => none

def act (maxRetries : N → ℕ) (s : Execution N C) : Action N C → Option (Execution N C)
  | .enter skipped session =>
      match s.control with
      | .between (layer :: rest) => some (s.enter layer skipped session rest)
      | _ => none
  | .begin name =>
      match s.task name with
      | .ready made => some
          { s with
            started := Function.update s.started name (s.started name + 1)
            task := Function.update s.task name (.executing (made + 1)) }
      | _ => none
  | .returns name r c =>
      match s.task name with
      | .executing _ => some (s.record name r .finished c)
      | _ => none
  | .raises name e c =>
      match s.task name with
      | .executing attempt => some
          { s with ctx := c, task := Function.update s.task name (.failing e attempt) }
      | _ => none
  | .settles name action degraded c =>
      match s.task name with
      | .failing e attempt => some (s.settle maxRetries name e attempt action degraded c)
      | _ => none
  | .proceed => s.proceed

def initial (graph : Graph N) (c : C) : Execution N C where
  ctx := c
  results _ := none
  started _ := 0
  task _ := .idle
  control := .between (executionLayers graph)

def Failed (s : Execution N C) (a : N) : Prop := ∃ r, s.results a = some r ∧ r.status = .failed

def Settled (s : Execution N C) (a : N) : Prop := ∃ r, s.results a = some r ∧ r.status ≠ .failed

end Execution

/-- The step ends in `ABORT`: by the action, or by a retry with no attempt left. -/
def Aborts (maxRetries : N → ℕ) (s : Execution N C) : Action N C → Prop
  | .settles name action _ _ =>
      action = .abort ∨ action = .retry ∧ maxRetries name < s.started name
  | _ => False

instance (maxRetries : N → ℕ) (s : Execution N C) : (a : Action N C) → Decidable (Aborts maxRetries s a)
  | .settles .. => inferInstanceAs (Decidable (_ ∨ _))
  | .enter .. | .begin _ | .returns .. | .raises .. | .proceed => .isFalse not_false

/-- What `execute` promises when it returns. -/
def Truthful (s : Execution N C) (success : Bool) (failedStep : Option N) : Prop :=
  (∀ name, (s.task name).running = false) ∧
  (success = false ↔ ∃ name, s.Failed name) ∧
  (success = false → ∃ name, failedStep = some name ∧ s.Failed name)

section Invariant
variable {graph : Graph N} {maxRetries : N → ℕ} {s t : Execution N C}

def Control.waiting : Control N → List N
  | .between rest => rest.flatten
  | .running _ pending rest => pending ++ rest.flatten
  | .returned .. => []

def Execution.Untouched (s : Execution N C) (a : N) : Prop :=
  s.task a = .idle ∧ s.results a = none

def Execution.Quiet (s : Execution N C) (a : N) : Prop := s.task a = .idle ∨ s.task a = .finished

def Recorded (retries started : ℕ) (result : Option StepResult) : Task → Prop
  | .idle => started = 0
  | .ready made => started = made ∧ made ≤ retries ∧ result = none
  | .executing attempt | .failing _ attempt =>
      started = attempt ∧ attempt ≤ retries + 1 ∧ result = none
  | .finished => started ≤ retries + 1 ∧ ∃ r, result = some r
  | .aborted => started ≤ retries + 1 ∧ ∃ r, result = some r ∧ r.status = .failed

/-- What holds at each point of `execute`: the layers still to come can be entered once
those behind are settled, and only a layer being run has failures or tasks under way. -/
def Placed (graph : Graph N) (s : Execution N C) : Control N → Prop
  | .between rest =>
      (∃ done, Layered (DependsOn graph) (graph.map Prod.fst) done rest ∧
        ∀ a, done a → s.Settled a) ∧
      (∀ a, s.Quiet a) ∧ ∀ a, ¬ s.Failed a
  | .running executable pending rest =>
      (∃ done, Layered (DependsOn graph) (graph.map Prod.fst) done rest ∧
        ∀ a, done a → s.Settled a ∨ a ∈ executable) ∧
      (∀ a ∈ pending, a ∈ executable ∧ ∀ b, DependsOn graph a b → s.Settled b) ∧
      (∀ a, s.Quiet a ∨ a ∈ executable) ∧ ∀ a, s.Failed a → a ∈ executable
  | .returned true failedStep => failedStep = none ∧ (∀ a, s.Quiet a) ∧ ∀ a, ¬ s.Failed a
  | .returned false (some name) => s.Failed name ∧ ∀ a, s.Quiet a
  | .returned false none => ∃ a, s.task a = .aborted

structure Consistent (graph : Graph N) (maxRetries : N → ℕ) (s : Execution N C) : Prop where
  untouched : ∀ a ∈ s.control.waiting, s.Untouched a
  once : s.control.waiting.Nodup
  deps : ∀ a, s.task a ≠ .idle → ∀ b, DependsOn graph a b → s.Settled b
  recorded : ∀ a, Recorded (maxRetries a) (s.started a) (s.results a) (s.task a)
  placed : Placed graph s s.control

theorem consistent_initial (distinct : (graph.map Prod.fst).Nodup)
    (accepted : validateDag graph = .ok ()) (c : C) :
    Consistent graph maxRetries (Execution.initial graph c) := by
  have known : Known graph := by
    rw [← unknownDependency_eq_none distinct]
    cases unknown : unknownDependency graph with
    | none => rfl
    | some edge => simp [validateDag, unknown] at accepted
  rcases validateDag_of_known distinct known with ⟨_, acyclic⟩ | ⟨path, raised, _⟩
  · have layered := executionLayers_layered distinct known acyclic
    constructor
    · intro a _
      exact ⟨rfl, rfl⟩
    · exact layered.nodup
    · intro a running
      exact absurd rfl running
    · intro a
      rfl
    · refine ⟨⟨_, layered, fun a no => no.elim⟩, fun a => .inl rfl, ?_⟩
      rintro a ⟨r, recorded, _⟩
      cases recorded
  · rw [accepted] at raised
    cases raised

theorem Consistent.awake {executable woken pending : List N} {rest : List (List N)}
    (consistent : Consistent graph maxRetries
      { s with control := .running executable (woken ++ pending) rest }) :
    Consistent graph maxRetries
      ({ s with control := .running executable pending rest }.awake woken) := by
  obtain ⟨untouched, once, deps, recorded, layered, ready, quiet, failures⟩ := consistent
  simp only [Control.waiting, List.append_assoc] at untouched once
  obtain ⟨_, once, apart⟩ := List.nodup_append.mp once
  have started {a : N} (mem : a ∈ woken) : s.task a = .idle ∧ s.results a = none :=
    untouched a (List.mem_append_left _ mem)
  constructor
  · intro a mem
    have other : a ∉ woken := fun new => apart a new a mem rfl
    obtain ⟨idle, none⟩ := untouched a (List.mem_append_right _ mem)
    exact ⟨by simp only [Execution.awake, if_neg other]; exact idle, none⟩
  · exact once
  · intro a running b edge
    by_cases new : a ∈ woken
    · exact (ready a (List.mem_append_left _ new)).2 b edge
    · simp only [Execution.awake, if_neg new] at running
      exact deps a running b edge
  · intro a
    by_cases new : a ∈ woken
    · have before := recorded a
      obtain ⟨idle, none⟩ := started new
      simp only [idle, Recorded] at before
      simp [Execution.awake, new, Recorded, before, none]
    · simpa only [Execution.awake, if_neg new] using recorded a
  · refine ⟨layered, fun a mem => ready a (List.mem_append_right _ mem), fun a => ?_, failures⟩
    by_cases new : a ∈ woken
    · exact .inr (ready a (List.mem_append_left _ new)).1
    · simpa only [Execution.Quiet, Execution.awake, if_neg new] using quiet a

theorem Placed.moved {name : N} {control : Control N} (placed : Placed graph s control)
    (running : (s.task name).running = true) (busy : ¬ s.Quiet name)
    (others : ∀ a, a ≠ name → t.task a = s.task a ∧ t.results a = s.results a)
    (settled : ∀ a, s.Settled a → t.Settled a) : Placed graph t control := by
  cases control with
  | between rest => exact absurd (placed.2.1 name) busy
  | running executable pending rest =>
    obtain ⟨⟨done, layered, behind⟩, ready, quiet, failures⟩ := placed
    have member : name ∈ executable := (quiet name).resolve_left busy
    refine ⟨⟨done, layered, fun a before => (behind a before).imp_left (settled a)⟩, ?_, ?_, ?_⟩
    · intro a mem
      exact ⟨(ready a mem).1, fun b edge => settled b ((ready a mem).2 b edge)⟩
    · intro a
      by_cases same : a = name
      · exact .inr (same ▸ member)
      · rw [Execution.Quiet, (others a same).1]
        exact quiet a
    · rintro a ⟨r, found, failed⟩
      by_cases same : a = name
      · exact same ▸ member
      · exact failures a ⟨r, (others a same).2 ▸ found, failed⟩
  | returned success failedStep =>
    cases success with
    | true => exact absurd (placed.2.1 name) busy
    | false =>
      cases failedStep with
      | some a => exact absurd (placed.2 name) busy
      | none =>
        obtain ⟨a, aborted⟩ := placed
        have other : a ≠ name := by
          rintro rfl
          simp [aborted, Task.running] at running
        exact ⟨a, (others a other).1.trans aborted⟩

theorem Consistent.moved {name : N} (consistent : Consistent graph maxRetries s)
    (running : (s.task name).running = true) (control : t.control = s.control)
    (others : ∀ a, a ≠ name →
      t.task a = s.task a ∧ t.results a = s.results a ∧ t.started a = s.started a)
    (begun : t.task name ≠ .idle)
    (recorded : Recorded (maxRetries name) (t.started name) (t.results name) (t.task name)) :
    Consistent graph maxRetries t := by
  have pending : s.results name = none := by
    have before := consistent.recorded name
    cases task : s.task name <;> simp_all [Task.running, Recorded]
  have busy : ¬ s.Quiet name := by
    rintro (idle | finished) <;> simp_all [Task.running]
  have settled (a : N) (before : s.Settled a) : t.Settled a := by
    obtain ⟨r, found, fine⟩ := before
    have other : a ≠ name := by
      rintro rfl
      rw [pending] at found
      cases found
    exact ⟨r, (others a other).2.1.trans found, fine⟩
  constructor
  · intro a mem
    rw [control] at mem
    obtain ⟨idle, none⟩ := consistent.untouched a mem
    have other : a ≠ name := by
      rintro rfl
      exact busy (.inl idle)
    exact ⟨(others a other).1.trans idle, (others a other).2.1.trans none⟩
  · rw [control]
    exact consistent.once
  · intro a task b edge
    by_cases same : a = name
    · subst same
      refine settled b (consistent.deps a ?_ b edge)
      intro idle
      exact busy (.inl idle)
    · rw [(others a same).1] at task
      exact settled b (consistent.deps a task b edge)
  · intro a
    by_cases same : a = name
    · exact same ▸ recorded
    · obtain ⟨task, result, started⟩ := others a same
      rw [task, result, started]
      exact consistent.recorded a
  · rw [control]
    exact consistent.placed.moved running busy
      (fun a other => ⟨(others a other).1, (others a other).2.1⟩) settled

theorem Consistent.record {name : N} {r : StepResult} {task : Task} {c : C}
    (consistent : Consistent graph maxRetries s) (running : (s.task name).running = true)
    (bound : s.started name ≤ maxRetries name + 1)
    (ended : task = .finished ∨ task = .aborted ∧ r.status = .failed) :
    Consistent graph maxRetries (s.record name r task c) := by
  refine consistent.moved running rfl (fun a other => ?_) ?_ ?_
  · simp [Execution.record, other]
  · rcases ended with rfl | ⟨rfl, _⟩ <;> simp [Execution.record]
  · rcases ended with rfl | ⟨rfl, failed⟩
    · simp [Execution.record, Recorded, bound]
    · simp [Execution.record, Recorded, bound, failed]

theorem Consistent.settle {name : N} {e : StepError} {attempt : ℕ} {action : FailureAction}
    {degraded : StepResult} {c : C} (consistent : Consistent graph maxRetries s)
    (failing : s.task name = .failing e attempt) :
    Consistent graph maxRetries (s.settle maxRetries name e attempt action degraded c) := by
  have running : (s.task name).running = true := by rw [failing]; rfl
  have before := consistent.recorded name
  rw [failing] at before
  obtain ⟨started, bound, pending⟩ := before
  unfold Execution.settle
  split
  · rename_i again
    refine consistent.moved running rfl (fun a other => ?_) ?_ ?_
    · simp [other]
    · simp
    · have left : attempt ≤ maxRetries name := by omega
      simp [Recorded, started, pending, left]
  · have made : s.started name ≤ maxRetries name + 1 := started ▸ bound
    split
    · exact consistent.record running made (.inl rfl)
    · exact consistent.record running made (.inl rfl)
    · exact consistent.record running made (.inr ⟨rfl, rfl⟩)
    · exact consistent.record running made (.inr ⟨rfl, rfl⟩)

inductive Proceeds (s : Execution N C) : Execution N C → Prop where
  | succeeds (control : s.control = .between []) :
      Proceeds s { s with control := .returned true none }
  | aborts {executable pending : List N} {rest : List (List N)} {a : N}
      (control : s.control = .running executable pending rest) (aborted : s.task a = .aborted) :
      Proceeds s { s with control := .returned false none }
  | wakes {executable pending : List N} {rest : List (List N)} {next : N}
      (control : s.control = .running executable (next :: pending) rest) :
      Proceeds s ({ s with control := .running executable pending rest }.awake [next])
  | fails {executable : List N} {rest : List (List N)} {name : N}
      (control : s.control = .running executable [] rest)
      (ended : ∀ a ∈ executable, s.task a = .finished)
      (found : executable.find? s.failed = some name) :
      Proceeds s { s with control := .returned false (some name) }
  | passes {executable : List N} {rest : List (List N)}
      (control : s.control = .running executable [] rest)
      (ended : ∀ a ∈ executable, s.task a = .finished)
      (passed : executable.find? s.failed = none) :
      Proceeds s { s with control := .between rest }

theorem proceeds_of_proceed (proceeds : s.proceed = some t) : Proceeds s t := by
  rw [Execution.proceed] at proceeds
  split at proceeds
  · rename_i control
    cases proceeds
    exact .succeeds control
  · cases proceeds
  · rename_i executable pending rest control
    split at proceeds
    · rename_i raised
      obtain ⟨a, _, aborted⟩ := raised
      cases proceeds
      exact .aborts control aborted
    split at proceeds
    · rename_i exhausted
      cases pending with
      | cons next pending =>
        cases proceeds
        exact .wakes control
      | nil =>
        have ended (a : N) (mem : a ∈ executable) : s.task a = .finished :=
          (exhausted a mem).resolve_left List.not_mem_nil
        simp only at proceeds
        split at proceeds
        · cases proceeds
          exact .fails control ended ‹_›
        · cases proceeds
          exact .passes control ended ‹_›
    · cases proceeds
  · cases proceeds

/-- A layer is entered with some of its steps woken and the others pending, unless all of
them are skipped. -/
theorem enter_cases (layer skipped : List N) (session : Bool) (rest : List (List N)) :
    (layer.filter (fun name => name ∉ skipped) = [] ∧
      s.enter layer skipped session rest =
        { s.skip layer skipped with control := .between rest }) ∨
    ∃ woken pending, woken ++ pending = layer.filter (fun name => name ∉ skipped) ∧
      s.enter layer skipped session rest =
        { s.skip layer skipped with
          control := .running (woken ++ pending) pending rest }.awake woken := by
  rw [Execution.enter]
  split
  · rename_i none
    exact .inl ⟨none, rfl⟩
  · rename_i first others some
    rw [some]
    split
    · exact .inr ⟨[first], others, rfl, rfl⟩
    · exact .inr ⟨first :: others, [], List.append_nil _, by rw [List.append_nil]⟩

theorem Consistent.entered {layer : List N} {rest : List (List N)} (skipped : List N)
    (consistent : Consistent graph maxRetries s)
    (control : s.control = .between (layer :: rest)) :
    Consistent graph maxRetries
      { s.skip layer skipped with
        control := .running (layer.filter fun name => name ∉ skipped)
          (layer.filter fun name => name ∉ skipped) rest } := by
  obtain ⟨untouched, once, deps, recorded, placed⟩ := consistent
  rw [control] at untouched once placed
  obtain ⟨⟨done, ⟨_, distinct, ready, layered⟩, behind⟩, quiet, clean⟩ := placed
  simp only [Control.waiting, List.flatten_cons] at untouched once
  obtain ⟨_, restOnce, apart⟩ := List.nodup_append.mp once
  have fresh {a : N} (mem : a ∈ layer) : s.Untouched a :=
    untouched a (List.mem_append_left _ mem)
  have settled {a : N} (before : s.Settled a) : (s.skip layer skipped).Settled a := by
    obtain ⟨r, found, fine⟩ := before
    have other : ¬ (a ∈ layer ∧ a ∈ skipped) := by
      rintro ⟨mem, _⟩
      rw [(fresh mem).2] at found
      cases found
    exact ⟨r, by simp only [Execution.skip, if_neg other, found], fine⟩
  have among {a : N} (mem : a ∈ layer.filter fun name => name ∉ skipped) :
      a ∈ layer ∧ a ∉ skipped := by simpa using mem
  constructor
  · intro a mem
    rcases List.mem_append.mp mem with mem | mem
    · refine ⟨(fresh (among mem).1).1, ?_⟩
      simp only [Execution.skip, (among mem).2, and_false, if_false]
      exact (fresh (among mem).1).2
    · have other : a ∉ layer := fun first => apart a first a mem rfl
      obtain ⟨idle, none⟩ := untouched a (List.mem_append_right _ mem)
      refine ⟨idle, ?_⟩
      simp only [Execution.skip, other, false_and, if_false]
      exact none
  · simp only [Control.waiting]
    rw [List.nodup_append]
    exact ⟨distinct.filter _, restOnce, fun a mem b later => apart a (among mem).1 b later⟩
  · intro a running b edge
    exact settled (deps a running b edge)
  · intro a
    have before := recorded a
    have still : (s.skip layer skipped).task a = s.task a := rfl
    by_cases skips : a ∈ layer ∧ a ∈ skipped
    · simp only [(fresh skips.1).1, Recorded] at before
      simp only [still, (fresh skips.1).1, Recorded]
      exact before
    · have same : (s.skip layer skipped).results a = s.results a := by
        simp only [Execution.skip, if_neg skips]
      simp only [same]
      exact before
  · refine ⟨⟨_, layered, ?_⟩, ?_, fun a => .inl (quiet a), ?_⟩
    · rintro a (before | mem)
      · exact .inl (settled (behind a before))
      · by_cases skips : a ∈ skipped
        · exact .inl ⟨{ status := .skipped }, by simp [Execution.skip, mem, skips], by simp⟩
        · exact .inr (List.mem_filter.mpr ⟨mem, by simpa using skips⟩)
    · intro a mem
      refine ⟨mem, fun b edge => settled (behind b ?_)⟩
      exact ((ready a).mp (among mem).1).2.2 b edge
    · rintro a ⟨r, found, failed⟩
      simp only [Execution.skip] at found
      split at found
      · cases found
        cases failed
      · exact absurd ⟨r, found, failed⟩ (clean a)

theorem Consistent.enter {layer : List N} {rest : List (List N)} {skipped : List N}
    {session : Bool} (consistent : Consistent graph maxRetries s)
    (control : s.control = .between (layer :: rest)) :
    Consistent graph maxRetries (s.enter layer skipped session rest) := by
  have whole := consistent.entered skipped control
  obtain ⟨none, entered⟩ | ⟨woken, pending, parts, entered⟩ :=
    enter_cases (s := s) layer skipped session rest
  · have quiet : ∀ a, s.Quiet a := by
      have placed := consistent.placed
      rw [control] at placed
      exact placed.2.1
    rw [none] at whole
    rw [entered]
    obtain ⟨untouched, once, deps, recorded, ⟨done, layered, behind⟩, _, _, failures⟩ := whole
    refine ⟨untouched, once, deps, recorded, ⟨done, layered, ?_⟩, quiet, ?_⟩
    · intro a before
      exact (behind a before).resolve_right List.not_mem_nil
    · intro a failed
      exact absurd (failures a failed) List.not_mem_nil
  · rw [← parts] at whole
    rw [entered]
    exact whole.awake

theorem Consistent.proceed (consistent : Consistent graph maxRetries s)
    (proceeds : s.proceed = some t) : Consistent graph maxRetries t := by
  obtain ⟨untouched, once, deps, recorded, placed⟩ := consistent
  cases proceeds_of_proceed proceeds with
  | succeeds control =>
    rw [control] at placed
    obtain ⟨_, quiet, clean⟩ := placed
    exact ⟨by simp [Control.waiting], .nil, deps, recorded, rfl, quiet, clean⟩
  | aborts _ aborted => exact ⟨by simp [Control.waiting], .nil, deps, recorded, _, aborted⟩
  | @wakes executable pending rest next control =>
    rw [control] at untouched once placed
    have whole : Consistent graph maxRetries
        { s with control := .running executable ([next] ++ pending) rest } :=
      ⟨untouched, once, deps, recorded, placed⟩
    exact whole.awake
  | @fails executable rest name control ended found =>
    rw [control] at placed
    obtain ⟨_, _, active, _⟩ := placed
    have quiet (a : N) : s.Quiet a := (active a).elim id fun mem => .inr (ended a mem)
    have failed : s.Failed name := by
      simpa [Execution.failed, Execution.Failed, Option.any_eq_true] using List.find?_some found
    exact ⟨by simp [Control.waiting], .nil, deps, recorded, failed, quiet⟩
  | passes control ended passed =>
    rw [control] at untouched once placed
    obtain ⟨⟨done, layered, behind⟩, _, active, failures⟩ := placed
    have quiet (a : N) : s.Quiet a := (active a).elim id fun mem => .inr (ended a mem)
    have clean (a : N) : ¬ s.Failed a := by
      rintro ⟨r, found, failed⟩
      have bad := List.find?_eq_none.mp passed a (failures a ⟨r, found, failed⟩)
      simp [Execution.failed, found, failed] at bad
    refine ⟨untouched, once, deps, recorded, ⟨done, layered, ?_⟩, quiet, clean⟩
    intro a before
    refine (behind a before).elim id fun mem => ?_
    have result := recorded a
    rw [ended a mem] at result
    obtain ⟨_, r, found⟩ := result
    exact ⟨r, found, fun failed => clean a ⟨r, found, failed⟩⟩

theorem Consistent.act {a : Action N C} (consistent : Consistent graph maxRetries s)
    (taken : s.act maxRetries a = some t) : Consistent graph maxRetries t := by
  cases a with
  | enter skipped session =>
    simp only [Execution.act] at taken
    split at taken <;> cases taken
    rename_i layer rest control
    exact consistent.enter control
  | begin name =>
    simp only [Execution.act] at taken
    split at taken <;> cases taken
    rename_i made ready
    have before := consistent.recorded name
    rw [ready] at before
    obtain ⟨started, bound, pending⟩ := before
    refine consistent.moved (by rw [ready]; rfl) rfl (fun a other => ?_) ?_ ?_
    · simp [other]
    · simp
    · simp [Recorded, started, pending, bound]
  | returns name r c =>
    simp only [Execution.act] at taken
    split at taken <;> cases taken
    rename_i attempt executing
    have before := consistent.recorded name
    rw [executing] at before
    exact consistent.record (by rw [executing]; rfl) (before.1 ▸ before.2.1) (.inl rfl)
  | raises name e c =>
    simp only [Execution.act] at taken
    split at taken <;> cases taken
    rename_i attempt executing
    have before := consistent.recorded name
    rw [executing] at before
    refine consistent.moved (by rw [executing]; rfl) rfl (fun a other => ?_) ?_ ?_
    · simp [other]
    · simp
    · simpa [Recorded] using before
  | settles name action degraded c =>
    simp only [Execution.act] at taken
    split at taken <;> cases taken
    rename_i e attempt failing
    exact consistent.settle failing
  | proceed => exact consistent.proceed taken

theorem aborted_awake {woken : List N} (idle : ∀ x ∈ woken, s.task x = .idle) :
    (∃ x, (s.awake woken).task x = .aborted) ↔ ∃ x, s.task x = .aborted := by
  refine exists_congr fun x => ?_
  by_cases new : x ∈ woken
  · simp [Execution.awake, new, idle x new]
  · simp [Execution.awake, new]

theorem aborted_update {name : N} {task : Task} (running : (s.task name).running = true) :
    (∃ x, Function.update s.task name task x = .aborted) ↔
      (∃ x, s.task x = .aborted) ∨ task = .aborted := by
  constructor
  · rintro ⟨x, aborted⟩
    by_cases same : x = name
    · subst same
      rw [Function.update_self] at aborted
      exact .inr aborted
    · exact .inl ⟨x, by rwa [Function.update_of_ne same] at aborted⟩
  · rintro (⟨x, aborted⟩ | rfl)
    · have other : x ≠ name := by
        rintro rfl
        simp [aborted, Task.running] at running
      exact ⟨x, by rwa [Function.update_of_ne other]⟩
    · exact ⟨name, Function.update_self ..⟩

theorem aborted_enter {layer skipped : List N} {session : Bool} {rest : List (List N)}
    (idle : ∀ x ∈ layer, s.task x = .idle) :
    (∃ x, (s.enter layer skipped session rest).task x = .aborted) ↔
      ∃ x, s.task x = .aborted := by
  obtain ⟨_, entered⟩ | ⟨woken, pending, parts, entered⟩ :=
    enter_cases (s := s) layer skipped session rest
  · rw [entered]
    rfl
  · rw [entered]
    refine aborted_awake fun x mem => idle x ?_
    have listed : x ∈ woken ++ pending := List.mem_append_left _ mem
    rw [parts] at listed
    exact (List.mem_filter.mp listed).1

theorem aborted_settle {name : N} {e : StepError} {attempt : ℕ} {action : FailureAction}
    {degraded : StepResult} {c : C} (failing : s.task name = .failing e attempt)
    (started : s.started name = attempt) :
    (∃ x, (s.settle maxRetries name e attempt action degraded c).task x = .aborted) ↔
      (∃ x, s.task x = .aborted) ∨ Aborts maxRetries s (.settles name action degraded c) := by
  have running : (s.task name).running = true := by rw [failing]; rfl
  unfold Execution.settle
  split
  · rename_i again
    obtain ⟨rfl, left⟩ := again
    rw [aborted_update running, Aborts, started]
    simp only [reduceCtorEq, false_or, true_and, or_false, iff_self_or]
    omega
  · rename_i final
    have spent : action = .retry → maxRetries name < s.started name := by
      rintro rfl
      have last : ¬ attempt < maxRetries name + 1 := fun left => final ⟨rfl, left⟩
      omega
    cases action <;> simp only [Execution.record] <;> rw [aborted_update running] <;>
      simp [Aborts, spent]

theorem aborted_act {a : Action N C} (consistent : Consistent graph maxRetries s)
    (taken : s.act maxRetries a = some t) :
    (∃ x, t.task x = .aborted) ↔ (∃ x, s.task x = .aborted) ∨ Aborts maxRetries s a := by
  cases a with
  | enter skipped session =>
    simp only [Execution.act] at taken
    split at taken <;> cases taken
    rename_i layer rest control
    simp only [Aborts, or_false]
    refine aborted_enter fun x mem => (consistent.untouched x ?_).1
    rw [control]
    exact List.mem_append_left _ mem
  | begin name =>
    simp only [Execution.act] at taken
    split at taken <;> cases taken
    rename_i made ready
    rw [aborted_update (by rw [ready]; rfl)]
    simp [Aborts]
  | returns name r c =>
    simp only [Execution.act] at taken
    split at taken <;> cases taken
    rename_i attempt executing
    simp only [Execution.record]
    rw [aborted_update (by rw [executing]; rfl)]
    simp [Aborts]
  | raises name e c =>
    simp only [Execution.act] at taken
    split at taken <;> cases taken
    rename_i attempt executing
    rw [aborted_update (by rw [executing]; rfl)]
    simp [Aborts]
  | settles name action degraded c =>
    simp only [Execution.act] at taken
    split at taken <;> cases taken
    rename_i e attempt failing
    have before := consistent.recorded name
    rw [failing] at before
    exact aborted_settle failing before.1
  | proceed =>
    simp only [Aborts, or_false]
    cases proceeds_of_proceed taken with
    | wakes control =>
      refine aborted_awake (s := { s with control := _ }) fun x mem => (consistent.untouched x ?_).1
      rw [control, List.mem_singleton.mp mem]
      exact List.mem_cons_self
    | _ => rfl

theorem Consistent.truthful {success : Bool} {failedStep : Option N}
    (consistent : Consistent graph maxRetries s)
    (control : s.control = .returned success failedStep) :
    Truthful s success failedStep ↔ ¬ ∃ a, s.task a = .aborted := by
  have placed := consistent.placed
  rw [control] at placed
  have still (quiet : ∀ a, s.Quiet a) : (∀ a, (s.task a).running = false) ∧
      ¬ ∃ a, s.task a = .aborted := by
    constructor
    · intro a
      rcases quiet a with idle | finished <;> simp [*, Task.running]
    · rintro ⟨a, aborted⟩
      rcases quiet a with idle | finished <;> simp_all
  cases success with
  | true =>
    obtain ⟨rfl, quiet, clean⟩ := placed
    obtain ⟨idle, none⟩ := still quiet
    refine iff_of_true ⟨idle, ?_, ?_⟩ none
    · simpa using clean
    · simp
  | false =>
    cases failedStep with
    | some name =>
      obtain ⟨failed, quiet⟩ := placed
      obtain ⟨idle, none⟩ := still quiet
      exact iff_of_true ⟨idle, iff_of_true rfl ⟨name, failed⟩, fun _ => ⟨name, rfl, failed⟩⟩ none
    | none =>
      refine iff_of_false ?_ (not_not.mpr placed)
      rintro ⟨_, _, named⟩
      obtain ⟨name, missing, _⟩ := named rfl
      cases missing

end Invariant

section Runs
variable {graph : Graph N} {maxRetries : N → ℕ} {s t : Execution N C} {actions : List (Action N C)}

theorem aborted_run (consistent : Consistent graph maxRetries s)
    (reached : run (Execution.act maxRetries) s actions = some t) :
    (¬ ∃ x, t.task x = .aborted) ↔ (¬ ∃ x, s.task x = .aborted) ∧
      Along (Execution.act maxRetries) (fun s a => ¬ Aborts maxRetries s a) s actions := by
  induction actions generalizing s with
  | nil =>
    cases reached
    simp [Along]
  | cons a rest ih =>
    obtain ⟨u, taken, reached⟩ := run_cons_eq_some.mp reached
    rw [ih (consistent.act taken) reached, aborted_act consistent taken, along_cons_of_step taken,
      not_or, and_assoc]

/-- In every run of both modes steps start after their dependencies and within their
attempts; what `execute` promises on its return holds in just the runs without an abort. -/
theorem execute_lawful (graph : Graph N) (maxRetries : N → ℕ) (c : C)
    (actions : List (Action N C)) (s : Execution N C) (distinct : (graph.map Prod.fst).Nodup)
    (accepted : validateDag graph = .ok ())
    (reached : run (Execution.act maxRetries) (.initial graph c) actions = some s) :
    (∀ name t, s.act maxRetries (.begin name) = some t →
      ∀ dep, DependsOn graph name dep → s.Settled dep) ∧
    (∀ name, s.started name ≤ maxRetries name + 1) ∧
    ∀ success failedStep, s.control = .returned success failedStep →
      (Truthful s success failedStep ↔
        Along (Execution.act maxRetries) (fun s a => ¬ Aborts maxRetries s a)
          (.initial graph c) actions) := by
  have start : Consistent graph maxRetries (Execution.initial graph c) :=
    consistent_initial distinct accepted c
  have consistent := run_preserves (fun held taken => Consistent.act held taken) start reached
  refine ⟨?_, ?_, ?_⟩
  · intro name t begun
    simp only [Execution.act] at begun
    split at begun <;> cases begun
    rename_i made ready
    exact consistent.deps name (by simp [ready])
  · intro name
    have recorded := consistent.recorded name
    cases task : s.task name <;> simp only [task, Recorded] at recorded <;> omega
  · intro success failedStep control
    rw [consistent.truthful control, aborted_run start reached]
    simp [Execution.initial]

/-- The labels are what these steps do; a gathered step works on the context in one go. -/
def Follows (steps : List (Step N C)) (session : Bool) (s : Execution N C) : Action N C → Prop
  | .enter skipped db =>
      db = session ∧ ∀ step ∈ steps, step.name ∈ skipped ↔ step.shouldSkip s.ctx = true
  | .begin _ | .proceed => True
  | .returns name r c => ∃ step ∈ steps, step.name = name ∧
      ∃ attempt, s.task name = .executing attempt ∧ step.execute attempt s.ctx = (.ok r, c)
  | .raises name e c => ∃ step ∈ steps, step.name = name ∧
      ∃ attempt, s.task name = .executing attempt ∧ step.execute attempt s.ctx = (.error e, c)
  | .settles name action degraded c => ∃ step ∈ steps, step.name = name ∧
      ∃ e attempt, s.task name = .failing e attempt ∧ action = step.onFailure s.ctx e attempt ∧
        if action = .degrade then step.onDegrade e s.ctx = (degraded, c) else c = s.ctx

theorem keeps_run {steps : List (Step N C)} {session : Bool} {A : C → Prop}
    (keeps : ∀ step ∈ steps, Keeps step A) (held : A s.ctx)
    (follows : Along (Execution.act maxRetries) (Follows steps session) s actions)
    (reached : run (Execution.act maxRetries) s actions = some t) : A t.ctx := by
  refine run_invariant (P := fun s => A s.ctx) ?_ held follows reached
  intro s a t held follows taken
  cases a with
  | enter skipped db =>
    simp only [Execution.act] at taken
    split at taken <;> cases taken
    rename_i layer rest _
    obtain ⟨_, entered⟩ | ⟨_, _, _, entered⟩ := enter_cases (s := s) layer skipped db rest
    · rw [entered]
      exact held
    · rw [entered]
      exact held
  | begin name =>
    simp only [Execution.act] at taken
    split at taken <;> cases taken
    exact held
  | returns name r c =>
    obtain ⟨step, mem, _, attempt, _, executed⟩ := follows
    simp only [Execution.act] at taken
    split at taken <;> cases taken
    have kept := (keeps step mem).execute attempt s.ctx held
    rwa [executed] at kept
  | raises name e c =>
    obtain ⟨step, mem, _, attempt, _, executed⟩ := follows
    simp only [Execution.act] at taken
    split at taken <;> cases taken
    have kept := (keeps step mem).execute attempt s.ctx held
    rwa [executed] at kept
  | settles name action degraded c =>
    obtain ⟨step, mem, _, e, attempt, _, _, degrades⟩ := follows
    have kept : A c := by
      split at degrades
      · have kept := (keeps step mem).degrade e s.ctx held
        rwa [degrades] at kept
      · exact degrades ▸ held
    simp only [Execution.act] at taken
    split at taken <;> cases taken
    unfold Execution.settle
    split
    · exact kept
    · split <;> exact kept
  | proceed => cases proceeds_of_proceed taken <;> exact held

/-- A gathered step aborts, and `execute` returns while its sibling is still executing;
`failed_step` is not set. -/
theorem execute_after_abort :
    ∃ (s : Execution ℕ Unit), run (Execution.act fun _ => 0)
        (.initial [(0, []), (1, [])] ())
        [.enter [] false, .begin 0, .begin 1, .raises 0 (.exception "boom") (),
          .settles 0 .abort {} (), .proceed] = some s ∧
      s.control = .returned false none ∧ s.Failed 0 ∧ (s.task 1).running = true ∧
      ¬ Truthful s false none := by
  refine ⟨_, rfl, rfl, ⟨_, rfl, rfl⟩, rfl, ?_⟩
  rintro ⟨_, _, named⟩
  obtain ⟨name, missing, _⟩ := named rfl
  cases missing

def retriedRun : List (Action ℕ Unit) :=
  [.enter [] true, .begin 0, .raises 0 .timeout (), .settles 0 .retry {} (), .begin 0,
    .returns 0 {} (), .proceed, .enter [] true, .begin 1, .returns 1 {} (), .proceed, .proceed]

theorem execute_lawful_retried :
    ∃ s : Execution ℕ Unit, s.control = .returned true none ∧ s.started 0 ≤ 2 ∧
      Truthful s true none := by
  have ended : ∃ s, run (Execution.act fun _ => 1) (.initial [(0, []), (1, [0])] ()) retriedRun =
      some s ∧ s.control = .returned true none := ⟨_, rfl, rfl⟩
  obtain ⟨s, reached, control⟩ := ended
  obtain ⟨_, attempts, truthful⟩ := execute_lawful _ _ _ retriedRun s (by decide) rfl reached
  exact ⟨s, control, attempts 0, (truthful true none control).mpr (by decide)⟩

end Runs

end Deeting.Orchestrator
