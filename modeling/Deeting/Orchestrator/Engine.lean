import Mathlib.Algebra.Ring.Nat
import Mathlib.Data.List.Basic
import Mathlib.Logic.Function.Basic

/-! `OrchestrationEngine` over arbitrary step names and contexts: layers by Kahn's
algorithm, retries and degradation of a step, and the serial execution of a layer that a
shared database session asks for. The rules below follow a predicate through a run that
ends successfully. Delays, durations and log records are not modeled. -/
namespace Deeting.Orchestrator

inductive StepStatus where
  | pending
  | running
  | success
  | failed
  | skipped
  | degraded
  deriving DecidableEq, Repr

structure StepResult where
  status : StepStatus := .success
  message : Option String := none
  deriving DecidableEq, Repr

inductive StepError where
  | timeout
  | exception (text : String)
  deriving DecidableEq, Repr

def StepError.text : StepError → String
  | .timeout => ""
  | .exception text => text

inductive FailureAction where
  | retry
  | skip
  | degrade
  | abort
  deriving DecidableEq, Repr

/-- A step on contexts `C`. An execution is told its attempt, from 1 on, and what it has
done to the context stands also when it raises. -/
structure Step (N C : Type) where
  name : N
  dependsOn : List N := []
  maxRetries : ℕ := 0
  shouldSkip : C → Bool := fun _ => false
  execute : ℕ → C → Except StepError StepResult × C
  onFailure : C → StepError → ℕ → FailureAction
  onDegrade : StepError → C → StepResult × C

/-- `BaseStep.on_failure`. -/
def baseOnFailure (retryOn : StepError → Bool) (maxRetries : ℕ) (e : StepError) (attempt : ℕ) :
    FailureAction :=
  if retryOn e = true ∧ attempt ≤ maxRetries then .retry else .abort

variable {N C : Type}

/-- The names in the order of the list, each with its `depends_on`. -/
abbrev Graph (N : Type) := List (N × List N)

section Layers
variable [DecidableEq N]

def inDegree (graph : Graph N) (name : N) : ℕ :=
  ((graph.filter fun node => node.1 = name).map fun node => node.2.length).sum

/-- `dependents[dep]`: once for every occurrence of the dependency. -/
def dependents (graph : Graph N) (dep : N) : List N :=
  graph.flatMap fun node => (node.2.filter fun d => d = dep).map fun _ => node.1

def releaseOne (state : List N × (N → ℕ)) (neighbor : N) : List N × (N → ℕ) :=
  let degree := Function.update state.2 neighbor (state.2 neighbor - 1)
  (if degree neighbor = 0 then state.1 ++ [neighbor] else state.1, degree)

def releaseLayer (graph : Graph N) (queue : List N) (degree : N → ℕ) : List N × (N → ℕ) :=
  (queue.flatMap (dependents graph)).foldl releaseOne ([], degree)

/-- The `while` loop. Every round takes at least one name that no other round takes, so
as many rounds as names are enough. -/
def kahn (graph : Graph N) : ℕ → List N → (N → ℕ) → List (List N)
  | 0, _, _ => []
  | _ + 1, [], _ => []
  | fuel + 1, queue, degree =>
      let (next, degree) := releaseLayer graph queue degree
      queue :: kahn graph fuel next degree

/-- `_get_execution_layers`. -/
def executionLayers (graph : Graph N) : List (List N) :=
  kahn graph graph.length ((graph.map Prod.fst).filter fun name => inDegree graph name = 0)
    (inDegree graph)

end Layers

def graphOf (steps : List (Step N C)) : Graph N := steps.map fun step => (step.name, step.dependsOn)

structure Progress (N C : Type) where
  ctx : C
  results : N → Option StepResult

/-- How a layer ends: with all results in and none `FAILED`, with a `FAILED` one, or with
an exception. -/
inductive LayerEnd (N : Type) where
  | passed
  | failed (name : N)
  | raised

structure ExecutionResult (N C : Type) where
  success : Bool
  failedStep : Option N
  raised : Bool
  progress : Progress N C

def settle (step : Step N C) (action : FailureAction) (e : StepError) (c : C) :
    Except StepError StepResult × C :=
  match action with
  | .skip => (.ok { status := .skipped, message := some e.text }, c)
  | .degrade =>
      let (r, c) := step.onDegrade e c
      (.ok r, c)
  | .retry | .abort => (.error e, c)

/-- The attempts of `_execute_step`, with as many left after this one. -/
def attempts (step : Step N C) : ℕ → ℕ → C → Except StepError StepResult × C
  | 0, attempt, c =>
      match step.execute attempt c with
      | (.ok r, c) => (.ok r, c)
      | (.error e, c) => settle step (step.onFailure c e attempt) e c
  | left + 1, attempt, c =>
      match step.execute attempt c with
      | (.ok r, c) => (.ok r, c)
      | (.error e, c) =>
          if step.onFailure c e attempt = .retry then attempts step left (attempt + 1) c
          else settle step (step.onFailure c e attempt) e c

section Execution
variable [DecidableEq N]

def Progress.record (p : Progress N C) (name : N) (r : StepResult) : Progress N C :=
  { p with results := Function.update p.results name (some r) }

/-- `_execute_step`; `false` is a `StepExecutionError`. -/
def executeStep (step : Step N C) (p : Progress N C) : Bool × Progress N C :=
  match attempts step step.maxRetries 1 p.ctx with
  | (.ok r, c) => (true, ({ p with ctx := c }).record step.name r)
  | (.error e, c) =>
      (false, ({ p with ctx := c }).record step.name ⟨.failed, some e.text⟩)

def executeSerial : List (Step N C) → Progress N C → Bool × Progress N C
  | [], p => (true, p)
  | step :: rest, p =>
      match executeStep step p with
      | (true, p) => executeSerial rest p
      | (false, p) => (false, p)

def hasFailed (p : Progress N C) (step : Step N C) : Bool :=
  (p.results step.name).any fun r => r.status = .failed

/-- A layer: all `should_skip` questions first, then the other steps, then the check for
failures in the same order. -/
def executeLayer (layer : List (Step N C)) (p : Progress N C) : LayerEnd N × Progress N C :=
  let skipped := layer.filter fun step => step.shouldSkip p.ctx
  let executable := layer.filter fun step => !step.shouldSkip p.ctx
  let p := skipped.foldl (fun p step => p.record step.name { status := .skipped }) p
  match executeSerial executable p with
  | (false, p) => (.raised, p)
  | (true, p) =>
      match executable.find? (hasFailed p) with
      | some step => (.failed step.name, p)
      | none => (.passed, p)

def executeLayers : List (List (Step N C)) → Progress N C → ExecutionResult N C
  | [], p => ⟨true, none, false, p⟩
  | layer :: rest, p =>
      match executeLayer layer p with
      | (.passed, p) => executeLayers rest p
      | (.failed name, p) => ⟨false, some name, false, p⟩
      | (.raised, p) => ⟨false, none, true, p⟩

def stepsOf (steps : List (Step N C)) (layer : List N) : List (Step N C) :=
  layer.filterMap fun name => steps.find? fun step => step.name = name

/-- `execute`, with a database session. -/
def execute (steps : List (Step N C)) (c : C) : ExecutionResult N C :=
  executeLayers ((executionLayers (graphOf steps)).map (stepsOf steps)) ⟨c, fun _ => none⟩

end Execution

section Rules
variable [DecidableEq N] {P Q R : Progress N C → Prop} {step : Step N C}
  {layer rest : List (Step N C)} {layers : List (List (Step N C))}

/-- From `P` every execution of the step that does not raise ends in `Q`. -/
def StepRule (P : Progress N C → Prop) (step : Step N C) (Q : Progress N C → Prop) : Prop :=
  ∀ p q, P p → executeStep step p = (true, q) → Q q

def SerialRule (P : Progress N C → Prop) (layer : List (Step N C)) (Q : Progress N C → Prop) :
    Prop :=
  ∀ p q, P p → executeSerial layer p = (true, q) → Q q

def LayerRule (P : Progress N C → Prop) (layer : List (Step N C)) (Q : Progress N C → Prop) :
    Prop :=
  ∀ p q, P p → executeLayer layer p = (.passed, q) → Q q

/-- From `P` a successful execution of the layers ends in `Q`. -/
def LayersRule (P : Progress N C → Prop) (layers : List (List (Step N C)))
    (Q : Progress N C → Prop) : Prop :=
  ∀ p, P p → (executeLayers layers p).success = true → Q (executeLayers layers p).progress

theorem SerialRule.nil : SerialRule P [] P := by
  intro p q held executed
  cases executed
  exact held

theorem SerialRule.cons (first : StepRule P step R) (others : SerialRule R rest Q) :
    SerialRule P (step :: rest) Q := by
  intro p q held executed
  simp only [executeSerial] at executed
  split at executed
  · rename_i r done
    exact others r q (first p r held done) executed
  · cases executed

theorem SerialRule.keep (each : ∀ step ∈ layer, StepRule P step P) : SerialRule P layer P := by
  induction layer with
  | nil => exact .nil
  | cons step rest ih =>
    obtain ⟨first, others⟩ := List.forall_mem_cons.mp each
    exact .cons first (ih others)

theorem hasFailed_of_passed {p q : Progress N C}
    (active : ∀ step ∈ layer, step.shouldSkip p.ctx = false)
    (passed : executeLayer layer p = (.passed, q)) :
    executeSerial layer p = (true, q) ∧ ∀ step ∈ layer, hasFailed q step = false := by
  have skipped : layer.filter (fun step => step.shouldSkip p.ctx) = [] :=
    List.filter_eq_nil_iff.mpr fun step mem => by simp [active step mem]
  have executable : layer.filter (fun step => !step.shouldSkip p.ctx) = layer :=
    List.filter_eq_self.mpr fun step mem => by simp [active step mem]
  simp only [executeLayer, skipped, executable, List.foldl_nil] at passed
  split at passed
  · cases passed
  · rename_i r done
    split at passed
    · cases passed
    · rename_i none
      cases passed
      exact ⟨done, fun step mem => by simpa using List.find?_eq_none.mp none step mem⟩

theorem LayerRule.of_serial (active : ∀ p, P p → ∀ step ∈ layer, step.shouldSkip p.ctx = false)
    (serial : SerialRule P layer R)
    (checked : ∀ q, R q → (∀ step ∈ layer, hasFailed q step = false) → Q q) :
    LayerRule P layer Q := by
  intro p q held passed
  obtain ⟨executed, clean⟩ := hasFailed_of_passed (active p held) passed
  exact checked q (serial p q held executed) clean

theorem LayerRule.keep (record : ∀ step ∈ layer, ∀ p r, P p → P (p.record step.name r))
    (each : ∀ step ∈ layer, StepRule P step P) : LayerRule P layer P := by
  intro p q held passed
  have marked : P ((layer.filter fun step => step.shouldSkip p.ctx).foldl
      (fun p step => p.record step.name { status := .skipped }) p) :=
    List.foldlRecOn _ _ held fun _ before step mem =>
      record step (List.mem_filter.mp mem).1 _ _ before
  simp only [executeLayer] at passed
  split at passed
  · cases passed
  · rename_i r done
    have kept : P r := by
      refine SerialRule.keep (fun step mem => each step ?_) _ r marked done
      exact (List.mem_filter.mp mem).1
    split at passed <;> cases passed
    exact kept

theorem LayersRule.nil : LayersRule P [] P := fun _ held _ => held

theorem LayersRule.cons (first : LayerRule P layer R) (others : LayersRule R layers Q) :
    LayersRule P (layer :: layers) Q := by
  intro p held success
  simp only [executeLayers] at success ⊢
  split at success
  · rename_i r passed
    exact others r (first p r held passed) success
  · cases success
  · cases success

theorem StepRule.keep (record : ∀ p r, P p → P (p.record step.name r))
    (execute : ∀ attempt p, P p → P { p with ctx := (step.execute attempt p.ctx).2 })
    (degrade : ∀ e p, P p → P { p with ctx := (step.onDegrade e p.ctx).2 }) :
    StepRule P step P := by
  have settled (p : Progress N C) (action : FailureAction) (e : StepError) (c : C)
      (held : P { p with ctx := c }) : P { p with ctx := (settle step action e c).2 } := by
    cases action with
    | degrade => exact degrade e { p with ctx := c } held
    | _ => exact held
  have kept (p : Progress N C) : ∀ left attempt c, P { p with ctx := c } →
      P { p with ctx := (attempts step left attempt c).2 } := by
    intro left
    induction left with
    | zero =>
      intro attempt c held
      have executed := execute attempt { p with ctx := c } held
      rw [attempts]
      split <;> rename_i returned <;> simp only [returned] at executed
      · exact executed
      · exact settled p _ _ _ executed
    | succ left ih =>
      intro attempt c held
      have executed := execute attempt { p with ctx := c } held
      unfold attempts
      split <;> rename_i returned <;> simp only [returned] at executed
      · exact executed
      · split
        · exact ih _ _ executed
        · exact settled p _ _ _ executed
  intro p q held executed
  rw [executeStep] at executed
  have after := kept p step.maxRetries 1 p.ctx held
  split at executed <;> rename_i returned <;> cases executed
  rw [returned] at after
  exact record _ _ after

theorem baseOnFailure_never (maxRetries : ℕ) (e : StepError) (attempt : ℕ) :
    baseOnFailure (fun _ => false) maxRetries e attempt = .abort := by
  simp [baseOnFailure]

theorem executeStep_of_abort {p q : Progress N C}
    (aborts : ∀ c e attempt, step.onFailure c e attempt = .abort)
    (executed : executeStep step p = (true, q)) :
    ∃ r c, step.execute 1 p.ctx = (.ok r, c) ∧ q = ({ p with ctx := c }).record step.name r := by
  rw [executeStep] at executed
  cases first : step.execute 1 p.ctx with
  | mk outcome c =>
    cases outcome with
    | ok r =>
      have returned : attempts step step.maxRetries 1 p.ctx = (.ok r, c) := by
        unfold attempts
        split <;> rw [first]
      rw [returned] at executed
      cases executed
      exact ⟨r, c, rfl, rfl⟩
    | error e =>
      have raised : attempts step step.maxRetries 1 p.ctx = (.error e, c) := by
        unfold attempts
        split <;> simp [first, aborts, settle]
      rw [raised] at executed
      cases executed

theorem SerialRule.append {before after : List (Step N C)} (first : SerialRule P before R)
    (second : SerialRule R after Q) : SerialRule P (before ++ after) Q := by
  induction before generalizing P with
  | nil => exact fun p q held => second p q (first p p held rfl)
  | cons step rest ih =>
    intro p q held executed
    simp only [List.cons_append, executeSerial] at executed
    split at executed
    · rename_i r done
      have others : SerialRule (fun p => p = r) rest R := by
        rintro _ u rfl reached
        refine first p u held ?_
        simp only [executeSerial, done, reached]
      exact ih others r q rfl executed
    · cases executed

/-- Every execution and degradation of the step keeps `A`. -/
structure Keeps (step : Step N C) (A : C → Prop) : Prop where
  execute : ∀ attempt c, A c → A (step.execute attempt c).2
  degrade : ∀ e c, A c → A (step.onDegrade e c).2

/-- The context satisfies `A` unless the step has failed. -/
def UnlessFailed (step : Step N C) (A : C → Prop) (p : Progress N C) : Prop :=
  hasFailed p step = true ∨ A p.ctx

section Contexts
variable {A B : C → Prop} {watched : Step N C}

theorem Keeps.stepRule (keeps : Keeps step A) :
    StepRule (fun p => A p.ctx) step (fun p => A p.ctx) :=
  .keep (fun _ _ held => held) (fun attempt p held => keeps.execute attempt p.ctx held)
    fun e p held => keeps.degrade e p.ctx held

theorem StepRule.unlessFailed (rule : StepRule (fun p => A p.ctx) step (fun p => B p.ctx))
    (other : step.name ≠ watched.name) :
    StepRule (UnlessFailed watched A) step (UnlessFailed watched B) := by
  rintro p q (failed | held) executed
  · left
    rw [executeStep] at executed
    have kept (r : StepResult) (c : C) :
        hasFailed (({ p with ctx := c }).record step.name r) watched = hasFailed p watched := by
      simp only [hasFailed, Progress.record, Function.update_of_ne other.symm]
    split at executed <;> cases executed
    rw [kept, failed]
  · exact .inr (rule p q held executed)

theorem LayerRule.keep_ctx (each : ∀ step ∈ layer, Keeps step A) :
    LayerRule (fun p => A p.ctx) layer (fun p => A p.ctx) :=
  .keep (fun _ _ _ _ held => held) fun step mem => (each step mem).stepRule

theorem StepRule.of_abort (aborts : ∀ c e attempt, step.onFailure c e attempt = .abort)
    (leads : ∀ c r c', A c → step.execute 1 c = (.ok r, c') → B c') :
    StepRule (fun p => A p.ctx) step (fun p => B p.ctx) := by
  intro p q held executed
  obtain ⟨r, c, returned, rfl⟩ := executeStep_of_abort aborts executed
  exact leads p.ctx r c held returned

theorem LayerRule.single (active : ∀ c, step.shouldSkip c = false) (rule : StepRule P step Q) :
    LayerRule P [step] Q :=
  .of_serial (fun p _ other mem => by rw [List.mem_singleton.mp mem, active])
    (.cons rule .nil) fun _ held _ => held

/-- A layer in which one step, that aborts on every error, leads from `A` to `B` or
fails; the steps before it keep `A`, those after it lead on to `D` while it has not
failed. -/
theorem LayerRule.through {D : C → Prop} {before after : List (Step N C)}
    (active : ∀ step ∈ before ++ watched :: after, ∀ c, step.shouldSkip c = false)
    (first : ∀ step ∈ before, Keeps step A)
    (aborts : ∀ c e attempt, watched.onFailure c e attempt = .abort)
    (leads : ∀ c r c', A c → watched.execute 1 c = (.ok r, c') → r.status = .failed ∨ B c')
    (second : SerialRule (UnlessFailed watched B) after (UnlessFailed watched D)) :
    LayerRule (fun p => A p.ctx) (before ++ watched :: after) (fun p => D p.ctx) := by
  have middle : StepRule (fun p => A p.ctx) watched (UnlessFailed watched B) := by
    intro p q held executed
    obtain ⟨r, c, returned, rfl⟩ := executeStep_of_abort aborts executed
    refine (leads p.ctx r c held returned).imp (fun failed => ?_) id
    simp [hasFailed, Progress.record, failed]
  refine .of_serial (fun p _ step mem => active step mem p.ctx)
    (SerialRule.append (.keep fun step mem => (first step mem).stepRule) (.cons middle second))
    fun q held clean => ?_
  refine held.resolve_left fun failed => ?_
  rw [clean watched (by simp)] at failed
  cases failed

end Contexts

end Rules

/-! What a run leaves of its beginning, whatever way it ends. -/
section Frames
variable {step : Step N C} {layer rest : List (Step N C)} {layers : List (List (Step N C))}
  {A : C → Prop} {p : Progress N C} {name : N}

theorem Keeps.settle (keeps : Keeps step A) (action : FailureAction) (e : StepError) {c : C}
    (held : A c) : A (settle step action e c).2 := by
  cases action with
  | degrade => exact keeps.degrade e c held
  | _ => exact held

theorem Keeps.attempts (keeps : Keeps step A) (left attempt : ℕ) {c : C} (held : A c) :
    A (attempts step left attempt c).2 := by
  induction left generalizing attempt c with
  | zero =>
    have executed := keeps.execute attempt c held
    rw [Orchestrator.attempts]
    split <;> rename_i returned <;> rw [returned] at executed
    · exact executed
    · exact keeps.settle _ _ executed
  | succ left ih =>
    have executed := keeps.execute attempt c held
    rw [Orchestrator.attempts]
    split <;> rename_i returned <;> rw [returned] at executed
    · exact executed
    · split
      · exact ih _ executed
      · exact keeps.settle _ _ executed

variable [DecidableEq N]

theorem Keeps.executeStep (keeps : Keeps step A) (held : A p.ctx) :
    A (executeStep step p).2.ctx := by
  have kept := keeps.attempts step.maxRetries 1 held
  rw [Orchestrator.executeStep]
  split <;> rename_i returned <;> rw [returned] at kept <;> exact kept

theorem Keeps.executeSerial (keeps : ∀ step ∈ layer, Keeps step A) (held : A p.ctx) :
    A (executeSerial layer p).2.ctx := by
  induction layer generalizing p with
  | nil => exact held
  | cons step rest ih =>
    obtain ⟨first, others⟩ := List.forall_mem_cons.mp keeps
    have kept := first.executeStep held
    simp only [Orchestrator.executeSerial]
    split <;> rename_i executed <;> rw [executed] at kept
    · exact ih others kept
    · exact kept

theorem executeStep_once (aborts : ∀ c e attempt, step.onFailure c e attempt = .abort)
    (p : Progress N C) :
    (executeStep step p).1 = (step.execute 1 p.ctx).1.isOk ∧
      (executeStep step p).2.ctx = (step.execute 1 p.ctx).2 := by
  rw [executeStep]
  cases first : step.execute 1 p.ctx with
  | mk outcome c =>
    cases outcome with
    | ok r =>
      have returned : attempts step step.maxRetries 1 p.ctx = (.ok r, c) := by
        unfold attempts
        split <;> rw [first]
      rw [returned]
      exact ⟨rfl, rfl⟩
    | error e =>
      have raised : attempts step step.maxRetries 1 p.ctx = (.error e, c) := by
        unfold attempts
        split <;> simp [first, aborts, settle]
      rw [raised]
      exact ⟨rfl, rfl⟩

theorem executeSerial_append (first second : List (Step N C)) (p : Progress N C) :
    executeSerial (first ++ second) p =
      match executeSerial first p with
      | (true, q) => executeSerial second q
      | (false, q) => (false, q) := by
  induction first generalizing p with
  | nil => rfl
  | cons step rest ih =>
    simp only [List.cons_append, executeSerial]
    cases executed : executeStep step p with
    | mk returned q =>
      cases returned with
      | true => exact ih q
      | false => rfl

theorem executeStep_results (other : name ≠ step.name) :
    (executeStep step p).2.results name = p.results name := by
  rw [executeStep]
  split <;> simp [Progress.record, other]

theorem executeSerial_results (others : ∀ step ∈ layer, name ≠ step.name) :
    (executeSerial layer p).2.results name = p.results name := by
  induction layer generalizing p with
  | nil => rfl
  | cons step rest ih =>
    obtain ⟨first, others⟩ := List.forall_mem_cons.mp others
    have kept := executeStep_results (p := p) first
    simp only [executeSerial]
    split <;> rename_i executed <;> rw [executed] at kept
    · rw [ih others, kept]
    · exact kept

def markSkipped (layer : List (Step N C)) (p : Progress N C) : Progress N C :=
  (layer.filter fun step => step.shouldSkip p.ctx).foldl
    (fun p step => p.record step.name { status := .skipped }) p

theorem markSkipped_ctx (layer : List (Step N C)) (p : Progress N C) :
    (markSkipped layer p).ctx = p.ctx :=
  List.foldlRecOn _ _ (motive := fun q : Progress N C => q.ctx = p.ctx) rfl fun _ same _ _ => same

theorem markSkipped_results (others : ∀ step ∈ layer, name ≠ step.name) :
    (markSkipped layer p).results name = p.results name :=
  List.foldlRecOn _ _ (motive := fun q : Progress N C => q.results name = p.results name) rfl
    fun _ same step mem => by
      simp [Progress.record, others step (List.mem_filter.mp mem).1, same]

theorem executeLayer_snd (layer : List (Step N C)) (p : Progress N C) :
    (executeLayer layer p).2 =
      (executeSerial (layer.filter fun step => !step.shouldSkip p.ctx) (markSkipped layer p)).2 := by
  simp only [executeLayer, markSkipped]
  split <;> rename_i executed <;> rw [executed]
  split <;> rfl

theorem Keeps.executeLayer (keeps : ∀ step ∈ layer, Keeps step A) (held : A p.ctx) :
    A (executeLayer layer p).2.ctx := by
  rw [executeLayer_snd]
  refine Keeps.executeSerial (fun step mem => keeps step (List.mem_filter.mp mem).1) ?_
  rwa [markSkipped_ctx]

theorem Keeps.executeLayers (keeps : ∀ layer ∈ layers, ∀ step ∈ layer, Keeps step A)
    (held : A p.ctx) : A (executeLayers layers p).progress.ctx := by
  induction layers generalizing p with
  | nil => exact held
  | cons layer rest ih =>
    obtain ⟨first, others⟩ := List.forall_mem_cons.mp keeps
    have kept := Keeps.executeLayer first held
    simp only [Orchestrator.executeLayers]
    split <;> rename_i executed <;> rw [executed] at kept
    · exact ih others kept
    · exact kept
    · exact kept

theorem executeLayer_results (others : ∀ step ∈ layer, name ≠ step.name) :
    (executeLayer layer p).2.results name = p.results name := by
  rw [executeLayer_snd, executeSerial_results fun step mem => others step (List.mem_filter.mp mem).1,
    markSkipped_results others]

theorem executeLayers_results (others : ∀ layer ∈ layers, ∀ step ∈ layer, name ≠ step.name) :
    (executeLayers layers p).progress.results name = p.results name := by
  induction layers generalizing p with
  | nil => rfl
  | cons layer rest ih =>
    obtain ⟨first, others⟩ := List.forall_mem_cons.mp others
    have kept := executeLayer_results (p := p) first
    simp only [executeLayers]
    split <;> rename_i executed <;> rw [executed] at kept
    · rw [ih others, kept]
    · exact kept
    · exact kept

theorem markSkipped_of_mem (layer : List (Step N C)) (p : Progress N C) {step : Step N C}
    (mem : step ∈ layer) (skips : step.shouldSkip p.ctx = true) :
    (markSkipped layer p).results step.name = some { status := .skipped } := by
  have marks (skipped : List (Step N C)) : ∀ q : Progress N C,
      (step ∈ skipped ∨ q.results step.name = some { status := .skipped }) →
      (skipped.foldl (fun p step => p.record step.name { status := .skipped }) q).results
        step.name = some { status := .skipped } := by
    induction skipped with
    | nil =>
      rintro q (none | marked)
      · cases none
      · exact marked
    | cons head rest ih =>
      intro q either
      refine ih _ ?_
      by_cases same : step.name = head.name
      · exact .inr (by simp [Progress.record, same])
      · refine either.imp (fun mem => ?_) fun marked => by simp [Progress.record, same, marked]
        exact (List.mem_cons.mp mem).resolve_left fun equal => same (congrArg Step.name equal)
  exact marks _ p (.inl (List.mem_filter.mpr ⟨mem, skips⟩))

theorem hasFailed_of_passed_layer {q : Progress N C} (passed : executeLayer layer p = (.passed, q))
    (mem : step ∈ layer) : hasFailed q step = false := by
  have marked : q = (executeSerial (layer.filter fun step => !step.shouldSkip p.ctx)
      (markSkipped layer p)).2 := by
    rw [← executeLayer_snd, passed]
  have clean : ∀ other ∈ layer.filter fun step => !step.shouldSkip p.ctx,
      hasFailed q other = false := by
    simp only [executeLayer] at passed
    split at passed
    · cases passed
    · split at passed
      · cases passed
      · rename_i none
        cases passed
        exact fun other listed => by simpa using List.find?_eq_none.mp none other listed
  by_cases skips : step.shouldSkip p.ctx = true
  · by_cases again : ∃ other ∈ layer.filter fun step => !step.shouldSkip p.ctx,
        other.name = step.name
    · obtain ⟨other, listed, same⟩ := again
      have fine := clean other listed
      rwa [hasFailed, same] at fine
    · have kept : q.results step.name = some { status := .skipped } := by
        rw [marked, executeSerial_results, markSkipped_of_mem layer p mem skips]
        intro other listed same
        exact again ⟨other, listed, same.symm⟩
      simp [hasFailed, kept]
  · exact clean step (List.mem_filter.mpr ⟨mem, by simpa using skips⟩)

/-- A result that the layer cannot have left is left by a later one, so the layer passes. -/
theorem executeLayers_later (absent : p.results name = none)
    (others : ∀ step ∈ layer, name ≠ step.name)
    (found : (executeLayers (layer :: layers) p).progress.results name ≠ none) :
    ∃ q, executeLayer layer p = (.passed, q) ∧
      executeLayers (layer :: layers) p = executeLayers layers q := by
  have kept := executeLayer_results (p := p) others
  simp only [executeLayers] at found ⊢
  split at found <;> rename_i q executed <;> rw [executed] at kept
  · exact ⟨q, executed, rfl⟩
  · exact absurd (kept.trans absent) found
  · exact absurd (kept.trans absent) found

theorem executeLayers_failed (mem : step ∈ layer)
    (others : ∀ layer ∈ layers, ∀ other ∈ layer, step.name ≠ other.name)
    (failed : hasFailed (executeLayers (layer :: layers) p).progress step = true) :
    (executeLayers (layer :: layers) p).progress = (executeLayer layer p).2 := by
  simp only [executeLayers] at failed ⊢
  split at failed <;> rename_i q executed
  · have clean := hasFailed_of_passed_layer executed mem
    rw [hasFailed, executeLayers_results others, ← hasFailed, clean] at failed
    cases failed
  · rw [executed]
  · rw [executed]

end Frames

end Deeting.Orchestrator
