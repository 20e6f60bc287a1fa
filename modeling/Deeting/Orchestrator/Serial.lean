import Deeting.Orchestrator.Runs

/-! The function `execute`, which a database session asks for, is one of the runs: its
attempts, its layers and its end are those of the machine, so that what is proved of all
runs is proved of it. -/
namespace Deeting.Orchestrator
open Deeting.Digraph Transition

variable {N C : Type}

section Outcomes
variable {step : Step N C} {left attempt : ℕ} {e : StepError} {c c' : C}

theorem attempts_returned {r : StepResult}
    (executed : step.execute attempt c = (.ok r, c')) :
    attempts step left attempt c = (.ok r, c') := by
  cases left with
  | zero => simp only [attempts, executed]
  | succ left => simp only [attempts, executed]

theorem attempts_final
    (executed : step.execute attempt c = (.error e, c'))
    (final : ¬ (step.onFailure c' e attempt = .retry ∧ 0 < left)) :
    attempts step left attempt c = settle step (step.onFailure c' e attempt) e c' := by
  cases left with
  | zero => simp only [attempts, executed]
  | succ left =>
    have other : step.onFailure c' e attempt ≠ .retry := fun again => final ⟨again, left.succ_pos⟩
    simp only [attempts, executed, if_neg other]

theorem attempts_again
    (executed : step.execute attempt c = (.error e, c'))
    (again : step.onFailure c' e attempt = .retry) :
    attempts step (left + 1) attempt c = attempts step left (attempt + 1) c' := by
  simp only [attempts, executed, if_pos again]

end Outcomes

variable [DecidableEq N]

abbrev SerialReaches (steps : List (Step N C)) (retries : N → ℕ) :=
  Reaches (Execution.act (C := C) retries) (Follows steps true)

def Execution.recount (s : Execution N C) (started : N → ℕ) : Execution N C :=
  { s with started }

def Execution.concluded (s : Execution N C) (name : N) :
    Except StepError StepResult × C → Execution N C
  | (.ok r, c) => s.record name r .finished c
  | (.error e, c) => s.record name { status := .failed, message := some e.text } .aborted c

section Attempts
variable {steps : List (Step N C)} {retries : N → ℕ} {step : Step N C} {s : Execution N C}

theorem reaches_settled {e : StepError} {attempt : ℕ} (mem : step ∈ steps)
    (failing : s.task step.name = .failing e attempt)
    (final : ¬ (step.onFailure s.ctx e attempt = .retry ∧ attempt < retries step.name + 1)) :
    SerialReaches steps retries s
      (s.concluded step.name (settle step (step.onFailure s.ctx e attempt) e s.ctx)) := by
  have settles (degraded : StepResult) (c : C)
      (degrades : if step.onFailure s.ctx e attempt = .degrade
        then step.onDegrade e s.ctx = (degraded, c) else c = s.ctx) :
      SerialReaches steps retries s
        (s.settle retries step.name e attempt (step.onFailure s.ctx e attempt) degraded c) := by
    refine .next (a := .settles step.name (step.onFailure s.ctx e attempt) degraded c) ?_ ?_
      (.refl _)
    · exact ⟨step, mem, rfl, e, attempt, failing, rfl, degrades⟩
    · simp only [Execution.act, failing]
  cases action : step.onFailure s.ctx e attempt with
  | skip =>
    have reaches := settles {} s.ctx (by rw [action]; rfl)
    rwa [action] at reaches
  | degrade =>
    have reaches := settles (step.onDegrade e s.ctx).1 (step.onDegrade e s.ctx).2
      (by rw [action]; rfl)
    rwa [action] at reaches
  | retry =>
    have reaches := settles {} s.ctx (by rw [action]; rfl)
    rw [action] at reaches final
    rwa [Execution.settle, if_neg final] at reaches
  | abort =>
    have reaches := settles {} s.ctx (by rw [action]; rfl)
    rwa [action] at reaches

def Execution.begun (s : Execution N C) (name : N) (made : ℕ) : Execution N C :=
  { s with
    started := Function.update s.started name (s.started name + 1)
    task := Function.update s.task name (.executing (made + 1)) }

/-- The second half of an attempt that raised, with what its task is then. -/
def Execution.attempted (s : Execution N C) (name : N) (made : ℕ) (c : C) (task : Task) :
    Execution N C :=
  { s.begun name made with ctx := c, task := Function.update s.task name task }

/-- The end of a step forgets how its task stood and what the context was. -/
theorem concluded_attempted {name : N} {made : ℕ} {c : C} {task : Task}
    (outcome : Except StepError StepResult × C) :
    (s.attempted name made c task).concluded name outcome =
      (s.concluded name outcome).recount (s.begun name made).started := by
  obtain ⟨result, c⟩ := outcome
  cases result with
  | ok r =>
    simp only [Execution.concluded, Execution.record, Execution.recount, Execution.attempted,
      Execution.begun, Function.update_idem]
  | error e =>
    simp only [Execution.concluded, Execution.record, Execution.recount, Execution.attempted,
      Execution.begun, Function.update_idem]

theorem reaches_begun {made : ℕ} (ready : s.task step.name = .ready made) :
    SerialReaches steps retries s (s.begun step.name made) := by
  refine .next (a := .begin step.name) trivial ?_ (.refl _)
  simp only [Execution.act, ready, Execution.begun]

theorem reaches_returned {made : ℕ} {r : StepResult} {c : C} (mem : step ∈ steps)
    (ready : s.task step.name = .ready made)
    (executed : step.execute (made + 1) s.ctx = (.ok r, c)) :
    SerialReaches steps retries s
      ((s.concluded step.name (.ok r, c)).recount (s.begun step.name made).started) := by
  refine (reaches_begun ready).trans (.next (a := .returns step.name r c) ?_ ?_ (.refl _))
  · exact ⟨step, mem, rfl, made + 1, Function.update_self .., executed⟩
  · simp only [Execution.act, Execution.begun, Function.update_self, Execution.concluded,
      Execution.record, Execution.recount, Function.update_idem]

theorem reaches_raised {made : ℕ} {e : StepError} {c : C} (mem : step ∈ steps)
    (ready : s.task step.name = .ready made)
    (executed : step.execute (made + 1) s.ctx = (.error e, c)) :
    SerialReaches steps retries s (s.attempted step.name made c (.failing e (made + 1))) := by
  refine (reaches_begun ready).trans (.next (a := .raises step.name e c) ?_ ?_ (.refl _))
  · exact ⟨step, mem, rfl, made + 1, Function.update_self .., executed⟩
  · simp only [Execution.act, Execution.attempted, Execution.begun, Function.update_self,
      Function.update_idem]

/-- An attempt after which the step is not tried again. -/
theorem reaches_final {made : ℕ} {e : StepError} {c : C} (mem : step ∈ steps)
    (ready : s.task step.name = .ready made)
    (executed : step.execute (made + 1) s.ctx = (.error e, c))
    (final : ¬ (step.onFailure c e (made + 1) = .retry ∧ made + 1 < retries step.name + 1)) :
    SerialReaches steps retries s
      ((s.concluded step.name (settle step (step.onFailure c e (made + 1)) e c)).recount
        (s.begun step.name made).started) := by
  have settled := reaches_settled (s := s.attempted step.name made c (.failing e (made + 1)))
    mem (Function.update_self ..) final
  rw [concluded_attempted] at settled
  exact (reaches_raised mem ready executed).trans settled

/-- An attempt that raised with another one to follow. -/
theorem reaches_again {made : ℕ} {e : StepError} {c : C} (mem : step ∈ steps)
    (ready : s.task step.name = .ready made)
    (executed : step.execute (made + 1) s.ctx = (.error e, c))
    (again : step.onFailure c e (made + 1) = .retry)
    (more : made + 1 < retries step.name + 1) :
    SerialReaches steps retries s (s.attempted step.name made c (.ready (made + 1))) := by
  refine (reaches_raised mem ready executed).trans
    (.next (a := .settles step.name .retry {} c) ?_ ?_ (.refl _))
  · exact ⟨step, mem, rfl, e, made + 1, Function.update_self .., again.symm, rfl⟩
  · simp only [Execution.act, Execution.attempted, Execution.begun, Function.update_self,
      Execution.settle, more, and_self, if_true, Function.update_idem]

/-- The attempts of `_execute_step`, as many of them as are left. -/
theorem reaches_attempts (mem : step ∈ steps) (limit : retries step.name = step.maxRetries)
    (left made : ℕ) (ready : s.task step.name = .ready made)
    (budget : made + left = step.maxRetries) :
    ∃ started, SerialReaches steps retries s
      ((s.concluded step.name (attempts step left (made + 1) s.ctx)).recount started) := by
  induction left generalizing s made with
  | zero =>
    cases executed : step.execute (made + 1) s.ctx with
    | mk outcome c =>
      cases outcome with
      | ok r =>
        rw [attempts_returned executed]
        exact ⟨_, reaches_returned mem ready executed⟩
      | error e =>
        rw [attempts_final executed fun more => Nat.lt_irrefl 0 more.2]
        refine ⟨_, reaches_final mem ready executed ?_⟩
        rintro ⟨_, more⟩
        omega
  | succ left ih =>
    cases executed : step.execute (made + 1) s.ctx with
    | mk outcome c =>
      cases outcome with
      | ok r =>
        rw [attempts_returned executed]
        exact ⟨_, reaches_returned mem ready executed⟩
      | error e =>
        by_cases again : step.onFailure c e (made + 1) = .retry
        · rw [attempts_again executed again]
          have next : SerialReaches steps retries s _ :=
            reaches_again mem ready executed again (by omega)
          obtain ⟨started, later⟩ := ih (s := s.attempted step.name made c (.ready (made + 1)))
            (made + 1) (Function.update_self ..) (by omega)
          rw [concluded_attempted] at later
          exact ⟨started, next.trans later⟩
        · rw [attempts_final executed fun more => again more.1]
          exact ⟨_, reaches_final mem ready executed fun more => again more.1⟩

/-- `_execute_step` of a step whose task has just been created. -/
theorem reaches_step (mem : step ∈ steps) (limit : retries step.name = step.maxRetries)
    (ready : s.task step.name = .ready 0) :
    ∃ t, SerialReaches steps retries s t ∧ t.control = s.control ∧
      t.toProgress = (executeStep step s.toProgress).2 ∧
      t.task = Function.update s.task step.name
        (if (executeStep step s.toProgress).1 = true then .finished else .aborted) := by
  obtain ⟨started, reaches⟩ := reaches_attempts mem limit step.maxRetries 0 ready (Nat.zero_add _)
  refine ⟨_, reaches, ?_⟩
  rw [executeStep, Nat.zero_add]
  cases attempts step step.maxRetries 1 s.ctx with
  | mk outcome c =>
    cases outcome with
    | ok r => exact ⟨rfl, rfl, rfl⟩
    | error e => exact ⟨rfl, rfl, rfl⟩

end Attempts

section Layers
variable {steps : List (Step N C)} {retries : N → ℕ} {s : Execution N C}
  {executable : List N} {rest : List (List N)}

theorem reaches_proceed {t : Execution N C} (proceeds : s.proceed = some t) :
    SerialReaches steps retries s t :=
  .next (a := .proceed) trivial proceeds (.refl t)

structure Execution.At (s : Execution N C) (executable : List N) (rest : List (List N))
    (step : Step N C) (more : List (Step N C)) : Prop where
  control : s.control = .running executable (more.map Step.name) rest
  ready : s.task step.name = .ready 0
  listed : ∀ x ∈ step :: more, x.name ∈ executable
  others : ∀ a ∈ executable, a ≠ step.name →
    a ∈ more.map Step.name ∧ s.task a = .idle ∨ s.task a = .finished

/-- A layer is through all its steps, or `execute` has returned from an exception. -/
def Execution.Through (s : Execution N C) (executable : List N) (rest : List (List N)) :
    Bool → Prop
  | true => s.control = .running executable [] rest ∧ ∀ a ∈ executable, s.task a = .finished
  | false => s.control = .returned false none

variable {step next : Step N C} {more : List (Step N C)} {u : Execution N C}

theorem reaches_returned_of_aborted (at_ : s.At executable rest step more)
    (control : u.control = s.control) (aborted : u.task step.name = .aborted) :
    SerialReaches steps retries u { u with control := .returned false none } := by
  refine reaches_proceed ?_
  have raised : ∃ a ∈ executable, u.task a = .aborted :=
    ⟨step.name, at_.listed step List.mem_cons_self, aborted⟩
  simp only [Execution.proceed, control, at_.control, if_pos raised]

theorem Execution.At.through (at_ : s.At executable rest step []) (control : u.control = s.control)
    (finished : u.task step.name = .finished)
    (elsewhere : ∀ a, a ≠ step.name → u.task a = s.task a) : u.Through executable rest true := by
  refine ⟨control.trans at_.control, fun a listed => ?_⟩
  by_cases same : a = step.name
  · exact same ▸ finished
  · rw [elsewhere a same]
    exact (at_.others a listed same).resolve_left fun pending => List.not_mem_nil pending.1

/-- Once the step is finished, the next one is woken. -/
theorem Execution.At.wakes (at_ : s.At executable rest step (next :: more))
    (control : u.control = s.control) (finished : u.task step.name = .finished)
    (elsewhere : ∀ a, a ≠ step.name → u.task a = s.task a) :
    ∃ v, u.proceed = some v ∧ v.At executable rest next more ∧
      v.toProgress = u.toProgress ∧ ∀ a, a ≠ next.name → v.task a = u.task a := by
  have others (a : N) (listed : a ∈ executable) :
      a ∈ (next :: more).map Step.name ∧ u.task a = .idle ∨ u.task a = .finished := by
    by_cases same : a = step.name
    · exact .inr (same ▸ finished)
    · rw [elsewhere a same]
      exact at_.others a listed same
  have none : ¬ ∃ a ∈ executable, u.task a = .aborted := by
    rintro ⟨a, listed, aborted⟩
    rcases others a listed with ⟨_, idle⟩ | ended
    · cases idle.symm.trans aborted
    · cases ended.symm.trans aborted
  have all : ∀ a ∈ executable, a ∈ next.name :: more.map Step.name ∨ u.task a = .finished :=
    fun a listed => (others a listed).imp_left And.left
  have untouched (a : N) (other : a ≠ next.name) :
      ({ u with control := .running executable (more.map Step.name) rest }.awake
        [next.name]).task a = u.task a := by
    simp [Execution.awake, other]
  refine ⟨{ u with control := .running executable (more.map Step.name) rest }.awake [next.name],
    ?_, ⟨rfl, ?_, ?_, ?_⟩, rfl, untouched⟩
  · simp only [Execution.proceed, control.trans at_.control, List.map_cons, if_neg none,
      if_pos all]
  · simp [Execution.awake]
  · exact fun x later => at_.listed x (List.mem_cons_of_mem _ later)
  · intro a listed other
    rw [untouched a other]
    refine (others a listed).imp_left fun pending => ⟨?_, pending.2⟩
    exact (List.mem_cons.mp pending.1).resolve_left other

theorem reaches_serial {s : Execution N C}
    (limit : ∀ step ∈ steps, retries step.name = step.maxRetries) (step : Step N C)
    (more : List (Step N C)) (mem : ∀ x ∈ step :: more, x ∈ steps)
    (at_ : s.At executable rest step more) :
    ∃ t, SerialReaches steps retries s t ∧
      t.toProgress = (executeSerial (step :: more) s.toProgress).2 ∧
      (∀ a, a ∉ (step :: more).map Step.name → t.task a = s.task a) ∧
      t.Through executable rest (executeSerial (step :: more) s.toProgress).1 := by
  have here := mem step List.mem_cons_self
  obtain ⟨u, reaches, control, progress, tasks⟩ := reaches_step here (limit step here) at_.ready
  have elsewhere (a : N) (other : a ≠ step.name) : u.task a = s.task a := by
    rw [tasks, Function.update_of_ne other]
  have outside (a : N) (absent : a ∉ (step :: more).map Step.name) : u.task a = s.task a :=
    elsewhere a fun same => absent (same ▸ List.mem_cons_self)
  simp only [executeSerial]
  cases executed : executeStep step s.toProgress with
  | mk returned q =>
    rw [executed] at progress tasks
    cases returned with
    | false =>
      have aborted : u.task step.name = .aborted := by rw [tasks, Function.update_self]; rfl
      exact ⟨_, reaches.trans (reaches_returned_of_aborted at_ control aborted), progress,
        outside, rfl⟩
    | true =>
      have finished : u.task step.name = .finished := by rw [tasks, Function.update_self]; rfl
      cases more with
      | nil => exact ⟨u, reaches, progress, outside, at_.through control finished elsewhere⟩
      | cons next more =>
        obtain ⟨v, going, at_next, kept, untouched⟩ :=
          at_.wakes control finished elsewhere
        obtain ⟨t, later, executed', elsewhere', through⟩ := reaches_serial (s := v) limit next more
          (fun x listed => mem x (List.mem_cons_of_mem _ listed)) at_next
        have start : v.toProgress = q := kept.trans progress
        rw [start] at executed' through
        refine ⟨t, (reaches.trans (reaches_proceed going)).trans later, executed', ?_, through⟩
        intro a absent
        obtain ⟨_, absent'⟩ := not_or.mp fun mem => absent (List.mem_cons.mpr mem)
        rw [elsewhere' a absent', untouched a fun same => absent' (same ▸ List.mem_cons_self),
          outside a absent]

/-- The steps of a layer of known names have these names. -/
theorem stepsOf_names {layer : List N} (known : ∀ a ∈ layer, a ∈ steps.map Step.name) :
    (stepsOf steps layer).map Step.name = layer := by
  induction layer with
  | nil => rfl
  | cons a layer ih =>
    obtain ⟨first, others⟩ := List.forall_mem_cons.mp known
    obtain ⟨x, listed, named⟩ := List.mem_map.mp first
    cases found : steps.find? fun step => step.name = a with
    | none => exact absurd (by simpa using named) (List.find?_eq_none.mp found x listed)
    | some y =>
      have same : y.name = a := by simpa using List.find?_some found
      have rest := ih others
      rw [stepsOf] at rest ⊢
      simp only [List.filterMap_cons, found, List.map_cons, same, rest]

theorem mem_of_mem_stepsOf {layer : List N} {x : Step N C} (mem : x ∈ stepsOf steps layer) :
    x ∈ steps := by
  obtain ⟨a, _, found⟩ := List.mem_filterMap.mp mem
  exact List.mem_of_find?_eq_some found

def skippedNames (steps : List (Step N C)) (c : C) : List N :=
  (steps.filter fun step => step.shouldSkip c).map Step.name

omit [DecidableEq N] in
theorem mem_skippedNames (distinct : (steps.map Step.name).Nodup) {x : Step N C}
    (mem : x ∈ steps) (c : C) : x.name ∈ skippedNames steps c ↔ x.shouldSkip c = true := by
  rw [skippedNames, List.mem_map]
  constructor
  · rintro ⟨y, listed, same⟩
    obtain ⟨listed, skips⟩ := List.mem_filter.mp listed
    rwa [List.inj_on_of_nodup_map distinct listed mem same] at skips
  · intro skips
    exact ⟨x, List.mem_filter.mpr ⟨mem, skips⟩, rfl⟩

theorem executable_names (distinct : (steps.map Step.name).Nodup) {layer : List N}
    (known : ∀ a ∈ layer, a ∈ steps.map Step.name) (c : C) :
    layer.filter (fun name => name ∉ skippedNames steps c) =
      ((stepsOf steps layer).filter fun step => !step.shouldSkip c).map Step.name := by
  conv_lhs => rw [← stepsOf_names known]
  rw [List.filter_map]
  congr 1
  refine List.filter_congr fun x mem => ?_
  have skips := mem_skippedNames distinct (mem_of_mem_stepsOf mem) c
  simp [skips]

theorem markSkipped_of_ne {layer : List (Step N C)} {p : Progress N C} {name : N}
    (others : ∀ step ∈ layer, step.shouldSkip p.ctx = true → name ≠ step.name) :
    (markSkipped layer p).results name = p.results name :=
  List.foldlRecOn _ _ (motive := fun q : Progress N C => q.results name = p.results name) rfl
    fun _ same step mem => by
      obtain ⟨mem, skips⟩ := List.mem_filter.mp mem
      simp [Progress.record, others step mem skips, same]

theorem skip_eq_markSkipped (distinct : (steps.map Step.name).Nodup) {layer : List N}
    (known : ∀ a ∈ layer, a ∈ steps.map Step.name) :
    (s.skip layer (skippedNames steps s.ctx)).toProgress =
      markSkipped (stepsOf steps layer) s.toProgress := by
  have names := stepsOf_names known
  have same : ∀ a, (s.skip layer (skippedNames steps s.ctx)).results a =
      (markSkipped (stepsOf steps layer) s.toProgress).results a := by
    intro a
    simp only [Execution.skip]
    split
    · rename_i skipped
      obtain ⟨listed, skips⟩ := skipped
      rw [← names] at listed
      obtain ⟨x, mem, rfl⟩ := List.mem_map.mp listed
      rw [mem_skippedNames distinct (mem_of_mem_stepsOf mem)] at skips
      rw [markSkipped_of_mem _ _ mem skips]
    · rename_i kept
      rw [markSkipped_of_ne]
      rintro x mem skips rfl
      refine kept ⟨names ▸ List.mem_map_of_mem mem, ?_⟩
      exact (mem_skippedNames distinct (mem_of_mem_stepsOf mem) s.ctx).mpr skips
  have ctx := markSkipped_ctx (stepsOf steps layer) s.toProgress
  cases marked : markSkipped (stepsOf steps layer) s.toProgress with
  | mk c results =>
    rw [marked] at same ctx
    simp only [Execution.skip] at same ⊢
    congr 1
    · exact ctx.symm
    · exact funext same

/-- Where `execute` stands after a layer. -/
def LayerEnd.control (rest : List (List N)) : LayerEnd N → Control N
  | .passed => .between rest
  | .failed name => .returned false (some name)
  | .raised => .returned false none

def checked (executable : List (Step N C)) (p : Progress N C) : LayerEnd N :=
  match executable.find? (hasFailed p) with
  | some step => .failed step.name
  | none => .passed

theorem proceed_of_through (executable : List (Step N C))
    (control : s.control = .running (executable.map Step.name) [] rest)
    (finished : ∀ a ∈ executable.map Step.name, s.task a = .finished) :
    s.proceed = some { s with control := (checked executable s.toProgress).control rest } := by
  have none : ¬ ∃ a ∈ executable.map Step.name, s.task a = .aborted := by
    rintro ⟨a, listed, aborted⟩
    cases (finished a listed).symm.trans aborted
  have all : ∀ a ∈ executable.map Step.name, a ∈ ([] : List N) ∨ s.task a = .finished :=
    fun a listed => .inr (finished a listed)
  have found : (executable.map Step.name).find? s.failed =
      (executable.find? (hasFailed s.toProgress)).map Step.name := by
    rw [List.find?_map]
    rfl
  simp only [Execution.proceed, control, if_neg none, if_pos all, found, checked]
  cases List.find? (hasFailed s.toProgress) executable with
  | none => rfl
  | some step => rfl

theorem executeLayer_eq (layer : List (Step N C)) (p : Progress N C) :
    executeLayer layer p =
      match executeSerial (layer.filter fun step => !step.shouldSkip p.ctx)
        (markSkipped layer p) with
      | (false, q) => (.raised, q)
      | (true, q) => (checked (layer.filter fun step => !step.shouldSkip p.ctx) q, q) := by
  simp only [executeLayer, ← markSkipped.eq_1, checked]
  cases executeSerial (layer.filter fun step => !step.shouldSkip p.ctx) (markSkipped layer p) with
  | mk returned q =>
    cases returned with
    | false => rfl
    | true =>
      simp only
      cases List.find? (hasFailed q) (layer.filter fun step => !step.shouldSkip p.ctx) with
      | none => rfl
      | some step => rfl

theorem reaches_layer (distinct : (steps.map Step.name).Nodup)
    (limit : ∀ step ∈ steps, retries step.name = step.maxRetries) {layer : List N}
    (known : ∀ a ∈ layer, a ∈ steps.map Step.name) (idle : ∀ a ∈ layer, s.task a = .idle)
    (control : s.control = .between (layer :: rest)) :
    ∃ t, SerialReaches steps retries s t ∧
      t.toProgress = (executeLayer (stepsOf steps layer) s.toProgress).2 ∧
      (∀ a, a ∉ layer → t.task a = s.task a) ∧
      t.control = (executeLayer (stepsOf steps layer) s.toProgress).1.control rest := by
  have names := executable_names distinct known s.ctx
  have skipped := skip_eq_markSkipped (s := s) distinct known
  have entered : SerialReaches steps retries s
      (s.enter layer (skippedNames steps s.ctx) true rest) := by
    refine .next (a := .enter (skippedNames steps s.ctx) true) ?_ ?_ (.refl _)
    · exact ⟨rfl, fun step mem => mem_skippedNames distinct mem s.ctx⟩
    · simp only [Execution.act, control]
  have mem : ∀ x ∈ (stepsOf steps layer).filter fun step => !step.shouldSkip s.ctx, x ∈ steps :=
    fun x listed => mem_of_mem_stepsOf (List.mem_filter.mp listed).1
  have within : ∀ x ∈ (stepsOf steps layer).filter fun step => !step.shouldSkip s.ctx,
      x.name ∈ layer := by
    intro x listed
    exact stepsOf_names known ▸ List.mem_map_of_mem (List.mem_filter.mp listed).1
  rw [executeLayer_eq, ← skipped]
  generalize (stepsOf steps layer).filter (fun step => !step.shouldSkip s.ctx) = executable at *
  rw [Execution.enter, names] at entered
  cases executable with
  | nil => exact ⟨_, entered, rfl, fun a absent => rfl, rfl⟩
  | cons step more =>
    simp only [List.map_cons, true_or, if_true] at entered
    have at_ : ({ s.skip layer (skippedNames steps s.ctx) with
        control := .running (step.name :: more.map Step.name) (more.map Step.name) rest }.awake
          [step.name]).At (step.name :: more.map Step.name) rest step more := by
      refine ⟨rfl, ?_, ?_, ?_⟩
      · simp [Execution.awake]
      · exact fun x mem => List.mem_map_of_mem mem
      · intro a listed other
        have pending := (List.mem_cons.mp listed).resolve_left other
        obtain ⟨x, mem, rfl⟩ := List.mem_map.mp pending
        have still := idle x.name (within x (List.mem_cons_of_mem _ mem))
        refine .inl ⟨pending, ?_⟩
        simpa [Execution.awake, Execution.skip, other] using still
    obtain ⟨t, reaches, progress, elsewhere, through⟩ := reaches_serial limit step more mem at_
    have outside (a : N) (absent : a ∉ layer) : t.task a = s.task a := by
      have other (x : Step N C) (mem : x ∈ step :: more) : a ≠ x.name :=
        fun same => absent (same ▸ within x mem)
      rw [elsewhere a fun listed => ?_]
      · simp [Execution.awake, Execution.skip, other step List.mem_cons_self]
      · obtain ⟨x, mem, same⟩ := List.mem_map.mp listed
        exact other x mem same.symm
    simp only [Execution.awake] at progress through
    cases executed : executeSerial (step :: more)
        (s.skip layer (skippedNames steps s.ctx)).toProgress with
    | mk returned q =>
      rw [executed] at progress through
      cases returned with
      | false => exact ⟨t, entered.trans reaches, progress, outside, through⟩
      | true =>
        obtain ⟨control, finished⟩ := through
        have proceeds := proceed_of_through (step :: more) control finished
        refine ⟨_, (entered.trans reaches).trans (reaches_proceed proceeds), progress, outside, ?_⟩
        rw [progress]

theorem reaches_layers (distinct : (steps.map Step.name).Nodup)
    (limit : ∀ step ∈ steps, retries step.name = step.maxRetries) {layers : List (List N)}
    (known : ∀ a ∈ layers.flatten, a ∈ steps.map Step.name) (once : layers.flatten.Nodup)
    (idle : ∀ a ∈ layers.flatten, s.task a = .idle) (control : s.control = .between layers) :
    ∃ t, SerialReaches steps retries s t ∧
      t.toProgress = (executeLayers (layers.map (stepsOf steps)) s.toProgress).progress ∧
      t.control = .returned (executeLayers (layers.map (stepsOf steps)) s.toProgress).success
        (executeLayers (layers.map (stepsOf steps)) s.toProgress).failedStep := by
  induction layers generalizing s with
  | nil =>
    refine ⟨_, reaches_proceed (t := { s with control := .returned true none }) ?_, rfl, rfl⟩
    simp only [Execution.proceed, control]
  | cons layer rest ih =>
    rw [List.flatten_cons] at known once idle
    obtain ⟨_, onceLater, apart⟩ := List.nodup_append.mp once
    obtain ⟨t, reaches, progress, elsewhere, stands⟩ := reaches_layer distinct limit
      (fun a mem => known a (List.mem_append_left _ mem))
      (fun a mem => idle a (List.mem_append_left _ mem)) control
    simp only [List.map_cons, executeLayers]
    cases executed : executeLayer (stepsOf steps layer) s.toProgress with
    | mk end_ q =>
      rw [executed] at progress stands
      cases end_ with
      | failed name => exact ⟨t, reaches, progress, stands⟩
      | raised => exact ⟨t, reaches, progress, stands⟩
      | passed =>
        have untouched : ∀ a ∈ rest.flatten, t.task a = .idle := by
          intro a mem
          rw [elsewhere a fun first => apart a first a mem rfl]
          exact idle a (List.mem_append_right _ mem)
        obtain ⟨u, later, result, returned⟩ :=
          ih (fun a mem => known a (List.mem_append_right _ mem)) onceLater untouched stands
        rw [progress] at result returned
        exact ⟨u, reaches.trans later, result, returned⟩

end Layers

section Execute
variable {steps : List (Step N C)}

def retriesOf (steps : List (Step N C)) (name : N) : ℕ :=
  ((steps.find? fun step => step.name = name).map Step.maxRetries).getD 0

theorem retriesOf_eq (distinct : (steps.map Step.name).Nodup) (step : Step N C)
    (mem : step ∈ steps) : retriesOf steps step.name = step.maxRetries := by
  rw [retriesOf]
  cases found : steps.find? fun other => other.name = step.name with
  | none => exact absurd (by simp) (List.find?_eq_none.mp found step mem)
  | some other =>
    have same : other.name = step.name := by simpa using List.find?_some found
    rw [List.inj_on_of_nodup_map distinct (List.mem_of_find?_eq_some found) mem same]
    rfl

/-- Of an accepted graph `execute` is a run of the machine with a session. -/
theorem execute_reaches (distinct : (steps.map Step.name).Nodup)
    (accepted : validateDag (graphOf steps) = .ok ()) (c : C) :
    ∃ t, SerialReaches steps (retriesOf steps) (.initial (graphOf steps) c) t ∧
      t.toProgress = (execute steps c).progress ∧
      t.control = .returned (execute steps c).success (execute steps c).failedStep := by
  have names : (graphOf steps).map Prod.fst = steps.map Step.name := by simp [graphOf]
  have consistent : Consistent (graphOf steps) (retriesOf steps) (.initial (graphOf steps) c) :=
    consistent_initial (names ▸ distinct) accepted c
  obtain ⟨untouched, once, _, _, placed⟩ := consistent
  obtain ⟨⟨done, layered, _⟩, _⟩ := placed
  refine reaches_layers distinct (retriesOf_eq distinct) ?_ once
    (fun a mem => (untouched a mem).1) rfl
  intro a mem
  exact names ▸ (layered.mem_flatten.mp mem).1

/-- On a session `execute` is the machine run in one way: with the attempts, the skips and the
layers of that run it comes to the same context, results and end. -/
theorem execute_run (distinct : (steps.map Step.name).Nodup)
    (accepted : validateDag (graphOf steps) = .ok ()) (c : C) :
    ∃ actions t, Along (Execution.act (retriesOf steps)) (Follows steps true)
        (.initial (graphOf steps) c) actions ∧
      run (Execution.act (retriesOf steps)) (.initial (graphOf steps) c) actions = some t ∧
      t.toProgress = (execute steps c).progress ∧
      t.control = .returned (execute steps c).success (execute steps c).failedStep := by
  obtain ⟨t, reaches, progress, control⟩ := execute_reaches distinct accepted c
  obtain ⟨actions, along, reached⟩ := reaches.exists_run
  exact ⟨actions, t, along, reached, progress, control⟩

/-- A step that is tried twice, and one that comes after it. -/
def retriedPair : List (Step ℕ ℕ) :=
  [{ name := 0
     maxRetries := 1
     execute := fun attempt c => if attempt = 1 then (.error .timeout, c + 1) else (.ok {}, c + 1)
     onFailure := fun _ _ _ => .retry
     onDegrade := fun _ c => ({}, c) },
    { name := 1
      dependsOn := [0]
      execute := fun _ c => (.ok {}, 10 * c)
      onFailure := fun _ _ _ => .abort
      onDegrade := fun _ c => ({}, c) }]

theorem execute_run_retried : (execute retriedPair 0).progress.ctx = 20 ∧
    ∃ actions t, Along (Execution.act (retriesOf retriedPair)) (Follows retriedPair true)
        (.initial (graphOf retriedPair) 0) actions ∧
      run (Execution.act (retriesOf retriedPair)) (.initial (graphOf retriedPair) 0) actions =
        some t ∧
      t.toProgress = (execute retriedPair 0).progress ∧
      t.control = .returned (execute retriedPair 0).success (execute retriedPair 0).failedStep :=
  ⟨by decide, execute_run (by decide) rfl 0⟩

theorem execute_results (distinct : (steps.map Step.name).Nodup)
    (accepted : validateDag (graphOf steps) = .ok ()) (c : C) :
    ((execute steps c).success = true →
      ∀ name r, (execute steps c).progress.results name = some r → r.status ≠ .failed) ∧
    ∀ name, (execute steps c).success = false → (execute steps c).failedStep = some name →
      ∃ r, (execute steps c).progress.results name = some r ∧ r.status = .failed := by
  have names : (graphOf steps).map Prod.fst = steps.map Step.name := by simp [graphOf]
  obtain ⟨t, reaches, progress, control⟩ := execute_reaches distinct accepted c
  obtain ⟨actions, _, reached⟩ := reaches.exists_run
  have consistent := run_preserves (fun held taken => Consistent.act held taken)
    (consistent_initial (names ▸ distinct) accepted c) reached
  have placed := consistent.placed
  rw [control] at placed
  rw [← progress]
  constructor
  · intro success name r recorded failed
    rw [success] at placed
    exact placed.2.2 name ⟨r, recorded, failed⟩
  · intro name success named
    rw [success, named] at placed
    exact placed.1

theorem execute_results_retried : (execute retriedPair 0).success = true ∧
    ∀ name r, (execute retriedPair 0).progress.results name = some r → r.status ≠ .failed :=
  ⟨by decide, (execute_results (by decide) rfl 0).1 (by decide)⟩

end Execute

end Deeting.Orchestrator
