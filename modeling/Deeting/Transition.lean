import Mathlib.Data.List.Basic
import Mathlib.Data.List.Induction

/-! Finite runs of a labelled transition function, and the two induction rules
used with them. `step s a = none` says that `a` is not enabled in `s`; an
operation that always runs to its end is the total step `total f`. Guards on the
visited states are a predicate along the run, so that a conditional invariant
never restricts the machine itself. -/
namespace Deeting.Transition

variable {S A : Type}

def run (step : S → A → Option S) : S → List A → Option S
  | s, [] => some s
  | s, a :: rest => (step s a).bind fun t => run step t rest

/-- Every action of the run satisfies `ok` in the state it starts from. -/
def Along (step : S → A → Option S) (ok : S → A → Prop) : S → List A → Prop
  | _, [] => True
  | s, a :: rest => ok s a ∧ ∀ t, step s a = some t → Along step ok t rest

def total (f : S → A → S) (s : S) (a : A) : Option S := some (f s a)

variable {step : S → A → Option S} {ok : S → A → Prop}

attribute [local simp] run Along

theorem run_cons_eq_some {s t : S} {a : A} {rest : List A} :
    run step s (a :: rest) = some t ↔ ∃ u, step s a = some u ∧ run step u rest = some t := by
  simp only [run, Option.bind_eq_some_iff]

theorem run_append {s : S} {first second : List A} :
    run step s (first ++ second) = (run step s first).bind fun t => run step t second := by
  induction first generalizing s with
  | nil => rfl
  | cons a rest ih =>
    simp only [List.cons_append, run, Option.bind_assoc]
    congr 1
    funext t
    exact ih

theorem run_concat {s : S} {first : List A} {a : A} :
    run step s (first ++ [a]) = (run step s first).bind fun t => step t a := by
  simp only [run_append, run, Option.bind_fun_some]

theorem along_cons_of_step {s t : S} {a : A} {rest : List A} (taken : step s a = some t) :
    Along step ok s (a :: rest) ↔ ok s a ∧ Along step ok t rest := by
  simp only [Along, taken, Option.some.injEq, forall_eq']

theorem along_cons_of_stuck {s : S} {a : A} {rest : List A} (stuck : step s a = none) :
    Along step ok s (a :: rest) ↔ ok s a := by
  simp [Along, stuck]

instance decidableAlong [∀ s a, Decidable (ok s a)] :
    (s : S) → (actions : List A) → Decidable (Along step ok s actions)
  | _, [] => .isTrue trivial
  | s, a :: rest =>
    match taken : step s a with
    | none => decidable_of_iff _ (along_cons_of_stuck taken).symm
    | some t =>
      have := decidableAlong t rest
      decidable_of_iff _ (along_cons_of_step taken).symm

theorem along_append {s : S} {first second : List A}
    (admitted : Along step ok s (first ++ second)) :
    Along step ok s first ∧ ∀ t, run step s first = some t → Along step ok t second := by
  induction first generalizing s with
  | nil => exact ⟨trivial, fun t reached => Option.some.inj reached ▸ admitted⟩
  | cons a rest ih =>
    refine ⟨⟨admitted.1, fun u taken => (ih (admitted.2 u taken)).1⟩, fun t reached => ?_⟩
    obtain ⟨u, taken, reached⟩ := run_cons_eq_some.mp reached
    exact (ih (admitted.2 u taken)).2 t reached

/-- A guard on the actions alone needs no look at the states. -/
theorem along_of_mem {actions : List A} (always : ∀ a ∈ actions, ∀ s, ok s a) (s : S) :
    Along step ok s actions := by
  induction actions generalizing s with
  | nil => trivial
  | cons a rest ih =>
    obtain ⟨head, tail⟩ := List.forall_mem_cons.mp always
    exact ⟨head s, fun t _ => ih tail t⟩

theorem along_and {also : S → A → Prop} {s : S} {actions : List A}
    (first : Along step ok s actions) (second : Along step also s actions) :
    Along step (fun s a => ok s a ∧ also s a) s actions := by
  induction actions generalizing s with
  | nil => trivial
  | cons a rest ih =>
    exact ⟨⟨first.1, second.1⟩, fun t taken => ih (first.2 t taken) (second.2 t taken)⟩

/-- A predicate kept by every admitted step holds at the end of every admitted run. -/
theorem run_invariant {P : S → Prop} {s t : S} {actions : List A}
    (preserves : ∀ {s a t}, P s → ok s a → step s a = some t → P t)
    (start : P s) (admitted : Along step ok s actions) (reached : run step s actions = some t) :
    P t := by
  induction actions generalizing s with
  | nil =>
    cases reached
    exact start
  | cons a rest ih =>
    obtain ⟨u, taken, reached⟩ := run_cons_eq_some.mp reached
    exact ih (preserves start admitted.1 taken) (admitted.2 u taken) reached

/-- What every admitted step from a state of the invariant satisfies, all steps of an
admitted run satisfy. -/
theorem along_of_invariant {P : S → Prop} {law : S → A → Prop} {s : S} {actions : List A}
    (preserves : ∀ {s a t}, P s → ok s a → step s a = some t → P t)
    (gives : ∀ {s a}, P s → ok s a → law s a)
    (start : P s) (admitted : Along step ok s actions) : Along step law s actions := by
  induction actions generalizing s with
  | nil => trivial
  | cons a rest ih =>
    refine ⟨gives start admitted.1, fun t taken => ?_⟩
    exact ih (preserves start admitted.1 taken) (admitted.2 t taken)

theorem along_congr {also : S → A → Prop} (same : ∀ s a, ok s a ↔ also s a) (s : S)
    (actions : List A) : Along step ok s actions ↔ Along step also s actions := by
  have equal : ok = also := by
    funext s a
    exact propext (same s a)
  rw [equal]

/-- What holds at the end and can only have come from itself held all along, and so did
the guard it takes to keep it. -/
theorem along_of_end {P Q : S → Prop} {s t : S} {actions : List A}
    (preserves : ∀ {s a t}, P s → step s a = some t → P t)
    (back : ∀ {s a t}, P s → step s a = some t → Q t → Q s ∧ ok s a)
    (start : P s) (reached : run step s actions = some t) (final : Q t) :
    Q s ∧ Along step ok s actions := by
  induction actions generalizing s with
  | nil =>
    cases reached
    exact ⟨final, trivial⟩
  | cons a rest ih =>
    obtain ⟨u, taken, reached⟩ := run_cons_eq_some.mp reached
    obtain ⟨later, admitted⟩ := ih (preserves start taken) reached
    obtain ⟨now, ok⟩ := back start taken later
    exact ⟨now, (along_cons_of_step taken).mpr ⟨ok, admitted⟩⟩

/-- Where the guard is what it takes to keep the property, the runs all of whose states
have the property are the admitted ones, also among the runs under a second guard. -/
theorem forall_prefix_iff_along_within {also : S → A → Prop} {P Q : S → Prop} {s : S}
    {actions : List A} (gives : ∀ {s}, P s → Q s)
    (preserves : ∀ {s a t}, P s → also s a → ok s a → step s a = some t → P t)
    (back : ∀ {s a t}, P s → also s a → step s a = some t → Q t → ok s a)
    (idle : ∀ {s a}, step s a = none → ok s a) (start : P s)
    (within : Along step also s actions) :
    (∀ first, first <+: actions → ∀ t, run step s first = some t → Q t) ↔
      Along step ok s actions := by
  constructor
  · intro throughout
    induction actions generalizing s with
    | nil => trivial
    | cons a rest ih =>
      have now : ok s a := by
        cases taken : step s a with
        | none => exact idle taken
        | some t =>
          refine back start within.1 taken (throughout [a] (by simp) t ?_)
          simp [run, taken]
      refine ⟨now, fun t taken => ?_⟩
      refine ih (preserves start within.1 now taken) (within.2 t taken) fun first early u reached => ?_
      refine throughout (a :: first) (List.cons_prefix_cons.mpr ⟨rfl, early⟩) u ?_
      exact run_cons_eq_some.mpr ⟨t, taken, reached⟩
  · rintro admitted first ⟨second, rfl⟩ t reached
    have both := along_and (along_append within).1 (along_append admitted).1
    exact gives (run_invariant (fun held guards taken => preserves held guards.1 guards.2 taken)
      start both reached)

/-- The same among all runs. -/
theorem forall_prefix_iff_along {P Q : S → Prop} {s : S} {actions : List A}
    (gives : ∀ {s}, P s → Q s)
    (preserves : ∀ {s a t}, P s → ok s a → step s a = some t → P t)
    (back : ∀ {s a t}, P s → step s a = some t → Q t → ok s a)
    (idle : ∀ {s a}, step s a = none → ok s a) (start : P s) :
    (∀ first, first <+: actions → ∀ t, run step s first = some t → Q t) ↔
      Along step ok s actions :=
  have unguarded : Along step (fun _ _ => True) s actions :=
    along_of_mem (fun _ _ _ => trivial) s
  forall_prefix_iff_along_within gives (fun held _ ok taken => preserves held ok taken)
    (fun held _ taken final => back held taken final) idle start unguarded

/-- A preorder on the states relates each state of a run to the later ones when every step
does. -/
theorem forall_segment_iff_along {R : S → S → Prop} {s : S} {actions : List A}
    (refl : ∀ s, R s s) (trans : ∀ {s t u}, R s t → R t u → R s u) :
    (∀ first second t u, first ++ second <+: actions → run step s first = some t →
      run step t second = some u → R t u) ↔
      Along step (fun s a => ∀ t, step s a = some t → R s t) s actions := by
  constructor
  · intro related
    induction actions generalizing s with
    | nil => trivial
    | cons a rest ih =>
      refine ⟨fun t taken => ?_, fun t taken => ih fun first second u v early to_ on => ?_⟩
      · refine related [] [a] s t (by simp) rfl ?_
        simp [run, taken]
      · refine related (a :: first) second u v (List.cons_prefix_cons.mpr ⟨rfl, early⟩) ?_ on
        exact run_cons_eq_some.mpr ⟨t, taken, to_⟩
  · rintro admitted first second t u ⟨rest, rfl⟩ reached on
    have later := (along_append (along_append admitted).1).2 t reached
    exact run_invariant (P := R t) (fun held ok taken => trans held (ok _ taken)) (refl t) later on

/-- The unconditional rule: no guard is asked of the run. -/
theorem run_preserves {P : S → Prop} {s t : S} {actions : List A}
    (preserves : ∀ {s a t}, P s → step s a = some t → P t)
    (start : P s) (reached : run step s actions = some t) : P t :=
  have unguarded : Along step (fun _ _ => True) s actions :=
    along_of_mem (fun _ _ _ => trivial) s
  run_invariant (fun held _ taken => preserves held taken) start unguarded reached

/-- Where every step lowers a measure, a run is no longer than what it starts from. -/
theorem length_le_of_decreases (measure : S → ℕ) {s t : S} {actions : List A}
    (decreases : ∀ {s a t}, step s a = some t → measure t < measure s)
    (reached : run step s actions = some t) : actions.length + measure t ≤ measure s := by
  induction actions generalizing s with
  | nil =>
    cases reached
    simp
  | cons a rest ih =>
    obtain ⟨u, taken, reached⟩ := run_cons_eq_some.mp reached
    have shorter := ih reached
    have lower := decreases taken
    rw [List.length_cons]
    omega

inductive Reaches (step : S → A → Option S) (ok : S → A → Prop) : S → S → Prop where
  | refl (s : S) : Reaches step ok s s
  | next {s t u : S} {a : A} :
      ok s a → step s a = some t → Reaches step ok t u → Reaches step ok s u

theorem Reaches.trans {s t u : S} (first : Reaches step ok s t) (second : Reaches step ok t u) :
    Reaches step ok s u := by
  induction first with
  | refl => exact second
  | next admitted taken _ ih => exact .next admitted taken (ih second)

theorem Reaches.exists_run {s t : S} (reaches : Reaches step ok s t) :
    ∃ actions, Along step ok s actions ∧ run step s actions = some t := by
  induction reaches with
  | refl => exact ⟨[], trivial, rfl⟩
  | @next s t u a admitted taken _ ih =>
    obtain ⟨actions, along, reached⟩ := ih
    exact ⟨a :: actions, (along_cons_of_step taken).mpr ⟨admitted, along⟩,
      run_cons_eq_some.mpr ⟨t, taken, reached⟩⟩

end Deeting.Transition
