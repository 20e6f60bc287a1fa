import Mathlib.Data.List.Basic
import Mathlib.Data.Option.Basic

/-! Programs on a state that others see after each of their updates. One that is left off
leaves the state it had come to, so what holds of all states passed holds however far the
program comes. -/
namespace Deeting.Interruptible

/-- The states passed, the last one, and what is returned or raised. -/
structure Outcome (S E α : Type) where
  passed : List S
  final : S
  result : Except E α

def Program (S E α : Type) := S → Outcome S E α

namespace Program

variable {S E α β : Type}

instance : Monad (Program S E) where
  pure a s := ⟨[], s, .ok a⟩
  bind m f s :=
    let first := m s
    match first.result with
    | .error e => ⟨first.passed, first.final, .error e⟩
    | .ok a =>
      let second := f a first.final
      ⟨first.passed ++ second.passed, second.final, second.result⟩

def read : Program S E S := fun s => ⟨[], s, .ok s⟩

def act (f : S → S × α) : Program S E α := fun s => ⟨[(f s).1], (f s).1, .ok (f s).2⟩

def update (f : S → S) : Program S E Unit := act fun s => (f s, ())

def raise (e : E) : Program S E α := fun s => ⟨[], s, .error e⟩

def leave (m : Program S E α) (updates : Option ℕ) (s : S) : S :=
  match updates with
  | none => (m s).final
  | some n => ((m s).passed.take n).getLast?.getD s

variable {m : Program S E α} {k : α → Program S E β} {s : S} {a : α} {e : E}

theorem bind_of_ok (returned : (m s).result = .ok a) : (m >>= k) s =
    ⟨(m s).passed ++ (k a (m s).final).passed, (k a (m s).final).final,
      (k a (m s).final).result⟩ := by
  simp only [bind, returned]

theorem bind_of_error (raised : (m s).result = .error e) :
    (m >>= k) s = ⟨(m s).passed, (m s).final, .error e⟩ := by
  simp only [bind, raised]

@[simp] theorem pure_apply : (pure a : Program S E α) s = ⟨[], s, .ok a⟩ := rfl

@[simp] theorem read_apply : (read : Program S E S) s = ⟨[], s, .ok s⟩ := rfl

@[simp] theorem act_apply (f : S → S × α) :
    (act f : Program S E α) s = ⟨[(f s).1], (f s).1, .ok (f s).2⟩ := rfl

@[simp] theorem raise_apply : (raise e : Program S E α) s = ⟨[], s, .error e⟩ := rfl

@[simp] theorem act_bind (f : S → S × α) : (act f >>= k) s =
    ⟨(f s).1 :: (k (f s).2 (f s).1).passed, (k (f s).2 (f s).1).final,
      (k (f s).2 (f s).1).result⟩ := rfl

@[simp] theorem update_bind (f : S → S) (k : Unit → Program S E β) : (update f >>= k) s =
    ⟨f s :: (k () (f s)).passed, (k () (f s)).final, (k () (f s)).result⟩ := rfl

@[simp] theorem read_bind (k : S → Program S E β) : (read >>= k) s = k s s := rfl

@[simp] theorem raise_bind : ((raise e : Program S E α) >>= k) s = ⟨[], s, .error e⟩ := rfl

/-- A program that is left off later than some state leaves it or one that follows it. -/
theorem leave_mem {first rest : List S} {t : S} {n : ℕ} (passed : (m s).passed = first ++ t :: rest)
    (late : first.length < n) : m.leave (some n) s ∈ t :: rest := by
  obtain ⟨k, rfl⟩ := Nat.exists_eq_add_of_lt late
  have cut : (m s).passed.take (first.length + k + 1) = first ++ t :: rest.take k := by
    rw [passed, List.take_append, List.take_of_length_le (by omega)]
    congr 1
    rw [show first.length + k + 1 - first.length = k + 1 by omega, List.take_succ_cons]
  rw [leave, cut, List.getLast?_append_cons]
  cases last : (t :: rest.take k).getLast? with
  | none => cases List.getLast?_eq_none_iff.mp last
  | some u =>
    refine List.mem_cons.mpr ((List.mem_cons.mp (List.mem_of_getLast? last)).imp_right ?_)
    exact List.mem_of_mem_take

/-- A program that is left off inside a part of it leaves a state of that part. -/
theorem leave_mem_middle {first middle rest : List S} {n : ℕ}
    (passed : (m s).passed = first ++ middle ++ rest) (late : first.length < n)
    (early : n ≤ first.length + middle.length) : m.leave (some n) s ∈ middle := by
  obtain ⟨k, rfl⟩ := Nat.exists_eq_add_of_lt late
  have within : (first ++ middle).length = first.length + middle.length := List.length_append
  have cut : (m s).passed.take (first.length + k + 1) = first ++ middle.take (k + 1) := by
    rw [passed, List.take_append_of_le_length (by omega), List.take_append,
      List.take_of_length_le (by omega)]
    congr 2
    omega
  have some_ : middle.take (k + 1) ≠ [] := by
    intro none
    have empty := congrArg List.length none
    rw [List.length_take, List.length_nil] at empty
    omega
  rw [leave, cut, List.getLast?_append_of_ne_nil _ some_, List.getLast?_eq_some_getLast some_]
  exact List.mem_of_mem_take (List.getLast_mem some_)

/-- A program that is left off early leaves the state it found or one it has come to. -/
theorem leave_early {first rest : List S} {n : ℕ} (passed : (m s).passed = first ++ rest)
    (early : n ≤ first.length) : m.leave (some n) s = s ∨ m.leave (some n) s ∈ first := by
  rw [leave, passed, List.take_append_of_le_length early]
  cases last : (first.take n).getLast? with
  | none => exact .inl rfl
  | some t => exact .inr (List.mem_of_mem_take (List.mem_of_getLast? last))

/-- From a state with `P` every state passed has `I`, and what is returned there has `Q`. -/
def Ensures (P : S → Prop) (m : Program S E α) (I : S → Prop) (Q : α → S → Prop) : Prop :=
  ∀ s, P s → (∀ t ∈ (m s).passed, I t) ∧ I (m s).final ∧
    ∀ a, (m s).result = .ok a → Q a (m s).final

section Rules

variable {P I : S → Prop} {R : α → S → Prop} {Q : β → S → Prop}

theorem ensures_pure {b : β} (holds : ∀ s, P s → I s ∧ Q b s) :
    Ensures P (pure b : Program S E β) I Q := by
  intro s start
  obtain ⟨passed, returned⟩ := holds s start
  refine ⟨by simp, passed, fun a same => ?_⟩
  cases same
  exact returned

theorem ensures_raise (holds : ∀ s, P s → I s) : Ensures P (raise e : Program S E β) I Q := by
  intro s start
  refine ⟨by simp, holds s start, fun a same => ?_⟩
  cases same

theorem ensures_act {f : S → S × β} (holds : ∀ s, P s → I (f s).1 ∧ Q (f s).2 (f s).1) :
    Ensures P (act f : Program S E β) I Q := by
  intro s start
  obtain ⟨passed, returned⟩ := holds s start
  refine ⟨by simpa using passed, passed, fun a same => ?_⟩
  cases same
  exact returned

theorem ensures_read {R : S → S → Prop} (holds : ∀ s, P s → I s ∧ R s s) :
    Ensures P (read : Program S E S) I R := by
  intro s start
  obtain ⟨passed, returned⟩ := holds s start
  refine ⟨by simp, passed, fun a same => ?_⟩
  cases same
  exact returned

/-- Programs one after the other. -/
theorem Ensures.bind (first : Ensures P m I R) (second : ∀ a, Ensures (R a) (k a) I Q) :
    Ensures P (m >>= k) I Q := by
  intro s start
  obtain ⟨passed, final, returned⟩ := first s start
  cases ended : (m s).result with
  | error e =>
    rw [bind_of_error ended]
    refine ⟨passed, final, fun b same => ?_⟩
    cases same
  | ok a =>
    obtain ⟨passed', final', returned'⟩ := second a (m s).final (returned a ended)
    rw [bind_of_ok ended]
    refine ⟨fun t mem => ?_, final', returned'⟩
    exact (List.mem_append.mp mem).elim (passed t) (passed' t)

theorem Ensures.of_imp {P' : S → Prop} (holds : Ensures P m I R) (stronger : ∀ s, P' s → P s) :
    Ensures P' m I R :=
  fun s start => holds s (stronger s start)

theorem ensures_of_false (never : ∀ s, ¬ P s) : Ensures P m I R :=
  fun s start => absurd start (never s)

theorem ensures_ite {c : Prop} [Decidable c] {m' : Program S E α}
    (yes : c → Ensures P m I R) (no : ¬ c → Ensures P m' I R) :
    Ensures P (if c then m else m') I R := by
  split
  · exact yes ‹_›
  · exact no ‹_›

/-- However far the program comes, it leaves a state with the invariant. -/
theorem Ensures.leave (holds : Ensures P m I R) (start : P s) (now : I s) (updates : Option ℕ) :
    I (m.leave updates s) := by
  obtain ⟨passed, final, -⟩ := holds s start
  cases updates with
  | none => exact final
  | some n =>
    rw [Program.leave]
    cases last : ((m s).passed.take n).getLast? with
    | none => exact now
    | some t => exact passed t (List.mem_of_mem_take (List.mem_of_getLast? last))

end Rules

end Program

end Deeting.Interruptible
