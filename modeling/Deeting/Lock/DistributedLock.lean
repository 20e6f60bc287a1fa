import Mathlib.Data.Int.Order.Basic
import Mathlib.Logic.Function.Basic
import Deeting.Expiry
import Deeting.Transition

/-! `DistributedLock` on one key: instances that acquire, release and extend, each call
interrupted where it waits for Redis, each command one step, with the clock going on
between any two steps. Times are milliseconds. -/
namespace Deeting.Lock

open Transition Expiry

structure DistributedLock where
  lockValue : String
  ttl : ℤ
  retryTimes : ℤ
  deriving DecidableEq

variable {ι : Type}

/-- How far a call has come: its command sent, the reply on its way, returned. -/
inductive Call (ι : Type) where
  | idle
  | acquiring (lock : ι) (attempt : ℕ)
  | tried (lock : ι) (attempt : ℕ) (reply : Bool)
  | releasing (lock : ι)
  | released (lock : ι) (reply : Bool)
  | extending (lock : ι) (ttl : ℤ)
  | extended (lock : ι) (reply : Bool)
  | returned (result : Bool)
  deriving DecidableEq

/-- The key, the `_acquired` flags and the calls. `held` is for the statements: until when
an instance may take the lock for its own, from the `SET`, the releases and the extensions
that have been executed for it. -/
structure World (ι : Type) where
  now : ℤ
  slot : Option (Entry ℤ String)
  acquired : ι → Bool
  calls : ℕ → Call ι
  held : ι → Option ℤ

def World.initial (now : ℤ) : World ι :=
  ⟨now, none, fun _ => false, fun _ => .idle, fun _ => none⟩

/-- The time passes, a call begins, its command is executed, its reply is taken. -/
inductive Action (ι : Type) where
  | tick (ms : ℕ)
  | acquire (n : ℕ) (lock : ι)
  | release (n : ℕ) (lock : ι)
  | extend (n : ℕ) (lock : ι) (additionalTtl : Option ℤ)
  | execute (n : ℕ)
  | resume (n : ℕ)

/-- `additional_ttl or self.ttl`. -/
def DistributedLock.extension (lock : DistributedLock) (additionalTtl : Option ℤ) : ℤ :=
  match additionalTtl with
  | none => lock.ttl
  | some ttl => if ttl = 0 then lock.ttl else ttl

/-- The loop goes on with its next attempt, if there is one. -/
def DistributedLock.attempt (lock : DistributedLock) (i : ι) (attempt : ℕ) : Call ι :=
  if (attempt : ℤ) < lock.retryTimes then .acquiring i attempt else .returned false

namespace World

variable [DecidableEq ι]

def call (w : World ι) (n : ℕ) (c : Call ι) : World ι :=
  { w with calls := Function.update w.calls n c }

def flag (w : World ι) (i : ι) (acquired : Bool) : World ι :=
  { w with acquired := Function.update w.acquired i acquired }

def hold (w : World ι) (i : ι) (until? : Option ℤ) : World ι :=
  { w with held := Function.update w.held i until? }

/-- `SET key lock_value EX ttl NX`; of a lifetime that is not positive it raises. -/
def set (lock : DistributedLock) (i : ι) (w : World ι) : World ι × Bool :=
  let deadline := w.now + 1000 * lock.ttl
  if 0 < lock.ttl then
    match setNx w.now w.slot ⟨lock.lockValue, some deadline⟩ with
    | (slot, true) => ({ w with slot }.hold i (some deadline), true)
    | (_, false) => (w, false)
  else (w, false)

/-- The script of `release`. -/
def delete (lock : DistributedLock) (i : ι) (w : World ι) : World ι × Bool :=
  let (slot, reply) := compareDelete w.now w.slot lock.lockValue
  ({ w with slot }.hold i none, reply)

/-- The script of `extend`; a deadline that has passed is the deletion of the key. -/
def expire (lock : DistributedLock) (i : ι) (ttl : ℤ) (w : World ι) : World ι × Bool :=
  let deadline := w.now + 1000 * ttl
  match compareExpire w.now w.slot lock.lockValue deadline with
  | (slot, true) => ({ w with slot }.hold i (some deadline), true)
  | (_, false) => (w, false)

end World

section Steps

variable [DecidableEq ι] (locks : ι → DistributedLock)

def step (w : World ι) : Action ι → Option (World ι)
  | .tick ms => some { w with now := w.now + ms }
  | .acquire n i =>
    match w.calls n with
    | .idle => some (w.call n ((locks i).attempt i 0))
    | _ => none
  | .release n i =>
    match w.calls n with
    | .idle => some (w.call n (if w.acquired i then .releasing i else .returned true))
    | _ => none
  | .extend n i additionalTtl =>
    match w.calls n with
    | .idle =>
      some (w.call n
        (if w.acquired i then .extending i ((locks i).extension additionalTtl)
          else .returned false))
    | _ => none
  | .execute n =>
    match w.calls n with
    | .acquiring i attempt =>
      let (w, reply) := w.set (locks i) i
      some (w.call n (.tried i attempt reply))
    | .releasing i =>
      let (w, reply) := w.delete (locks i) i
      some (w.call n (.released i reply))
    | .extending i ttl =>
      let (w, reply) := w.expire (locks i) i ttl
      some (w.call n (.extended i reply))
    | _ => none
  | .resume n =>
    match w.calls n with
    | .tried i _ true => some ((w.flag i true).call n (.returned true))
    | .tried i attempt false => some (w.call n ((locks i).attempt i (attempt + 1)))
    | .released i reply => some ((w.flag i false).call n (.returned reply))
    | .extended _ reply => some (w.call n (.returned reply))
    | _ => none

end Steps

namespace World

/-- The instance has a lock that is neither released nor expired. -/
def Holds (w : World ι) (i : ι) : Prop := ∃ deadline, w.held i = some deadline ∧ w.now < deadline

def lockOf (locks : ι → DistributedLock) (w : World ι) (i : ι) : Option (Entry ℤ String) :=
  bearing w.now w.slot (locks i).lockValue

/-- The instance that releases or extends its lock in this step. -/
def releasesOrExtends (w : World ι) : Action ι → Option ι
  | .release _ i | .extend _ i _ => some i
  | .execute n | .resume n =>
    match w.calls n with
    | .releasing i | .released i _ | .extending i _ | .extended i _ => some i
    | _ => none
  | _ => none

/-- The key and the instances agree on who has the lock, and until when. -/
def Agrees (locks : ι → DistributedLock) (w : World ι) : Prop :=
  ∀ i deadline, w.now < deadline →
    (w.held i = some deadline ↔ w.slot = some ⟨(locks i).lockValue, some deadline⟩)

end World

section Safety

variable {locks : ι → DistributedLock} {w v : World ι} {i j : ι} {n : ℕ}

namespace World

theorem Agrees.has (agrees : w.Agrees locks) (holds : w.Holds i) :
    Has w.now w.slot (locks i).lockValue := by
  obtain ⟨d, held, alive⟩ := holds
  have stored := (agrees i d alive).mp held
  exact has_of_live (live_eq_some.mpr ⟨stored, alive_some.mpr alive⟩)

theorem Agrees.unique (distinct : Function.Injective fun i => (locks i).lockValue)
    (agrees : w.Agrees locks) (first : w.Holds i) (second : w.Holds j) : i = j :=
  distinct ((agrees.has first).unique (agrees.has second))

theorem Agrees.initial (now : ℤ) : (initial now : World ι).Agrees locks := by
  intro i d _
  simp [World.initial]

theorem Agrees.tick (agrees : w.Agrees locks) (ms : ℕ) :
    { w with now := w.now + ms }.Agrees locks := by
  intro i d alive
  have earlier : w.now < d := (Int.le_add_of_nonneg_right (Int.natCast_nonneg ms)).trans_lt alive
  exact agrees i d earlier

variable [DecidableEq ι]

omit [DecidableEq ι] in
@[simp] theorem call_agrees {c : Call ι} : (w.call n c).Agrees locks ↔ w.Agrees locks := Iff.rfl

@[simp] theorem flag_agrees {acquired : Bool} :
    (w.flag i acquired).Agrees locks ↔ w.Agrees locks := Iff.rfl

/-- Where nobody else holds the lock, one instance can be given it, or lose it, if the key
says the same of it and nothing of another. -/
theorem Agrees.assign (free : ∀ j, w.Holds j → j = i)
    {slot : Option (Entry ℤ String)} {until? : Option ℤ}
    (own : ∀ d, w.now < d →
      (until? = some d ↔ slot = some ⟨(locks i).lockValue, some d⟩))
    (others : ∀ j, j ≠ i → ∀ d, slot ≠ some ⟨(locks j).lockValue, some d⟩) :
    ({ w with slot }.hold i until?).Agrees locks := by
  intro j d alive
  by_cases same : j = i
  · subst same
    simpa only [hold, Function.update_self] using own d alive
  · simp only [hold, Function.update_of_ne same, others j same d, iff_false]
    exact fun held => same (free j ⟨d, held, alive⟩)

variable (distinct : Function.Injective fun i => (locks i).lockValue)
include distinct

theorem Agrees.set (agrees : w.Agrees locks) : (w.set (locks i) i).1.Agrees locks := by
  unfold World.set
  split
  · cases found : live w.now w.slot with
    | some e => simpa only [setNx_of_live found] using agrees
    | none =>
      simp only [setNx_of_absent found]
      refine Agrees.assign (fun j holds => ?_) (fun d alive => ?_) (fun j other d same => ?_)
      · have has := agrees.has holds
        simp [Has, found] at has
      · simp
      · simp only [Option.some.injEq, Entry.mk.injEq] at same
        exact other (distinct same.1).symm
  · exact agrees

omit [DecidableEq ι] in
theorem Agrees.sole (agrees : w.Agrees locks) (has : Has w.now w.slot (locks i).lockValue)
    (j : ι) (holds : w.Holds j) : j = i :=
  distinct ((agrees.has holds).unique has)

theorem Agrees.delete (agrees : w.Agrees locks) : (w.delete (locks i) i).1.Agrees locks := by
  by_cases has : Has w.now w.slot (locks i).lockValue
  · simp only [World.delete, compareDelete, if_pos has]
    refine Agrees.assign (agrees.sole distinct has) (fun d alive => ?_) (fun j other d same => ?_)
    · simp
    · cases same
  · simp only [World.delete, compareDelete, if_neg has]
    intro j d alive
    by_cases same : j = i
    · subst same
      simp only [hold, Function.update_self, reduceCtorEq, false_iff]
      intro stored
      exact has (has_of_live (live_eq_some.mpr ⟨stored, alive_some.mpr alive⟩))
    · simpa only [hold, Function.update_of_ne same] using agrees j d alive

theorem Agrees.expire (agrees : w.Agrees locks) (ttl : ℤ) :
    (w.expire (locks i) i ttl).1.Agrees locks := by
  by_cases has : Has w.now w.slot (locks i).lockValue
  · simp only [World.expire, compareExpire, if_pos has]
    refine Agrees.assign (agrees.sole distinct has) (fun d alive => ?_) (fun j other d same => ?_)
    · simp
    · simp only [Option.some.injEq, Entry.mk.injEq] at same
      exact other (distinct same.1).symm
  · simpa only [World.expire, compareExpire, if_neg has] using agrees

end World

variable [DecidableEq ι] (distinct : Function.Injective fun i => (locks i).lockValue)
include distinct

theorem Agrees.step {a : Action ι} (agrees : w.Agrees locks) (taken : step locks w a = some v) :
    v.Agrees locks := by
  cases a with
  | tick ms =>
    cases taken
    exact agrees.tick ms
  | acquire n i | release n i | extend n i additionalTtl =>
    simp only [Lock.step] at taken
    split at taken
    · cases taken
      exact agrees
    · cases taken
  | execute n =>
    simp only [Lock.step] at taken
    split at taken
    · cases taken
      exact agrees.set distinct
    · cases taken
      exact agrees.delete distinct
    · cases taken
      exact agrees.expire distinct _
    · cases taken
  | resume n =>
    simp only [Lock.step] at taken
    split at taken
    all_goals cases taken
    all_goals exact agrees

namespace World

omit [DecidableEq ι] in
theorem value_ne (other : j ≠ i) : (locks j).lockValue ≠ (locks i).lockValue :=
  fun same => other (distinct same)

theorem delete_other (other : j ≠ i) :
    (w.delete (locks i) i).1.lockOf locks j = w.lockOf locks j ∧
      (w.delete (locks i) i).1.held j = w.held j := by
  refine ⟨bearing_compareDelete (value_ne distinct other), ?_⟩
  simp only [World.delete, hold, Function.update_of_ne other]

theorem expire_other (other : j ≠ i) (ttl : ℤ) :
    (w.expire (locks i) i ttl).1.lockOf locks j = w.lockOf locks j ∧
      (w.expire (locks i) i ttl).1.held j = w.held j := by
  have kept : bearing w.now
      (compareExpire w.now w.slot (locks i).lockValue (w.now + 1000 * ttl)).1 (locks j).lockValue =
      bearing w.now w.slot (locks j).lockValue :=
    bearing_compareExpire (value_ne distinct other)
  by_cases has : Has w.now w.slot (locks i).lockValue
  · simp only [compareExpire, if_pos has] at kept
    simp only [World.expire, compareExpire, if_pos has]
    exact ⟨kept, Function.update_of_ne other _ w.held⟩
  · simp only [World.expire, compareExpire, if_neg has, and_self]

theorem step_other {a : Action ι} (acts : w.releasesOrExtends a = some i)
    (taken : step locks w a = some v) (other : j ≠ i) :
    v.lockOf locks j = w.lockOf locks j ∧ v.held j = w.held j := by
  cases a with
  | tick ms | acquire n k => cases acts
  | release n k | extend n k additionalTtl =>
    simp only [Lock.step] at taken
    split at taken
    · cases taken
      exact ⟨rfl, rfl⟩
    · cases taken
  | execute n =>
    simp only [releasesOrExtends] at acts
    simp only [Lock.step] at taken
    split at acts
    all_goals simp only [Option.some.injEq, reduceCtorEq] at acts
    all_goals simp only [*, Option.some.injEq, reduceCtorEq] at taken
    · cases taken
      subst acts
      exact delete_other distinct other
    · cases taken
      subst acts
      exact expire_other distinct other _
  | resume n =>
    simp only [Lock.step] at taken
    split at taken
    all_goals cases taken
    all_goals exact ⟨rfl, rfl⟩

end World

/-- In every run no two instances hold the lock, and what one of them releases or extends,
early or late, is never the lock of another. -/
theorem lock_safety {now : ℤ} {actions : List (Action ι)}
    (reached : run (step locks) (World.initial now) actions = some w) :
    (∀ i j, w.Holds i → w.Holds j → i = j) ∧
      ∀ a i v, w.releasesOrExtends a = some i → step locks w a = some v →
        ∀ j, j ≠ i → v.lockOf locks j = w.lockOf locks j ∧ v.held j = w.held j := by
  have agrees : w.Agrees locks :=
    run_preserves (fun held taken => Agrees.step distinct held taken)
      (World.Agrees.initial now) reached
  refine ⟨fun i j first second => agrees.unique distinct first second, ?_⟩
  intro a i v acts taken j other
  exact World.step_other distinct acts taken other

end Safety

section LateRelease

def pair (second : Bool) : DistributedLock := ⟨if second then "b" else "a", 30, 3⟩

/-- The first lock expires; its release is executed when the second is held. -/
def lateRelease : List (Action Bool) :=
  [.acquire 0 false, .execute 0, .resume 0, .release 1 false, .tick 30000,
    .acquire 2 true, .execute 2, .execute 1, .resume 2]

theorem lock_safety_lateRelease :
    ∃ w, run (step pair) (World.initial 0) lateRelease = some w ∧ w.Holds true ∧
      ∀ i j, w.Holds i → w.Holds j → i = j := by
  have distinct : Function.Injective fun i => (pair i).lockValue := by
    rintro (_ | _) (_ | _) same
    all_goals simp [pair] at same ⊢
  have reached : run (step pair) (World.initial 0) lateRelease = some _ := rfl
  exact ⟨_, reached, ⟨60000, rfl, by decide⟩, (lock_safety distinct reached).1⟩

end LateRelease

end Deeting.Lock
