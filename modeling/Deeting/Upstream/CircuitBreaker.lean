import Deeting.Transition
import Mathlib.Data.Rat.Floor
import Mathlib.Logic.Function.Basic

/-! The circuit breaker of `UpstreamCallStep`: one hash of Redis, which every upstream call
reads before it starts and again when it reports, each time computing the next state from
what it read and writing it back. A `read`, a `write` and an `expire` are one command each;
between them the other calls run. What the calls promise is counted beside the hash. -/
namespace Deeting.Upstream
open Transition

structure Settings where
  failureThreshold : ℕ
  resetSeconds : ℕ
  halfOpenSuccess : ℕ

inductive State where
  | closed
  | opened
  | halfOpen
  deriving DecidableEq, Repr

structure Circuit where
  failures : ℕ
  state : State
  openedAt : ℚ
  successCount : ℕ
  deriving DecidableEq, Repr

def Circuit.default : Circuit := ⟨0, .closed, 0, 0⟩

inductive Operation where
  | isCircuitOpen
  | markFailure
  | markSuccess
  deriving DecidableEq, Repr

section Operations
variable (c : Settings) (now : ℚ) (read : Circuit)

def isOpen : Bool :=
  read.state = .opened ∧ ¬ c.resetSeconds < now - read.openedAt

def halfOpened : Option Circuit :=
  if read.state = .opened ∧ c.resetSeconds < now - read.openedAt then
    some { read with state := .halfOpen, successCount := 0 }
  else none

def failed : Circuit :=
  let counted := { read with failures := read.failures + 1 }
  if counted.state = .halfOpen then { counted with state := .opened, openedAt := now }
  else if c.failureThreshold ≤ counted.failures then
    { counted with state := .opened, openedAt := now }
  else counted

def succeeded : Circuit :=
  if read.state = .halfOpen then
    let counted := { read with successCount := read.successCount + 1 }
    if c.halfOpenSuccess ≤ counted.successCount then Circuit.default else counted
  else { read with failures := 0 }

def Operation.result : Operation → Option Circuit
  | .isCircuitOpen => halfOpened c now read
  | .markFailure => some (failed c now read)
  | .markSuccess => some (succeeded c read)

end Operations

/-- How far an operation has come; what it read is kept beside what it will write. -/
inductive Phase where
  | reading
  | computing (read : Circuit)
  | writing (read result : Circuit)
  | expiring

/-- A stream reports its success twice and does not wait for the upstream; `again` is the
report that still follows. -/
inductive Control where
  | running (op : Operation) (phase : Phase) (again : Bool)
  | blocked
  | admitted
  | upstream
  | finished

/-- `startedIn` is the half-open period the call was let through in, `answer` whether the
upstream has answered it well. -/
structure Call where
  control : Control
  startedIn : Option ℕ
  answer : Option Bool

/-- `streak` counts the failures reported since the last success or reset, `era` the
half-open periods, and `counted` are the calls whose success was counted in this one. -/
structure Breaker where
  now : ℚ
  stored : Option Circuit
  expireAt : Option ℚ
  call : ℕ → Call
  streak : ℕ
  era : ℕ
  counted : List ℕ

inductive Action where
  | tick (later : ℚ)
  | read (n : ℕ)
  | compute (n : ℕ)
  | write (n : ℕ)
  | expire (n : ℕ)
  | submit (n : ℕ) (stream : Bool)
  | answer (n : ℕ) (ok : Bool)

namespace Breaker

def initial : Breaker where
  now := 0
  stored := none
  expireAt := none
  call _ := ⟨.running .isCircuitOpen .reading false, none, none⟩
  streak := 0
  era := 0
  counted := []

def circuit (b : Breaker) : Circuit := b.stored.getD Circuit.default

def lapses (b : Breaker) (later : ℚ) : Bool := b.expireAt.any (· ≤ later)

def setCall (b : Breaker) (n : ℕ) (call : Call) : Breaker :=
  { b with call := Function.update b.call n call }

def tick (b : Breaker) (later : ℚ) : Breaker :=
  if b.lapses later then { b with now := later, stored := none, expireAt := none }
  else { b with now := later }

def read (b : Breaker) (n : ℕ) (op : Operation) (again : Bool) : Breaker :=
  let call := { b.call n with control := .running op (.computing b.circuit) again }
  b.setCall n <|
    if op = .isCircuitOpen then
      { call with startedIn := if b.circuit.state = .halfOpen then some b.era else none }
    else call

def compute (c : Settings) (b : Breaker) (n : ℕ) (op : Operation) (read : Circuit)
    (again : Bool) : Breaker :=
  b.setCall n { b.call n with
    control :=
      match op.result c b.now read with
      | some result => .running op (.writing read result) again
      | none => if isOpen c b.now read then .blocked else .admitted }

/-- `HSET`, which leaves the time to live of the key alone. -/
def write (b : Breaker) (n : ℕ) (op : Operation) (result : Circuit) (again : Bool) :
    Breaker :=
  let call := { b.call n with control := .running op .expiring again }
  let stored := { b with stored := some result }
  match op with
  | .isCircuitOpen =>
      let era := if b.circuit.state = .halfOpen then b.era else b.era + 1
      { stored.setCall n { call with startedIn := some era } with
        era
        counted := [] }
  | .markFailure => { stored.setCall n call with streak := b.streak + 1 }
  | .markSuccess =>
      { stored.setCall n call with
        streak := 0
        counted := if b.circuit.state = .halfOpen then b.counted ++ [n] else b.counted }

def expire (c : Settings) (b : Breaker) (n : ℕ) (op : Operation) (again : Bool) : Breaker :=
  { b.setCall n { b.call n with
      control :=
        if op = .isCircuitOpen then .admitted
        else if again then .running op .reading false
        else .finished } with
    expireAt := b.stored.map fun _ => b.now + c.resetSeconds * 2 }

def submit (b : Breaker) (n : ℕ) (stream : Bool) : Breaker :=
  b.setCall n { b.call n with
    control := if stream then .running .markSuccess .reading true else .upstream }

end Breaker

def step (c : Settings) (b : Breaker) : Action → Option Breaker
  | .tick later => if b.now ≤ later then some (b.tick later) else none
  | .read n =>
    match (b.call n).control with
    | .running op .reading again => some (b.read n op again)
    | _ => none
  | .compute n =>
    match (b.call n).control with
    | .running op (.computing read) again => some (b.compute c n op read again)
    | _ => none
  | .write n =>
    match (b.call n).control with
    | .running op (.writing _ result) again => some (b.write n op result again)
    | _ => none
  | .expire n =>
    match (b.call n).control with
    | .running op .expiring again => some (b.expire c n op again)
    | _ => none
  | .submit n stream =>
    match (b.call n).control with
    | .admitted => some (b.submit n stream)
    | _ => none
  | .answer n ok =>
    if (b.call n).answer = none then
      match (b.call n).control with
      | .upstream =>
        some (b.setCall n { b.call n with
          control := .running (if ok then .markSuccess else .markFailure) .reading false
          answer := some ok })
      | .running .markSuccess .. | .finished =>
        some (b.setCall n { b.call n with answer := some ok })
      | _ => none
    else none

namespace Breaker

def ReportsFailure (b : Breaker) (a : Action) : Prop :=
  ∃ n read result again, a = .write n ∧
    (b.call n).control = .running .markFailure (.writing read result) again

/-- Writing a state computed from an older one does no harm when an open circuit is opened
again, or a half-open one made half-open again. -/
def Repeats (b : Breaker) (op : Operation) (result : Circuit) : Prop :=
  (b.circuit.state = .opened ∧ result.state = .opened ∧ b.circuit.openedAt ≤ result.openedAt) ∨
  (op = .isCircuitOpen ∧ b.circuit.state = .halfOpen)

/-- The state to be written was computed from the stored one, or repeats it; a success
counted in a half-open period is the first of a call let through in it that has succeeded;
and the key does not lapse with anything in it. -/
def Undisturbed (b : Breaker) : Action → Prop
  | .tick later =>
      b.lapses later = true → b.circuit.state = .closed ∧ b.circuit.failures = 0
  | .write n => ∀ op read result again,
      (b.call n).control = .running op (.writing read result) again →
      b.Repeats op result ∨ b.circuit = read ∧ (op = .markSuccess → read.state = .halfOpen →
        (b.call n).startedIn = some b.era ∧ (b.call n).answer = some true ∧ n ∉ b.counted)
  | _ => True

/-- What the breaker promises of a step from `b` to `t`. -/
structure Lawful (c : Settings) (b : Breaker) (a : Action) (t : Breaker) : Prop where
  leaves : b.circuit.state = .opened → t.circuit.state ≠ .opened →
    t.circuit.state = .halfOpen ∧ c.resetSeconds < t.now - b.circuit.openedAt
  closes : b.circuit.state ≠ .closed → t.circuit.state = .closed →
    b.circuit.state = .halfOpen ∧ ∃ calls : List ℕ, calls.Nodup ∧
      c.halfOpenSuccess ≤ calls.length ∧
      ∀ n ∈ calls, (t.call n).startedIn = some b.era ∧ (t.call n).answer = some true
  reopens : b.ReportsFailure a → b.circuit.state = .halfOpen → t.circuit.state = .opened
  counts : b.circuit.state = .closed → b.circuit.failures = b.streak
  opens : b.ReportsFailure a → b.circuit.state = .closed →
    (t.circuit.state = .opened ↔ c.failureThreshold ≤ b.streak + 1)

end Breaker

section Operations
variable {c : Settings} {now : ℚ} {read result : Circuit}

theorem halfOpened_eq_some (written : halfOpened c now read = some result) :
    read.state = .opened ∧ c.resetSeconds < now - read.openedAt ∧ result.state = .halfOpen ∧
      result.successCount = 0 := by
  rw [halfOpened] at written
  split at written
  · rename_i waited
    cases written
    exact ⟨waited.1, waited.2, rfl, rfl⟩
  · cases written

theorem failed_failures : (failed c now read).failures = read.failures + 1 := by
  simp only [failed]
  split
  · rfl
  split <;> rfl

theorem failed_of_closed (closed : read.state = .closed) :
    (failed c now read).state = .opened ↔ c.failureThreshold ≤ read.failures + 1 := by
  simp only [failed, closed, reduceCtorEq, if_false]
  split <;> simp_all

theorem failed_of_not_closed (started : read.state ≠ .closed) :
    (failed c now read).state = .opened := by
  simp only [failed]
  cases state : read.state with
  | closed => exact absurd state started
  | opened => simp [apply_ite Circuit.state]
  | halfOpen => simp

theorem failed_state_ne : (failed c now read).state ≠ .halfOpen := by
  intro trying
  by_cases closed : read.state = .closed
  · simp only [failed, closed, reduceCtorEq, if_false] at trying
    split at trying
    · cases trying
    · cases trying
  · rw [failed_of_not_closed closed] at trying
    cases trying

theorem succeeded_of_halfOpen (trying : read.state = .halfOpen) :
    (c.halfOpenSuccess ≤ read.successCount + 1 ∧ succeeded c read = Circuit.default) ∨
    (succeeded c read).state = .halfOpen ∧
      (succeeded c read).successCount = read.successCount + 1 := by
  simp only [succeeded, trying, if_true]
  split
  · exact .inl ⟨‹_›, rfl⟩
  · exact .inr ⟨rfl, rfl⟩

theorem succeeded_of_ne (settled : read.state ≠ .halfOpen) :
    succeeded c read = { read with failures := 0 } :=
  if_neg settled

end Operations

/-- A state waiting to be written was computed from the one kept beside it, and no call
has an answer before it is let through. -/
structure InOrder (c : Settings) (now : ℚ) (call : ℕ → Call) : Prop where
  computed : ∀ n op read result again,
    (call n).control = .running op (.writing read result) again →
    ∃ seen, seen ≤ now ∧ op.result c seen read = some result
  unanswered : ∀ n phase again,
    (call n).control = .running .isCircuitOpen phase again → (call n).answer = none

structure Exact (c : Settings) (b : Breaker) : Prop where
  calls : InOrder c b.now b.call
  halfOpen : b.circuit.state = .halfOpen → b.circuit.successCount = b.counted.length ∧
    b.counted.Nodup ∧ ∀ n ∈ b.counted,
      (b.call n).startedIn = some b.era ∧ (b.call n).answer = some true
  closed : b.circuit.state = .closed → b.circuit.failures = b.streak

section Runs
variable {c : Settings} {b t : Breaker} {n : ℕ} {now future : ℚ} {call : ℕ → Call} {next : Call}

theorem InOrder.later (calls : InOrder c now call) (forward : now ≤ future) :
    InOrder c future call := by
  constructor
  · intro n op read result again waiting
    obtain ⟨seen, past, computed⟩ := calls.computed n op read result again waiting
    exact ⟨seen, past.trans forward, computed⟩
  · exact calls.unanswered

theorem InOrder.update (calls : InOrder c now call)
    (computed : ∀ op read result again, next.control = .running op (.writing read result) again →
      ∃ seen, seen ≤ now ∧ op.result c seen read = some result)
    (unanswered : ∀ phase again, next.control = .running .isCircuitOpen phase again →
      next.answer = none) : InOrder c now (Function.update call n next) := by
  constructor
  · intro m
    by_cases same : m = n
    · subst same
      simpa only [Function.update_self] using computed
    · simpa only [Function.update_of_ne same] using calls.computed m
  · intro m
    by_cases same : m = n
    · subst same
      simpa only [Function.update_self] using unanswered
    · simpa only [Function.update_of_ne same] using calls.unanswered m

theorem Exact.setCall (exact : Exact c b)
    (calls : InOrder c b.now (Function.update b.call n next))
    (kept : (b.call n).answer = some true →
      next.startedIn = (b.call n).startedIn ∧ next.answer = some true) :
    Exact c (b.setCall n next) := by
  constructor
  · exact calls
  · intro trying
    obtain ⟨count, once, good⟩ := exact.halfOpen trying
    refine ⟨count, once, fun m counted => ?_⟩
    obtain ⟨started, answered⟩ := good m counted
    by_cases same : m = n
    · subst same
      simpa [Breaker.setCall, (kept answered).1, (kept answered).2] using started
    · simpa [Breaker.setCall, same] using And.intro started answered
  · exact exact.closed

variable {op : Operation} {again : Bool} {found result : Circuit}

theorem Exact.tick (exact : Exact c b) (forward : b.now ≤ future)
    (kept : b.lapses future = true → b.circuit.state = .closed ∧ b.circuit.failures = 0) :
    Exact c (b.tick future) := by
  rw [Breaker.tick]
  split
  · obtain ⟨closed, none⟩ := kept ‹_›
    constructor
    · exact exact.calls.later forward
    · intro trying
      cases trying
    · intro _
      exact none.symm.trans (exact.closed closed)
  · exact ⟨exact.calls.later forward, exact.halfOpen, exact.closed⟩

theorem Exact.read (exact : Exact c b) (reading : (b.call n).control = .running op .reading again) :
    Exact c (b.read n op again) := by
  rw [Breaker.read]
  apply exact.setCall
  · apply exact.calls.update
    · intro op' read result again' waiting
      split at waiting <;> cases waiting
    · intro phase again' running
      by_cases gate : op = .isCircuitOpen
      · subst gate
        simpa using exact.calls.unanswered n _ _ reading
      · rw [if_neg gate] at running
        cases running
        exact absurd rfl gate
  · intro answered
    split
    · rename_i gate
      subst gate
      rw [exact.calls.unanswered n _ _ reading] at answered
      cases answered
    · exact ⟨rfl, answered⟩

theorem Exact.compute (exact : Exact c b)
    (computing : (b.call n).control = .running op (.computing found) again) :
    Exact c (b.compute c n op found again) := by
  rw [Breaker.compute]
  apply exact.setCall
  · apply exact.calls.update
    · intro op' read' result again' waiting
      simp only at waiting
      split at waiting
      · rename_i computed
        cases waiting
        exact ⟨b.now, le_rfl, computed⟩
      · split at waiting <;> cases waiting
    · intro phase again' running
      simp only at running
      split at running
      · cases running
        exact exact.calls.unanswered n _ _ computing
      · split at running <;> cases running
  · intro answered
    exact ⟨rfl, answered⟩

theorem Exact.expire (exact : Exact c b)
    (expiring : (b.call n).control = .running op .expiring again) :
    Exact c (b.expire c n op again) := by
  obtain ⟨calls, halfOpen, closed⟩ :
      Exact c (b.setCall n { b.call n with
        control :=
          if op = .isCircuitOpen then .admitted
          else if again then .running op .reading false
          else .finished }) := by
    apply exact.setCall
    · apply exact.calls.update
      · intro op' read result again' waiting
        split at waiting
        · cases waiting
        split at waiting <;> cases waiting
      · intro phase again' running
        split at running
        · cases running
        split at running
        · cases running
          exact absurd rfl ‹_›
        · cases running
    · intro answered
      exact ⟨rfl, answered⟩
  exact ⟨calls, halfOpen, closed⟩

theorem Exact.submit (exact : Exact c b) (stream : Bool) : Exact c (b.submit n stream) := by
  rw [Breaker.submit]
  apply exact.setCall
  · apply exact.calls.update
    · intro op read result again waiting
      cases stream <;> cases waiting
    · intro phase again running
      cases stream <;> cases running
  · intro answered
    exact ⟨rfl, answered⟩

theorem Exact.answer (exact : Exact c b) (unanswered : (b.call n).answer = none)
    (computed : ∀ op read result again, next.control = .running op (.writing read result) again →
      ∃ seen, seen ≤ b.now ∧ op.result c seen read = some result)
    (through : ∀ phase again, next.control ≠ .running .isCircuitOpen phase again) :
    Exact c (b.setCall n next) := by
  apply exact.setCall
  · exact exact.calls.update computed fun phase again running => absurd running (through _ _)
  · intro answered
    rw [unanswered] at answered
    cases answered

theorem InOrder.written (calls : InOrder c now call)
    (writing : (call n).control = .running op (.writing found result) again)
    (same : next.answer = (call n).answer) (expiring : next.control = .running op .expiring again) :
    InOrder c now (Function.update call n next) := by
  apply calls.update
  · intro op' read result again' waiting
    rw [expiring] at waiting
    cases waiting
  · intro phase again' running
    rw [expiring] at running
    cases running
    rw [same]
    exact calls.unanswered n _ _ writing

theorem not_reportsFailure (other : op ≠ .markFailure)
    (writing : (b.call n).control = .running op (.writing found result) again) :
    ¬ b.ReportsFailure (.write n) := by
  rintro ⟨m, read, result', again', same, reporting⟩
  cases same
  rw [writing] at reporting
  cases reporting
  exact other rfl

theorem Exact.lawful_of_same {a : Action} (exact : Exact c b) (silent : ¬ b.ReportsFailure a)
    (same : t.circuit.state = b.circuit.state) : b.Lawful c a t := by
  constructor
  · intro opened left
    exact absurd (same.trans opened) left
  · intro started closed
    exact absurd (same.symm.trans closed) started
  · intro reports
    exact absurd reports silent
  · exact exact.closed
  · intro reports
    exact absurd reports silent

theorem Exact.writeGate (exact : Exact c b)
    (writing : (b.call n).control = .running .isCircuitOpen (.writing found result) again)
    (undisturbed : b.Undisturbed (.write n)) :
    Exact c (b.write n .isCircuitOpen result again) ∧
      b.Lawful c (.write n) (b.write n .isCircuitOpen result again) := by
  obtain ⟨seen, past, computed⟩ := exact.calls.computed _ _ _ _ _ writing
  obtain ⟨opened, waited, trying, none⟩ := halfOpened_eq_some computed
  have silent : ¬ b.ReportsFailure (.write n) := not_reportsFailure (by decide) writing
  constructor
  · constructor
    · exact exact.calls.written writing rfl rfl
    · intro _
      exact ⟨none, List.nodup_nil, nofun⟩
    · intro closed
      cases trying.symm.trans closed
  · constructor
    · intro blocked _
      refine ⟨trying, ?_⟩
      obtain (⟨_, still, _⟩ | ⟨_, already⟩) | ⟨fresh, _⟩ := undisturbed _ _ _ _ writing
      · cases trying.symm.trans still
      · cases blocked.symm.trans already
      · rw [fresh]
        exact waited.trans_le (sub_le_sub_right past _)
    · intro _ closed
      cases trying.symm.trans closed
    · intro reports
      exact absurd reports silent
    · exact exact.closed
    · intro reports
      exact absurd reports silent

theorem Exact.writeFailure (exact : Exact c b)
    (writing : (b.call n).control = .running .markFailure (.writing found result) again)
    (undisturbed : b.Undisturbed (.write n)) :
    Exact c (b.write n .markFailure result again) ∧
      b.Lawful c (.write n) (b.write n .markFailure result again) := by
  obtain ⟨seen, past, computed⟩ := exact.calls.computed _ _ _ _ _ writing
  cases computed
  -- a failure opens the circuit unless it finds it closed
  have opens (started : b.circuit.state ≠ .closed) : (failed c seen found).state = .opened := by
    obtain (⟨_, still, _⟩ | ⟨gate, _⟩) | ⟨fresh, _⟩ := undisturbed _ _ _ _ writing
    · exact still
    · cases gate
    · exact failed_of_not_closed (fresh ▸ started)
  have fresh (closed : b.circuit.state = .closed) : b.circuit = found := by
    obtain (⟨opened, _⟩ | ⟨gate, _⟩) | ⟨fresh, _⟩ := undisturbed _ _ _ _ writing
    · cases closed.symm.trans opened
    · cases gate
    · exact fresh
  constructor
  · constructor
    · exact exact.calls.written writing rfl rfl
    · intro trying
      exact absurd trying failed_state_ne
    · intro closed
      have before : b.circuit.state = .closed := by
        by_contra started
        cases (opens started).symm.trans closed
      have counted : b.circuit.failures = b.streak := exact.closed before
      rw [fresh before] at counted
      change (failed c seen found).failures = b.streak + 1
      rw [failed_failures, counted]
  · constructor
    · intro opened left
      exact absurd (opens (by rw [opened]; nofun)) left
    · intro started closed
      cases (opens started).symm.trans closed
    · intro _ trying
      exact opens (by rw [trying]; nofun)
    · exact exact.closed
    · intro _ closed
      have counted : b.circuit.failures = b.streak := exact.closed closed
      have same := fresh closed
      rw [same] at closed counted
      rw [← counted]
      exact failed_of_closed closed

theorem write_kept (b : Breaker) (n m : ℕ) (result : Circuit) (again : Bool)
    (gate : op ≠ .isCircuitOpen) :
    ((b.write n op result again).call m).startedIn = (b.call m).startedIn ∧
      ((b.write n op result again).call m).answer = (b.call m).answer := by
  cases op with
  | isCircuitOpen => exact absurd rfl gate
  | markFailure =>
    by_cases same : m = n
    · subst same
      simp [Breaker.write, Breaker.setCall]
    · simp [Breaker.write, Breaker.setCall, same]
  | markSuccess =>
    by_cases same : m = n
    · subst same
      simp [Breaker.write, Breaker.setCall]
    · simp [Breaker.write, Breaker.setCall, same]

theorem Exact.countedMore (exact : Exact c b) (result : Circuit) (again : Bool)
    (trying : b.circuit.state = .halfOpen)
    (started : (b.call n).startedIn = some b.era) (answered : (b.call n).answer = some true)
    (new : n ∉ b.counted) :
    (b.counted ++ [n]).Nodup ∧ ∀ m ∈ b.counted ++ [n],
      ((b.write n .markSuccess result again).call m).startedIn = some b.era ∧
        ((b.write n .markSuccess result again).call m).answer = some true := by
  obtain ⟨_, once, good⟩ := exact.halfOpen trying
  constructor
  · rw [List.nodup_append]
    refine ⟨once, List.pairwise_singleton _ n, fun m counted k this => ?_⟩
    rw [List.mem_singleton.mp this]
    exact fun same => new (same ▸ counted)
  · intro m mem
    obtain ⟨start, answer⟩ := write_kept b n m result again (by decide : Operation.markSuccess ≠ .isCircuitOpen)
    rw [start, answer]
    rcases List.mem_append.mp mem with earlier | this
    · exact good m earlier
    · rw [List.mem_singleton.mp this]
      exact ⟨started, answered⟩

theorem Exact.countSuccess (exact : Exact c b) (trying : b.circuit.state = .halfOpen)
    (calls : InOrder c b.now (b.write n .markSuccess (succeeded c b.circuit) again).call)
    (silent : ¬ b.ReportsFailure (.write n)) (started : (b.call n).startedIn = some b.era)
    (answered : (b.call n).answer = some true) (new : n ∉ b.counted) :
    Exact c (b.write n .markSuccess (succeeded c b.circuit) again) ∧
      b.Lawful c (.write n) (b.write n .markSuccess (succeeded c b.circuit) again) := by
  obtain ⟨count, _, _⟩ := exact.halfOpen trying
  obtain ⟨once, good⟩ :=
    exact.countedMore (succeeded c b.circuit) again trying started answered new
  obtain ⟨enough, reset⟩ | ⟨still, another⟩ := succeeded_of_halfOpen (c := c) trying
  · constructor
    · constructor
      · exact calls
      · intro again
        cases (congrArg Circuit.state reset).symm.trans again
      · intro _
        exact congrArg Circuit.failures reset
    · constructor
      · intro opened
        cases trying.symm.trans opened
      · intro _ _
        refine ⟨trying, b.counted ++ [n], once, ?_, good⟩
        rwa [List.length_append, List.length_singleton, ← count]
      · intro reports
        exact absurd reports silent
      · exact exact.closed
      · intro reports
        exact absurd reports silent
  · constructor
    · constructor
      · exact calls
      · intro _
        simp only [Breaker.write, if_pos trying]
        refine ⟨?_, once, good⟩
        rw [List.length_append, List.length_singleton, ← count]
        exact another
      · intro closed
        cases still.symm.trans closed
    · exact exact.lawful_of_same silent (still.trans trying.symm)

theorem Exact.writeSuccess (exact : Exact c b)
    (writing : (b.call n).control = .running .markSuccess (.writing found result) again)
    (undisturbed : b.Undisturbed (.write n)) :
    Exact c (b.write n .markSuccess result again) ∧
      b.Lawful c (.write n) (b.write n .markSuccess result again) := by
  obtain ⟨seen, past, computed⟩ := exact.calls.computed _ _ _ _ _ writing
  cases computed
  have silent : ¬ b.ReportsFailure (.write n) := not_reportsFailure (by decide) writing
  have calls : InOrder c b.now (b.write n .markSuccess (succeeded c found) again).call :=
    exact.calls.written writing rfl rfl
  obtain (⟨opened, still, _⟩ | ⟨gate, _⟩) | ⟨fresh, counts⟩ := undisturbed _ _ _ _ writing
  · constructor
    · constructor
      · exact calls
      · intro trying
        cases still.symm.trans trying
      · intro closed
        cases still.symm.trans closed
    · exact exact.lawful_of_same silent (still.trans opened.symm)
  · cases gate
  subst fresh
  by_cases trying : b.circuit.state = .halfOpen
  · obtain ⟨started, answered, new⟩ := counts rfl trying
    exact exact.countSuccess trying calls silent started answered new
  · have kind : (succeeded c b.circuit).state = b.circuit.state := by
      rw [succeeded_of_ne trying]
    constructor
    · constructor
      · exact calls
      · intro halfOpen
        exact absurd (kind.symm.trans halfOpen) trying
      · intro _
        change (succeeded c b.circuit).failures = 0
        rw [succeeded_of_ne trying]
    · exact exact.lawful_of_same silent kind

theorem Exact.step {a : Action} (exact : Exact c b) (undisturbed : b.Undisturbed a)
    (taken : Upstream.step c b a = some t) : Exact c t ∧ b.Lawful c a t := by
  have quiet (other : ∀ n, a ≠ .write n) : ¬ b.ReportsFailure a := by
    rintro ⟨n, _, _, _, same, _⟩
    exact other n same
  cases a with
  | tick future =>
    simp only [Upstream.step] at taken
    split at taken <;> cases taken
    refine ⟨exact.tick ‹_› undisturbed, exact.lawful_of_same (quiet nofun) ?_⟩
    rw [Breaker.tick]
    split
    · exact (undisturbed ‹_›).1.symm
    · rfl
  | read n =>
    simp only [Upstream.step] at taken
    split at taken <;> cases taken
    exact ⟨exact.read ‹_›, exact.lawful_of_same (quiet nofun) rfl⟩
  | compute n =>
    simp only [Upstream.step] at taken
    split at taken <;> cases taken
    exact ⟨exact.compute ‹_›, exact.lawful_of_same (quiet nofun) rfl⟩
  | write n =>
    simp only [Upstream.step] at taken
    split at taken <;> cases taken
    rename_i op found result again writing
    cases op with
    | isCircuitOpen => exact exact.writeGate writing undisturbed
    | markFailure => exact exact.writeFailure writing undisturbed
    | markSuccess => exact exact.writeSuccess writing undisturbed
  | expire n =>
    simp only [Upstream.step] at taken
    split at taken <;> cases taken
    exact ⟨exact.expire ‹_›, exact.lawful_of_same (quiet nofun) rfl⟩
  | submit n stream =>
    simp only [Upstream.step] at taken
    split at taken <;> cases taken
    exact ⟨exact.submit stream, exact.lawful_of_same (quiet nofun) rfl⟩
  | answer n ok =>
    simp only [Upstream.step] at taken
    split at taken
    · rename_i unanswered
      split at taken <;> cases taken
      · refine ⟨exact.answer unanswered ?_ ?_, exact.lawful_of_same (quiet nofun) rfl⟩
        · intro op found result again waiting
          cases waiting
        · intro phase again
          cases ok <;> nofun
      · rename_i marking
        refine ⟨exact.answer unanswered ?_ ?_, exact.lawful_of_same (quiet nofun) rfl⟩
        · exact exact.calls.computed n
        · intro phase again running
          cases marking.symm.trans running
      · rename_i finished
        refine ⟨exact.answer unanswered ?_ ?_, exact.lawful_of_same (quiet nofun) rfl⟩
        · exact exact.calls.computed n
        · intro phase again running
          cases finished.symm.trans running
    · cases taken

theorem exact_initial : Exact c Breaker.initial := by
  constructor
  · constructor
    · intro n op read result again waiting
      cases waiting
    · intro n phase again _
      rfl
  · intro trying
    cases trying
  · intro _
    rfl

end Runs

/-- Every step of an undisturbed run keeps what the breaker promises. -/
theorem circuit_lawful (c : Settings) (actions : List Action)
    (undisturbed : Along (step c) Breaker.Undisturbed .initial actions) :
    Along (step c) (fun b a => ∀ t, step c b a = some t → b.Lawful c a t) .initial actions := by
  refine along_of_invariant (P := Exact c) ?_ ?_ exact_initial undisturbed
  · intro b a t exact undisturbed taken
    exact (exact.step undisturbed taken).1
  · intro b a exact undisturbed t taken
    exact (exact.step undisturbed taken).2

def defaults : Settings := ⟨5, 30, 2⟩

def oneFailure : List Action :=
  [.read 0, .compute 0, .submit 0 false, .answer 0 false, .read 0, .compute 0, .write 0,
    .expire 0]

theorem oneFailure_undisturbed :
    Along (step defaults) Breaker.Undisturbed .initial oneFailure := by
  iterate 6 refine (along_cons_of_step rfl).mpr ⟨trivial, ?_⟩
  refine (along_cons_of_step rfl).mpr ⟨?_, ?_⟩
  · intro op read result again writing
    cases writing
    exact .inr ⟨rfl, nofun⟩
  · exact (along_cons_of_step rfl).mpr ⟨trivial, trivial⟩

theorem circuit_lawful_oneFailure :
    Along (step defaults) (fun b a => ∀ t, step defaults b a = some t → b.Lawful defaults a t)
      .initial oneFailure :=
  circuit_lawful defaults oneFailure oneFailure_undisturbed

/-- Two failing calls report at the same time: both read the count before either writes. -/
def twoFailures : List Action :=
  [.read 0, .compute 0, .read 1, .compute 1, .submit 0 false, .submit 1 false,
    .answer 0 false, .answer 1 false, .read 0, .read 1, .compute 0, .compute 1,
    .write 0, .write 1]

theorem concurrent_failure_lost :
    (∃ b, run (step defaults) .initial twoFailures = some b ∧
      b.circuit.state = .closed ∧ b.streak = 2 ∧ b.circuit.failures = 1) ∧
    ¬ Along (step defaults)
      (fun b a => ∀ t, step defaults b a = some t → b.Lawful defaults a t)
      .initial (twoFailures ++ [.tick 0]) := by
  have lost : ∃ b, run (step defaults) .initial twoFailures = some b ∧ b.now = 0 ∧
      b.circuit.state = .closed ∧ b.streak = 2 ∧ b.circuit.failures = 1 :=
    ⟨_, rfl, rfl, by decide, rfl, by decide⟩
  obtain ⟨b, reached, start, closed, reported, counted⟩ := lost
  refine ⟨⟨b, reached, closed, reported, counted⟩, fun lawful => ?_⟩
  obtain ⟨last, _⟩ := (along_append lawful).2 b reached
  have same : b.circuit.failures = b.streak := (last _ (if_pos start.le)).counts closed
  rw [counted, reported] at same
  cases same

end Deeting.Upstream
