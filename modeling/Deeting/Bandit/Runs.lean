import Deeting.Bandit.Feedback
import Deeting.Transition
import Mathlib.Logic.Function.Basic

/-! `BanditRepository` on one arm. `record_feedback` reads the row, commits the changed
object, reads it again, publishes a cache version and fills the cache; `get_states_map`
reads by version. Each statement and each command of Redis is a step, and between them
the other calls run. A session keeps the objects it has loaded (`expire_on_commit` is off),
and a `SELECT` gives them back as they are. -/
namespace Deeting.Bandit
open Transition

/-- A row as it was read, with the number of commits before. -/
structure Snapshot where
  row : Row
  commits : ℕ

structure Cached where
  version : ℕ
  state : Snapshot

/-- How far a `record_feedback` has come. The session may hold the row from an earlier
read, and then the `SELECT` does not load it again. -/
inductive Control where
  | idle (held : Option Snapshot)
  | inserting
  | inserted
  | bumping (state : Snapshot) (created : Bool)
  | caching (state : Snapshot) (created : Bool) (version : ℕ)
  | loaded (state : Snapshot)
  | committed
  | returned (state : Snapshot)
  | failed

/-- What a read of the cache or of the table gives; a cached value that is read without a
version is not unpacked, and gives an object of defaults. -/
inductive Served where
  | nothing
  | defaults
  | state (s : Snapshot)

inductive Reader where
  | idle
  | versioned (version : Option ℕ)
  | missing (version : Option ℕ)
  | filling (version : Option ℕ) (state : Snapshot)
  | served (version : Option ℕ) (answer : Served)

/-- The table, Redis and the calls. `committed` are the calls that have committed, in
order, `published` the number of commits when a version was published, and `held` the object
in the session of a reader. -/
structure Arm where
  row : Option Row
  version : ℕ
  cached : Option Cached
  call : ℕ → Control
  reader : ℕ → Reader
  held : ℕ → Option Snapshot
  committed : List ℕ
  published : ℕ → ℕ

inductive Action where
  | load (n : ℕ)
  | select (n : ℕ)
  | insert (n : ℕ)
  | commit (n : ℕ) (now : ℚ)
  | refresh (n : ℕ)
  | bump (n : ℕ)
  | fill (n : ℕ)
  | hold (r : ℕ)
  | getVersion (r : ℕ)
  | getCached (r : ℕ)
  | selectRow (r : ℕ)
  | setCached (r : ℕ)
  | bumpOther
  | evict

namespace Arm

def initial (row : Option Row) (version : ℕ) : Arm where
  row
  version
  cached := none
  call _ := .idle none
  reader _ := .idle
  held _ := none
  committed := []
  published _ := 0

def snapshot (b : Arm) (row : Row) : Snapshot := ⟨row, b.committed.length⟩

def setCall (b : Arm) (n : ℕ) (control : Control) : Arm :=
  { b with call := Function.update b.call n control }

def setReader (b : Arm) (r : ℕ) (reader : Reader) : Arm :=
  { b with reader := Function.update b.reader r reader }

/-- The object that a `SELECT` of the row gives the reader. -/
def selected (b : Arm) (r : ℕ) (row : Row) : Snapshot := (b.held r).getD (b.snapshot row)

/-- `INCR` of the version key. -/
def bumpVersion (b : Arm) : Arm :=
  { b with
    version := b.version + 1
    published := Function.update b.published (b.version + 1) b.committed.length }

/-- `get_version`; a missing key is version `0`. -/
def getVersion (b : Arm) : Option ℕ := if b.version = 0 then none else some b.version

def getWithVersion (b : Arm) : Option ℕ → Served
  | none => if b.cached.isSome then .defaults else .nothing
  | some version =>
    match b.cached with
    | some cached => if cached.version = version then .state cached.state else .nothing
    | none => .nothing

end Arm

def step (feedback : ℕ → Feedback) (b : Arm) : Action → Option Arm
  | .load n =>
    match b.call n, b.row with
    | .idle none, some row => some (b.setCall n (.idle (some (b.snapshot row))))
    | _, _ => none
  | .select n =>
    match b.call n with
    | .idle held =>
      match b.row with
      | some row => some (b.setCall n (.loaded (held.getD (b.snapshot row))))
      | none => some (b.setCall n .inserting)
    | _ => none
  | .insert n =>
    match b.call n with
    | .inserting =>
      match b.row with
      | some _ => some (b.setCall n .failed)
      | none => some { b.setCall n .inserted with row := some .empty }
    | _ => none
  | .commit n now =>
    match b.call n, b.row with
    | .loaded state, some row =>
      some { b.setCall n .committed with
        row := some (flush state.row ((feedback n).update now state.row) row)
        committed := b.committed ++ [n] }
    | _, _ => none
  | .refresh n =>
    match b.call n, b.row with
    | .inserted, some row => some (b.setCall n (.bumping (b.snapshot row) true))
    | .committed, some row => some (b.setCall n (.bumping (b.snapshot row) false))
    | _, _ => none
  | .bump n =>
    match b.call n with
    | .bumping state created =>
      some (b.bumpVersion.setCall n (.caching state created (b.version + 1)))
    | _ => none
  | .fill n =>
    match b.call n with
    | .caching state created version =>
      some { b.setCall n (if created then .loaded state else .returned state) with
        cached := some ⟨version, state⟩ }
    | _ => none
  | .hold r =>
    match b.reader r, b.row with
    | .idle, some row =>
      some { b with held := Function.update b.held r (some (b.snapshot row)) }
    | _, _ => none
  | .getVersion r =>
    match b.reader r with
    | .idle => some (b.setReader r (.versioned b.getVersion))
    | _ => none
  | .getCached r =>
    match b.reader r with
    | .versioned version =>
      match b.getWithVersion version with
      | .nothing => some (b.setReader r (.missing version))
      | answer => some (b.setReader r (.served version answer))
    | _ => none
  | .selectRow r =>
    match b.reader r with
    | .missing version =>
      match b.row with
      | some row => some (b.setReader r (.filling version (b.selected r row)))
      | none => some (b.setReader r (.served version .nothing))
    | _ => none
  | .setCached r =>
    match b.reader r with
    | .filling version state =>
      some { b.setReader r (.served version (.state state)) with
        cached := some ⟨version.getD 0, state⟩ }
    | _ => none
  | .bumpOther => some b.bumpVersion
  | .evict => some { b with cached := none }

inductive Steps (feedback : ℕ → Feedback) (b : Arm) : Action → Arm → Prop where
  | load {n : ℕ} {row : Row} (called : b.call n = .idle none) (stored : b.row = some row) :
      Steps feedback b (.load n) (b.setCall n (.idle (some (b.snapshot row))))
  | select {n : ℕ} {held : Option Snapshot} {row : Row} (called : b.call n = .idle held)
      (stored : b.row = some row) :
      Steps feedback b (.select n) (b.setCall n (.loaded (held.getD (b.snapshot row))))
  | selectNone {n : ℕ} {held : Option Snapshot} (called : b.call n = .idle held)
      (missing : b.row = none) : Steps feedback b (.select n) (b.setCall n .inserting)
  | insertFails {n : ℕ} {row : Row} (called : b.call n = .inserting) (stored : b.row = some row) :
      Steps feedback b (.insert n) (b.setCall n .failed)
  | insert {n : ℕ} (called : b.call n = .inserting) (missing : b.row = none) :
      Steps feedback b (.insert n) { b.setCall n .inserted with row := some .empty }
  | commit {n : ℕ} {state : Snapshot} {row : Row} (now : ℚ) (called : b.call n = .loaded state)
      (stored : b.row = some row) :
      Steps feedback b (.commit n now)
        { b.setCall n .committed with
          row := some (flush state.row ((feedback n).update now state.row) row)
          committed := b.committed ++ [n] }
  | refreshInserted {n : ℕ} {row : Row} (called : b.call n = .inserted) (stored : b.row = some row) :
      Steps feedback b (.refresh n) (b.setCall n (.bumping (b.snapshot row) true))
  | refresh {n : ℕ} {row : Row} (called : b.call n = .committed) (stored : b.row = some row) :
      Steps feedback b (.refresh n) (b.setCall n (.bumping (b.snapshot row) false))
  | bump {n : ℕ} {state : Snapshot} {created : Bool} (called : b.call n = .bumping state created) :
      Steps feedback b (.bump n) (b.bumpVersion.setCall n (.caching state created (b.version + 1)))
  | fill {n : ℕ} {state : Snapshot} {created : Bool} {version : ℕ}
      (called : b.call n = .caching state created version) :
      Steps feedback b (.fill n)
        { b.setCall n (if created then .loaded state else .returned state) with
          cached := some ⟨version, state⟩ }
  | hold {r : ℕ} {row : Row} (reads : b.reader r = .idle) (stored : b.row = some row) :
      Steps feedback b (.hold r)
        { b with held := Function.update b.held r (some (b.snapshot row)) }
  | getVersion {r : ℕ} (reads : b.reader r = .idle) :
      Steps feedback b (.getVersion r) (b.setReader r (.versioned b.getVersion))
  | getNothing {r : ℕ} {version : Option ℕ} (reads : b.reader r = .versioned version)
      (answer : b.getWithVersion version = .nothing) :
      Steps feedback b (.getCached r) (b.setReader r (.missing version))
  | getCached {r : ℕ} {version : Option ℕ} (reads : b.reader r = .versioned version)
      (answer : b.getWithVersion version ≠ .nothing) :
      Steps feedback b (.getCached r) (b.setReader r (.served version (b.getWithVersion version)))
  | selectRow {r : ℕ} {version : Option ℕ} {row : Row} (reads : b.reader r = .missing version)
      (stored : b.row = some row) :
      Steps feedback b (.selectRow r) (b.setReader r (.filling version (b.selected r row)))
  | selectNoRow {r : ℕ} {version : Option ℕ} (reads : b.reader r = .missing version)
      (missing : b.row = none) :
      Steps feedback b (.selectRow r) (b.setReader r (.served version .nothing))
  | setCached {r : ℕ} {version : Option ℕ} {state : Snapshot}
      (reads : b.reader r = .filling version state) :
      Steps feedback b (.setCached r)
        { b.setReader r (.served version (.state state)) with
          cached := some ⟨version.getD 0, state⟩ }
  | bumpOther : Steps feedback b .bumpOther b.bumpVersion
  | evict : Steps feedback b .evict { b with cached := none }

theorem Steps.of_step {feedback : ℕ → Feedback} {b t : Arm} {a : Action}
    (taken : step feedback b a = some t) : Steps feedback b a t := by
  cases a with
  | load n =>
    rw [step] at taken
    split at taken
    · cases taken
      exact .load ‹_› ‹_›
    · cases taken
  | select n =>
    rw [step] at taken
    split at taken
    · split at taken
      · cases taken
        exact .select ‹_› ‹_›
      · cases taken
        exact .selectNone ‹_› ‹_›
    · cases taken
  | insert n =>
    rw [step] at taken
    split at taken
    · split at taken
      · cases taken
        exact .insertFails ‹_› ‹_›
      · cases taken
        exact .insert ‹_› ‹_›
    · cases taken
  | commit n now =>
    rw [step] at taken
    split at taken
    · cases taken
      exact .commit now ‹_› ‹_›
    · cases taken
  | refresh n =>
    rw [step] at taken
    split at taken
    · cases taken
      exact .refreshInserted ‹_› ‹_›
    · cases taken
      exact .refresh ‹_› ‹_›
    · cases taken
  | bump n =>
    rw [step] at taken
    split at taken
    · cases taken
      exact .bump ‹_›
    · cases taken
  | fill n =>
    rw [step] at taken
    split at taken
    · cases taken
      exact .fill ‹_›
    · cases taken
  | hold r =>
    rw [step] at taken
    split at taken
    · cases taken
      exact .hold ‹_› ‹_›
    · cases taken
  | getVersion r =>
    rw [step] at taken
    split at taken
    · cases taken
      exact .getVersion ‹_›
    · cases taken
  | getCached r =>
    rw [step] at taken
    split at taken
    · split at taken
      · cases taken
        exact .getNothing ‹_› ‹_›
      · rename_i answer
        cases taken
        exact .getCached ‹_› answer
    · cases taken
  | selectRow r =>
    rw [step] at taken
    split at taken
    · split at taken
      · cases taken
        exact .selectRow ‹_› ‹_›
      · cases taken
        exact .selectNoRow ‹_› ‹_›
    · cases taken
  | setCached r =>
    rw [step] at taken
    split at taken
    · cases taken
      exact .setCached ‹_›
    · cases taken
  | bumpOther =>
    cases taken
    exact .bumpOther
  | evict =>
    cases taken
    exact .evict

def Control.state : Control → Option Snapshot
  | .idle held => held
  | .bumping state _ | .caching state _ _ | .loaded state | .returned state => some state
  | .inserting | .inserted | .committed | .failed => none

def Control.past : Control → Bool
  | .committed | .bumping _ false | .caching _ false _ | .returned _ => true
  | _ => false

def Control.settled : Control → Bool
  | .idle _ | .returned _ | .failed => true
  | _ => false

namespace Arm

def base (row : Option Row) : ℤ × ℤ × ℤ × ℚ := (row.getD .empty).totals

/-- The sums are the first ones and the contributions of the committed calls. -/
def Balanced (feedback : ℕ → Feedback) (row : Option Row) (b : Arm) : Prop :=
  (b.row.getD .empty).totals =
    base row + (b.committed.map fun n => (feedback n).contribution).sum

/-- A call commits what it computed from the last committed row. -/
def CommitsCurrent (b : Arm) : Action → Prop
  | .commit n _ => ∀ state, b.call n = .loaded state → state.commits = b.committed.length
  | _ => True

def PublishesCurrent (b : Arm) : Action → Prop
  | .bump n => ∀ state created, b.call n = .bumping state created →
      state.commits = b.committed.length
  | _ => True

def SelectsCurrent (b : Arm) : Action → Prop
  | .selectRow r => ∀ version state, b.reader r = .missing (some version) →
      b.held r = some state → b.published version ≤ state.commits
  | _ => True

def CachesCurrent (b : Arm) (a : Action) : Prop := b.PublishesCurrent a ∧ b.SelectsCurrent a

/-- No reader that has seen a version is served a state from before it was published. -/
def ServesCurrent (b : Arm) : Prop :=
  ∀ r version state, b.reader r = .served (some version) (.state state) →
    b.published version ≤ state.commits

end Arm

/-- Rows were read when the table held them, and no row counts more trials than there were
commits. -/
structure Coherent (row : Option Row) (b : Arm) : Prop where
  absent : b.row = none → row = none ∧ b.committed = []
  bound : ∀ current, b.row = some current →
    current.totalTrials ≤ (Arm.base row).1 + b.committed.length
  held : ∀ n state, (b.call n).state = some state → state.commits ≤ b.committed.length ∧
    (state.commits = b.committed.length → b.row = some state.row) ∧
    state.row.totalTrials ≤ (Arm.base row).1 + state.commits
  once : b.committed.Nodup
  past : ∀ n, n ∈ b.committed ↔ (b.call n).past = true

section Commits
variable {feedback : ℕ → Feedback} {row : Option Row} {b t : Arm} {n : ℕ} {control : Control}

@[simp] theorem Arm.setCall_self : (b.setCall n control).call n = control := by
  simp [Arm.setCall]

theorem Arm.setCall_of_ne {m : ℕ} (other : m ≠ n) :
    (b.setCall n control).call m = b.call m := by
  simp [Arm.setCall, other]

theorem Coherent.setCall (coherent : Coherent row b)
    (held : ∀ state, control.state = some state → (b.call n).state = some state ∨
      ∃ current, b.row = some current ∧ state = b.snapshot current)
    (past : control.past = (b.call n).past) : Coherent row (b.setCall n control) := by
  constructor
  · exact coherent.absent
  · exact coherent.bound
  · intro m state found
    by_cases same : m = n
    · subst same
      rw [Arm.setCall_self] at found
      obtain before | ⟨current, stored, rfl⟩ := held state found
      · exact coherent.held m state before
      · exact ⟨le_rfl, fun _ => stored, coherent.bound current stored⟩
    · rw [Arm.setCall_of_ne same] at found
      exact coherent.held m state found
  · exact coherent.once
  · intro m
    by_cases same : m = n
    · subst same
      rw [Arm.setCall_self, past]
      exact coherent.past m
    · rw [Arm.setCall_of_ne same]
      exact coherent.past m

theorem Coherent.insert (coherent : Coherent row b) (missing : b.row = none)
    (inserting : b.call n = .inserting) :
    Coherent row { b.setCall n .inserted with row := some .empty } := by
  obtain ⟨start, none⟩ := coherent.absent missing
  obtain ⟨_, _, held, once, past⟩ : Coherent row (b.setCall n .inserted) :=
    coherent.setCall (fun state found => by cases found) (by rw [inserting]; rfl)
  constructor
  · nofun
  · rintro _ ⟨⟩
    rw [start, Arm.base]
    change (0 : ℤ) ≤ 0 + _
    omega
  · intro m state found
    obtain ⟨before, last, _⟩ := held m state found
    rw [show (b.setCall n .inserted).committed = [] from none] at before last
    have stored : b.row = some state.row := last (Nat.le_zero.mp before)
    rw [missing] at stored
    cases stored
  · exact once
  · exact past

theorem Coherent.commit {state : Snapshot} {current : Row} {now : ℚ}
    (coherent : Coherent row b) (loaded : b.call n = .loaded state) :
    Coherent row { b.setCall n .committed with
      row := some (flush state.row ((feedback n).update now state.row) current)
      committed := b.committed ++ [n] } := by
  obtain ⟨before, _, trials⟩ := coherent.held n state (by rw [loaded]; rfl)
  have fresh : n ∉ b.committed := by
    rw [coherent.past, loaded]
    nofun
  constructor
  · nofun
  · rintro _ ⟨⟩
    rw [totalTrials_flush, List.length_append, List.length_singleton]
    push_cast
    omega
  · intro m other found
    rw [List.length_append, List.length_singleton]
    by_cases same : m = n
    · subst same
      rw [Arm.setCall_self] at found
      cases found
    · rw [Arm.setCall_of_ne same] at found
      obtain ⟨earlier, _, bound⟩ := coherent.held m other found
      exact ⟨by omega, by omega, bound⟩
  · rw [List.nodup_append]
    refine ⟨coherent.once, List.pairwise_singleton _ n, fun m mem k this => ?_⟩
    rw [List.mem_singleton.mp this]
    rintro rfl
    exact fresh mem
  · intro m
    by_cases same : m = n
    · subst same
      rw [Arm.setCall_self]
      simp [Control.past]
    · rw [Arm.setCall_of_ne same, List.mem_append, List.mem_singleton, or_iff_left same]
      exact coherent.past m

theorem Coherent.frame (coherent : Coherent row b) (table : t.row = b.row)
    (committed : t.committed = b.committed) (calls : t.call = b.call) : Coherent row t := by
  obtain ⟨absent, bound, held, once, past⟩ := coherent
  rw [← table, ← committed] at absent
  constructor
  · exact absent
  · rw [table, committed]
    exact bound
  · rw [table, committed, calls]
    exact held
  · rw [committed]
    exact once
  · rw [committed, calls]
    exact past

theorem Coherent.bump {state : Snapshot} {created : Bool} (coherent : Coherent row b)
    (bumping : b.call n = .bumping state created) :
    Coherent row (b.bumpVersion.setCall n (.caching state created (b.version + 1))) := by
  have published : Coherent row b.bumpVersion := coherent.frame rfl rfl rfl
  have called : b.bumpVersion.call n = .bumping state created := bumping
  refine published.setCall (fun s found => .inl ?_) ?_
  · rw [called]
    exact found
  · rw [called]
    cases created <;> rfl

theorem Coherent.fill {state : Snapshot} {created : Bool} {version : ℕ}
    (coherent : Coherent row b) (caching : b.call n = .caching state created version) :
    Coherent row { b.setCall n (if created then .loaded state else .returned state) with
      cached := some ⟨version, state⟩ } := by
  have returned :
      Coherent row (b.setCall n (if created then .loaded state else .returned state)) := by
    refine coherent.setCall (fun s found => .inl ?_) ?_
    · rw [caching]
      cases created <;> exact found
    · rw [caching]
      cases created <;> rfl
  exact returned.frame rfl rfl rfl

theorem Coherent.step {a : Action} (coherent : Coherent row b)
    (taken : Bandit.step feedback b a = some t) : Coherent row t := by
  cases Steps.of_step taken with
  | @select n held current called stored =>
    refine coherent.setCall (fun state found => ?_) (by rw [called]; rfl)
    cases Option.some.inj found
    cases held with
    | none => exact .inr ⟨current, stored, rfl⟩
    | some before => exact .inl (by rw [called]; rfl)
  | selectNone called missing =>
    exact coherent.setCall (fun state found => by cases found) (by rw [called]; rfl)
  | insertFails called stored =>
    exact coherent.setCall (fun state found => by cases found) (by rw [called]; rfl)
  | insert called missing =>
    exact coherent.insert missing called
  | commit now called stored =>
    exact coherent.commit called
  | load called stored | refreshInserted called stored | refresh called stored =>
    exact coherent.setCall (fun state found => .inr ⟨_, stored, (Option.some.inj found).symm⟩)
      (by rw [called]; rfl)
  | bump called =>
    exact coherent.bump called
  | fill called =>
    exact coherent.fill called
  | _ => exact coherent.frame rfl rfl rfl

theorem step_row {a : Action} (taken : Bandit.step feedback b a = some t) :
    (∀ n now, a ≠ .commit n now) ∧ t.committed = b.committed ∧
      (t.row = b.row ∨ b.row = none ∧ t.row = some .empty) ∨
    ∃ n now state current, a = .commit n now ∧ b.call n = .loaded state ∧
      b.row = some current ∧ t.committed = b.committed ++ [n] ∧
      t.row = some (flush state.row ((feedback n).update now state.row) current) := by
  cases Steps.of_step taken with
  | commit now called stored =>
    exact .inr ⟨_, now, _, _, rfl, called, stored, rfl, rfl⟩
  | insert called missing =>
    exact .inl ⟨nofun, rfl, .inr ⟨missing, rfl⟩⟩
  | _ => exact .inl ⟨nofun, rfl, .inl rfl⟩

theorem coherent_initial (row : Option Row) (version : ℕ) :
    Coherent row (Arm.initial row version) := by
  constructor
  · intro missing
    exact ⟨missing, rfl⟩
  · intro current stored
    rw [show row = some current from stored, Arm.base]
    change current.totalTrials ≤ current.totalTrials + _
    omega
  · intro n state found
    cases found
  · exact List.nodup_nil
  · intro n
    exact iff_of_false List.not_mem_nil Bool.false_ne_true

def Arm.Storable (b : Arm) : Prop :=
  ∀ current, b.row = some current → EightDecimals current.totalCost

theorem eightDecimals_zero : EightDecimals 0 := ⟨0, by simp⟩

theorem Arm.Storable.step {a : Action} (storable : b.Storable)
    (taken : Bandit.step feedback b a = some t) : t.Storable := by
  intro current found
  obtain ⟨_, _, same | ⟨_, created⟩⟩ | ⟨_, _, _, before, _, _, stored, _, committed⟩ :=
    step_row taken
  · exact storable current (same ▸ found)
  · rw [created] at found
    cases found
    exact eightDecimals_zero
  · rw [committed] at found
    cases found
    exact eightDecimals_flush (storable before stored)

theorem Arm.Balanced.step {a : Action} (coherent : Coherent row b) (storable : b.Storable)
    (costs : ∀ n cost, (feedback n).cost = some cost → EightDecimals cost)
    (balanced : b.Balanced feedback row) (current : b.CommitsCurrent a)
    (taken : Bandit.step feedback b a = some t) : t.Balanced feedback row := by
  rw [Arm.Balanced] at balanced ⊢
  obtain ⟨_, committed, same | ⟨missing, created⟩⟩ |
    ⟨n, now, state, before, rfl, loaded, stored, committed, after⟩ := step_row taken
  · rw [same, committed]
    exact balanced
  · rw [missing] at balanced
    rw [created, committed]
    exact balanced
  · obtain ⟨_, last, _⟩ := coherent.held n state (by rw [loaded]; rfl)
    have same : b.row = some state.row := last (current state loaded)
    rw [stored, Option.some.injEq] at same
    subst same
    rw [stored, Option.getD_some] at balanced
    rw [after, committed, Option.getD_some, totals_flush (storable _ stored) (costs n), balanced,
      List.map_append, List.sum_append, List.map_singleton, List.sum_singleton, add_assoc]

def Arm.Full (row : Option Row) (b : Arm) : Prop :=
  (b.row.getD .empty).totalTrials = (Arm.base row).1 + b.committed.length

theorem Arm.Balanced.full (balanced : b.Balanced feedback row) : b.Full row := by
  have trials := congrArg Prod.fst balanced
  rw [Prod.fst_add] at trials
  rw [Arm.Full]
  refine trials.trans (congrArg _ ?_)
  induction b.committed with
  | nil => rfl
  | cons n rest ih =>
    rw [List.map_cons, List.sum_cons, Prod.fst_add, ih, List.length_cons]
    simp only [Feedback.contribution]
    push_cast
    omega

theorem Arm.Full.back {a : Action} (coherent : Coherent row b)
    (taken : Bandit.step feedback b a = some t) (full : t.Full row) :
    b.Full row ∧ b.CommitsCurrent a := by
  rw [Arm.Full] at full ⊢
  obtain ⟨other, committed, same | ⟨missing, created⟩⟩ |
    ⟨n, now, state, before, rfl, loaded, stored, committed, after⟩ := step_row taken
  · rw [same, committed] at full
    refine ⟨full, ?_⟩
    cases a with
    | commit n now => exact absurd rfl (other n now)
    | _ => trivial
  · rw [created, committed] at full
    rw [missing]
    refine ⟨full, ?_⟩
    cases a with
    | commit n now => exact absurd rfl (other n now)
    | _ => trivial
  · obtain ⟨earlier, last, bound⟩ := coherent.held n state (by rw [loaded]; rfl)
    rw [after, committed, Option.getD_some, totalTrials_flush, List.length_append,
      List.length_singleton] at full
    push_cast at full
    have current : state.commits = b.committed.length := by omega
    refine ⟨?_, fun other again => ?_⟩
    · rw [last current, Option.getD_some]
      omega
    · rw [loaded] at again
      cases again
      exact current

end Commits

def Arm.Seen (b : Arm) (version : ℕ) (state : Snapshot) : Prop :=
  version ≤ b.version ∧ b.published version ≤ state.commits

def Reader.Good (b : Arm) : Reader → Prop
  | .versioned (some version) | .missing (some version) => version ≠ 0 ∧ version ≤ b.version
  | .filling (some version) state | .served (some version) (.state state) =>
      b.Seen version state
  | _ => True

/-- The cache, and what is on the way to it, is no older than the version it is for. -/
structure Fresh (b : Arm) : Prop where
  past : ∀ version, b.published version ≤ b.committed.length
  cached : ∀ cached, b.cached = some cached → cached.version ≠ 0 →
    b.Seen cached.version cached.state
  caching : ∀ n state created version, b.call n = .caching state created version →
    b.Seen version state
  readers : ∀ r, (b.reader r).Good b

section Versions
variable {feedback : ℕ → Feedback} {b t : Arm} {n r : ℕ} {control : Control} {reader : Reader}

theorem Fresh.setCall (fresh : Fresh b)
    (caching : ∀ state created version, control = .caching state created version →
      b.Seen version state) : Fresh (b.setCall n control) := by
  constructor
  · exact fresh.past
  · exact fresh.cached
  · intro m state created version found
    by_cases same : m = n
    · subst same
      rw [Arm.setCall_self] at found
      exact caching state created version found
    · rw [Arm.setCall_of_ne same] at found
      exact fresh.caching m state created version found
  · exact fresh.readers

theorem Fresh.setReader (fresh : Fresh b) (good : reader.Good b) :
    Fresh (b.setReader r reader) := by
  constructor
  · exact fresh.past
  · exact fresh.cached
  · exact fresh.caching
  · intro q
    by_cases same : q = r
    · subst same
      rw [show (b.setReader q reader).reader q = reader from Function.update_self ..]
      exact good
    · rw [show (b.setReader r reader).reader q = b.reader q from Function.update_of_ne same ..]
      exact fresh.readers q

theorem Arm.Seen.bumpVersion {version : ℕ} {state : Snapshot} (seen : b.Seen version state) :
    b.bumpVersion.Seen version state := by
  obtain ⟨known, old⟩ := seen
  have other : version ≠ b.version + 1 := by omega
  refine ⟨Nat.le_succ_of_le known, ?_⟩
  simpa [Arm.bumpVersion, other] using old

theorem Reader.Good.bumpVersion (good : reader.Good b) : reader.Good b.bumpVersion := by
  cases reader with
  | idle => trivial
  | versioned version =>
    cases version with
    | none => trivial
    | some version => exact ⟨good.1, Nat.le_succ_of_le good.2⟩
  | missing version =>
    cases version with
    | none => trivial
    | some version => exact ⟨good.1, Nat.le_succ_of_le good.2⟩
  | filling version state =>
    cases version with
    | none => trivial
    | some version => exact Arm.Seen.bumpVersion good
  | served version answer =>
    cases version with
    | none => cases answer <;> trivial
    | some version =>
      cases answer with
      | nothing => trivial
      | defaults => trivial
      | state s => exact Arm.Seen.bumpVersion good

theorem Fresh.bumpVersion (fresh : Fresh b) : Fresh b.bumpVersion := by
  constructor
  · intro version
    by_cases new : version = b.version + 1
    · subst new
      simp [Arm.bumpVersion]
    · simpa [Arm.bumpVersion, new] using fresh.past version
  · intro cached found given
    exact (fresh.cached cached found given).bumpVersion
  · intro m state created version found
    exact (fresh.caching m state created version found).bumpVersion
  · intro q
    exact (fresh.readers q).bumpVersion

theorem Fresh.seen_snapshot (fresh : Fresh b) {version : ℕ} (known : version ≤ b.version)
    (row : Row) : b.Seen version (b.snapshot row) :=
  ⟨known, fresh.past version⟩

theorem Fresh.answered (fresh : Fresh b) {version : ℕ} (given : version ≠ 0) :
    (Reader.served (some version) (b.getWithVersion (some version))).Good b := by
  rw [Arm.getWithVersion]
  cases cached : b.cached with
  | none => trivial
  | some entry =>
    by_cases same : entry.version = version
    · subst same
      simp only [if_true]
      exact fresh.cached entry cached given
    · simp only [if_neg same]
      trivial

/-- A version that has just been published is seen by the state read back, if no commit
came in between. -/
theorem Fresh.bump {state : Snapshot} {created : Bool} (fresh : Fresh b)
    (last : state.commits = b.committed.length) :
    Fresh (b.bumpVersion.setCall n (.caching state created (b.version + 1))) := by
  refine fresh.bumpVersion.setCall fun s again version found => ?_
  cases found
  refine ⟨le_rfl, ?_⟩
  rw [last]
  simp [Arm.bumpVersion]

theorem Fresh.commit {row : Option Row} (fresh : Fresh b) :
    Fresh { b.setCall n .committed with row, committed := b.committed ++ [n] } := by
  obtain ⟨past, cached, caching, readers⟩ : Fresh (b.setCall n .committed) :=
    fresh.setCall (fun state created version found => by cases found)
  refine ⟨fun version => ?_, cached, caching, readers⟩
  rw [List.length_append]
  exact Nat.le_add_right_of_le (past version)

theorem Fresh.fill {state : Snapshot} {created : Bool} {version : ℕ} (fresh : Fresh b)
    (caching : b.call n = .caching state created version) :
    Fresh { b.setCall n (if created then .loaded state else .returned state) with
      cached := some ⟨version, state⟩ } := by
  have seen := fresh.caching n state created version caching
  obtain ⟨past, _, caching, readers⟩ :
      Fresh (b.setCall n (if created then .loaded state else .returned state)) := by
    refine fresh.setCall fun s again version found => ?_
    cases created <;> cases found
  refine ⟨past, fun entry found _ => ?_, caching, readers⟩
  cases found
  exact seen

theorem Fresh.setCached {state : Snapshot} {version : Option ℕ} (fresh : Fresh b)
    (filling : b.reader r = .filling version state) :
    Fresh { b.setReader r (.served version (.state state)) with
      cached := some ⟨version.getD 0, state⟩ } := by
  have good := fresh.readers r
  rw [filling] at good
  obtain ⟨past, _, caching, readers⟩ :
      Fresh (b.setReader r (.served version (.state state))) := by
    refine fresh.setReader ?_
    cases version <;> exact good
  refine ⟨past, fun entry found given => ?_, caching, readers⟩
  cases found
  cases version with
  | none => exact absurd rfl given
  | some version => exact good

theorem Fresh.getCached {version : Option ℕ} (fresh : Fresh b)
    (versioned : b.reader r = .versioned version) :
    Fresh (b.setReader r (.missing version)) ∧
      Fresh (b.setReader r (.served version (b.getWithVersion version))) := by
  have good := fresh.readers r
  rw [versioned] at good
  constructor
  · refine fresh.setReader ?_
    cases version <;> exact good
  · refine fresh.setReader ?_
    cases version with
    | none => trivial
    | some version => exact fresh.answered good.1

theorem Fresh.selectNoRow {version : Option ℕ} (fresh : Fresh b) :
    Fresh (b.setReader r (.served version .nothing)) := by
  refine fresh.setReader ?_
  cases version <;> trivial

theorem Fresh.selectRow {version : Option ℕ} (fresh : Fresh b)
    (missing : b.reader r = .missing version) (current : b.SelectsCurrent (.selectRow r))
    (row : Row) : Fresh (b.setReader r (.filling version (b.selected r row))) := by
  have good := fresh.readers r
  rw [missing] at good
  refine fresh.setReader ?_
  cases version with
  | none => trivial
  | some version =>
    cases holds : b.held r with
    | none =>
      rw [Arm.selected, holds]
      exact fresh.seen_snapshot good.2 row
    | some state =>
      rw [Arm.selected, holds]
      exact ⟨good.2, current version state missing holds⟩

theorem Fresh.getVersion (fresh : Fresh b) :
    Fresh (b.setReader r (.versioned b.getVersion)) := by
  refine fresh.setReader ?_
  rw [Arm.getVersion]
  split
  · trivial
  · exact ⟨‹_›, le_rfl⟩

theorem Fresh.step {a : Action} (fresh : Fresh b) (current : b.CachesCurrent a)
    (taken : Bandit.step feedback b a = some t) : Fresh t := by
  cases Steps.of_step taken with
  | load called stored | select called stored | selectNone called missing
    | insertFails called stored | refreshInserted called stored | refresh called stored =>
    exact fresh.setCall (fun state created version found => by cases found)
  | @insert n called missing =>
    obtain ⟨past, cached, caching, readers⟩ : Fresh (b.setCall n .inserted) :=
      fresh.setCall (fun state created version found => by cases found)
    exact ⟨past, cached, caching, readers⟩
  | commit now called stored =>
    exact fresh.commit
  | bump called =>
    exact fresh.bump (current.1 _ _ called)
  | fill called =>
    exact fresh.fill called
  | hold reads stored =>
    exact ⟨fresh.past, fresh.cached, fresh.caching, fresh.readers⟩
  | getVersion reads =>
    exact fresh.getVersion
  | getNothing reads answer =>
    exact (fresh.getCached reads).1
  | getCached reads answer =>
    exact (fresh.getCached reads).2
  | selectRow reads stored =>
    exact fresh.selectRow reads current.2 _
  | selectNoRow reads missing =>
    exact fresh.selectNoRow
  | setCached reads =>
    exact fresh.setCached reads
  | bumpOther =>
    exact fresh.bumpVersion
  | evict =>
    refine ⟨fresh.past, fun entry found => ?_, fresh.caching, fresh.readers⟩
    cases found

theorem Fresh.servesCurrent (fresh : Fresh b) : b.ServesCurrent := by
  intro r version state served
  have good := fresh.readers r
  rw [served] at good
  exact good.2

theorem fresh_initial (row : Option Row) (version : ℕ) : Fresh (Arm.initial row version) := by
  constructor
  · intro version
    exact le_rfl
  · intro entry found
    cases found
  · intro n state created version found
    cases found
  · intro r
    trivial

end Versions

section Results
variable {feedback : ℕ → Feedback} {row : Option Row} {version : ℕ} {actions : List Action}
  {t : Arm}

theorem coherent_run (reached : run (step feedback) (.initial row version) actions = some t) :
    Coherent row t :=
  run_preserves (fun coherent taken => Coherent.step coherent taken)
    (coherent_initial row version) reached

theorem Coherent.returned (coherent : Coherent row t) (settled : ∀ n, (t.call n).settled = true)
    (n : ℕ) : n ∈ t.committed ↔ ∃ state, t.call n = .returned state := by
  rw [coherent.past]
  have ended := settled n
  cases control : t.call n <;> simp_all [Control.past, Control.settled]

/-- The sums of the row are kept if and only if every call commits what it computed from
the last row, and a version is never served a state from before it was published as long
as it is published with the last row read back, and no reader's session holds an object
from before. -/
theorem feedback_counted (storable : ∀ current, row = some current →
      EightDecimals current.totalCost)
    (costs : ∀ n cost, (feedback n).cost = some cost → EightDecimals cost)
    (reached : run (step feedback) (.initial row version) actions = some t) :
    (t.committed.Nodup ∧ ((∀ n, (t.call n).settled = true) →
      ∀ n, n ∈ t.committed ↔ ∃ state, t.call n = .returned state)) ∧
    (t.Balanced feedback row ↔
      Along (step feedback) Arm.CommitsCurrent (.initial row version) actions) ∧
    (Along (step feedback) Arm.CachesCurrent (.initial row version) actions →
      t.ServesCurrent) := by
  have coherent : Coherent row t := coherent_run reached
  refine ⟨⟨coherent.once, coherent.returned⟩, ⟨fun balanced => ?_, fun current => ?_⟩, ?_⟩
  · exact (along_of_end (P := Coherent row) (Q := Arm.Full row)
      (fun coherent taken => coherent.step taken)
      (fun coherent taken full => Arm.Full.back coherent taken full)
      (coherent_initial row version) reached balanced.full).2
  · have start : (Arm.initial row version).Balanced feedback row := (add_zero _).symm
    have kept : (Coherent row t ∧ t.Storable) ∧ t.Balanced feedback row := by
      refine run_invariant
        (P := fun b => (Coherent row b ∧ b.Storable) ∧ b.Balanced feedback row) ?_
        ⟨⟨coherent_initial row version, storable⟩, start⟩ current reached
      rintro b a u ⟨⟨coherent, storable⟩, balanced⟩ current taken
      exact ⟨⟨coherent.step taken, storable.step taken⟩,
        balanced.step coherent storable costs current taken⟩
    exact kept.2
  · intro current
    have fresh : Fresh t :=
      run_invariant (fun fresh current taken => Fresh.step fresh current taken)
        (fresh_initial row version) current reached
    exact fresh.servesCurrent

end Results

/-- A successful call of 120 milliseconds that cost a thousandth. -/
def demoFeedback : Feedback := ⟨true, some 120, some (1 / 1000), some 1, 5, 60⟩

def alone : List Action := [.select 0, .commit 0 0, .refresh 0, .bump 0, .fill 0]

theorem eightDecimals_demo : EightDecimals (1 / 1000) := ⟨100000, by norm_num⟩

theorem feedback_counted_alone :
    ∃ t, run (step fun _ => demoFeedback) (.initial (some .empty) 0) alone = some t ∧
      (t.Balanced (fun _ => demoFeedback) (some .empty) ↔
        Along (step fun _ => demoFeedback) Arm.CommitsCurrent (.initial (some .empty) 0) alone) := by
  refine ⟨_, rfl, (feedback_counted ?_ ?_ rfl).2.1⟩
  · rintro _ ⟨⟩
    exact eightDecimals_zero
  · rintro _ _ ⟨⟩
    exact eightDecimals_demo

def together : List Action := [.select 0, .select 1, .commit 0 0, .commit 1 0]

theorem concurrent_feedback_lost :
    ∃ t, run (step fun _ => demoFeedback) (.initial (some .empty) 0) together = some t ∧
      t.committed = [0, 1] ∧ (t.row.map Row.totalTrials) = some 1 ∧
      ¬ t.Balanced (fun _ => demoFeedback) (some .empty) := by
  refine ⟨_, rfl, rfl, by decide +kernel, fun balanced => ?_⟩
  have full := balanced.full
  rw [Arm.Full] at full
  exact absurd full (by decide +kernel)

end Deeting.Bandit
