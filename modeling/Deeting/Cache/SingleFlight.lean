import Deeting.Expiry
import Deeting.Json
import Deeting.Transition
import Mathlib.Data.Int.Order.Basic
import Mathlib.Logic.Function.Basic

/-! `CacheService.get_or_set_singleflight` on one key: any number of calls, each with its own
version and lifetime of the lock, interrupted where it waits for Redis, for its loader or for
the time to pass. Times are milliseconds. -/
namespace Deeting.Cache.SingleFlight
open Transition Expiry

structure Request where
  version : Option ℤ
  lockTtl : ℤ
  deriving DecidableEq

/-- How far a call has come. A result is a value, or `none` where an exception is raised; of a
call that loads it is kept whether it has obtained the lock. -/
inductive Call where
  | idle
  | reading
  | locking
  | refused
  | waiting (deadline : ℤ)
  | sleeping (wake deadline : ℤ)
  | checking
  | loading (gotLock : Bool)
  | storing (gotLock : Bool) (value : Json)
  | unlocking (result : Option Json)
  | returned (result : Option Json)

namespace Call

def running : Call → Bool
  | .idle | .returned _ => false
  | _ => true

def gotLock : Call → Bool
  | .checking | .unlocking _ => true
  | .loading gotLock | .storing gotLock _ => gotLock
  | _ => false

def value : Call → Option Json
  | .storing _ value => some value
  | .unlocking result | .returned result => result
  | _ => none

def finish (gotLock : Bool) (result : Option Json) : Call :=
  if gotLock then .unlocking result else .returned result

end Call

def Request.payload (r : Request) (value : Json) : Json :=
  match r.version with
  | none => value
  | some version => .obj [("v", .int version), ("data", value)]

/-- `get_with_version` of what is stored. -/
def Request.accept (r : Request) (data : Json) : Json :=
  match r.version with
  | none => data
  | some version =>
      if data.isObj && (data.get "v").same (.int version) then data.get "data" else .null

/-- The key with its lock, and the calls. The lock bears the number of the call that has set it,
which no command reads. The rest is for the statements: until when the lock of a call would
last, the values that the cache or its loader has had for a call while it was running, and
whether a lock was deleted by another call than its own. -/
structure World where
  now : ℤ
  cache : Option (Expiry.Entry ℤ Json)
  lock : Option (Expiry.Entry ℤ ℕ)
  requests : ℕ → Request
  calls : ℕ → Call
  deadline : ℕ → ℤ
  offered : ℕ → List Json
  stolen : Bool

inductive Action where
  | tick (ms : ℕ)
  | begin (n : ℕ) (request : Request)
  | execute (n : ℕ)
  | resume (n : ℕ)
  | load (n : ℕ) (result : Option Json)
  | store (n : ℕ) (ttlWithJitter : ℤ)

namespace World

variable (w : World)

def call (n : ℕ) (c : Call) : World := { w with calls := Function.update w.calls n c }

/-- What `get_with_version` returns, unless `None`. -/
def read (n : ℕ) : Option Json :=
  match live w.now w.cache with
  | none => none
  | some e =>
      match (w.requests n).accept e.value with
      | .null => none
      | existing => some existing

def observe : World :=
  { w with offered := fun n =>
      if (w.calls n).running then (w.read n).toList ++ w.offered n else w.offered n }

def foreign (n : ℕ) : Bool := (live w.now w.lock).any fun e => e.value ≠ n

def execute (n : ℕ) : Option World :=
  match w.calls n with
  | .reading =>
      match w.read n with
      | some existing => some (w.call n (.returned (some existing)))
      | none => some (w.call n .locking)
  | .locking =>
      let deadline := w.now + 1000 * (w.requests n).lockTtl
      if 0 < (w.requests n).lockTtl then
        match setNx w.now w.lock ⟨n, some deadline⟩ with
        | (lock, true) =>
            some ({ w with lock, deadline := Function.update w.deadline n deadline }.call n .checking)
        | (_, false) => some (w.call n .refused)
      else some (w.call n (.returned none))
  | .checking =>
      match w.read n with
      | some existing => some (w.call n (.unlocking (some existing)))
      | none => some (w.call n (.loading true))
  | .sleeping wake deadline =>
      if wake ≤ w.now then
        match w.read n with
        | some existing => some (w.call n (.returned (some existing)))
        | none => some (w.call n (.waiting deadline))
      else none
  | .unlocking result =>
      some ({ w with lock := none, stolen := w.stolen || w.foreign n }.call n (.returned result))
  | _ => none

/-- What a call does without Redis: it computes its deadline, or looks at the clock. -/
def resume (n : ℕ) : Option World :=
  match w.calls n with
  | .refused => some (w.call n (.waiting (w.now + max (1000 * (w.requests n).lockTtl) 50)))
  | .waiting deadline =>
      if w.now < deadline then some (w.call n (.sleeping (w.now + 50) deadline))
      else some (w.call n (.loading false))
  | _ => none

def load (n : ℕ) (result : Option Json) : Option World :=
  match w.calls n with
  | .loading gotLock =>
      match result with
      | none => some (w.call n (.finish gotLock none))
      | some value =>
          let w := { w with offered := Function.update w.offered n (value :: w.offered n) }
          match value with
          | .null => some (w.call n (.finish gotLock (some .null)))
          | value => some (w.call n (.storing gotLock value))
  | _ => none

/-- The value is stored; of a lifetime that is not positive the command fails. -/
def store (n : ℕ) (ttl : ℤ) : Option World :=
  match w.calls n with
  | .storing gotLock value =>
      let entry := ⟨(w.requests n).payload value, some (w.now + 1000 * ttl)⟩
      let cache := if 0 < ttl then some entry else w.cache
      some ({ w with cache }.call n (.finish gotLock (some value)))
  | _ => none

def act : Action → Option World
  | .tick ms => some { w with now := w.now + ms }
  | .begin n request =>
      match w.calls n with
      | .idle =>
          some ({ w with requests := Function.update w.requests n request }.call n .reading)
      | _ => none
  | .execute n => w.execute n
  | .resume n => w.resume n
  | .load n result => w.load n result
  | .store n ttl => w.store n ttl

def initial (now : ℤ) (cache : Option (Expiry.Entry ℤ Json)) : World where
  now
  cache
  lock := none
  requests _ := ⟨none, 0⟩
  calls _ := .idle
  deadline _ := now
  offered _ := []
  stolen := false

structure Sound : Prop where
  alone : ∀ m n, w.calls m = .loading true → w.now < w.deadline m →
    w.calls n = .loading true → w.now < w.deadline n → m = n
  own : w.stolen = false
  sourced : ∀ n value, w.calls n = .returned (some value) → value ∈ w.offered n

/-- A call that deletes the lock does so before its own lock has expired, or finds none. -/
def Timely : Action → Prop
  | .execute n => (∃ result, w.calls n = .unlocking result) →
      w.now < w.deadline n ∨ live w.now w.lock = none
  | _ => True

end World

def step (w : World) (a : Action) : Option World := (w.act a).map World.observe

inductive Moves (w : World) (a : Action) : World → Prop where
  | ticks (ms : ℕ) : Moves w a { w with now := w.now + ms }
  | begins (n : ℕ) (request : Request) (idle : w.calls n = .idle) :
      Moves w a ({ w with requests := Function.update w.requests n request }.call n .reading)
  | goes (n : ℕ) (c : Call) (running : (w.calls n).running = true)
      (gotLock : c.gotLock = true → (w.calls n).gotLock = true)
      (value : ∀ v, c.value = some v → w.read n = some v) : Moves w a (w.call n c)
  | locks (n : ℕ) (locking : w.calls n = .locking) (free : live w.now w.lock = none)
      (deadline : ℤ) :
      Moves w a ({ w with
        lock := some ⟨n, some deadline⟩
        deadline := Function.update w.deadline n deadline }.call n .checking)
  | loads (n : ℕ) (gotLock : Bool) (value : Json) (c : Call)
      (loading : w.calls n = .loading gotLock) (same : c.gotLock = gotLock)
      (bears : c.value = some value) :
      Moves w a ({ w with
        offered := Function.update w.offered n (value :: w.offered n) }.call n c)
  | stores (n : ℕ) (gotLock : Bool) (value : Json) (cache : Option (Expiry.Entry ℤ Json))
      (storing : w.calls n = .storing gotLock value) :
      Moves w a ({ w with cache }.call n (.finish gotLock (some value)))
  | unlocks (n : ℕ) (result : Option Json) (unlocking : w.calls n = .unlocking result)
      (executes : a = .execute n) :
      Moves w a
        ({ w with lock := none, stolen := w.stolen || w.foreign n }.call n (.returned result))

section Steps

variable {w t : World} {a : Action} {n : ℕ}

@[simp] theorem gotLock_finish (gotLock : Bool) (result : Option Json) :
    (Call.finish gotLock result).gotLock = gotLock := by
  cases gotLock <;> rfl

@[simp] theorem value_finish (gotLock : Bool) (result : Option Json) :
    (Call.finish gotLock result).value = result := by
  cases gotLock <;> rfl

theorem moves_execute (taken : w.execute n = some t) : Moves w (.execute n) t := by
  unfold World.execute at taken
  split at taken
  · rename_i reading
    split at taken <;> cases taken
    · rename_i found
      refine .goes n _ (by rw [reading]; rfl) (by nofun) fun v same => ?_
      cases same
      exact found
    · exact .goes n _ (by rw [reading]; rfl) (by nofun) (by nofun)
  · rename_i locking
    simp only at taken
    split at taken
    · rcases absent : live w.now w.lock with _ | e
      · rw [setNx_of_absent absent] at taken
        cases taken
        exact .locks n locking absent _
      · rw [setNx_of_live absent] at taken
        cases taken
        exact .goes n _ (by rw [locking]; rfl) (by nofun) (by nofun)
    · cases taken
      exact .goes n _ (by rw [locking]; rfl) (by nofun) (by nofun)
  · rename_i checking
    split at taken <;> cases taken
    · rename_i found
      refine .goes n _ (by rw [checking]; rfl) (fun _ => by rw [checking]; rfl) fun v same => ?_
      cases same
      exact found
    · exact .goes n _ (by rw [checking]; rfl) (fun _ => by rw [checking]; rfl) (by nofun)
  · rename_i sleeping
    split at taken
    · split at taken <;> cases taken
      · rename_i found
        refine .goes n _ (by rw [sleeping]; rfl) (by nofun) fun v same => ?_
        cases same
        exact found
      · exact .goes n _ (by rw [sleeping]; rfl) (by nofun) (by nofun)
    · cases taken
  · rename_i unlocking
    cases taken
    exact .unlocks n _ unlocking rfl
  · cases taken

theorem moves_resume (taken : w.resume n = some t) : Moves w a t := by
  unfold World.resume at taken
  split at taken
  · rename_i refused
    cases taken
    exact .goes n _ (by rw [refused]; rfl) (by nofun) (by nofun)
  · rename_i waiting
    split at taken <;> cases taken
    · exact .goes n _ (by rw [waiting]; rfl) (by nofun) (by nofun)
    · exact .goes n _ (by rw [waiting]; rfl) (by nofun) (by nofun)
  · cases taken

theorem moves_load {result : Option Json} (taken : w.load n result = some t) :
    Moves w a t := by
  unfold World.load at taken
  split at taken
  · rename_i gotLock loading
    split at taken
    · cases taken
      refine .goes n _ (by rw [loading]; rfl) (fun locked => ?_) (by simp)
      rw [gotLock_finish] at locked
      rw [loading, locked]
      rfl
    · simp only at taken
      split at taken <;> cases taken
      · exact .loads n gotLock .null _ loading (by simp) (by simp)
      · exact .loads n gotLock _ _ loading rfl rfl
  · cases taken

theorem Moves.of_act (taken : w.act a = some t) : Moves w a t := by
  cases a with
  | tick ms =>
    cases taken
    exact .ticks ms
  | begin n request =>
    simp only [World.act] at taken
    split at taken <;> cases taken
    exact .begins n request ‹_›
  | execute n => exact moves_execute taken
  | resume n => exact moves_resume taken
  | load n result => exact moves_load taken
  | store n ttl =>
    simp only [World.act, World.store] at taken
    split at taken <;> cases taken
    exact .stores n _ _ _ ‹_›

theorem step_cases (taken : step w a = some t) : ∃ u, w.act a = some u ∧ t = u.observe := by
  obtain ⟨u, acted, rfl⟩ := Option.map_eq_some_iff.mp taken
  exact ⟨u, acted, rfl⟩

end Steps

section Calls

variable {w : World} {n : ℕ} {c : Call}

theorem calls_call (w : World) (n : ℕ) (c : Call) (m : ℕ) :
    (w.call n c).calls m = if m = n then c else w.calls m := by
  simp [World.call, Function.update_apply]

@[simp] theorem read_observe (m : ℕ) : w.observe.read m = w.read m := rfl

@[simp] theorem read_call (m : ℕ) : (w.call n c).read m = w.read m := rfl

theorem mem_observe {m : ℕ} {v : Json} (mem : v ∈ w.offered m) : v ∈ w.observe.offered m := by
  simp only [World.observe]
  split
  · exact List.mem_append_right _ mem
  · exact mem

end Calls

section Values

variable {w t : World} {a : Action}

structure Offered (w : World) : Prop where
  values : ∀ n v, (w.calls n).value = some v → v ∈ w.offered n
  readable : ∀ n v, (w.calls n).running = true → w.read n = some v → v ∈ w.offered n

theorem offered_initial (now : ℤ) (cache : Option (Expiry.Entry ℤ Json)) :
    Offered (World.initial now cache) :=
  ⟨by nofun, by nofun⟩

theorem Offered.observe (values : ∀ n v, (w.calls n).value = some v → v ∈ w.offered n) :
    Offered w.observe := by
  constructor
  · intro n v bears
    exact mem_observe (values n v bears)
  · intro n v running reads
    have runs : (w.calls n).running = true := running
    rw [read_observe] at reads
    simp [World.observe, runs, reads]

theorem Offered.moves (offered : Offered w) (moves : Moves w a t) :
    ∀ n v, (t.calls n).value = some v → v ∈ t.offered n := by
  cases moves with
  | ticks ms => exact offered.values
  | begins n request idle =>
    intro m v bears
    rw [calls_call] at bears
    split at bears
    · cases bears
    · exact offered.values m v bears
  | goes n c running gotLock value =>
    intro m v bears
    rw [calls_call] at bears
    split at bears
    · rename_i same
      subst same
      exact offered.readable m v running (value v bears)
    · exact offered.values m v bears
  | locks n locking free deadline =>
    intro m v bears
    rw [calls_call] at bears
    split at bears
    · cases bears
    · exact offered.values m v bears
  | loads n gotLock value c loading same bears' =>
    intro m v bears
    rw [calls_call] at bears
    split at bears
    · rename_i same
      subst same
      cases bears'.symm.trans bears
      change value ∈ Function.update w.offered m (value :: w.offered m) m
      rw [Function.update_self]
      exact List.mem_cons_self
    · rename_i other
      change v ∈ Function.update w.offered n (value :: w.offered n) m
      rw [Function.update_of_ne other]
      exact offered.values m v bears
  | stores n gotLock value cache storing =>
    intro m v bears
    rw [calls_call] at bears
    split at bears
    · rename_i same
      subst same
      rw [value_finish] at bears
      cases bears
      exact offered.values m value (by rw [storing]; rfl)
    · exact offered.values m v bears
  | unlocks n result unlocking _ =>
    intro m v bears
    rw [calls_call] at bears
    split at bears
    · rename_i same
      subst same
      exact offered.values m v (by rw [unlocking]; exact bears)
    · exact offered.values m v bears

theorem Offered.step (offered : Offered w) (taken : step w a = some t) : Offered t := by
  obtain ⟨u, acted, rfl⟩ := step_cases taken
  exact Offered.observe (offered.moves (Moves.of_act acted))

end Values

section Locks

variable {w t : World} {a : Action}

/-- A call that has obtained the lock finds its own there until the lock expires. -/
structure Kept (w : World) : Prop where
  held : ∀ n, (w.calls n).gotLock = true → w.now < w.deadline n →
    w.lock = some ⟨n, some (w.deadline n)⟩
  dated : ∀ e, w.lock = some e → e.deadline = some (w.deadline e.value)
  own : w.stolen = false

theorem kept_initial (now : ℤ) (cache : Option (Expiry.Entry ℤ Json)) :
    Kept (World.initial now cache) :=
  ⟨by nofun, by nofun, rfl⟩

theorem Kept.live (kept : Kept w) {n : ℕ} (locked : (w.calls n).gotLock = true)
    (unexpired : w.now < w.deadline n) :
    Expiry.live w.now w.lock = some ⟨n, some (w.deadline n)⟩ :=
  live_eq_some.mpr ⟨kept.held n locked unexpired, alive_some.mpr unexpired⟩

theorem Kept.unique (kept : Kept w) {m n : ℕ} (first : (w.calls m).gotLock = true)
    (early : w.now < w.deadline m) (second : (w.calls n).gotLock = true)
    (late : w.now < w.deadline n) : m = n := by
  have same := (kept.held m first early).symm.trans (kept.held n second late)
  exact congrArg Expiry.Entry.value (Option.some.inj same)

theorem Kept.not_foreign (kept : Kept w) {n : ℕ} (locked : (w.calls n).gotLock = true)
    (timely : w.now < w.deadline n ∨ Expiry.live w.now w.lock = none) : w.foreign n = false := by
  rcases timely with unexpired | none
  · simp [World.foreign, kept.live locked unexpired]
  · simp [World.foreign, none]

theorem Kept.foreign (kept : Kept w) {n : ℕ} {e : Expiry.Entry ℤ ℕ}
    (expired : w.deadline n ≤ w.now) (found : Expiry.live w.now w.lock = some e) :
    w.foreign n = true := by
  obtain ⟨stored, alive⟩ := live_eq_some.mp found
  have other : e.value ≠ n := by
    rintro rfl
    simp only [Expiry.Entry.alive, kept.dated e stored, decide_eq_true_eq] at alive
    omega
  simp [World.foreign, found, other]

theorem Kept.moves (kept : Kept w) (moves : Moves w a t) (timely : w.Timely a) : Kept t := by
  cases moves with
  | ticks ms =>
    constructor
    · intro n locked unexpired
      have order : w.now ≤ w.now + ms := by omega
      exact kept.held n locked (order.trans_lt unexpired)
    · exact kept.dated
    · exact kept.own
  | begins n request idle =>
    refine ⟨fun m locked unexpired => ?_, kept.dated, kept.own⟩
    rw [calls_call] at locked
    split at locked
    · cases locked
    · exact kept.held m locked unexpired
  | goes n c running gotLock value =>
    refine ⟨fun m locked unexpired => ?_, kept.dated, kept.own⟩
    rw [calls_call] at locked
    split at locked
    · rename_i same
      subst same
      exact kept.held m (gotLock locked) unexpired
    · exact kept.held m locked unexpired
  | locks n locking free deadline =>
    refine ⟨fun m locked unexpired => ?_, fun e stored => ?_, kept.own⟩
    · rw [calls_call] at locked
      split at locked
      · rename_i same
        subst same
        simp [World.call]
      · rename_i other
        change w.now < Function.update w.deadline n deadline m at unexpired
        rw [Function.update_of_ne other] at unexpired
        rw [kept.live locked unexpired] at free
        cases free
    · cases stored
      simp [World.call]
  | loads n gotLock value c loading same bears =>
    refine ⟨fun m locked unexpired => ?_, kept.dated, kept.own⟩
    rw [calls_call] at locked
    split at locked
    · rename_i own
      subst own
      refine kept.held m ?_ unexpired
      rw [loading]
      exact same ▸ locked
    · exact kept.held m locked unexpired
  | stores n gotLock value cache storing =>
    refine ⟨fun m locked unexpired => ?_, kept.dated, kept.own⟩
    rw [calls_call] at locked
    split at locked
    · rename_i own
      subst own
      refine kept.held m ?_ unexpired
      rw [storing]
      exact (gotLock_finish gotLock _).symm.trans locked
    · exact kept.held m locked unexpired
  | unlocks n result unlocking executes =>
    subst executes
    have locked : (w.calls n).gotLock = true := by rw [unlocking]; rfl
    have timely := timely ⟨result, unlocking⟩
    refine ⟨fun m holds unexpired => ?_, by nofun, ?_⟩
    · rw [calls_call] at holds
      split at holds
      · cases holds
      · rename_i other
        rcases timely with early | none
        · exact absurd (kept.unique holds unexpired locked early) other
        · rw [kept.live holds unexpired] at none
          cases none
    · change (w.stolen || w.foreign n) = false
      rw [kept.own, kept.not_foreign locked timely]
      rfl

theorem Kept.step (kept : Kept w) (timely : w.Timely a) (taken : step w a = some t) : Kept t := by
  obtain ⟨u, acted, rfl⟩ := step_cases taken
  obtain ⟨held, dated, own⟩ := kept.moves (Moves.of_act acted) timely
  exact ⟨held, dated, own⟩

theorem Kept.timely (kept : Kept w) (taken : SingleFlight.step w a = some t)
    (own : t.stolen = false) : w.Timely a := by
  cases a with
  | execute n =>
    rintro ⟨result, unlocking⟩
    by_contra late
    obtain ⟨expired, found⟩ := not_or.mp late
    obtain ⟨e, found⟩ := Option.ne_none_iff_exists'.mp found
    obtain ⟨u, acted, rfl⟩ := step_cases taken
    simp only [World.act, World.execute, unlocking] at acted
    cases acted
    have stolen : (w.stolen || w.foreign n) = false := own
    rw [kept.foreign (not_lt.mp expired) found, Bool.or_true] at stolen
    cases stolen
  | tick | begin | resume | load | store => trivial

end Locks

section Runs

variable {w : World}

theorem sound_of_kept (kept : Kept w) (offered : Offered w) : w.Sound := by
  constructor
  · intro m n first early second late
    exact kept.unique (by rw [first]; rfl) early (by rw [second]; rfl) late
  · exact kept.own
  · intro n value returned
    exact offered.values n value (by rw [returned]; rfl)

/-- The runs all of whose states are sound are those in which no call deletes the lock after
its own has expired, unless there is none. -/
theorem singleflight_iff (now : ℤ) (cache : Option (Expiry.Entry ℤ Json)) (actions : List Action) :
    (∀ first, first <+: actions → ∀ w, run step (.initial now cache) first = some w → w.Sound) ↔
      Along step World.Timely (.initial now cache) actions := by
  apply forall_prefix_iff_along (P := fun w => Kept w ∧ Offered w)
  · intro w invariant
    exact sound_of_kept invariant.1 invariant.2
  · intro w a t invariant timely taken
    exact ⟨invariant.1.step timely taken, invariant.2.step taken⟩
  · intro w a t invariant taken sound
    exact invariant.1.timely taken sound.own
  · intro w a stuck
    cases a with
    | execute n =>
      rintro ⟨result, unlocking⟩
      simp [step, World.act, World.execute, unlocking] at stuck
    | tick | begin | resume | load | store => trivial
  · exact ⟨kept_initial now cache, offered_initial now cache⟩

/-- Whatever the schedule, a call returns what its loader or the cache has had for it. -/
theorem returned_offered {now : ℤ} {cache : Option (Expiry.Entry ℤ Json)} {actions : List Action}
    (reached : run step (.initial now cache) actions = some w) {n : ℕ} {value : Json}
    (returned : w.calls n = .returned (some value)) : value ∈ w.offered n := by
  have offered : Offered w :=
    run_preserves (P := Offered) Offered.step (offered_initial now cache) reached
  exact offered.values n value (by rw [returned]; rfl)

end Runs

def leads (n : ℕ) : List Action :=
  [.begin n ⟨some 1, 3⟩, .execute n, .execute n, .execute n]

def sharedLoad : List Action :=
  leads 0 ++ [.begin 1 ⟨some 1, 3⟩, .execute 1, .execute 1, .resume 1, .resume 1,
    .load 0 (some (.int 7)), .store 0 60, .execute 0, .tick 50, .execute 1]

theorem returned_offered_waiting : ∃ w, run step (.initial 0 none) sharedLoad = some w ∧
    w.calls 1 = .returned (some (.int 7)) ∧ .int 7 ∈ w.offered 1 := by
  have ended : ∃ w, run step (.initial 0 none) sharedLoad = some w ∧
      w.calls 1 = .returned (some (.int 7)) := ⟨_, rfl, rfl⟩
  obtain ⟨w, reached, returned⟩ := ended
  exact ⟨w, reached, returned, returned_offered reached returned⟩

/-- The loader of the first call takes five seconds; the second call has the lock by then. -/
def lateDelete : List Action :=
  leads 0 ++ [.tick 3000] ++ leads 1 ++ [.tick 2000, .load 0 (some .null), .execute 0] ++ leads 2

/-- The first call deletes the lock of the second, and a third call loads beside it. -/
theorem lock_of_another_deleted :
    ∃ w, run step (.initial 0 none) lateDelete = some w ∧ ¬ w.Sound ∧ w.stolen = true ∧
      w.calls 1 = .loading true ∧ w.now < w.deadline 1 ∧
      w.calls 2 = .loading true ∧ w.now < w.deadline 2 := by
  refine ⟨_, rfl, ?_, by rfl, rfl, by decide +kernel, rfl, by decide +kernel⟩
  intro sound
  exact absurd sound.own (by decide +kernel)

end Deeting.Cache.SingleFlight
