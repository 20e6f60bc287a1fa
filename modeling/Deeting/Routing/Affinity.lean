import Mathlib.Data.Rat.Floor
import Mathlib.Tactic.Linarith

/-! `RoutingAffinityStateMachine` of one session and model: a hash of Redis with a time to
live, which a save merges into and does not replace. Times are seconds; a number or a date
is read back from its text as the value it was printed from. -/
namespace Deeting.Routing

inductive AffinityState where
  | init
  | exploring
  | locked
  deriving DecidableEq, Repr

/-- A provider and one of its models, by names that are not empty. -/
@[ext] structure Upstream where
  provider : String
  providerModelId : String
  provider_ne : provider ≠ ""
  providerModelId_ne : providerModelId ≠ ""
  deriving DecidableEq

@[ext] structure AffinityContext where
  state : AffinityState
  lockedProvider : Option String
  lockedProviderModelId : Option String
  exploreCount : ℤ
  successCount : ℤ
  failureCount : ℤ
  lastUpdated : Option ℚ
  lockExpiresAt : Option ℚ
  deriving DecidableEq

structure Hash where
  state : AffinityState
  lockedProvider : Option String
  lockedProviderModelId : Option String
  lockedItemId : Option String
  exploreCount : ℤ
  successCount : ℤ
  failureCount : ℤ
  lastUpdated : ℚ
  lockExpiresAt : Option ℚ

structure Entry where
  hash : Hash
  expireAt : ℚ

structure Machine where
  exploreThreshold : ℤ
  lockDuration : ℤ
  failureThreshold : ℤ

def truthy (text : Option String) : Option String := text.filter (· ≠ "")

def live (now : ℚ) (stored : Option Entry) : Option Hash :=
  (stored.filter (now < ·.expireAt)).map Entry.hash

def AffinityContext.fresh : AffinityContext := ⟨.init, none, none, 0, 0, 0, none, none⟩

def Hash.context (h : Hash) : AffinityContext where
  state := h.state
  lockedProvider := truthy h.lockedProvider
  lockedProviderModelId := (truthy h.lockedProviderModelId).or (truthy h.lockedItemId)
  exploreCount := h.exploreCount
  successCount := h.successCount
  failureCount := h.failureCount
  lastUpdated := some h.lastUpdated
  lockExpiresAt := h.lockExpiresAt

def getContext (now : ℚ) (stored : Option Entry) : AffinityContext :=
  match live now stored with
  | none => .fresh
  | some h => h.context

namespace Machine

variable (m : Machine)

def ttl : ℤ := m.lockDuration + 3600

/-- `HSET` of the fields the context has, and `EXPIRE`. -/
def saveContext (now : ℚ) (ctx : AffinityContext) (stored : Option Entry) : Option Entry :=
  let old := live now stored
  some {
    hash := {
      state := ctx.state
      lockedProvider := (truthy ctx.lockedProvider).or (old.bind Hash.lockedProvider)
      lockedProviderModelId :=
        (truthy ctx.lockedProviderModelId).or (old.bind Hash.lockedProviderModelId)
      lockedItemId := old.bind Hash.lockedItemId
      exploreCount := ctx.exploreCount
      successCount := ctx.successCount
      failureCount := ctx.failureCount
      lastUpdated := ctx.lastUpdated.getD now
      lockExpiresAt := ctx.lockExpiresAt.or (old.bind Hash.lockExpiresAt) }
    expireAt := now + m.ttl }

def toExploring (now : ℚ) (ctx : AffinityContext) : AffinityContext :=
  { ctx with
    state := .exploring
    lockedProvider := none
    lockedProviderModelId := none
    exploreCount := 0
    successCount := 0
    failureCount := 0
    lockExpiresAt := none
    lastUpdated := some now }

def toLocked (now : ℚ) (ctx : AffinityContext) (u : Upstream) : AffinityContext :=
  { ctx with
    state := .locked
    lockedProvider := some u.provider
    lockedProviderModelId := some u.providerModelId
    lockExpiresAt := some (now + m.lockDuration)
    lastUpdated := some now }

/-- What `should_use_affinity` answers, and the context it saves. -/
def shouldUseAffinity (now : ℚ) (stored : Option Entry) :
    (Bool × Option String × Option String) × Option AffinityContext :=
  let ctx := getContext now stored
  match ctx.state with
  | .init | .exploring => ((false, none, none), none)
  | .locked =>
    if ctx.lockExpiresAt.any (· < now) then ((false, none, none), some (toExploring now ctx))
    else ((true, ctx.lockedProvider, ctx.lockedProviderModelId), none)

/-- The context `record_request` saves before it counts, when it finds none. -/
def entered (now : ℚ) (stored : Option Entry) : Option AffinityContext :=
  let ctx := getContext now stored
  if ctx.state = .init then some (toExploring now ctx) else none

/-- The context `record_request` saves once the request is counted. -/
def counted (now : ℚ) (u : Upstream) (success : Bool) (stored : Option Entry) :
    Option AffinityContext :=
  let ctx := getContext now stored
  match ctx.state with
  | .init => none
  | .exploring =>
    let ctx := { ctx with
      exploreCount := ctx.exploreCount + 1
      successCount := if success then ctx.successCount + 1 else ctx.successCount }
    if m.exploreThreshold ≤ ctx.exploreCount then some (m.toLocked now ctx u) else some ctx
  | .locked =>
    if success then
      some { ctx with successCount := ctx.successCount + 1, failureCount := 0 }
    else
      let ctx := { ctx with failureCount := ctx.failureCount + 1 }
      if m.failureThreshold ≤ ctx.failureCount then some (toExploring now ctx) else some ctx

def saved (now : ℚ) (ctx : Option AffinityContext) (stored : Option Entry) : Option Entry :=
  match ctx with
  | none => stored
  | some ctx => m.saveContext now ctx stored

/-- The hash `record_request` counts in. -/
def opened (now : ℚ) (stored : Option Entry) : Option Entry :=
  m.saved now (entered now stored) stored

end Machine

def LockedTo (ctx : AffinityContext) (u : Upstream) : Prop :=
  ctx.lockedProvider = some u.provider ∧ ctx.lockedProviderModelId = some u.providerModelId

instance (ctx : AffinityContext) (u : Upstream) : Decidable (LockedTo ctx u) :=
  inferInstanceAs (Decidable (_ ∧ _))

section Reading
variable {m : Machine} {now : ℚ} {stored : Option Entry} {ctx : AffinityContext}

theorem saved_none : m.saved now none stored = stored := rfl

theorem saved_some : m.saved now (some ctx) stored = m.saveContext now ctx stored := rfl

theorem truthy_truthy (text : Option String) : truthy (truthy text) = truthy text := by
  simp [truthy, Option.filter_filter]

theorem truthy_or (first second : Option String) :
    truthy ((truthy first).or second) = (truthy first).or (truthy second) := by
  cases given : truthy first with
  | none => rfl
  | some text =>
    rw [Option.some_or, Option.some_or, ← given, truthy_truthy]

theorem truthy_some {text : String} (given : text ≠ "") : truthy (some text) = some text := by
  simp [truthy, Option.filter, given]

def overlay (now : ℚ) (ctx base : AffinityContext) : AffinityContext :=
  { ctx with
    lockedProvider := (truthy ctx.lockedProvider).or base.lockedProvider
    lockedProviderModelId := (truthy ctx.lockedProviderModelId).or base.lockedProviderModelId
    lastUpdated := some (ctx.lastUpdated.getD now)
    lockExpiresAt := ctx.lockExpiresAt.or base.lockExpiresAt }

theorem getContext_cases (now : ℚ) (stored : Option Entry) :
    getContext now stored = .fresh ∧ live now stored = none ∨
    ∃ entry, stored = some entry ∧ now < entry.expireAt ∧
      getContext now stored = entry.hash.context ∧ live now stored = some entry.hash := by
  cases stored with
  | none => exact .inl ⟨rfl, rfl⟩
  | some entry =>
    by_cases alive : now < entry.expireAt
    · exact .inr ⟨entry, rfl, alive, by simp [getContext, live, Option.filter, alive],
        by simp [live, Option.filter, alive]⟩
    · exact .inl ⟨by simp [getContext, live, Option.filter, alive],
        by simp [live, Option.filter, alive]⟩

theorem saveContext_spec (m : Machine) (now : ℚ) (ctx : AffinityContext)
    (stored : Option Entry) :
    ∃ entry, m.saveContext now ctx stored = some entry ∧ entry.expireAt = now + m.ttl ∧
      entry.hash.context = overlay now ctx (getContext now stored) := by
  refine ⟨_, rfl, rfl, ?_⟩
  obtain ⟨fresh, none⟩ | ⟨entry, _, _, read, alive⟩ := getContext_cases now stored
  · simp [Hash.context, overlay, fresh, none, AffinityContext.fresh, truthy]
  · simp only [Hash.context, overlay, read, alive, Option.bind_some, truthy_or, Option.or_assoc]

theorem getContext_saveContext (positive : 0 < m.ttl) :
    getContext now (m.saveContext now ctx stored) =
      overlay now ctx (getContext now stored) := by
  obtain ⟨entry, saved, expires, read⟩ := saveContext_spec m now ctx stored
  have alive : now < entry.expireAt := by
    rw [expires]
    exact lt_add_of_pos_right now (by exact_mod_cast positive)
  rw [saved, ← read]
  simp [getContext, live, Option.filter, alive]

theorem getContext_saveContext_of_le (lapsed : m.ttl ≤ 0) :
    getContext now (m.saveContext now ctx stored) = .fresh := by
  obtain ⟨entry, saved, expires, _⟩ := saveContext_spec m now ctx stored
  have dead : ¬ now < entry.expireAt := by
    rw [expires, not_lt]
    exact add_le_of_nonpos_right (by exact_mod_cast lapsed)
  rw [saved]
  simp [getContext, live, Option.filter, dead]

structure SameLock (ctx base : AffinityContext) : Prop where
  provider : ctx.lockedProvider = base.lockedProvider
  model : ctx.lockedProviderModelId = base.lockedProviderModelId
  updated : ctx.lastUpdated = base.lastUpdated
  expires : ctx.lockExpiresAt = base.lockExpiresAt

theorem overlay_getContext {base : AffinityContext} (read : getContext now stored = base)
    (begun : base.state ≠ .init) (same : SameLock ctx base) : overlay now ctx base = ctx := by
  obtain ⟨provider, model, updated, expires⟩ := same
  obtain ⟨fresh, _⟩ | ⟨entry, _, _, same, _⟩ := getContext_cases now stored
  · rw [read] at fresh
    rw [fresh] at begun
    exact absurd rfl begun
  · rw [read] at same
    subst same
    ext1
    · rfl
    · simp [overlay, provider, Hash.context, truthy_truthy]
    · simp only [overlay, model, Hash.context, truthy_or, truthy_truthy, Option.or_self]
    · rfl
    · rfl
    · rfl
    · simp [overlay, updated, Hash.context]
    · simp [overlay, expires]

end Reading

/-- What holds of a context the machine saves and of one it finds in the hash, whose key
lives to `expireAt`. -/
structure Sane (expireAt : ℚ) (ctx : AffinityContext) : Prop where
  begun : ctx.state ≠ .init
  unfailed : ctx.state = .exploring → ctx.failureCount = 0
  lock : ctx.state = .locked → ∃ u e, LockedTo ctx u ∧ ctx.lockExpiresAt = some e ∧
    e + 3600 ≤ expireAt

section Saving
variable {m : Machine} {now : ℚ} {stored : Option Entry} {ctx base : AffinityContext}
  {expireAt : ℚ}

theorem LockedTo.unique {u v : Upstream} (first : LockedTo ctx u)
    (second : LockedTo ctx v) : u = v := by
  ext1
  · exact Option.some.inj (first.1.symm.trans second.1)
  · exact Option.some.inj (first.2.symm.trans second.2)

theorem LockedTo.overlay {u : Upstream} (locked : LockedTo ctx u) :
    LockedTo (overlay now ctx base) u := by
  obtain ⟨provider, model⟩ := locked
  constructor
  · simp [Routing.overlay, provider, truthy_some u.provider_ne]
  · simp [Routing.overlay, model, truthy_some u.providerModelId_ne]

theorem Sane.overlay (sane : Sane expireAt ctx) : Sane expireAt (overlay now ctx base) := by
  constructor
  · exact sane.begun
  · exact sane.unfailed
  · intro locked
    obtain ⟨u, e, named, expires, within⟩ := sane.lock locked
    refine ⟨u, e, LockedTo.overlay named, ?_, within⟩
    simp [Routing.overlay, expires]

theorem Sane.mono {later : ℚ} (sane : Sane expireAt ctx) (longer : expireAt ≤ later) :
    Sane later ctx := by
  constructor
  · exact sane.begun
  · exact sane.unfailed
  · intro locked
    obtain ⟨u, e, named, expires, within⟩ := sane.lock locked
    exact ⟨u, e, named, expires, within.trans longer⟩

theorem sane_toExploring : Sane expireAt (Machine.toExploring now ctx) := by
  constructor
  · nofun
  · intro _
    rfl
  · nofun

theorem sane_toLocked {u : Upstream} : Sane (now + m.ttl) (m.toLocked now ctx u) := by
  constructor
  · nofun
  · nofun
  · intro _
    refine ⟨u, now + m.lockDuration, ⟨rfl, rfl⟩, rfl, ?_⟩
    rw [Machine.ttl]
    push_cast
    linarith

structure Stored (m : Machine) (now : ℚ) (stored : Option Entry) : Prop where
  within : ∀ entry, stored = some entry → entry.expireAt ≤ now + m.ttl
  sane : ∀ entry, stored = some entry → Sane entry.expireAt entry.hash.context

theorem Stored.later {future : ℚ} (held : Stored m now stored) (forward : now ≤ future) :
    Stored m future stored := by
  constructor
  · intro entry found
    exact (held.within entry found).trans (add_le_add_left forward _)
  · exact held.sane

theorem Stored.read (held : Stored m now stored) (begun : (getContext now stored).state ≠ .init) :
    0 < m.ttl ∧ Sane (now + m.ttl) (getContext now stored) := by
  obtain ⟨fresh, _⟩ | ⟨entry, found, alive, read, _⟩ := getContext_cases now stored
  · rw [fresh] at begun
    exact absurd rfl begun
  · have within := held.within entry found
    constructor
    · have positive : (0 : ℚ) < m.ttl := by linarith
      exact_mod_cast positive
    · rw [read]
      exact (held.sane entry found).mono within

theorem Stored.saved (sane : Sane (now + m.ttl) ctx) :
    Stored m now (m.saveContext now ctx stored) := by
  obtain ⟨entry, saved, expires, read⟩ := saveContext_spec m now ctx stored
  rw [saved]
  constructor
  · rintro _ ⟨⟩
    exact expires.le
  · rintro _ ⟨⟩
    rw [expires, read]
    exact sane.overlay

theorem Stored.fresh_of_init (held : Stored m now stored)
    (unbegun : (getContext now stored).state = .init) : getContext now stored = .fresh := by
  obtain ⟨fresh, _⟩ | ⟨entry, found, _, read, _⟩ := getContext_cases now stored
  · exact fresh
  · rw [read] at unbegun
    exact absurd unbegun (held.sane entry found).begun

theorem Stored.opened (held : Stored m now stored) : Stored m now (m.opened now stored) := by
  rw [Machine.opened, Machine.entered]
  split
  · exact Stored.saved sane_toExploring
  · exact held

theorem Stored.opened_cases (held : Stored m now stored) :
    (getContext now stored).state ≠ .init ∧ m.opened now stored = stored ∨
    (getContext now stored).state = .init ∧
      (m.ttl ≤ 0 ∧ getContext now (m.opened now stored) = .fresh ∨
        getContext now (m.opened now stored) =
          { AffinityContext.fresh with state := .exploring, lastUpdated := some now }) := by
  rw [Machine.opened, Machine.entered]
  by_cases unbegun : (getContext now stored).state = .init
  · refine .inr ⟨unbegun, ?_⟩
    rw [if_pos unbegun, Machine.saved]
    by_cases positive : 0 < m.ttl
    · rw [getContext_saveContext positive, held.fresh_of_init unbegun]
      exact .inr rfl
    · have lapsed : m.ttl ≤ 0 := not_lt.mp positive
      exact .inl ⟨lapsed, getContext_saveContext_of_le lapsed⟩
  · exact .inl ⟨unbegun, by rw [if_neg unbegun, Machine.saved]⟩

theorem Stored.counted {u : Upstream} {success : Bool} (held : Stored m now stored)
    (counts : m.counted now u success stored = some ctx) : Sane (now + m.ttl) ctx := by
  rw [Machine.counted] at counts
  cases state : (getContext now stored).state with
  | init => simp [state] at counts
  | exploring =>
    have begun : (getContext now stored).state ≠ .init := by rw [state]; nofun
    have sane := (held.read begun).2
    simp only [state] at counts
    split at counts <;> cases counts
    · exact sane_toLocked
    · exact ⟨by simp, fun _ => sane.unfailed state, by simp⟩
  | locked =>
    have begun : (getContext now stored).state ≠ .init := by rw [state]; nofun
    obtain ⟨_, _, lock⟩ := (held.read begun).2
    simp only [state] at counts
    split at counts
    · cases counts
      exact ⟨by simp, by simp, fun _ => lock state⟩
    split at counts <;> cases counts
    · exact sane_toExploring
    · exact ⟨by simp, by simp, fun _ => lock state⟩

end Saving

inductive Counts (m : Machine) (now : ℚ) (u : Upstream) (success : Bool)
    (base ctx : AffinityContext) : Prop where
  | locks (exploring : base.state = .exploring) (reached : m.exploreThreshold ≤ base.exploreCount + 1)
      (locked : ctx.state = .locked) (named : LockedTo ctx u)
      (updated : ctx.lastUpdated = some now)
      (expires : ctx.lockExpiresAt = some (now + m.lockDuration))
      (charged : ctx.failureCount = base.failureCount)
  | explores (exploring : base.state = .exploring)
      (below : ¬ m.exploreThreshold ≤ base.exploreCount + 1)
      (still : ctx.state = .exploring) (same : SameLock ctx base)
  | unlocks (locked : base.state = .locked) (failed : success = false)
      (reached : m.failureThreshold ≤ base.failureCount + 1)
      (exploring : ctx.state = .exploring) (cleared : ctx.lockedProvider = none)
  | stays (locked : base.state = .locked)
      (below : ¬ (success = false ∧ m.failureThreshold ≤ base.failureCount + 1))
      (still : ctx.state = .locked) (same : SameLock ctx base)
      (charged : ctx.failureCount = if success then 0 else base.failureCount + 1)

section Counting
variable {m : Machine} {u : Upstream} {success : Bool}

theorem counted_spec {stored : Option Entry} {now : ℚ}
    (begun : (getContext now stored).state ≠ .init) :
    ∃ ctx, m.counted now u success stored = some ctx ∧
      Counts m now u success (getContext now stored) ctx := by
  cases state : (getContext now stored).state with
  | init => exact absurd state begun
  | exploring =>
    simp only [Machine.counted, state]
    split
    · exact ⟨_, rfl, .locks state ‹_› rfl ⟨rfl, rfl⟩ rfl rfl rfl⟩
    · exact ⟨_, rfl, .explores state ‹_› rfl ⟨rfl, rfl, rfl, rfl⟩⟩
  | locked =>
    simp only [Machine.counted, state]
    cases success with
    | true => exact ⟨_, rfl, .stays state (by simp) rfl ⟨rfl, rfl, rfl, rfl⟩ rfl⟩
    | false =>
      simp only [Bool.false_eq_true, if_false]
      split
      · exact ⟨_, rfl, .unlocks state rfl ‹_› rfl rfl⟩
      · rename_i below
        exact ⟨_, rfl, .stays state (fun ⟨_, reached⟩ => below reached) rfl
          ⟨rfl, rfl, rfl, rfl⟩ rfl⟩

end Counting
end Deeting.Routing
