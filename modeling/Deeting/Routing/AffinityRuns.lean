import Deeting.Routing.Affinity
import Deeting.Transition

/-! The calls of one session and model on `RoutingAffinityStateMachine`, at times that
never go back. Beside the hash stands what the calls have reported, by which a lock is
judged: whom it is given to, for what it is taken back, and whether the saved context is
the one that is read. -/
namespace Deeting.Routing
open Transition

inductive Call where
  | recordRequest (u : Upstream) (success : Bool)
  | shouldUseAffinity
  | reset

/-- The hash with the clock. `proven` are the upstreams with a success in the exploration
that goes on or led to the lock, `misses` the failures of the locked upstream since its
last success or the lock. -/
structure Session where
  now : ℚ
  stored : Option Entry
  proven : List Upstream
  misses : ℕ

namespace Session

def initial (now : ℚ) : Session := ⟨now, none, [], 0⟩

def advance (s : Session) (now : ℚ) : Session := { s with now }

def context (s : Session) : AffinityContext := getContext s.now s.stored

def record (m : Machine) (s : Session) (u : Upstream) (success : Bool) : Session :=
  let before := s.context
  let opened := m.opened s.now s.stored
  let stored := m.saved s.now (m.counted s.now u success opened) opened
  { s with
    stored
    proven :=
      match before.state with
      | .init => if success then [u] else []
      | .exploring => if success then u :: s.proven else s.proven
      | .locked => if (getContext s.now stored).state = .exploring then [] else s.proven
    misses :=
      match before.state with
      | .init | .exploring => 0
      | .locked =>
        if LockedTo before u then if success then 0 else s.misses + 1 else s.misses }

def use (m : Machine) (s : Session) : Session :=
  match (Machine.shouldUseAffinity s.now s.stored).2 with
  | none => s
  | some ctx => { s with stored := m.saveContext s.now ctx s.stored, proven := [] }

def apply (m : Machine) (s : Session) : Call → Session
  | .recordRequest u success => s.record m u success
  | .shouldUseAffinity => s.use m
  | .reset => { s with stored := none }

end Session

/-- A call at its time; the times of a run never go back. -/
def step (m : Machine) (s : Session) (a : ℚ × Call) : Option Session :=
  if s.now ≤ a.1 then some ((s.advance a.1).apply m a.2) else none

namespace Session

/-- A locked context names an upstream that is proven, and when the lock expires. -/
def Earned (s : Session) : Prop :=
  s.context.state = .locked →
    (∃ u ∈ s.proven, LockedTo s.context u) ∧ s.context.lockExpiresAt.isSome = true

/-- A request that reaches the threshold of an exploration succeeds, or its upstream is
proven in it. -/
def Earns (m : Machine) (s : Session) : Call → Prop
  | .recordRequest u success =>
      let ctx := getContext s.now (m.opened s.now s.stored)
      ctx.state = .exploring → m.exploreThreshold ≤ ctx.exploreCount + 1 →
        success = true ∨ s.context.state = .exploring ∧ u ∈ s.proven
  | _ => True

/-- From locked to exploring: the lock has expired, or the locked upstream has failed as
often as the threshold says. -/
def Unlocked (m : Machine) (s t : Session) : Prop :=
  s.context.state = .locked → t.context.state = .exploring →
    (∃ e, s.context.lockExpiresAt = some e ∧ e < t.now) ∨ m.failureThreshold ≤ t.misses

/-- A failure that is recorded while locked is one of the locked upstream. -/
def OwnFailure (s : Session) : Call → Prop
  | .recordRequest u success =>
      success = false → s.context.state = .locked → LockedTo s.context u
  | _ => True

def saves (m : Machine) (s : Session) : Call → List (Option Entry × AffinityContext)
  | .recordRequest u success =>
      let opened := m.opened s.now s.stored
      ((Machine.entered s.now s.stored).toList.map fun ctx => (s.stored, ctx)) ++
        (m.counted s.now u success opened).toList.map fun ctx => (opened, ctx)
  | .shouldUseAffinity =>
      (Machine.shouldUseAffinity s.now s.stored).2.toList.map fun ctx => (s.stored, ctx)
  | .reset => []

/-- `get_context` after a save gives the context that was saved. -/
def ReadsBack (m : Machine) (s : Session) (call : Call) : Prop :=
  ∀ save ∈ s.saves m call,
    getContext s.now (m.saveContext s.now save.2 save.1) = save.2

def Unlocks (m : Machine) (s : Session) : Call → Prop
  | .recordRequest _ success =>
      s.context.state = .locked ∧ success = false ∧
        m.failureThreshold ≤ s.context.failureCount + 1
  | .shouldUseAffinity =>
      s.context.state = .locked ∧ s.context.lockExpiresAt.any (· < s.now) = true
  | .reset => False

/-- A saved hash lives, and no lock in it is to be cleared. -/
def KeepsLock (m : Machine) (s : Session) (call : Call) : Prop :=
  (s.saves m call ≠ [] → 0 < m.ttl) ∧ ¬ s.Unlocks m call

end Session

section Counting
variable {m : Machine} {s : Session} {call : Call} {u : Upstream} {success : Bool}

namespace Session

@[simp] theorem apply_now : (s.apply m call).now = s.now := by
  cases call with
  | recordRequest u success => rfl
  | shouldUseAffinity =>
    simp only [apply, use]
    split <;> rfl
  | reset => rfl

theorem stored_record (m : Machine) (s : Session) (u : Upstream) (success : Bool) :
    (s.record m u success).stored =
      m.saved s.now (m.counted s.now u success (m.opened s.now s.stored))
        (m.opened s.now s.stored) :=
  rfl

end Session

theorem Stored.record (held : Stored m s.now s.stored) (u : Upstream) (success : Bool) :
    Stored m s.now (s.record m u success).stored := by
  have opened := held.opened
  rw [Session.stored_record]
  cases counts : m.counted s.now u success (m.opened s.now s.stored) with
  | none =>
    rw [saved_none]
    exact opened
  | some ctx =>
    rw [saved_some]
    exact Stored.saved (opened.counted counts)

theorem Stored.use (held : Stored m s.now s.stored) : Stored m s.now (s.use m).stored := by
  simp only [Session.use, Machine.shouldUseAffinity]
  split
  · exact held
  · rename_i ctx unlocks
    split at unlocks
    · cases unlocks
    · cases unlocks
    · split at unlocks <;> cases unlocks
      exact Stored.saved sane_toExploring

theorem Stored.apply (held : Stored m s.now s.stored) (call : Call) :
    Stored m s.now (s.apply m call).stored := by
  cases call with
  | recordRequest u success => exact held.record u success
  | shouldUseAffinity => exact held.use
  | reset =>
    constructor <;> intro entry found <;> cases found

namespace Session

def base (m : Machine) (s : Session) : AffinityContext :=
  getContext s.now (m.opened s.now s.stored)

theorem base_cases (held : Stored m s.now s.stored) :
    s.context.state ≠ .init ∧ s.base m = s.context ∧ m.opened s.now s.stored = s.stored ∨
    s.context.state = .init ∧ (m.ttl ≤ 0 ∧ s.base m = .fresh ∨
      s.base m = { AffinityContext.fresh with state := .exploring, lastUpdated := some s.now }) := by
  obtain ⟨begun, opened⟩ | ⟨unbegun, entered⟩ := held.opened_cases
  · exact .inl ⟨begun, by rw [base, opened]; rfl, opened⟩
  · exact .inr ⟨unbegun, entered⟩

theorem record_entry (held : Stored m s.now s.stored) (u : Upstream) (success : Bool) :
    ∃ entry, (s.record m u success).stored = some entry ∧ entry.expireAt = s.now + m.ttl ∧
      (m.ttl ≤ 0 ∧ entry.hash.context.state = .exploring ∨
        ∃ ctx, m.counted s.now u success (m.opened s.now s.stored) = some ctx ∧
          Counts m s.now u success (s.base m) ctx ∧
          entry.hash.context = overlay s.now ctx (s.base m)) := by
  rw [stored_record]
  by_cases begun : (s.base m).state = .init
  · have uncounted : m.counted s.now u success (m.opened s.now s.stored) = none := by
      simp only [Machine.counted, show (getContext s.now (m.opened s.now s.stored)).state = .init
        from begun]
    obtain ⟨started, same, _⟩ | ⟨unbegun, ⟨lapsed, _⟩ | entered⟩ := base_cases held
    · rw [same] at begun
      exact absurd begun started
    · obtain ⟨entry, saved, expires, read⟩ :=
        saveContext_spec m s.now (Machine.toExploring s.now s.context) s.stored
      refine ⟨entry, ?_, expires, .inl ⟨lapsed, by rw [read]; rfl⟩⟩
      have enters : Machine.entered s.now s.stored = some (Machine.toExploring s.now s.context) :=
        if_pos unbegun
      rw [uncounted, saved_none, ← saved, Machine.opened, enters, saved_some]
    · rw [entered] at begun
      cases begun
  · obtain ⟨ctx, counts, spec⟩ := @counted_spec m u success _ _ begun
    obtain ⟨entry, saved, expires, read⟩ :=
      saveContext_spec m s.now ctx (m.opened s.now s.stored)
    exact ⟨entry, by rw [counts, saved_some, saved], expires, .inr ⟨ctx, counts, spec, read⟩⟩

theorem context_of_entry {entry : Entry} (found : s.stored = some entry)
    (alive : s.now < entry.expireAt) : s.context = entry.hash.context := by
  simp [context, getContext, live, found, Option.filter, alive]

theorem entry_of_begun (begun : s.context.state ≠ .init) :
    ∃ entry, s.stored = some entry ∧ s.now < entry.expireAt ∧
      s.context = entry.hash.context := by
  obtain ⟨fresh, _⟩ | ⟨entry, found, alive, read, _⟩ := getContext_cases s.now s.stored
  · rw [context, fresh] at begun
    exact absurd rfl begun
  · exact ⟨entry, found, alive, read⟩

def Proven (s : Session) : Prop :=
  ∀ entry, s.stored = some entry → entry.hash.context.state = .locked →
    ∃ u ∈ s.proven, LockedTo entry.hash.context u

theorem earned_of_proven (held : Stored m s.now s.stored) (proven : s.Proven) : s.Earned := by
  intro locked
  obtain ⟨entry, found, _, read⟩ := entry_of_begun (by rw [locked]; nofun)
  rw [read] at locked ⊢
  obtain ⟨_, e, _, expires, _⟩ := (held.sane entry found).lock locked
  exact ⟨proven entry found locked, by rw [expires]; rfl⟩

theorem base_of_locked (held : Stored m s.now s.stored) (locked : (s.base m).state = .locked) :
    s.base m = s.context ∧ m.opened s.now s.stored = s.stored := by
  obtain ⟨_, same⟩ | ⟨_, ⟨_, fresh⟩ | entered⟩ := base_cases held
  · exact same
  · rw [fresh] at locked
    cases locked
  · rw [entered] at locked
    cases locked

theorem proven_record_locked (locked : s.context.state = .locked) :
    (s.record m u success).proven =
      if (s.record m u success).context.state = .exploring then [] else s.proven := by
  simp only [record, locked]
  rfl

theorem use_cases (m : Machine) (s : Session) :
    (¬ s.Unlocks m .shouldUseAffinity ∧
      (Machine.shouldUseAffinity s.now s.stored).2 = none ∧ s.use m = s) ∨
    (s.Unlocks m .shouldUseAffinity ∧
      (Machine.shouldUseAffinity s.now s.stored).2 = some (Machine.toExploring s.now s.context) ∧
      s.use m = { s with
        stored := m.saveContext s.now (Machine.toExploring s.now s.context) s.stored
        proven := [] }) := by
  have answers : ¬ s.Unlocks m .shouldUseAffinity ∧
      (Machine.shouldUseAffinity s.now s.stored).2 = none ∨
      s.Unlocks m .shouldUseAffinity ∧ (Machine.shouldUseAffinity s.now s.stored).2 =
        some (Machine.toExploring s.now s.context) := by
    rw [Unlocks, context]
    simp only [Machine.shouldUseAffinity]
    cases state : (getContext s.now s.stored).state with
    | init => exact .inl ⟨by simp, rfl⟩
    | exploring => exact .inl ⟨by simp, rfl⟩
    | locked =>
      by_cases expired : (getContext s.now s.stored).lockExpiresAt.any (· < s.now) = true
      · exact .inr ⟨⟨rfl, expired⟩, by simp only [if_pos expired]⟩
      · exact .inl ⟨fun unlocks => expired unlocks.2, by simp only [if_neg expired]⟩
  obtain ⟨valid, asked⟩ | ⟨unlocks, asked⟩ := answers
  · exact .inl ⟨valid, asked, by rw [use, asked]⟩
  · exact .inr ⟨unlocks, asked, by rw [use, asked]⟩

theorem Proven.record (held : Stored m s.now s.stored) (proven : s.Proven)
    (earns : s.Earns m (.recordRequest u success)) : (s.record m u success).Proven := by
  intro entry found locked
  obtain ⟨_, stored, expires, ⟨_, exploring⟩ | ⟨ctx, _, counts, read⟩⟩ :=
    record_entry held u success
  all_goals
    rw [stored] at found
    cases found
  · cases exploring.symm.trans locked
  rw [read] at locked ⊢
  cases counts with
  | locks exploring reached _ named =>
    refine ⟨u, ?_, LockedTo.overlay named⟩
    have reason := earns exploring reached
    obtain rfl | ⟨before, mem⟩ := reason
    · obtain ⟨begun, same, _⟩ | ⟨unbegun, _⟩ := base_cases held
      · simp [Session.record, ← same, exploring]
      · simp [Session.record, unbegun]
    · simp only [Session.record, before]
      split
      · exact List.mem_cons_of_mem u mem
      · exact mem
  | explores _ _ still => cases still.symm.trans locked
  | unlocks _ _ _ exploring => cases exploring.symm.trans locked
  | stays before _ _ same =>
    have sameBase := (base_of_locked held before).1
    rw [sameBase] at before same
    obtain ⟨entry, found, _, was⟩ := entry_of_begun (by rw [before]; nofun)
    obtain ⟨v, mem, provider, model⟩ := proven entry found (by rw [← was]; exact before)
    rw [← was] at provider model
    refine ⟨v, ?_, LockedTo.overlay ⟨same.provider.trans provider, same.model.trans model⟩⟩
    have kept : (s.record m u success).context.state ≠ .exploring := by
      intro exploring
      obtain ⟨_, again, _, read'⟩ := entry_of_begun (by rw [exploring]; nofun)
      rw [stored] at again
      cases again
      rw [read', read] at exploring
      cases locked.symm.trans exploring
    rw [proven_record_locked before, if_neg kept]
    exact mem

theorem unlocked_of_toExploring {entry : Entry}
    (saved : m.saveContext s.now (Machine.toExploring s.now s.context) s.stored = some entry) :
    entry.hash.context.state ≠ .locked := by
  obtain ⟨_, made, _, read⟩ :=
    saveContext_spec m s.now (Machine.toExploring s.now s.context) s.stored
  cases made.symm.trans saved
  rw [read]
  nofun

theorem Proven.apply (held : Stored m s.now s.stored) (proven : s.Proven)
    (earns : s.Earns m call) : (s.apply m call).Proven := by
  cases call with
  | recordRequest u success => exact proven.record held earns
  | shouldUseAffinity =>
    obtain ⟨_, _, same⟩ | ⟨_, _, after⟩ := use_cases m s
    · rw [Session.apply, same]
      exact proven
    · rw [Session.apply, after]
      exact fun entry found locked => absurd locked (unlocked_of_toExploring found)
  | reset =>
    intro entry found
    cases found

theorem earns_of_earned (held : Stored m s.now s.stored) (earned : (s.apply m call).Earned) :
    s.Earns m call := by
  cases call with
  | shouldUseAffinity => trivial
  | reset => trivial
  | recordRequest u success =>
    intro exploring reached
    have positive : 0 < m.ttl := (held.opened.read (by rw [exploring]; nofun)).1
    obtain ⟨entry, stored, expires, ⟨lapsed, _⟩ | ⟨ctx, _, counts, read⟩⟩ :=
      record_entry held u success
    · exact absurd positive (not_lt.mpr lapsed)
    have alive : (s.record m u success).now < entry.expireAt := by
      rw [expires]
      exact lt_add_of_pos_right s.now (by exact_mod_cast positive)
    have after := context_of_entry stored alive
    rw [read] at after
    cases counts with
    | locks _ _ locked named =>
      obtain ⟨⟨v, mem, lockedTo⟩, _⟩ := earned (by
        change (s.record m u success).context.state = _
        rw [after]
        exact locked)
      change LockedTo (s.record m u success).context v at lockedTo
      rw [after] at lockedTo
      obtain rfl := LockedTo.unique (LockedTo.overlay named) lockedTo
      cases success with
      | true => exact .inl rfl
      | false =>
        obtain ⟨_, same, _⟩ | ⟨unbegun, _⟩ := base_cases held
        · have before : s.context.state = .exploring := same ▸ exploring
          simp only [Session.apply, Session.record, before] at mem
          exact .inr ⟨before, by simpa using mem⟩
        · simp [Session.apply, Session.record, unbegun] at mem
    | explores _ below => exact absurd reached below
    | unlocks locked => cases exploring.symm.trans locked
    | stays locked => cases exploring.symm.trans locked

/-- What a locked hash counts are failures of its upstream. -/
def Charged (s : Session) : Prop :=
  ∀ entry, s.stored = some entry → entry.hash.context.state = .locked →
    entry.hash.context.failureCount ≤ s.misses

theorem Charged.record (held : Stored m s.now s.stored) (charged : s.Charged)
    (own : s.OwnFailure (.recordRequest u success)) : (s.record m u success).Charged := by
  intro entry found locked
  obtain ⟨_, stored, _, ⟨_, exploring⟩ | ⟨ctx, _, counts, read⟩⟩ := record_entry held u success
  all_goals
    rw [stored] at found
    cases found
  · cases exploring.symm.trans locked
  rw [read] at locked ⊢
  cases counts with
  | locks exploring _ _ _ _ _ none =>
    have clean : ctx.failureCount = 0 :=
      none.trans ((held.opened.read (by
        change (s.base m).state ≠ .init
        rw [exploring]
        nofun)).2.unfailed exploring)
    change ctx.failureCount ≤ _
    rw [clean]
    exact Int.natCast_nonneg _
  | explores _ _ still => cases still.symm.trans locked
  | unlocks _ _ _ exploring => cases exploring.symm.trans locked
  | stays before _ _ _ counted =>
    have sameBase := (base_of_locked held before).1
    rw [sameBase] at before counted
    obtain ⟨entry, found, _, was⟩ := entry_of_begun (by rw [before]; nofun)
    have so := charged entry found (by rw [← was]; exact before)
    rw [← was] at so
    change ctx.failureCount ≤ _
    rw [counted]
    cases success with
    | true => exact Int.natCast_nonneg _
    | false =>
      simp only [Session.record, before, if_pos (own rfl before), Bool.false_eq_true, if_false]
      push_cast
      omega

theorem Charged.apply (held : Stored m s.now s.stored) (charged : s.Charged)
    (own : s.OwnFailure call) : (s.apply m call).Charged := by
  cases call with
  | recordRequest u success => exact charged.record held own
  | shouldUseAffinity =>
    obtain ⟨_, _, same⟩ | ⟨_, _, after⟩ := use_cases m s
    · rw [Session.apply, same]
      exact charged
    · rw [Session.apply, after]
      exact fun entry found locked => absurd locked (unlocked_of_toExploring found)
  | reset =>
    intro entry found
    cases found

theorem unlocks_of_exploring (held : Stored m s.now s.stored) (locked : s.context.state = .locked)
    (exploring : (s.apply m call).context.state = .exploring) : s.Unlocks m call := by
  have begun : s.context.state ≠ .init := by rw [locked]; nofun
  cases call with
  | recordRequest u success =>
    obtain ⟨_, same, _⟩ | ⟨unbegun, _⟩ := base_cases held
    · obtain ⟨entry, stored, _, ⟨lapsed, _⟩ | ⟨ctx, _, counts, read⟩⟩ :=
        record_entry held u success
      · exact absurd (held.read begun).1 (not_lt.mpr lapsed)
      rw [same] at counts
      cases counts with
      | locks unlocked => cases locked.symm.trans unlocked
      | explores unlocked => cases locked.symm.trans unlocked
      | unlocks _ failed reached => exact ⟨locked, failed, reached⟩
      | stays _ _ still =>
        obtain ⟨_, again, _, after⟩ := entry_of_begun (by rw [exploring]; nofun)
        rw [show (s.apply m (.recordRequest u success)).stored = some entry from stored] at again
        cases again
        rw [after, read] at exploring
        cases still.symm.trans exploring
    · exact absurd unbegun begun
  | shouldUseAffinity =>
    obtain ⟨_, _, same⟩ | ⟨unlocks, _⟩ := use_cases m s
    · rw [Session.apply, same] at exploring
      cases locked.symm.trans exploring
    · exact unlocks
  | reset => cases exploring

theorem unlocked_apply {now : ℚ} (held : Stored m s.now s.stored) (forward : s.now ≤ now)
    (charged : s.Charged) (own : (s.advance now).OwnFailure call) :
    s.Unlocked m ((s.advance now).apply m call) := by
  intro locked exploring
  obtain ⟨entry, found, _, read⟩ := entry_of_begun (by rw [locked]; nofun)
  rw [read] at locked
  obtain ⟨_, e, _, expires, within⟩ := (held.sane entry found).lock locked
  by_cases alive : now < entry.expireAt
  · have still : (s.advance now).context = entry.hash.context := context_of_entry found alive
    have before : (s.advance now).context.state = .locked := by
      rw [still]
      exact locked
    have heldThen : Stored m (s.advance now).now (s.advance now).stored := held.later forward
    have unlocks : (s.advance now).Unlocks m call :=
      unlocks_of_exploring heldThen before exploring
    cases call with
    | recordRequest u success =>
      obtain ⟨locked', failed, reached⟩ := unlocks
      have count := charged entry found locked
      rw [still] at reached
      have missed : ((s.advance now).record m u success).misses = s.misses + 1 := by
        simp only [record, locked', if_pos (own failed locked'), failed, Bool.false_eq_true,
          if_false]
        rfl
      refine .inr (reached.trans ?_)
      rw [apply, missed]
      push_cast
      omega
    | shouldUseAffinity =>
      obtain ⟨_, expired⟩ := unlocks
      rw [still, expires] at expired
      refine .inl ⟨e, by rw [read, expires], ?_⟩
      rw [apply_now]
      simpa using expired
    | reset => exact unlocks.elim
  · refine .inl ⟨e, by rw [read, expires], ?_⟩
    rw [apply_now]
    change e < now
    linarith [not_lt.mp alive]

theorem readsBack_counted {stored : Option Entry} {now : ℚ} {ctx : AffinityContext}
    (held : Stored m now stored) (begun : (getContext now stored).state ≠ .init)
    (counts : Counts m now u success (getContext now stored) ctx) :
    getContext now (m.saveContext now ctx stored) = ctx ↔
      ¬ ((getContext now stored).state = .locked ∧ success = false ∧
        m.failureThreshold ≤ (getContext now stored).failureCount + 1) := by
  obtain ⟨positive, sane⟩ := held.read begun
  rw [getContext_saveContext positive]
  cases counts with
  | locks exploring _ locked named updated expires =>
    refine iff_of_true ?_ fun unlocks => by cases exploring.symm.trans unlocks.1
    ext1
    · rfl
    · simp [overlay, named.1, truthy_some u.provider_ne]
    · simp [overlay, named.2, truthy_some u.providerModelId_ne]
    · rfl
    · rfl
    · rfl
    · simp [overlay, updated]
    · simp [overlay, expires]
  | explores exploring _ _ same =>
    refine iff_of_true (overlay_getContext rfl begun same) fun unlocks => ?_
    cases exploring.symm.trans unlocks.1
  | stays _ below _ same =>
    exact iff_of_true (overlay_getContext rfl begun same) fun unlocks => below unlocks.2
  | unlocks locked failed reached _ cleared =>
    refine iff_of_false (fun same => ?_) fun kept => kept ⟨locked, failed, reached⟩
    obtain ⟨v, _, named, _⟩ := sane.lock locked
    have stale := congrArg AffinityContext.lockedProvider same
    rw [cleared] at stale
    simp [overlay, cleared, truthy, named.1] at stale

theorem readsBack_entered (held : Stored m s.now s.stored) (unbegun : s.context.state = .init) :
    getContext s.now (m.saveContext s.now (Machine.toExploring s.now s.context) s.stored) =
      Machine.toExploring s.now s.context ↔ 0 < m.ttl := by
  have fresh : getContext s.now s.stored = .fresh := held.fresh_of_init unbegun
  constructor
  · intro same
    by_contra lapsed
    rw [getContext_saveContext_of_le (not_lt.mp lapsed)] at same
    cases congrArg AffinityContext.state same
  · intro positive
    rw [getContext_saveContext positive, context, fresh]
    rfl

theorem readsBack_record (held : Stored m s.now s.stored) :
    s.ReadsBack m (.recordRequest u success) ↔ s.KeepsLock m (.recordRequest u success) := by
  obtain ⟨begun, _, opened⟩ | ⟨unbegun, base⟩ := base_cases held
  · have none : Machine.entered s.now s.stored = none := if_neg begun
    obtain ⟨ctx, counted, counts⟩ := @counted_spec m u success s.stored s.now begun
    have keeps := readsBack_counted held begun counts
    simp only [ReadsBack, KeepsLock, saves, none, opened, counted, Option.toList_none,
      Option.toList_some, List.map_nil, List.map_cons, List.nil_append, List.forall_mem_singleton,
      (held.read begun).1, implies_true, true_and]
    exact keeps
  · have some : Machine.entered s.now s.stored = some (Machine.toExploring s.now s.context) :=
      if_pos unbegun
    have idle : ¬ s.Unlocks m (.recordRequest u success) := fun unlocks => by
      cases unbegun.symm.trans unlocks.1
    have first := readsBack_entered held unbegun
    obtain ⟨lapsed, fresh⟩ | exploring := base
    · have uncounted : m.counted s.now u success (m.opened s.now s.stored) = none := by
        simp only [Machine.counted, show getContext s.now (m.opened s.now s.stored) = .fresh
          from fresh, AffinityContext.fresh]
      simp only [ReadsBack, KeepsLock, saves, some, uncounted, Option.toList_none,
        Option.toList_some, List.map_nil, List.map_cons, List.append_nil,
        List.forall_mem_singleton, ne_eq, List.cons_ne_nil, not_false_eq_true, true_implies,
        idle, and_true]
      exact first
    · have state : (getContext s.now (m.opened s.now s.stored)).state = .exploring := by
        change (s.base m).state = _
        rw [exploring]
      have begun : (getContext s.now (m.opened s.now s.stored)).state ≠ .init := by
        rw [state]
        decide
      obtain ⟨ctx, counted, counts⟩ := @counted_spec m u success _ _ begun
      have second := (readsBack_counted held.opened begun counts).mpr fun unlocks => by
        cases state.symm.trans unlocks.1
      simp only [ReadsBack, KeepsLock, saves, some, counted, Option.toList_some, List.map_nil,
        List.map_cons, List.singleton_append, List.forall_mem_cons, List.not_mem_nil,
        second, IsEmpty.forall_iff, implies_true, and_true, ne_eq, List.cons_ne_nil,
        not_false_eq_true, true_implies, idle]
      exact first

theorem readsBack_iff (held : Stored m s.now s.stored) :
    s.ReadsBack m call ↔ s.KeepsLock m call := by
  cases call with
  | recordRequest u success => exact readsBack_record held
  | shouldUseAffinity =>
    obtain ⟨idle, none, _⟩ | ⟨unlocks, some, _⟩ := use_cases m s
    · simp [ReadsBack, KeepsLock, saves, none, idle]
    · refine iff_of_false (fun readsBack => ?_) fun keeps => keeps.2 unlocks
      have begun : (getContext s.now s.stored).state ≠ .init := by
        rw [show (getContext s.now s.stored).state = .locked from unlocks.1]
        nofun
      obtain ⟨positive, sane⟩ := held.read begun
      obtain ⟨v, _, named, _⟩ := sane.lock unlocks.1
      have same := readsBack (s.stored, Machine.toExploring s.now s.context) (by
        simp [saves, some])
      rw [getContext_saveContext positive] at same
      have stale := congrArg AffinityContext.lockedProvider same
      simp [overlay, Machine.toExploring, truthy, named.1] at stale
  | reset => simp [ReadsBack, KeepsLock, saves, Unlocks]

/-- What is asked of a call holds at the time it is made. -/
def During (law : Session → Call → Prop) (s : Session) (a : ℚ × Call) : Prop :=
  s.now ≤ a.1 → law (s.advance a.1) a.2

variable {a : ℚ × Call} {t : Session}

theorem step_eq_some : step m s a = some t ↔ s.now ≤ a.1 ∧ (s.advance a.1).apply m a.2 = t := by
  rw [step, Option.ite_none_right_eq_some, Option.some.injEq]

theorem stored_advance (held : Stored m s.now s.stored) (forward : s.now ≤ a.1) :
    Stored m (s.advance a.1).now (s.advance a.1).stored :=
  held.later forward

theorem stored_step (held : Stored m s.now s.stored) (taken : step m s a = some t) :
    Stored m t.now t.stored := by
  obtain ⟨forward, rfl⟩ := step_eq_some.mp taken
  rw [apply_now]
  exact (stored_advance held forward).apply a.2

theorem Proven.step (held : Stored m s.now s.stored) (proven : s.Proven)
    (earns : During (Earns m) s a) (taken : Routing.step m s a = some t) : t.Proven := by
  obtain ⟨forward, rfl⟩ := step_eq_some.mp taken
  have provenThen : (s.advance a.1).Proven := proven
  exact provenThen.apply (stored_advance held forward) (earns forward)

theorem Charged.step (held : Stored m s.now s.stored) (charged : s.Charged)
    (own : During OwnFailure s a) (taken : Routing.step m s a = some t) : t.Charged := by
  obtain ⟨forward, rfl⟩ := step_eq_some.mp taken
  have chargedThen : (s.advance a.1).Charged := charged
  exact chargedThen.apply (stored_advance held forward) (own forward)

theorem stored_initial (m : Machine) (start : ℚ) :
    Stored m (initial start).now (initial start).stored := by
  constructor <;> intro entry found <;> cases found

end Session
end Counting

/-- A lock is earned when the request that reaches the threshold succeeds or its upstream
has, and only then; it is given up for a reason as long as other upstreams do not fail in
it; and it is read back from every save but the one that is to clear it. -/
theorem affinity_lawful (m : Machine) (start : ℚ) (calls : List (ℚ × Call)) :
    (Along (step m) (fun s a => ∀ t, step m s a = some t → t.Earned) (.initial start) calls ↔
      Along (step m) (Session.During (Session.Earns m)) (.initial start) calls) ∧
    (Along (step m) (Session.During Session.OwnFailure) (.initial start) calls →
      Along (step m) (fun s a => ∀ t, step m s a = some t → s.Unlocked m t) (.initial start)
        calls) ∧
    (Along (step m) (Session.During (Session.ReadsBack m)) (.initial start) calls ↔
      Along (step m) (Session.During (Session.KeepsLock m)) (.initial start) calls) := by
  have held := Session.stored_initial m start
  refine ⟨⟨?_, ?_⟩, ?_, ⟨?_, ?_⟩⟩
  · intro earned
    refine along_of_invariant (P := fun s => Stored m s.now s.stored) ?_ ?_ held earned
    · intro s a t held _ taken
      exact Session.stored_step held taken
    · intro s a held earned forward
      exact Session.earns_of_earned (Session.stored_advance held forward)
        (earned _ (if_pos forward))
  · intro earns
    have proven : (Session.initial start).Proven := by
      intro entry found
      cases found
    refine along_of_invariant (P := fun s => Stored m s.now s.stored ∧ s.Proven) ?_ ?_
      ⟨held, proven⟩ earns
    · rintro s a t ⟨held, proven⟩ earns taken
      exact ⟨Session.stored_step held taken, proven.step held earns taken⟩
    · rintro s a ⟨held, proven⟩ earns t taken
      exact Session.earned_of_proven (Session.stored_step held taken)
        (proven.step held earns taken)
  · intro own
    have charged : (Session.initial start).Charged := by
      intro entry found
      cases found
    refine along_of_invariant (P := fun s => Stored m s.now s.stored ∧ s.Charged) ?_ ?_
      ⟨held, charged⟩ own
    · rintro s a t ⟨held, charged⟩ own taken
      exact ⟨Session.stored_step held taken, charged.step held own taken⟩
    · rintro s a ⟨held, charged⟩ own t taken
      obtain ⟨forward, rfl⟩ := Session.step_eq_some.mp taken
      exact Session.unlocked_apply held forward charged (own forward)
  · intro reads
    refine along_of_invariant (P := fun s => Stored m s.now s.stored) ?_ ?_ held reads
    · intro s a t held _ taken
      exact Session.stored_step held taken
    · intro s a held reads forward
      exact (Session.readsBack_iff (Session.stored_advance held forward)).mp (reads forward)
  · intro keeps
    refine along_of_invariant (P := fun s => Stored m s.now s.stored) ?_ ?_ held keeps
    · intro s a t held _ taken
      exact Session.stored_step held taken
    · intro s a held keeps forward
      exact (Session.readsBack_iff (Session.stored_advance held forward)).mpr (keeps forward)

/-- The machine `routing` builds. -/
def defaults : Machine := ⟨3, 3600, 3⟩

def first : Upstream := ⟨"openai", "item_1", by decide, by decide⟩

def second : Upstream := ⟨"anthropic", "item_2", by decide, by decide⟩

/-- The third request of an exploration fails, and its upstream is locked. -/
def failedLock : List (ℚ × Call) :=
  [(0, .recordRequest first true), (1, .recordRequest first true),
    (2, .recordRequest second false)]

theorem failed_upstream_locked :
    ∃ t, run (step defaults) (.initial 0) failedLock = some t ∧ ¬ t.Earned ∧
      t.context.state = .locked ∧ t.context.lockedProvider = some "anthropic" ∧
      t.proven = [first, first] := by
  have ends : ∃ t, run (step defaults) (.initial 0) failedLock = some t ∧
      t.context.state = .locked ∧ t.context.lockedProvider = some "anthropic" ∧
      t.proven = [first, first] := ⟨_, rfl, by decide +kernel, by decide +kernel, by decide +kernel⟩
  obtain ⟨t, reached, locked, provider, proven⟩ := ends
  refine ⟨t, reached, fun earned => ?_, locked, provider, proven⟩
  obtain ⟨⟨u, mem, named, _⟩, _⟩ := earned locked
  rw [proven] at mem
  obtain rfl : u = first := by simpa using mem
  exact absurd (Option.some.inj (provider.symm.trans named)) (by decide)

end Deeting.Routing
