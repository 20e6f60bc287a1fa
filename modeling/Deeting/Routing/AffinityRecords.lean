import Deeting.Routing.AffinityRuns

/-! What the calls of `UpstreamCallStep` report to the affinity machine of one session and
model. Any number of requests are routed, called and moved to their next candidates in any
order, each with its own context; the machine's hash is shared. A report is a call by
keyword, whose exceptions are logged. -/
namespace Deeting.Routing
open Transition

inductive TypeError where
  | unexpectedKeyword (name : String)
  | missing (name : String)
  deriving DecidableEq, Repr

def bindKeywords (params given : List String) : Except TypeError Unit :=
  match given.find? (· ∉ params), params.find? (· ∉ given) with
  | some name, _ => .error (.unexpectedKeyword name)
  | none, some name => .error (.missing name)
  | none, none => .ok ()

/-- `record_request`, called with these keywords. -/
def recordRequest (m : Machine) (keywords : List String) (u : Upstream) (success : Bool)
    (s : Session) : Except TypeError Session :=
  (bindKeywords ["provider", "provider_model_id", "success"] keywords).map fun _ =>
    s.record m u success

/-- How an upstream call ends. The step returns a stream before it is read. -/
inductive Outcome where
  | response
  | stream (completed : Bool)
  | responseTooLarge
  | securityBlocked
  | timeout
  | httpStatus (code : ℕ)
  | exception
  deriving DecidableEq, Repr

def Outcome.success : Outcome → Bool
  | .response => true
  | .stream completed => completed
  | .responseTooLarge | .securityBlocked | .timeout | .httpStatus _ | .exception => false

def Outcome.reported : Outcome → Option Bool
  | .response | .stream _ => some true
  | .responseTooLarge | .securityBlocked => none
  | .timeout | .httpStatus _ | .exception => some false

structure Arm where
  upstream : Upstream
  credentialId : Option String := none
  deriving DecidableEq

/-- The fields of the `routing` namespace. `affinity_machine`, `affinity_provider` and
`affinity_item_id` are set together; `target` is the provider with its model. -/
structure RoutingContext where
  target : Option Upstream := none
  candidates : List Arm := []
  candidateIndex : ℕ := 0
  affinityHit : Bool := false
  affinity : Option (Machine × Upstream) := none

/-- The machine `_select_upstream` makes. -/
def affinityMachine : Machine where
  exploreThreshold := 3
  lockDuration := 3600
  failureThreshold := 3

namespace RoutingContext

variable (ctx : RoutingContext)

/-- What `RoutingStep.execute` writes of a routing result. -/
def routed (primary : Arm) (backups : List Arm) (affinityHit : Bool) : RoutingContext :=
  { ctx with
    target := some primary.upstream
    candidates := primary :: backups
    candidateIndex := 0
    affinityHit }

/-- `_select_upstream` after `should_use_affinity`; the last arguments are what `choose`
would return. -/
def select (use : Bool × Option String × Option String) (candidates : List Arm)
    (primary : Arm) (backups : List Arm) : RoutingContext :=
  let lockedItemId := if use.1 then truthy use.2.2 else none
  match candidates.find? fun candidate => some candidate.upstream.providerModelId = lockedItemId with
  | some locked => ctx.routed locked (candidates.filter (· ≠ locked)) true
  | none =>
      let ctx := { ctx with affinity := some (affinityMachine, primary.upstream) }
      ctx.routed primary backups false

/-- `on_degrade`: the next candidate, if there is one. -/
def degrade : Option RoutingContext :=
  (ctx.candidates[ctx.candidateIndex + 1]?).map fun backup =>
    { ctx with target := some backup.upstream, candidateIndex := ctx.candidateIndex + 1 }

/-- `_record_affinity_success` and `_record_affinity_failure`. -/
def recordAffinity (success : Bool) (s : Session) : Session :=
  match ctx.affinity with
  | none => s
  | some (machine, u) =>
      match recordRequest machine ["provider", "item_id", "success"] u success s with
      | .ok s => s
      | .error _ => s

def report (outcome : Outcome) (s : Session) : Session :=
  match outcome.reported with
  | none => s
  | some success => ctx.recordAffinity success s

end RoutingContext

/-- The hash of the session with the contexts of its requests. -/
structure Serving where
  session : Session
  contexts : ℕ → RoutingContext

/-- Steps of one request. A request with a `provider_model_id` is routed without the
machine; without candidates the routing fails after it has asked the machine. -/
inductive Event where
  | select (request : ℕ) (candidates : List Arm) (primary : Arm) (backups : List Arm)
  | selectByProviderModelId (request : ℕ) (primary : Arm) (backups : List Arm)
  | degrade (request : ℕ)
  | call (request : ℕ) (outcome : Outcome)

namespace Serving

def initial (now : ℚ) : Serving := ⟨.initial now, fun _ => {}⟩

def write (s : Serving) (request : ℕ) (ctx : RoutingContext) : Serving :=
  { s with contexts := Function.update s.contexts request ctx }

def apply (s : Serving) : Event → Option Serving
  | .select request candidates primary backups =>
      let use := (Machine.shouldUseAffinity s.session.now s.session.stored).1
      let asked := { s with session := s.session.use affinityMachine }
      if candidates = [] then some asked
      else some (asked.write request
        ((s.contexts request).select use candidates primary backups))
  | .selectByProviderModelId request primary backups =>
      some (s.write request ((s.contexts request).routed primary backups false))
  | .degrade request => (s.contexts request).degrade.map (s.write request)
  | .call request outcome =>
      (s.contexts request).target.map fun _ =>
        { s with session := (s.contexts request).report outcome s.session }

end Serving

/-- An event at its time; the times of a run never go back. -/
def serve (s : Serving) (a : ℚ × Event) : Option Serving :=
  if s.session.now ≤ a.1 then { s with session := s.session.advance a.1 }.apply a.2 else none

/-- A call leaves the hash as one `record_request` would that names the upstream that was
called and whether it succeeded. -/
def Recorded (s : Serving) (a : ℚ × Event) : Prop :=
  match a.2 with
  | .call request outcome => ∀ u, (s.contexts request).target = some u → ∀ t,
      serve s a = some t →
        t.session.stored =
          ((s.session.advance a.1).record affinityMachine u outcome.success).stored
  | _ => True

def Uncalled (s : Serving) (a : ℚ × Event) : Prop :=
  match a.2 with
  | .call .. => serve s a = none
  | _ => True

section Recording
variable {m : Machine} {s : Session} {u : Upstream} {success : Bool}

theorem overlay_counted_ne {now : ℚ} {stored : Option Entry} {ctx : AffinityContext}
    (counts : m.counted now u success stored = some ctx) :
    overlay now ctx (getContext now stored) ≠ getContext now stored := by
  intro same
  have state := congrArg AffinityContext.state same
  have explored := congrArg AffinityContext.exploreCount same
  have succeeded := congrArg AffinityContext.successCount same
  have failed := congrArg AffinityContext.failureCount same
  simp only [overlay] at state explored succeeded failed
  unfold Machine.counted at counts
  cases before : (getContext now stored).state with
  | init => simp [before] at counts
  | exploring =>
    simp only [before] at counts state
    split at counts <;> cases counts
    · simp [Machine.toLocked] at state
    · simp at explored
  | locked =>
    simp only [before] at counts state
    split at counts
    · cases counts
      simp at succeeded
    · split at counts <;> cases counts
      · simp [Machine.toExploring] at state
      · simp at failed

theorem counted_state {now : ℚ} {stored : Option Entry} {ctx : AffinityContext}
    (counts : m.counted now u success stored = some ctx) : ctx.state ≠ .init := by
  have begun : (getContext now stored).state ≠ .init := by
    intro unbegun
    simp [Machine.counted, unbegun] at counts
  obtain ⟨_, again, spec⟩ := @counted_spec m u success _ _ begun
  cases counts.symm.trans again
  cases spec with
  | locks _ _ locked => rw [locked]; decide
  | explores _ _ still => rw [still]; decide
  | unlocks _ _ _ exploring => rw [exploring]; decide
  | stays _ _ still => rw [still]; decide

theorem Session.stored_record_ne (lives : 0 < m.ttl) : (s.record m u success).stored ≠ s.stored := by
  rw [Session.stored_record]
  by_cases unbegun : (getContext s.now s.stored).state = .init
  · intro same
    have opened : m.opened s.now s.stored =
        m.saveContext s.now (Machine.toExploring s.now (getContext s.now s.stored)) s.stored := by
      rw [Machine.opened, Machine.entered, if_pos unbegun, saved_some]
    have exploring : (getContext s.now (m.opened s.now s.stored)).state = .exploring := by
      rw [opened, getContext_saveContext lives]
      rfl
    obtain ⟨ctx, counts, _⟩ :=
      @counted_spec m u success (m.opened s.now s.stored) s.now (by rw [exploring]; decide)
    rw [counts, saved_some] at same
    rw [← same, getContext_saveContext lives] at unbegun
    exact counted_state counts unbegun
  · have opened : m.opened s.now s.stored = s.stored := by
      rw [Machine.opened, Machine.entered, if_neg unbegun, saved_none]
    obtain ⟨ctx, counts, _⟩ := @counted_spec m u success _ _ unbegun
    intro same
    rw [opened, counts, saved_some] at same
    apply overlay_counted_ne counts
    have read : getContext s.now (m.saveContext s.now ctx s.stored) = _ :=
      getContext_saveContext lives
    rw [← read, same]

end Recording

section Calls
variable {s t : Serving} {a : ℚ × Event} {ctx : RoutingContext}

theorem recordRequest_itemId (m : Machine) (u : Upstream) (success : Bool) (s : Session) :
    recordRequest m ["provider", "item_id", "success"] u success s =
      .error (.unexpectedKeyword "item_id") := by
  simp [recordRequest, bindKeywords, Except.map]

theorem recordAffinity_eq (ctx : RoutingContext) (success : Bool) (s : Session) :
    ctx.recordAffinity success s = s := by
  unfold RoutingContext.recordAffinity
  split
  · rfl
  · rw [recordRequest_itemId]

theorem report_eq (ctx : RoutingContext) (outcome : Outcome) (s : Session) :
    ctx.report outcome s = s := by
  unfold RoutingContext.report
  split
  · rfl
  · exact recordAffinity_eq ctx _ s

theorem stored_call {now : ℚ} {request : ℕ} {outcome : Outcome}
    (taken : serve s (now, .call request outcome) = some t) :
    t.session = s.session.advance now := by
  simp only [serve, Serving.apply] at taken
  split at taken
  · obtain ⟨_, _, rfl⟩ := Option.map_eq_some_iff.mp taken
    exact report_eq _ outcome _
  · cases taken

theorem not_recorded_of_call {now : ℚ} {request : ℕ} {outcome : Outcome}
    (taken : serve s (now, .call request outcome) = some t) :
    ¬ Recorded s (now, .call request outcome) := by
  intro recorded
  obtain ⟨u, target⟩ : ∃ u, (s.contexts request).target = some u := by
    have applied := taken
    simp only [serve, Serving.apply] at applied
    split at applied
    · obtain ⟨u, target, _⟩ := Option.map_eq_some_iff.mp applied
      exact ⟨u, target⟩
    · cases applied
  have same := recorded u target t taken
  rw [stored_call taken] at same
  exact Session.stored_record_ne (by decide) same.symm

theorem recorded_iff_uncalled : Recorded s a ↔ Uncalled s a := by
  obtain ⟨now, event⟩ := a
  cases event with
  | select | selectByProviderModelId | degrade => exact Iff.rfl
  | call request outcome =>
    constructor
    · intro recorded
      cases taken : serve s (now, .call request outcome) with
      | none => exact taken
      | some t => exact absurd recorded (not_recorded_of_call taken)
    · intro stuck u _ t taken
      have none : serve s (now, .call request outcome) = none := stuck
      rw [none] at taken
      cases taken

theorem stored_serve (unlocked : s.session.stored = none) (taken : serve s a = some t) :
    t.session.stored = none := by
  obtain ⟨now, event⟩ := a
  cases event with
  | call request outcome =>
    rw [stored_call taken]
    exact unlocked
  | select request candidates primary backups =>
    have asked : ((s.session.advance now).use affinityMachine).stored = none := by
      simp [Session.use, Session.advance, Machine.shouldUseAffinity, unlocked, getContext, live,
        AffinityContext.fresh]
    simp only [serve, Serving.apply] at taken
    split at taken
    · split at taken <;> cases taken <;> exact asked
    · cases taken
  | selectByProviderModelId request primary backups =>
    simp only [serve, Serving.apply] at taken
    split at taken <;> cases taken
    exact unlocked
  | degrade request =>
    simp only [serve, Serving.apply] at taken
    split at taken
    · obtain ⟨_, _, rfl⟩ := Option.map_eq_some_iff.mp taken
      exact unlocked
    · cases taken

end Calls

/-- The runs in which every upstream call is recorded are those that call no upstream, and no
run of any length locks a session that begins without a hash. -/
theorem calls_recorded_iff (s : Serving) (events : List (ℚ × Event)) :
    (Along serve Recorded s events ↔ Along serve Uncalled s events) ∧
    ∀ now t, run serve (.initial now) events = some t → t.session.context = .fresh := by
  constructor
  · exact along_congr (fun s a => recorded_iff_uncalled) s events
  · intro now t reached
    have unlocked : t.session.stored = none := by
      apply run_preserves (P := fun s => s.session.stored = none) stored_serve rfl reached
    rw [Session.context, unlocked]
    rfl

def explored : List (ℚ × Event) :=
  [(0, .select 0 [⟨first, none⟩] ⟨first, none⟩ []), (1, .call 0 .response),
    (2, .select 1 [⟨first, none⟩] ⟨first, none⟩ []), (3, .call 1 .response),
    (4, .select 2 [⟨first, none⟩] ⟨first, none⟩ []), (5, .call 2 .response)]

/-- The exploration is never counted, and the session is not locked after it. -/
theorem successes_not_counted :
    (∃ t, run serve (.initial 0) explored = some t ∧ t.session.context.state = .init) ∧
      ¬ Along serve Recorded (.initial 0) explored := by
  constructor
  · exact ⟨_, rfl, by decide +kernel⟩
  · intro recorded
    obtain ⟨_, rest⟩ := recorded
    obtain ⟨call, _⟩ := rest _ rfl
    exact not_recorded_of_call rfl call

end Deeting.Routing
