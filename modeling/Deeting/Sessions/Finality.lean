import Deeting.Sessions.Rotation

/-! Revocation is final: what a committed revocation takes back is never accepted again, whatever
the cache contains, and what belongs to other sessions of the user stays accepted. -/
namespace Deeting.Sessions
open Transition Expiry

/-- The token of an exchange that a revocation comes too late for: with a new version of the user's
tokens, from the reading of the user on, else from the check of the session on. -/
def Call.halfway (versioned : Bool) : Call → Option Token
  | .refresh token (.mark _) | .refresh token .user => if versioned then none else some token
  | .refresh token (.ban _) | .refresh token (.create _) | .refresh token (.find _)
  | .refresh token (.rotate _) => some token
  | _ => none

/-- A step of a call, or anything else that can happen to the cache: entries are lost, kept though
a command has failed, put back or made up. -/
inductive Event where
  | step (a : Action)
  | cache (refresh : Jti → Option (Entry ℤ RefreshData)) (blacklist : Jti → Option (Entry ℤ Unit))
      (bans : String → Option (Entry ℤ String))

def eventStep (w : World) : Event → Option World
  | .step a => sessionStep w a
  | .cache refresh blacklist bans =>
    some { w with refresh := refresh, blacklist := blacklist, bans := bans }

namespace World

/-- When a revocation is committed, no exchange of its sessions is half-way. -/
def Undisturbed (w : World) : Action → Prop
  | .advance i => ∀ c s keys, w.calls i = some c → c.sweeping = some s → s.commands = [] →
      s.selected = some keys → ∀ j token, w.view (Call.halfway s.session.isNone) j = some token →
        token.sid ∉ keys
  | _ => True

def Doomed (w : World) (token : Token) : RefreshStage → Prop
  | .mark _ | .user => ∃ row, w.users token.sub = some row ∧ token.version.getD 0 < row.tokenVersion
  | .ban version => token.version.getD 0 < version
  | _ => False

/-- An exchange that is under way is of an active session, or doomed. -/
def Timely (w : World) : Prop :=
  ∀ i token stage, w.calls i = some (.refresh token stage) →
    (Call.refresh token stage).exchanging = some token →
    (∃ row, w.activeSession token.sid = some row) ∨ w.Doomed token stage

/-- What was revoked stays so: no access token of the session is accepted, and no refresh token
of it is exchanged any more. -/
def Final (w t : World) : Prop :=
  ∀ key, w.Revoked key → t.Revoked key ∧
    (∀ token user, token.sid = key → t.getUserFromJwt token ≠ .ok user) ∧
    ∀ i token pair time, t.calls i = some (.refresh token (.returned pair time)) →
      token.sid = key → w.calls i = some (.refresh token (.returned pair time))

/-- Tokens that were handed out for a session that is not revoked or being revoked are accepted
until they expire, a refresh token until it is presented, unless the user was banned or
`revoke_all_tokens` ran since the login. -/
def Spares (w : World) : Prop :=
  ∀ token, w.Issued token → (∃ row, w.activeSession token.sid = some row) →
    ¬ w.BeingRevoked token.sid → w.swept token.sub ≤ token.sid →
    live w.now (w.bans token.sub) = none → w.now < token.exp →
    (token.jti.type = .access → ∃ user, w.getUserFromJwt token = .ok user) ∧
    (token.jti.type = .refresh → ¬ w.Presented token → w.Accepts token)

def Respects (w : World) (a : Action) : Prop :=
  w.Exclusive a ∧ w.OneSession a ∧ w.Undisturbed a

def Permits (w : World) : Event → Prop
  | .step a => w.Respects a
  | .cache .. => True

def Owned (w : World) : Prop :=
  ∀ i s keys, w.view Call.sweeping i = some s → s.selected = some keys → ∀ key ∈ keys,
    ∃ row, w.sessions key = some row ∧ row.userId = s.user

end World

section Ownership

variable {w t : World} {a : Action} {i : ℕ} {c d : Call} {s : Sweep}

theorem unread_of_opens (opens : w.Opens a c) (sweeping : c.sweeping = some s) :
    s.selected = none := by
  cases opens with
  | login => cases sweeping
  | presented token =>
    rcases w.presented_spec token with ⟨refusal, stage⟩ | stage | ⟨data, stage, -⟩ <;>
      rw [stage] at sweeping <;> cases sweeping
    rfl
  | logout user authorization refreshToken =>
    rw [World.logout] at sweeping
    split at sweeping <;> cases sweeping
    rfl
  | one | all | ban =>
    cases sweeping
    rfl

theorem World.Owned.of_update (owned : w.Owned) (rows : w.KeepsRows t)
    (calls : t.calls = Function.update w.calls i (some d))
    (own : ∀ s keys, d.sweeping = some s → s.selected = some keys → ∀ key ∈ keys,
      ∃ row, w.sessions key = some row ∧ row.userId = s.user) : t.Owned := by
  intro j s keys sweeps read key mem
  obtain ⟨row, found, user⟩ : ∃ row, w.sessions key = some row ∧ row.userId = s.user := by
    rw [view_update calls] at sweeps
    split at sweeps
    · exact own s keys sweeps read key mem
    · exact owned j s keys sweeps read key mem
  obtain ⟨later, there, same, -⟩ := rows key row found
  exact ⟨later, there, same.trans user⟩

theorem World.Owned.step (owned : w.Owned) (formed : w.Formed) (moves : w.Moves a t) : t.Owned := by
  have rows := (formed.extends moves).sessions
  cases moves with
  | ticked seconds => exact owned
  | began opens =>
    refine owned.of_update (i := w.started) rows rfl fun s keys sweeping read => ?_
    cases (unread_of_opens opens sweeping).symm.trans read
  | led at_ leads =>
    refine owned.of_update rows rfl fun s keys sweeping => ?_
    cases leads <;> cases sweeping
  | @performed i c s command rest at_ sweeping commands =>
    refine owned.of_update rows (perform_calls _) fun next keys reads read => ?_
    rw [Call.sweeping_resume] at reads
    cases reads
    exact owned i s keys ((view_eq at_).trans sweeping) read
  | @selected i c s at_ sweeping commands unread =>
    refine owned.of_update rows rfl fun next keys reads read key mem => ?_
    rw [Call.sweeping_resume] at reads
    cases reads
    cases read
    obtain ⟨⟨_, row⟩, found, rfl⟩ := List.mem_map.mp mem
    obtain ⟨-, active, own⟩ := mem_select.mp found
    exact ⟨row, (activeSession_eq_some.mp active).1, own⟩
  | nothing at_ sweeping unread one absent =>
    refine owned.of_update rows rfl fun next keys reads => ?_
    rw [Call.sweeping_resume] at reads
    cases reads
  | committed at_ sweeping commands read =>
    refine owned.of_update rows (commit_calls _ _) fun next keys reads => ?_
    rw [Call.sweeping_resume] at reads
    cases reads
  | _ => exact owned.of_update rows rfl fun s keys sweeping => by cases sweeping

end Ownership

section Timeliness

variable {w t : World} {a : Action} {i : ℕ} {token : Token} {stage : RefreshStage} {c d : Call}

theorem World.Doomed.later (doomed : w.Doomed token stage) (ages : w.Ages t) :
    t.Doomed token stage := by
  have grows (old : ∃ row, w.users token.sub = some row ∧ token.version.getD 0 < row.tokenVersion) :
      ∃ row, t.users token.sub = some row ∧ token.version.getD 0 < row.tokenVersion := by
    obtain ⟨row, found, behind⟩ := old
    obtain ⟨later, there, -, bound, -⟩ := ages token.sub row found
    exact ⟨later, there, by omega⟩
  cases stage with
  | mark data => exact grows doomed
  | user => exact grows doomed
  | ban version => exact doomed
  | _ => cases doomed

theorem World.Timely.of_update (timely : w.Timely) (ages : w.Ages t)
    (calls : t.calls = Function.update w.calls i (some d))
    (active : ∀ key row, w.activeSession key = some row → ∃ row, t.activeSession key = some row)
    (own : ∀ token stage, d = .refresh token stage → d.exchanging = some token →
      (∃ row, t.activeSession token.sid = some row) ∨ t.Doomed token stage) : t.Timely := by
  intro j other stage at_ exchanging
  rw [calls, Function.update_apply] at at_
  split at at_
  · cases at_
    exact own other stage rfl exchanging
  · rcases timely j other stage at_ exchanging with ⟨row, found⟩ | doomed
    · exact .inl (active _ row found)
    · exact .inr (doomed.later ages)

theorem World.Timely.goes {next : RefreshStage} (timely : w.Timely)
    (at_ : w.calls i = some (.refresh token stage))
    (exchanging : (Call.refresh token stage).exchanging = some token)
    (goes : w.Doomed token stage → w.Doomed token next) :
    ∀ other later, Call.refresh token next = .refresh other later →
      (Call.refresh token next).exchanging = some other →
      (∃ row, w.activeSession other.sid = some row) ∨ w.Doomed other later := by
  rintro other later ⟨⟩ -
  exact (timely i token stage at_ exchanging).imp_right goes

theorem active_of_same (same : t.sessions = w.sessions) :
    ∀ key row, w.activeSession key = some row → ∃ row, t.activeSession key = some row := by
  intro key row found
  exact ⟨row, by rw [World.activeSession, same]; exact found⟩

theorem World.Timely.committed {s : Sweep} {keys : List ℕ} (timely : w.Timely) (formed : w.Formed)
    (owned : w.Owned) (at_ : w.calls i = some c) (sweeping : c.sweeping = some s)
    (read : s.selected = some keys)
    (late : ∀ j token, w.view (Call.halfway s.session.isNone) j = some token → token.sid ∉ keys) :
    ((w.commit s keys).goOn i (c.resume none)).Timely := by
  have ages : w.Ages ((w.commit s keys).goOn i (c.resume none)) := ages_commit
  intro j other stage there exchanging
  rw [commit_calls, Function.update_apply] at there
  split at there
  · rw [← Option.some.inj there] at exchanging
    cases (Call.bystander_resume none sweeping).exchanging.symm.trans exchanging
  · have before := timely j other stage there exchanging
    by_cases among : other.sid ∈ keys
    · have reached (halfway : (Call.refresh other stage).halfway s.session.isNone = some other) :
          False := late j other ((view_eq there).trans halfway) among
      have early : s.session = none ∧ (stage = .user ∨ ∃ data, stage = .mark data) := by
        cases stage with
        | mark data =>
          cases all : s.session with
          | none => exact ⟨rfl, .inr ⟨data, rfl⟩⟩
          | some key => exact absurd (by rw [all]; rfl) reached
        | user =>
          cases all : s.session with
          | none => exact ⟨rfl, .inl rfl⟩
          | some key => exact absurd (by rw [all]; rfl) reached
        | check data => cases exchanging
        | returned pair time => cases exchanging
        | refused refusal => cases exchanging
        | revoking s => cases exchanging
        | _ => exact absurd rfl reached
      -- The exchange has yet to read the user, whose version is counted up.
      have claims : w.view Call.claims j = some other :=
        claims_of_exchanging ((view_eq there).trans exchanging)
      obtain ⟨issued, -⟩ := formed.claimed claims
      obtain ⟨⟨row, found, own⟩, first, entered, user, version⟩ := formed.home issued
      obtain ⟨same, also, reads⟩ := owned i s keys ((view_eq at_).trans sweeping) read _ among
      cases found.symm.trans also
      obtain ⟨known, there_, -, bound, -⟩ := (formed.fits _ _ entered).entrant _ _ rfl
      have behind : ∃ row, ((w.commit s keys).goOn i (c.resume none)).users other.sub = some row ∧
          other.version.getD 0 < row.tokenVersion := by
        refine ⟨{ known with tokenVersion := known.tokenVersion + 1 }, ?_, ?_⟩
        · simp only [World.goOn, World.commit, early.1, Option.isSome_none, Bool.false_eq_true,
            if_false, World.revoke]
          rw [← own, reads, Function.update_self, ← reads, own, ← user, there_, Option.map_some]
        · rw [version] at bound
          exact Nat.lt_succ_of_le bound
      refine .inr ?_
      rcases early.2 with rfl | ⟨data, rfl⟩
      · exact behind
      · exact behind
    · refine before.imp ?_ fun doomed => doomed.later ages
      rintro ⟨row, found⟩
      obtain ⟨found, alive⟩ := activeSession_eq_some.mp found
      refine ⟨row, activeSession_eq_some.mpr ⟨?_, alive⟩⟩
      simp only [World.goOn, commit_sessions, if_neg among, found]

theorem exchanging_opens (opens : w.Opens a c) : c.exchanging = none := by
  rcases opens.forms with
    ⟨_, _, rfl⟩ | ⟨_, _, rfl⟩ | ⟨_, _, rfl⟩ | ⟨_, _, rfl⟩ | rfl | ⟨_, rfl⟩
  all_goals rfl

theorem World.Timely.step (timely : w.Timely) (formed : w.Formed) (owned : w.Owned)
    (undisturbed : w.Undisturbed a) (moves : w.Moves a t) : t.Timely := by
  have ages := moves.ages
  -- A call that exchanges nothing is out of it.
  have idle {d : Call} (apart : d.exchanging = none) (token : Token) (stage : RefreshStage)
      (_ : d = .refresh token stage) (exchanging : d.exchanging = some token) :
      (∃ row, t.activeSession token.sid = some row) ∨ t.Doomed token stage := by
    cases apart.symm.trans exchanging
  cases moves with
  | ticked seconds => exact timely
  | began opens =>
    exact timely.of_update (i := w.started) ages rfl (active_of_same rfl)
      (idle (exchanging_opens opens))
  | drawn at_ => exact timely.of_update ages rfl (active_of_same rfl) (idle rfl)
  | inserted at_ =>
    refine timely.of_update ages rfl (fun key row found => ⟨row, ?_⟩) (idle rfl)
    obtain ⟨found, alive⟩ := activeSession_eq_some.mp found
    refine activeSession_eq_some.mpr ⟨(Function.update_of_ne ?_ _ _).trans found, alive⟩
    rintro rfl
    cases (formed.new at_).symm.trans found
  | led at_ leads =>
    refine timely.of_update ages rfl (active_of_same rfl) ?_
    cases leads with
    | admitted found own current =>
      rintro other later ⟨⟩ -
      exact .inl ⟨_, found⟩
    | known found =>
      refine timely.goes at_ rfl fun ⟨row, there, behind⟩ => ?_
      cases found.symm.trans there
      exact behind
    | welcome same => exact timely.goes at_ rfl fun behind => absurd same behind.ne'
    | there found =>
      rintro other later ⟨⟩ -
      exact .inl ⟨_, found⟩
    | refused asks =>
      rintro other later ⟨⟩ exchanging
      cases exchanging
  | marked at_ =>
    exact timely.of_update ages rfl (active_of_same rfl) (timely.goes at_ rfl id)
  | created at_ =>
    exact timely.of_update ages rfl (active_of_same rfl) (timely.goes at_ rfl id)
  | missed at_ gone => exact timely.of_update ages rfl (active_of_same rfl) (idle rfl)
  | @rotated i token pair at_ =>
    refine timely.of_update ages rfl (fun key row found => ?_) (idle rfl)
    obtain ⟨found, alive⟩ := activeSession_eq_some.mp found
    by_cases own : key = token.sid
    · rw [own] at found ⊢
      refine ⟨{ row with
          currentAccessJti := pair.access.jti
          currentRefreshJti := pair.refresh.jti },
        activeSession_eq_some.mpr ⟨(Function.update_self ..).trans ?_, alive⟩⟩
      rw [found, Option.map_some]
    · exact ⟨row, activeSession_eq_some.mpr ⟨(Function.update_of_ne own _ _).trans found, alive⟩⟩
  | @performed i c s command rest at_ sweeping commands =>
    exact timely.of_update ages (perform_calls _) (active_of_same (perform_sessions _))
      (idle (Call.bystander_resume _ sweeping).exchanging)
  | selected at_ sweeping commands unread =>
    exact timely.of_update ages rfl (active_of_same rfl)
      (idle (Call.bystander_resume _ sweeping).exchanging)
  | nothing at_ sweeping unread one absent =>
    exact timely.of_update ages rfl (active_of_same rfl)
      (idle (Call.bystander_resume _ sweeping).exchanging)
  | committed at_ sweeping commands read =>
    exact timely.committed formed owned at_ sweeping read
      (undisturbed _ _ _ at_ sweeping commands read)

end Timeliness

section Finality

variable {w t : World} {a : Action} {i : ℕ} {token : Token}

theorem refused_of_revoked {user : UserRow} (revoked : w.Revoked token.sid) :
    w.getUserFromJwt token ≠ .ok user := by
  intro accepted
  rw [World.getUserFromJwt] at accepted
  split at accepted
  · cases accepted
  · rename_i valid decodes
    obtain ⟨rfl, -⟩ := decode_eq_some.mp decodes
    split at accepted
    · cases accepted
    · split at accepted
      · cases accepted
      · split at accepted
        · cases accepted
        · split at accepted
          · cases accepted
          · split at accepted
            · cases accepted
            · split at accepted
              · rename_i there
                obtain ⟨row, found, -⟩ := there
                cases revoked.not_active.symm.trans found
              · cases accepted

theorem World.Timely.exchanges {pair : TokenPair} {time : ℤ} (timely : w.Timely)
    (formed : w.Formed) (taken : sessionStep w a = some t) (revoked : w.Revoked token.sid)
    (returned : t.calls i = some (.refresh token (.returned pair time))) :
    w.calls i = some (.refresh token (.returned pair time)) := by
  have moves := Moves.of_step taken
  have old {j : ℕ} {d : Call} (calls : t.calls = Function.update w.calls j (some d))
      (other : d.returned = none) : w.calls i = some (.refresh token (.returned pair time)) := by
    rw [calls, Function.update_apply] at returned
    split at returned
    · cases returned
      cases other
    · exact returned
  -- A call that returns was not doomed, and its session is revoked.
  have never {j : ℕ} {own : Token} {stage : RefreshStage} {given : TokenPair}
      (at_ : w.calls j = some (.refresh own stage))
      (exchanging : (Call.refresh own stage).exchanging = some own)
      (hopeful : ¬ w.Doomed own stage)
      (calls : t.calls = Function.update w.calls j (some (.refresh own (.returned given w.now)))) :
      w.calls i = some (.refresh token (.returned pair time)) := by
    rw [calls, Function.update_apply] at returned
    split at returned
    · cases returned
      rcases timely j _ stage at_ exchanging with ⟨row, found⟩ | doomed
      · cases revoked.not_active.symm.trans found
      · exact absurd doomed hopeful
    · exact returned
  cases moves with
  | ticked seconds => exact returned
  | began opens => exact old (j := w.started) rfl (fits_opens opens).2
  | inserted at_ =>
    simp only [World.goOn, World.insertSession, Function.update_apply] at returned
    split at returned
    · cases returned
    · exact returned
  | led at_ leads => exact old rfl (fits_leads formed at_ leads).2
  | missed at_ gone => exact never at_ rfl id rfl
  | rotated at_ => exact never at_ rfl id rfl
  | performed at_ sweeping commands =>
    exact old (perform_calls _) (Call.bystander_resume _ sweeping).returned
  | selected at_ sweeping commands unread =>
    exact old rfl (Call.bystander_resume _ sweeping).returned
  | nothing at_ sweeping unread one absent =>
    exact old rfl (Call.bystander_resume _ sweeping).returned
  | committed at_ sweeping commands read =>
    exact old (commit_calls _ _) (Call.bystander_resume _ sweeping).returned
  | _ => exact old rfl rfl

structure World.Guarded (w : World) : Prop where
  formed : w.Formed
  owned : w.Owned
  timely : w.Timely

theorem World.Guarded.step {e : Event} (guarded : w.Guarded) (permits : w.Permits e)
    (taken : eventStep w e = some t) : t.Guarded := by
  cases e with
  | step a =>
    have moves := Moves.of_step taken
    exact ⟨guarded.formed.step moves, guarded.owned.step guarded.formed moves,
      guarded.timely.step guarded.formed guarded.owned permits.2.2 moves⟩
  | cache refresh blacklist bans =>
    -- The invariants say nothing of the cache.
    cases taken
    exact ⟨⟨guarded.formed.unborn,
      fun i c at_ => ⟨(guarded.formed.fits i c at_).issued, (guarded.formed.fits i c at_).agreed,
        (guarded.formed.fits i c at_).traded, (guarded.formed.fits i c at_).entered,
        (guarded.formed.fits i c at_).entrant⟩,
      guarded.formed.rows, guarded.formed.housed⟩, guarded.owned, guarded.timely⟩

theorem World.Guarded.final {events : List Event} (guarded : w.Guarded)
    (permits : Along eventStep World.Permits w events)
    (reached : Transition.run eventStep w events = some t) : w.Final t := by
  induction events generalizing w with
  | nil =>
    cases reached
    rintro key revoked
    exact ⟨revoked, fun token user own => refused_of_revoked (own ▸ revoked),
      fun _ _ _ _ returned _ => returned⟩
  | cons e rest ih =>
    obtain ⟨u, taken, reached⟩ := run_cons_eq_some.mp reached
    intro key revoked
    have onward := ih (guarded.step permits.1 taken) (permits.2 u taken) reached
    cases e with
    | step a =>
      have later := (guarded.formed.extends (Moves.of_step taken)).revoked revoked
      obtain ⟨stays, refused, exchanged⟩ := onward key later
      refine ⟨stays, refused, fun i token pair time returned own => ?_⟩
      subst own
      exact guarded.timely.exchanges guarded.formed taken revoked
        (exchanged i token pair time returned rfl)
    | cache refresh blacklist bans =>
      cases taken
      exact onward key revoked

theorem World.Sound.getUser {row : SessionRow} (sound : w.Sound) (issued : w.Issued token)
    (type : token.jti.type = .access) (active : w.activeSession token.sid = some row)
    (free : ¬ w.BeingRevoked token.sid) (recent : w.swept token.sub ≤ token.sid)
    (allowed : live w.now (w.bans token.sub) = none) (valid : w.now < token.exp) :
    ∃ user, w.getUserFromJwt token = .ok user := by
  obtain ⟨user, found, -, version⟩ := sound.formed.current issued recent
  obtain ⟨⟨same, there, own⟩, -⟩ := sound.formed.home issued
  cases there.symm.trans (activeSession_eq_some.mp active).1
  have unlisted : w.blacklist token.jti = none := by
    by_contra listed
    obtain ⟨pair, returned, gone⟩ := sound.cached.listed token.jti listed
    obtain ⟨other, also, home⟩ := sound.formed.origin issued
    cases returned.symm.trans also
    rw [home] at gone
    rcases gone with revoked | under
    · cases revoked.not_active.symm.trans active
    · exact free under
  have decodes : w.decode token = some token := decode_eq_some.mpr ⟨rfl, issued, valid.le⟩
  refine ⟨user, ?_⟩
  simp [World.getUserFromJwt, decodes, type, unlisted, found, version, allowed, active, own]

theorem World.Sound.spares (sound : w.Sound) : w.Spares := by
  rintro token issued ⟨row, active⟩ free recent allowed valid
  refine ⟨fun access => sound.getUser issued access active free recent allowed valid,
    fun refresh unpresented => ?_⟩
  obtain ⟨pair, returned, -⟩ := sound.formed.origin issued
  have same : token = pair.refresh := by
    apply sound.formed.eq_refresh issued refresh returned
    rw [sound.formed.refresh_jti returned, ← refresh]
  rw [same] at active free recent allowed valid unpresented ⊢
  exact sound.accepts (same ▸ returned) active free unpresented valid allowed recent

end Finality

/-- The steps of calls alone. -/
theorem along_steps {actions : List Action}
    (permits : Along eventStep World.Permits w (actions.map Event.step)) :
    Along sessionStep World.Respects w actions := by
  induction actions generalizing w with
  | nil => trivial
  | cons a rest ih => exact ⟨permits.1, fun u taken => ih (permits.2 u taken)⟩

theorem run_steps (w : World) (actions : List Action) :
    run eventStep w (actions.map Event.step) = run sessionStep w actions := by
  induction actions generalizing w with
  | nil => rfl
  | cons a rest ih =>
    simp only [List.map_cons, run]
    exact congrArg _ (funext fun u => ih u)

/-- While no exchange overlaps another of its token or the revocation of its session, and logouts
are of one session: what is revoked stays revoked, with all its tokens, whatever happens to the
cache; and what belongs to other sessions stays accepted as long as the cache is left to the
calls. -/
theorem revocation_final (now : ℤ) (users : String → Option UserRow) (events : List Event)
    (permits : Along eventStep World.Permits (.start now users) events) :
    ∀ first, first <+: events → ∀ w, run eventStep (.start now users) first = some w →
      (∀ actions : List Action, first = actions.map Event.step → w.Spares) ∧
        ∀ rest, first ++ rest <+: events → ∀ t, run eventStep w rest = some t → w.Final t := by
  intro first part w reached
  obtain ⟨rest, rfl⟩ := part
  have fresh := sound_start now users
  have start : (World.start now users).Guarded :=
    ⟨fresh.formed, fun _ _ _ sweeps => (by cases sweeps), fun _ _ _ at_ => by cases at_⟩
  refine ⟨fun actions steps => ?_, fun more parts t later => ?_⟩
  · subst steps
    rw [run_steps] at reached
    exact (run_invariant (P := World.Sound)
      (fun sound respects taken => sound.step respects.1 respects.2.1 taken) fresh
      (along_steps (along_append permits).1) reached).spares
  · have guarded := run_invariant (P := World.Guarded)
      (fun guarded permits taken => guarded.step permits taken) start (along_append permits).1 reached
    obtain ⟨others, same⟩ := parts
    rw [List.append_assoc] at same
    have onward := (along_append permits).2 w reached
    rw [← List.append_cancel_left same] at onward
    exact guarded.final (along_append onward).1 later

/-- Ann logs in, her session is revoked, and then the cache is lost. -/
theorem revocation_final_login :
    ∃ w t, run eventStep (.start 0 annOnly)
        ([.login "ann", .advance 0, .advance 0].map Event.step) = some w ∧
      run eventStep w (([.revokeLoginSession "ann" 0, .advance 1, .advance 1, .advance 1,
        .advance 1].map Event.step) ++ [.cache (fun _ => none) (fun _ => none) fun _ => none]) =
          some t ∧ w.Spares ∧ w.Final t ∧ t.Revoked 0 := by
  have passes {w next : World} {a : Action} {rest : List Event}
      (taken : sessionStep w a = some next) (respects : w.Respects a)
      (tail : Along eventStep World.Permits next rest) :
      Along eventStep World.Permits w (.step a :: rest) :=
    (@along_cons_of_step _ _ eventStep _ _ _ (.step a) _ taken).mpr ⟨respects, tail⟩
  have unread {w : World} {i : ℕ} {c : Call} (at_ : w.calls i = some c)
      (early : ∀ s ∈ c.sweeping, s.commands = [] → s.selected = none) :
      w.Undisturbed (.advance i) := by
    intro d s keys there sweeping commands read
    cases at_.symm.trans there
    cases (early s sweeping commands).symm.trans read
  have permits : Along eventStep World.Permits (.start 0 annOnly)
      (([.login "ann", .advance 0, .advance 0].map Event.step) ++
        (([.revokeLoginSession "ann" 0, .advance 1, .advance 1, .advance 1, .advance 1].map
          Event.step) ++ [.cache (fun _ => none) (fun _ => none) fun _ => none])) := by
    refine passes rfl ⟨trivial, trivial, trivial⟩
      (passes rfl ⟨?_, trivial, unread rfl (by rintro s ⟨⟩)⟩
      (passes rfl ⟨?_, trivial, unread rfl (by rintro s ⟨⟩)⟩
      (passes rfl ⟨trivial, trivial, trivial⟩
      (passes rfl ⟨?_, trivial, unread rfl (by rintro s ⟨⟩ -; rfl)⟩
      (passes rfl ⟨?_, trivial, unread rfl (by rintro s ⟨⟩ ⟨⟩)⟩
      (passes rfl ⟨?_, trivial, unread rfl (by rintro s ⟨⟩ ⟨⟩)⟩
      (passes rfl ⟨?_, trivial, ?_⟩ ⟨trivial, fun _ _ => trivial⟩)))))))
    · intro token data at_
      cases at_
    · intro token data at_
      cases at_
    · intro token data at_
      cases at_
    · intro token data at_
      cases at_
    · intro token data at_
      cases at_
    · intro token data at_
      cases at_
    · intro c s keys at_ sweeping commands read j token halfway
      match j with
      | 0 => cases halfway
      | 1 => cases halfway
      | j + 2 => cases halfway
  refine ⟨_, _, rfl, rfl, ?_⟩
  obtain ⟨spares, final⟩ :=
    revocation_final 0 annOnly _ permits _ (List.prefix_append _ _) _ rfl
  exact ⟨spares _ rfl, final _ List.prefix_rfl _ rfl, _, rfl, rfl⟩

/-- A logout with an access token of one session and a refresh token of another leaves the other
session active and without a token that could be exchanged. -/
theorem logout_mixed : ∃ w, run sessionStep (.start 0 annOnly)
    [.login "ann", .advance 0, .advance 0, .login "ann", .advance 1, .advance 1,
      .logoutWithTokens "ann" (some (tokenPair 0 0 "ann" 0 0).access)
        (some (tokenPair 0 1 "ann" 0 1).refresh), .advance 2, .advance 2, .advance 2, .advance 2,
      .advance 2, .advance 2] = some w ∧ (w.activeSession 1).isSome ∧ ¬ w.Spares := by
  refine ⟨_, rfl, by decide, fun spares => ?_⟩
  have accepts := (spares (tokenPair 0 1 "ann" 0 1).refresh ⟨_, rfl, .inr rfl⟩ ⟨_, rfl⟩ ?_
    (by decide) rfl (by decide)).2 rfl ?_
  · obtain ⟨data, checks⟩ := presented_of_accepts accepts
    have asks := (congrArg RefreshStage.asks checks).trans (rfl : _ = true)
    exact absurd asks (by decide)
  · clear spares
    rintro ⟨j, s, sweeps, -⟩
    rcases j with _ | _ | _ | j
    · cases sweeps
    · cases sweeps
    · cases sweeps
    · cases sweeps
  · clear spares
    rintro ⟨j, presented⟩
    rcases j with _ | _ | _ | j
    · cases presented
    · cases presented
    · cases presented
    · cases presented

/-- A call that is half-way when its session is revoked returns a pair all the same; and so a logout
of two sessions at once spares neither. -/
theorem revocation_passed :
    (∃ w t, run sessionStep (.start 0 annOnly)
        [.login "ann", .advance 0, .advance 0,
          .refreshTokens (tokenPair 0 0 "ann" 0 0).refresh, .advance 1, .advance 1, .advance 1,
          .advance 1, .advance 1, .revokeLoginSession "ann" 0, .advance 2, .advance 2, .advance 2,
          .advance 2] = some w ∧
        run sessionStep w [.advance 1] = some t ∧ w.Revoked 0 ∧ ¬ w.Final t) ∧
      ∃ w, run sessionStep (.start 0 annOnly)
        [.login "ann", .advance 0, .advance 0, .login "ann", .advance 1, .advance 1,
          .logoutWithTokens "ann" (some (tokenPair 0 0 "ann" 0 0).access)
            (some (tokenPair 0 1 "ann" 0 1).refresh), .advance 2, .advance 2, .advance 2, .advance 2,
          .advance 2, .advance 2] = some w ∧ (w.activeSession 1).isSome ∧ ¬ w.Spares := by
  refine ⟨⟨_, _, rfl, rfl, ⟨_, rfl, rfl⟩, fun final => ?_⟩, logout_mixed⟩
  obtain ⟨-, -, exchanged⟩ := final 0 ⟨_, rfl, rfl⟩
  cases exchanged 1 _ _ _ rfl rfl

end Deeting.Sessions
