import Deeting.Sessions.Acceptance

/-! Rotation of refresh tokens: a token is exchanged once, the pair that was returned last is the
one whose refresh token is accepted, and a token that comes back revokes all sessions of its
user. -/
namespace Deeting.Sessions
open Transition Expiry

def Call.marked : Call → Option Token
  | .refresh token .user | .refresh token (.ban _) | .refresh token (.create _)
  | .refresh token (.find _) | .refresh token (.rotate _)
  | .refresh token (.returned _ _) => some token
  | _ => none

def Call.time : Call → Option ℤ
  | .refresh _ (.returned _ time) => some time
  | _ => none

namespace World

def Marks (w : World) : Prop :=
  ∀ i c token e, w.calls i = some c → c.marked = some token → w.refresh token.jti = some e →
    e.value.used = true ∧ ∃ at_, e.value.usedAtTs = some at_ ∧ at_ ≤ c.time.getD w.now

/-- The token was exchanged, more than the grace window ago, and has not expired. -/
def Late (w : World) (token : Token) : Prop :=
  ∃ i pair time, w.calls i = some (.refresh token (.returned pair time)) ∧
    time + refreshTokenReuseGraceSeconds < w.now ∧ w.now < token.exp

def Remembered (w : World) : Action → Prop
  | .refreshTokens token =>
    w.Late token → ∃ e ∈ live w.now (w.refresh token.jti), e.value.used = true
  | _ => True

end World

section Marking

variable {w t : World} {i : ℕ} {c d : Call} {token : Token} {pair : TokenPair}

theorem claims_of_marked (marked : c.marked = some token) : c.claims = some token := by
  cases c with
  | refresh other stage =>
    cases stage with
    | _ => cases marked <;> rfl
  | _ => cases marked

/-- A call goes on that marks nothing new, and the entries of the marked tokens stay or go. -/
theorem World.Marks.of_update (marks : w.Marks)
    (calls : t.calls = Function.update w.calls i (some d)) (now : t.now = w.now)
    (kept : ∀ j token e, w.view Call.marked j = some token → t.refresh token.jti = some e →
      w.refresh token.jti = some e)
    (own : ∀ token, d.marked = some token → ∃ c, w.calls i = some c ∧ c.marked = some token ∧
      c.time = none ∧ (d.time = none ∨ d.time = some w.now)) : t.Marks := by
  intro j c token e at_ marked there
  rw [calls, Function.update_apply] at at_
  split at at_
  · cases at_
    obtain ⟨c, before, was, open_, time⟩ := own token marked
    obtain ⟨used, at_, known, early⟩ := marks i c token e before was
      (kept i token e ((view_eq before).trans was) there)
    refine ⟨used, at_, known, ?_⟩
    rw [open_, Option.getD_none] at early
    rcases time with time | time
    · rwa [time, Option.getD_none, now]
    · rwa [time, Option.getD_some]
  · rw [now]
    exact marks j c token e at_ marked (kept j token e ((view_eq at_).trans marked) there)

theorem World.Marks.tick (marks : w.Marks) (seconds : ℕ) :
    World.Marks { w with now := w.now + seconds } := by
  intro j c token e at_ marked there
  obtain ⟨used, time, known, early⟩ := marks j c token e at_ marked there
  refine ⟨used, time, known, early.trans ?_⟩
  cases c.time with
  | none =>
    simp only [Option.getD_none]
    omega
  | some at_ => exact le_rfl

theorem marked_opens {a : Action} (opens : w.Opens a c) : c.marked = none := by
  rcases opens.forms with
    ⟨_, _, rfl⟩ | ⟨_, _, rfl⟩ | ⟨_, _, rfl⟩ | ⟨_, _, rfl⟩ | rfl | ⟨_, rfl⟩
  all_goals rfl

theorem marked_resume {s : Sweep} (left : Option Sweep) (sweeping : c.sweeping = some s) :
    (c.resume left).marked = none := by
  cases c with
  | refresh token stage => cases left <;> rfl
  | sweep s => cases left <;> rfl
  | _ => cases sweeping

theorem World.Marks.marked {data : RefreshData} (marks : w.Marks) (orderly : w.Orderly)
    (at_ : w.calls i = some (.refresh token (.mark data))) :
    ((w.markUsed token data).goOn i (.refresh token .user)).Marks := by
  intro j c other e there marked found
  by_cases own : j = i
  · subst own
    cases (Function.update_self _ _ _).symm.trans there
    cases marked
    cases (Function.update_self _ _ _).symm.trans found
    exact ⟨rfl, w.now, rfl, le_rfl⟩
  · have before : w.calls j = some c := (Function.update_of_ne own _ _).symm.trans there
    have different : other.jti ≠ token.jti := fun same =>
      own (orderly.single j i other token ((view_eq before).trans (claims_of_marked marked))
        (view_eq at_) same)
    exact marks j c other e before marked ((Function.update_of_ne different _ _).symm.trans found)

theorem World.Formed.kept_of_store {version : ℕ} (formed : w.Formed) (at_ : w.calls i = some c)
    (open_ : c.returned = none) (jti : pair.refresh.jti = ⟨.refresh, i⟩) {j : ℕ} {other : Token}
    {e : Entry ℤ RefreshData} (marked : w.view Call.marked j = some other)
    (found : (w.storeRefresh pair.refresh version).refresh other.jti = some e) :
    w.refresh other.jti = some e := by
  obtain ⟨d, there, marked⟩ := Option.bind_eq_some_iff.mp marked
  have claims : w.view Call.claims j = some other := (view_eq there).trans (claims_of_marked marked)
  refine (Function.update_of_ne ?_ _ _).symm.trans found
  rw [jti]
  exact fun same => (formed.claimed claims).1.ne at_ open_ (by rw [same])

theorem World.Marks.step {a : Action} (marks : w.Marks) (formed : w.Formed) (orderly : w.Orderly)
    (moves : w.Moves a t) : t.Marks := by
  cases moves with
  | ticked seconds => exact marks.tick seconds
  | began opens =>
    exact marks.of_update (i := w.started) rfl rfl (fun _ _ _ _ found => found) fun _ marked =>
      (by cases (marked_opens opens).symm.trans marked)
  | drawn at_ =>
    exact marks.of_update rfl rfl (fun _ _ _ marked found =>
      formed.kept_of_store at_ rfl rfl marked found) fun _ marked => (by cases marked)
  | inserted at_ =>
    exact marks.of_update rfl rfl (fun _ _ _ _ found => found) fun _ marked => (by cases marked)
  | led at_ leads =>
    refine marks.of_update rfl rfl (fun _ _ _ _ found => found) fun _ marked => ?_
    cases leads with
    | admitted found own current => cases marked
    | refused asks => cases marked
    | _ => exact ⟨_, at_, marked, rfl, .inl rfl⟩
  | marked at_ => exact marks.marked orderly at_
  | created at_ =>
    exact marks.of_update rfl rfl (fun _ _ _ marked found =>
      formed.kept_of_store at_ rfl rfl marked found) fun _ marked => ⟨_, at_, marked, rfl, .inl rfl⟩
  | missed at_ gone =>
    exact marks.of_update rfl rfl (fun _ _ _ _ found => found) fun _ marked =>
      ⟨_, at_, marked, rfl, .inr rfl⟩
  | rotated at_ =>
    exact marks.of_update rfl rfl (fun _ _ _ _ found => found) fun _ marked =>
      ⟨_, at_, marked, rfl, .inr rfl⟩
  | @performed i c s command rest at_ sweeping commands =>
    refine marks.of_update (perform_calls _) (by cases command <;> rfl)
      (fun j other e _ found => ?_) fun _ marked => (by
        cases (marked_resume _ sweeping).symm.trans marked)
    cases command with
    | deleteRefresh jti =>
      simp only [World.goOn, World.perform, Function.update_apply] at found
      split at found
      · cases found
      · exact found
    | _ => exact found
  | selected at_ sweeping commands unread =>
    exact marks.of_update rfl rfl (fun _ _ _ _ found => found) fun _ marked =>
      (by cases (marked_resume _ sweeping).symm.trans marked)
  | nothing at_ sweeping unread one absent =>
    exact marks.of_update rfl rfl (fun _ _ _ _ found => found) fun _ marked =>
      (by cases (marked_resume _ sweeping).symm.trans marked)
  | @committed i c s keys at_ sweeping commands read =>
    have same : ((w.commit s keys).goOn i (c.resume none)).now = w.now ∧
        ((w.commit s keys).goOn i (c.resume none)).refresh = w.refresh := by
      simp only [World.goOn, World.commit, World.revoke]
      split
      · exact ⟨rfl, rfl⟩
      · exact ⟨rfl, rfl⟩
    exact marks.of_update (commit_calls s keys) same.1 (fun _ _ _ _ found => same.2 ▸ found)
      fun _ marked => (by cases (marked_resume _ sweeping).symm.trans marked)

theorem World.Marks.presented_late (marks : w.Marks) (formed : w.Formed) (late : w.Late token)
    (remembered : ∃ e ∈ live w.now (w.refresh token.jti), e.value.used = true) :
    w.presented token = .revoking ⟨token.sub, none, none, none, []⟩ := by
  obtain ⟨i, pair, time, at_, after, valid⟩ := late
  obtain ⟨e, found, used⟩ := remembered
  have claims : w.view Call.claims i = some token := view_eq at_
  obtain ⟨issued, type⟩ := formed.claimed claims
  obtain ⟨-, marked, known, early⟩ := marks i _ token e at_ rfl (live_eq_some.mp found).1
  have decodes : w.decode token = some token :=
    decode_eq_some.mpr ⟨rfl, issued, by omega⟩
  have stale : e.value.withinGrace w.now = false := by
    simp only [RefreshData.withinGrace, known, decide_eq_false_iff_not, not_le]
    change marked ≤ time at early
    omega
  simp [World.presented, decodes, type, Option.mem_def.mp found, used, stale]

end Marking

/-- The call is revoking all sessions of the user, those given among them, or has done so. -/
structure World.Pursues (w : World) (call : ℕ) (token : Token) (given : ℕ → Prop) : Prop where
  rows : ∀ key, given key → ∃ row, w.sessions key = some row ∧ row.userId = token.sub
  goes : (∃ s, w.calls call = some (.refresh token (.revoking s)) ∧ s.user = token.sub ∧
      s.session = none ∧ ∀ keys ∈ s.selected, ∀ key, given key → key ∈ keys ∨ w.Revoked key) ∨
    w.calls call = some (.refresh token (.refused reuseDetected)) ∧ ∀ key, given key → w.Revoked key

section Pursuit

variable {w t : World} {call : ℕ} {token : Token} {given : ℕ → Prop} {s : Sweep}

theorem World.Extends.rows_of (extends_ : w.Extends t)
    (rows : ∀ key, given key → ∃ row, w.sessions key = some row ∧ row.userId = token.sub) :
    ∀ key, given key → ∃ row, t.sessions key = some row ∧ row.userId = token.sub := by
  intro key member
  obtain ⟨row, found, own⟩ := rows key member
  obtain ⟨later, there, user, -⟩ := extends_.sessions key row found
  exact ⟨later, there, user.trans own⟩

theorem World.Pursues.advance (pursues : w.Pursues call token given) (formed : w.Formed)
    (at_ : w.calls call = some (.refresh token (.revoking s))) :
    ∃ t, sessionStep w (.advance call) = some t ∧ t.Pursues call token given ∧
      t.calls call = some ((Call.refresh token (.revoking s)).resume (w.sweepStep s).2) := by
  have taken : sessionStep w (.advance call) = some ((w.sweepStep s).1.goOn call
      ((Call.refresh token (.revoking s)).resume (w.sweepStep s).2)) := by
    simp only [sessionStep, at_, Option.bind_some, World.advance, Call.sweeping]
  have extends_ := formed.extends (Moves.of_step taken)
  refine ⟨_, taken, ⟨extends_.rows_of pursues.rows, ?_⟩, Function.update_self ..⟩
  rcases pursues.goes with ⟨_, there, own, all, read⟩ | ⟨there, -⟩
  · cases at_.symm.trans there
    rcases commands : s.commands with _ | ⟨command, rest⟩
    · rcases selected : s.selected with _ | keys
      · refine .inl ⟨{ s with
          selected := some ((w.select s).map Prod.fst)
          commands := (w.select s).flatMap fun found => s.invalidate found.2 }, ?_, own, all, ?_⟩
        · rw [World.sweepStep, commands, selected, if_neg (by simp [all])]
          exact Function.update_self ..
        · intro keys reads key member
          cases reads
          obtain ⟨row, found, user⟩ := pursues.rows key member
          by_cases listed : key ∈ (w.select s).map Prod.fst
          · exact .inl listed
          · refine .inr (extends_.revoked (revoked_of_not_active found ?_))
            cases active : w.activeSession key with
            | none => rfl
            | some other =>
              cases found.symm.trans (activeSession_eq_some.mp active).1
              obtain ⟨n, pair, -, -, returned, home⟩ := formed.rows key row found
              obtain ⟨-, first, entered, -⟩ := formed.housed n pair returned
              refine absurd (List.mem_map.mpr ⟨(key, row), mem_select.mpr ⟨?_, active,
                user.trans own.symm⟩, rfl⟩) listed
              rw [all, Option.elim_none, List.mem_range, ← home]
              exact formed.born entered
      · refine .inr ⟨?_, fun key member => ?_⟩
        · rw [World.sweepStep, commands, selected]
          exact Function.update_self ..
        · rcases read keys selected key member with mem | revoked
          · obtain ⟨row, found, -⟩ := pursues.rows key member
            rw [World.sweepStep, commands, selected]
            refine ⟨{ row with revokedAt := some w.now }, ?_, rfl⟩
            simp only [World.goOn, commit_sessions, if_pos mem, found, Option.map_some]
          · exact extends_.revoked revoked
    · refine .inl ⟨{ s with commands := rest }, ?_, own, all, fun keys reads key member => ?_⟩
      · rw [World.sweepStep, commands]
        exact Function.update_self ..
      · exact (read keys reads key member).imp_right extends_.revoked
  · cases at_.symm.trans there

theorem World.Moves.elsewhere {a : Action} {c : Call} (moves : w.Moves a t) (formed : w.Formed)
    (at_ : w.calls call = some c) (other : ∀ i, a = .advance i → i ≠ call) : t.calls call = some c := by
  have apart {i : ℕ} {d : Call} {u : World} (calls : u.calls = Function.update w.calls i (some d))
      (different : i ≠ call) : u.calls call = some c := by
    rw [calls, Function.update_of_ne different.symm, at_]
  cases moves with
  | ticked seconds => exact at_
  | began opens => exact apart (i := w.started) rfl (formed.born at_).ne'
  | performed _ sweeping commands => exact apart (perform_calls _) (other _ rfl)
  | committed _ sweeping commands read => exact apart (commit_calls _ _) (other _ rfl)
  | _ => exact apart rfl (other _ rfl)

theorem World.Pursues.step {a : Action} (pursues : w.Pursues call token given) (formed : w.Formed)
    (taken : sessionStep w a = some t) : t.Pursues call token given := by
  have moves := Moves.of_step taken
  have extends_ := formed.extends moves
  by_cases own : a = .advance call
  · subst own
    rcases pursues.goes with ⟨s, at_, -⟩ | ⟨at_, -⟩
    · obtain ⟨u, goes, later, -⟩ := pursues.advance formed at_
      cases taken.symm.trans goes
      exact later
    · rw [step_advance at_ rfl] at taken
      cases taken
  · have other (i : ℕ) (same : a = .advance i) : i ≠ call := by
      rintro rfl
      exact own same
    refine ⟨extends_.rows_of pursues.rows, ?_⟩
    rcases pursues.goes with ⟨s, at_, user, all, read⟩ | ⟨at_, revoked⟩
    · exact .inl ⟨s, moves.elsewhere formed at_ other, user, all, fun keys reads key member =>
        (read keys reads key member).imp_right extends_.revoked⟩
    · exact .inr ⟨moves.elsewhere formed at_ other, fun key member =>
        extends_.revoked (revoked key member)⟩

theorem run_formed {actions : List Action} (formed : w.Formed)
    (reached : run sessionStep w actions = some t) : t.Formed := by
  induction actions generalizing w with
  | nil =>
    cases reached
    exact formed
  | cons a rest ih =>
    obtain ⟨u, taken, reached⟩ := run_cons_eq_some.mp reached
    exact ih (formed.step (Moves.of_step taken)) reached

theorem World.Pursues.run {actions : List Action} (pursues : w.Pursues call token given)
    (formed : w.Formed) (reached : run sessionStep w actions = some t) :
    t.Pursues call token given := by
  induction actions generalizing w with
  | nil =>
    cases reached
    exact pursues
  | cons a rest ih =>
    obtain ⟨u, taken, reached⟩ := run_cons_eq_some.mp reached
    exact ih (pursues.step formed taken) (formed.step (Moves.of_step taken)) reached

def World.Ends (w : World) (call : ℕ) (token : Token) (given : ℕ → Prop) : Prop :=
  ∃ n t, Transition.run sessionStep w (List.replicate n (.advance call)) = some t ∧
    t.calls call = some (.refresh token (.refused reuseDetected)) ∧ ∀ key, given key → t.Revoked key

theorem ends_of_step (taken : sessionStep w (.advance call) = some t)
    (ends : t.Ends call token given) : w.Ends call token given := by
  obtain ⟨n, u, reached, ended⟩ := ends
  exact ⟨n + 1, u, run_cons_eq_some.mpr ⟨t, taken, reached⟩, ended⟩

theorem ends_of_refused (pursues : w.Pursues call token given)
    (at_ : w.calls call = some (.refresh token (.refused reuseDetected))) :
    w.Ends call token given := by
  rcases pursues.goes with ⟨s, there, -⟩ | ⟨-, revoked⟩
  · cases at_.symm.trans there
  · exact ⟨0, w, rfl, at_, revoked⟩

theorem ends_of_read {keys : List ℕ} (pursues : w.Pursues call token given) (formed : w.Formed)
    (at_ : w.calls call = some (.refresh token (.revoking s))) (read : s.selected = some keys) :
    w.Ends call token given := by
  induction commands : s.commands generalizing w s with
  | nil =>
    obtain ⟨t, taken, later, there⟩ := pursues.advance formed at_
    rw [World.sweepStep, commands, read] at there
    exact ends_of_step taken (ends_of_refused later there)
  | cons command rest ih =>
    obtain ⟨t, taken, later, there⟩ := pursues.advance formed at_
    rw [World.sweepStep, commands] at there
    exact ends_of_step taken (ih later (formed.step (Moves.of_step taken)) there read rfl)

theorem World.Pursues.ends (pursues : w.Pursues call token given) (formed : w.Formed) :
    w.Ends call token given := by
  rcases pursues.goes with ⟨s, at_, user, all, -⟩ | ⟨at_, -⟩
  · cases read : s.selected with
    | some keys => exact ends_of_read pursues formed at_ read
    | none =>
      induction commands : s.commands generalizing w s with
      | nil =>
        obtain ⟨t, taken, later, there⟩ := pursues.advance formed at_
        rw [World.sweepStep, commands, read, if_neg (by simp [all])] at there
        exact ends_of_step taken (ends_of_read later (formed.step (Moves.of_step taken)) there rfl)
      | cons command rest ih =>
        obtain ⟨t, taken, later, there⟩ := pursues.advance formed at_
        rw [World.sweepStep, commands] at there
        exact ends_of_step taken (ih later (formed.step (Moves.of_step taken)) _ there user all read rfl)
  · exact ends_of_refused pursues at_

end Pursuit

namespace World

def SingleUse (w : World) : Prop :=
  ∀ i j token other pair given time later,
    w.calls i = some (.refresh token (.returned pair time)) →
    w.calls j = some (.refresh other (.returned given later)) → token.jti = other.jti → i = j

/-- The refresh token of the pair that a session's calls returned last is the one of them that is
accepted: while the session is not revoked or being revoked, the user not banned and no longer
revoked than the login, until it is presented or expires. -/
def LastOnly (w : World) : Prop :=
  (∀ token, w.Accepts token → w.last token.sid = some token.jti.call) ∧
    ∀ key row, w.activeSession key = some row → ∃ call pair, w.last key = some call ∧
      w.returned call = some pair ∧ pair.refresh.sid = key ∧
      (¬ w.BeingRevoked key → ¬ w.Presented pair.refresh → w.now < pair.refresh.exp →
        live w.now (w.bans pair.refresh.sub) = none → w.swept pair.refresh.sub ≤ key →
        w.Accepts pair.refresh)

/-- No exchange overlaps another of its token, a logout is of one session, and a token that comes
back is remembered. -/
def Rotates (w : World) (a : Action) : Prop :=
  w.Exclusive a ∧ w.OneSession a ∧ w.Remembered a

def start (now : ℤ) (users : String → Option UserRow) : World where
  now := now
  users := users

/-- What holds of the tokens while exchanges do not overlap. -/
structure Sound (w : World) : Prop where
  formed : w.Formed
  orderly : w.Orderly
  cached : w.Cached
  marks : w.Marks

end World

section Soundness

variable {w t : World} {a : Action} {token : Token} {pair : TokenPair} {n : ℕ}

theorem sound_start (now : ℤ) (users : String → Option UserRow) : (World.start now users).Sound where
  formed := ⟨fun _ _ => rfl, fun _ _ at_ => (by cases at_), fun _ _ found => (by cases found),
    fun _ _ returned => (by cases returned)⟩
  orderly := ⟨fun _ _ held => (by cases held), fun _ _ _ _ claims => (by cases claims),
    fun _ _ _ exchanged => (by cases exchanged), fun _ _ active => (by cases active),
    fun _ _ _ returned => (by cases returned)⟩
  cached := ⟨fun _ _ sweeps => (by cases sweeps), fun _ present => absurd rfl present,
    fun _ _ made => (by cases made), fun _ _ _ returned => (by cases returned)⟩
  marks := fun _ _ _ _ at_ => (by cases at_)

theorem World.Sound.step (sound : w.Sound) (exclusive : w.Exclusive a) (one : w.OneSession a)
    (taken : sessionStep w a = some t) : t.Sound := by
  have moves := Moves.of_step taken
  exact ⟨sound.formed.step moves, sound.orderly.step sound.formed exclusive moves,
    sound.cached.step sound.formed one moves, sound.marks.step sound.formed sound.orderly moves⟩

theorem World.Sound.singleUse (sound : w.Sound) : w.SingleUse := by
  intro i j token other pair given time later first second same
  exact sound.orderly.single i j token other (view_eq first) (view_eq second) same

/-- A token of a session whose user was not revoked since is of the version of the user. -/
theorem World.Formed.current (formed : w.Formed) (issued : w.Issued token)
    (recent : w.swept token.sub ≤ token.sid) : ∃ row, w.users token.sub = some row ∧
      row.isActive = true ∧ token.version = some row.tokenVersion := by
  obtain ⟨-, first, entered, own, version⟩ := formed.home issued
  obtain ⟨row, found, active, -, same⟩ := (formed.fits _ _ entered).entrant _ _ rfl
  rw [own] at found same
  obtain ⟨number, known⟩ := formed.version issued
  rw [version, known, Option.getD_some] at same
  exact ⟨row, found, active, by rw [known, same recent]⟩

theorem World.Sound.accepts {row : SessionRow} (sound : w.Sound) (returned : w.returned n = some pair)
    (active : w.activeSession pair.refresh.sid = some row)
    (free : ¬ w.BeingRevoked pair.refresh.sid) (unpresented : ¬ w.Presented pair.refresh)
    (valid : w.now < pair.refresh.exp) (allowed : live w.now (w.bans pair.refresh.sub) = none)
    (recent : w.swept pair.refresh.sub ≤ pair.refresh.sid) : w.Accepts pair.refresh := by
  have jti := sound.formed.refresh_jti returned
  have issued : w.Issued pair.refresh := ⟨pair, by rw [jti]; exact returned, .inr rfl⟩
  have stored := sound.cached.kept n pair row returned active free unpresented
  have names := sound.orderly.unspent n pair row returned active unpresented
  obtain ⟨user, found, alive, version⟩ := sound.formed.current issued recent
  obtain ⟨⟨same, there, own⟩, -⟩ := sound.formed.housed n pair returned
  cases there.symm.trans (activeSession_eq_some.mp active).1
  refine accepts_of_welcomes (e := pair.entry) ⟨⟨row, active, own, names⟩,
    ⟨user, found, alive, by rw [version, Option.getD_some]⟩, allowed⟩
    (decode_eq_some.mpr ⟨rfl, issued, valid.le⟩) (by rw [jti]) ?_ rfl
  exact live_eq_some.mpr ⟨stored, alive_some.mpr valid⟩

theorem World.Sound.lastOnly (sound : w.Sound) : w.LastOnly := by
  refine ⟨fun token accepts => ?_, fun key row active => ?_⟩
  · obtain ⟨row, found, own, current⟩ := admits_of_accepts accepts
    rw [sound.orderly.latest token.sid row found, current]
  · have latest := sound.orderly.latest key row active
    obtain ⟨call, pair, -, current, returned, rfl⟩ :=
      sound.formed.rows key row (activeSession_eq_some.mp active).1
    rw [current] at latest
    exact ⟨call, pair, latest, returned, rfl, fun free unpresented valid allowed recent =>
      sound.accepts returned active free unpresented valid allowed recent⟩

/-- A token that comes back late starts a call that revokes all sessions of the user. -/
theorem World.Sound.pursues (sound : w.Sound) (late : w.Late token)
    (remembered : w.Remembered (.refreshTokens token)) (taken : sessionStep w (.refreshTokens token) =
      some t) : t.Pursues w.started token fun key =>
        ∃ row, w.sessions key = some row ∧ row.userId = token.sub := by
  cases taken
  refine ⟨fun key given => given, .inl ⟨⟨token.sub, none, none, none, []⟩, ?_, rfl, rfl,
    fun keys read => (by cases read)⟩⟩
  rw [sound.marks.presented_late sound.formed late (remembered late)]
  exact Function.update_self ..

theorem World.Sound.run {actions : List Action} (sound : w.Sound)
    (rotates : Along sessionStep World.Rotates w actions)
    (reached : Transition.run sessionStep w actions = some t) : t.Sound :=
  run_invariant (fun sound rotates taken => sound.step rotates.1 rotates.2.1 taken) sound rotates
    reached

end Soundness

/-- While exchanges of one token do not overlap, every refresh token is exchanged once, and of each
session the last pair is the one whose refresh token is accepted. A token that comes back after the
grace window starts a call that revokes all sessions of its user, in whatever order the calls go
on, and that can always come to its end. -/
theorem rotation_throughout (now : ℤ) (users : String → Option UserRow) (actions : List Action)
    (rotates : Along sessionStep World.Rotates (.start now users) actions) :
    ∀ first, first <+: actions → ∀ w, run sessionStep (.start now users) first = some w →
      w.SingleUse ∧ w.LastOnly ∧
      ∀ token rest, first ++ .refreshTokens token :: rest <+: actions → w.Late token →
        ∀ t, run sessionStep w (.refreshTokens token :: rest) = some t →
          t.Pursues w.started token (fun key =>
            ∃ row, w.sessions key = some row ∧ row.userId = token.sub) ∧
          t.Ends w.started token fun key =>
            ∃ row, w.sessions key = some row ∧ row.userId = token.sub := by
  intro first part w reached
  obtain ⟨rest, rfl⟩ := part
  have sound := (sound_start now users).run (along_append rotates).1 reached
  refine ⟨sound.singleUse, sound.lastOnly, fun token more parts late t later => ?_⟩
  obtain ⟨others, same⟩ := parts
  rw [List.append_assoc] at same
  have onward := (along_append rotates).2 w reached
  rw [← List.append_cancel_left same] at onward
  obtain ⟨u, taken, later⟩ := run_cons_eq_some.mp later
  have pursues := sound.pursues late onward.1.2.2 taken
  have formed := sound.formed.step (Moves.of_step taken)
  have goes := pursues.run formed later
  exact ⟨goes, goes.ends (run_formed formed later)⟩

def annOnly : String → Option UserRow :=
  fun user => if user = "ann" then some ⟨0, true⟩ else none

/-- Ann logs in, exchanges her token, and it comes back ten seconds later. -/
theorem rotation_throughout_reuse :
    ∃ w t, run sessionStep (.start 0 annOnly)
        [.login "ann", .advance 0, .advance 0,
          .refreshTokens (tokenPair 0 0 "ann" 0 0).refresh, .advance 1, .advance 1, .advance 1,
          .advance 1, .advance 1, .advance 1, .advance 1, .tick 10] = some w ∧
      run sessionStep w [.refreshTokens (tokenPair 0 0 "ann" 0 0).refresh] = some t ∧
      w.SingleUse ∧ w.LastOnly ∧ t.Ends w.started (tokenPair 0 0 "ann" 0 0).refresh fun key =>
        ∃ row, w.sessions key = some row ∧ row.userId = "ann" := by
  obtain ⟨w, reached⟩ : ∃ w, run sessionStep (.start 0 annOnly)
      [.login "ann", .advance 0, .advance 0,
        .refreshTokens (tokenPair 0 0 "ann" 0 0).refresh, .advance 1, .advance 1, .advance 1,
        .advance 1, .advance 1, .advance 1, .advance 1, .tick 10] = some w := ⟨_, rfl⟩
  have passes {w next : World} {a : Action} {rest : List Action}
      (taken : sessionStep w a = some next) (rotates : w.Rotates a)
      (tail : Along sessionStep World.Rotates next rest) :
      Along sessionStep World.Rotates w (a :: rest) :=
    (along_cons_of_step taken).mpr ⟨rotates, tail⟩
  have rotates : Along sessionStep World.Rotates (.start 0 annOnly)
      ([.login "ann", .advance 0, .advance 0,
        .refreshTokens (tokenPair 0 0 "ann" 0 0).refresh, .advance 1, .advance 1, .advance 1,
        .advance 1, .advance 1, .advance 1, .advance 1, .tick 10] ++
        [.refreshTokens (tokenPair 0 0 "ann" 0 0).refresh]) := by
    refine passes rfl ⟨trivial, trivial, trivial⟩ (passes rfl ⟨?_, trivial, trivial⟩
      (passes rfl ⟨?_, trivial, trivial⟩ (passes rfl ⟨trivial, trivial, fun late => ?_⟩
      (passes rfl ⟨?_, trivial, trivial⟩ (passes rfl ⟨?_, trivial, trivial⟩
      (passes rfl ⟨?_, trivial, trivial⟩ (passes rfl ⟨?_, trivial, trivial⟩
      (passes rfl ⟨?_, trivial, trivial⟩ (passes rfl ⟨?_, trivial, trivial⟩
      (passes rfl ⟨?_, trivial, trivial⟩ (passes rfl ⟨trivial, trivial, trivial⟩
      (passes rfl ⟨trivial, trivial, fun _ => ?_⟩ trivial))))))))))))
    · intro token data at_
      cases at_
    · intro token data at_
      cases at_
    · obtain ⟨i, pair, time, at_, -⟩ := late
      match i with
      | 0 => cases at_
      | i + 1 => cases at_
    · -- The login is no exchange, and there is no third call.
      intro token data at_ admits j other exchanging
      match j with
      | 0 => cases exchanging
      | 1 => cases exchanging
      | j + 2 => cases exchanging
    · intro token data at_
      cases at_
    · intro token data at_
      cases at_
    · intro token data at_
      cases at_
    · intro token data at_
      cases at_
    · intro token data at_
      cases at_
    · intro token data at_
      cases at_
    · decide
  have late : w.Late (tokenPair 0 0 "ann" 0 0).refresh := by
    cases reached
    exact ⟨1, _, _, rfl, by decide, by decide⟩
  obtain ⟨single, last, pursues⟩ := rotation_throughout 0 annOnly _ rotates _
    (List.prefix_append _ _) w reached
  have ends := (pursues _ [] List.prefix_rfl late _ rfl).2
  exact ⟨w, _, reached, rfl, single, last, ends⟩

/-- Two calls with one token both pass the check and both return a pair; and a token that comes back
a minute after its exchange is forgotten, so that its call is refused and revokes nothing. -/
theorem rotation_doubled :
    (∃ w, run sessionStep (.start 0 annOnly)
        [.login "ann", .advance 0, .advance 0,
          .refreshTokens (tokenPair 0 0 "ann" 0 0).refresh,
          .refreshTokens (tokenPair 0 0 "ann" 0 0).refresh, .advance 1, .advance 2,
          .advance 1, .advance 1, .advance 1, .advance 1, .advance 1, .advance 1,
          .advance 2, .advance 2, .advance 2, .advance 2, .advance 2, .advance 2] = some w ∧
        ¬ w.SingleUse) ∧
      ∃ w, run sessionStep (.start 0 annOnly)
        [.login "ann", .advance 0, .advance 0,
          .refreshTokens (tokenPair 0 0 "ann" 0 0).refresh, .advance 1, .advance 1, .advance 1,
          .advance 1, .advance 1, .advance 1, .advance 1, .tick 60] = some w ∧
        w.Late (tokenPair 0 0 "ann" 0 0).refresh ∧
        w.presented (tokenPair 0 0 "ann" 0 0).refresh =
          .refused ⟨401, "Refresh token expired or invalid"⟩ ∧ (w.activeSession 0).isSome := by
  refine ⟨⟨_, rfl, fun single => ?_⟩, _, rfl, ⟨1, _, _, rfl, by decide, by decide⟩, by decide,
    by decide⟩
  cases single 1 2 _ _ _ _ _ _ rfl rfl rfl

end Deeting.Sessions
