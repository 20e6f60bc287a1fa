import Deeting.Sessions.Moves

/-! Where tokens come from: the calls that returned them, and the sessions and versions they are
for. None of it depends on the order of the moves. -/
namespace Deeting.Sessions
open Transition Expiry

namespace Call

def token : Call → Option Token
  | .refresh token _ => some token
  | _ => none

def exchanging : Call → Option Token
  | .refresh token (.mark _) | .refresh token .user | .refresh token (.ban _)
  | .refresh token (.create _) | .refresh token (.find _) | .refresh token (.rotate _) => some token
  | _ => none

def exchanged : Call → Option Token
  | .refresh token (.returned _ _) => some token
  | _ => none

def trading (c : Call) : Option Token :=
  match c with
  | .refresh token (.check _) => some token
  | _ => c.exchanging.or c.exchanged

def agreed : Call → Option (Token × ℕ)
  | .refresh token (.create version) => some (token, version)
  | _ => none

def made : Call → Option TokenPair
  | .insert pair | .refresh _ (.find pair) | .refresh _ (.rotate pair) => some pair
  | _ => none

def trade : Call → Option (Token × TokenPair)
  | .refresh token (.find pair) | .refresh token (.rotate pair)
  | .refresh token (.returned pair _) => some (token, pair)
  | _ => none

def entering : Call → Option TokenPair
  | .insert pair | .loggedIn pair => some pair
  | _ => none

def entrant : Call → Option (String × ℕ)
  | .login user version => some (user, version)
  | .insert pair | .loggedIn pair => some (pair.refresh.sub, pair.refresh.version.getD 0)
  | _ => none

section Resumed

variable {c : Call} {s : Sweep}

structure Bystander (c : Call) : Prop where
  exchanging : c.exchanging = none
  exchanged : c.exchanged = none
  returned : c.returned = none
  trading : c.trading = none
  agreed : c.agreed = none
  made : c.made = none
  trade : c.trade = none
  entering : c.entering = none
  entrant : c.entrant = none

theorem bystander (sweeping : c.sweeping = some s) : c.Bystander := by
  cases c with
  | refresh token stage =>
    cases stage with
    | revoking s => exact ⟨rfl, rfl, rfl, rfl, rfl, rfl, rfl, rfl, rfl⟩
    | _ => cases sweeping
  | sweep s => exact ⟨rfl, rfl, rfl, rfl, rfl, rfl, rfl, rfl, rfl⟩
  | _ => cases sweeping

theorem bystander_resume (left : Option Sweep) (sweeping : c.sweeping = some s) :
    (c.resume left).Bystander := by
  cases left with
  | some t =>
    cases c with
    | refresh token stage => exact bystander (s := t) rfl
    | _ => exact bystander (s := t) rfl
  | none =>
    cases c with
    | refresh token stage => exact ⟨rfl, rfl, rfl, rfl, rfl, rfl, rfl, rfl, rfl⟩
    | _ => exact ⟨rfl, rfl, rfl, rfl, rfl, rfl, rfl, rfl, rfl⟩

theorem token_resume (left : Option Sweep) (sweeping : c.sweeping = some s) :
    (c.resume left).token = c.token := by
  cases c with
  | refresh token stage => rfl
  | sweep s => cases left <;> rfl
  | _ => cases sweeping

theorem sweeping_resume (left : Option Sweep) : (c.resume left).sweeping = left := by
  cases c with
  | refresh token stage => cases left <;> rfl
  | _ => cases left <;> rfl

end Resumed

end Call

namespace World

def view {α : Type} (w : World) (f : Call → Option α) (i : ℕ) : Option α :=
  (w.calls i).bind f

def Revoked (w : World) (key : ℕ) : Prop :=
  ∃ row, w.sessions key = some row ∧ row.revokedAt.isSome

def Presented (w : World) (token : Token) : Prop :=
  ∃ i, w.view Call.token i = some token

end World

section Views

variable {α : Type} {w : World} {i j : ℕ} {c : Call} {f : Call → Option α}

theorem view_goOn : (w.goOn i c).view f j = if j = i then f c else w.view f j := by
  simp only [World.view, World.goOn, Function.update_apply]
  split
  · rfl
  · rfl

theorem view_eq (at_ : w.calls i = some c) : w.view f i = f c := by
  rw [World.view, at_, Option.bind_some]

end Views

namespace World

def KeepsRows (w t : World) : Prop :=
  ∀ key row, w.sessions key = some row → ∃ later, t.sessions key = some later ∧
    later.userId = row.userId ∧ (row.revokedAt.isSome → later.revokedAt.isSome)

/-- What a move leaves as it was: the calls that have returned, the tokens of all calls, and of
each session its user and that it is revoked. -/
structure Extends (w t : World) : Prop where
  returned : ∀ i c, w.calls i = some c → c.returned.isSome → t.calls i = some c
  tokens : ∀ i token, w.view Call.token i = some token → t.view Call.token i = some token
  sessions : w.KeepsRows t

end World

section Extension

variable {w t u : World} {i : ℕ} {c d : Call} {token : Token}

theorem World.KeepsRows.of_same (same : t.sessions = w.sessions) : w.KeepsRows t :=
  fun _ row found => ⟨row, by rw [same, found], rfl, id⟩

theorem keepsRows_insert {pair : TokenPair} (new : w.sessions pair.refresh.sid = none)
    (inserted : t.sessions = (w.insertSession pair).sessions) : w.KeepsRows t := by
  intro key row found
  refine ⟨row, ?_, rfl, id⟩
  rw [inserted]
  refine (Function.update_of_ne ?_ _ _).trans found
  rintro rfl
  cases new.symm.trans found

theorem keepsRows_rotate {key : ℕ} {pair : TokenPair}
    (rotated : t.sessions = (w.rotateTokens key pair).sessions) : w.KeepsRows t := by
  intro other row found
  rw [rotated]
  simp only [World.rotateTokens, Function.update_apply]
  split
  · rename_i own
    rw [← own, found]
    exact ⟨_, rfl, rfl, id⟩
  · exact ⟨row, found, rfl, id⟩

theorem commit_sessions (s : Sweep) (keys : List ℕ) (key : ℕ) : (w.commit s keys).sessions key =
    if key ∈ keys then (w.sessions key).map fun row => { row with revokedAt := some w.now }
    else w.sessions key := by
  rw [World.commit]
  split
  · rfl
  · rfl

theorem keepsRows_commit {s : Sweep} {keys : List ℕ}
    (committed : t.sessions = (w.commit s keys).sessions) : w.KeepsRows t := by
  intro key row found
  rw [committed, commit_sessions]
  split
  · exact ⟨{ row with revokedAt := some w.now }, by rw [found, Option.map_some], rfl, fun _ => rfl⟩
  · exact ⟨row, found, rfl, id⟩

theorem commit_calls (s : Sweep) (keys : List ℕ) :
    ((w.commit s keys).goOn i d).calls = Function.update w.calls i (some d) := by
  rw [World.commit]
  split
  · rfl
  · rfl

theorem perform_calls (command : CacheCommand) :
    ((w.perform command).goOn i d).calls = Function.update w.calls i (some d) := by
  cases command with
  | _ => rfl

theorem perform_sessions (command : CacheCommand) :
    (w.perform command).sessions = w.sessions := by
  cases command with
  | _ => rfl

theorem World.Extends.of_update (open_ : w.view Call.returned i = none)
    (same : ∀ token, w.view Call.token i = some token → c.token = some token)
    (calls : t.calls = Function.update w.calls i (some c)) (rows : w.KeepsRows t) :
    w.Extends t where
  returned j d at_ done := by
    rw [calls]
    refine (Function.update_of_ne ?_ _ _).trans at_
    rintro rfl
    rw [view_eq at_] at open_
    rw [open_] at done
    cases done
  tokens j token presented := by
    rw [World.view, calls, Function.update_apply]
    split
    · rename_i own
      rw [own] at presented
      exact same token presented
    · exact presented
  sessions := rows

theorem World.Extends.of_goOn (at_ : w.calls i = some c) (open_ : c.returned = none)
    (calls : t.calls = Function.update w.calls i (some d)) (same : d.token = c.token)
    (rows : w.KeepsRows t) : w.Extends t := by
  refine World.Extends.of_update ?_ ?_ calls rows
  · rw [view_eq at_, open_]
  · intro token presented
    rw [view_eq at_] at presented
    rw [same, presented]

theorem World.Leads.open {stage next : RefreshStage} (leads : w.Leads token stage next) :
    (Call.refresh token stage).returned = none := by
  cases leads with
  | @refused stage refusal asks =>
    cases stage with
    | returned pair time => cases asks
    | _ => rfl
  | _ => rfl

theorem World.Moves.extends {a : Action} (moves : w.Moves a t)
    (unborn : w.calls w.started = none)
    (new : ∀ i pair, w.calls i = some (.insert pair) → w.sessions pair.refresh.sid = none) :
    w.Extends t := by
  cases moves with
  | ticked seconds => exact ⟨fun _ _ at_ _ => at_, fun _ _ at_ => at_, .of_same rfl⟩
  | began opens =>
    refine World.Extends.of_update (i := w.started) ?_ ?_ rfl (.of_same rfl)
    · rw [World.view, unborn, Option.bind_none]
    · intro token presented
      rw [World.view, unborn] at presented
      cases presented
  | drawn at_ => exact .of_goOn at_ rfl rfl rfl (.of_same rfl)
  | inserted at_ => exact .of_goOn at_ rfl rfl rfl (keepsRows_insert (new _ _ at_) rfl)
  | led at_ leads => exact .of_goOn at_ leads.open rfl rfl (.of_same rfl)
  | marked at_ => exact .of_goOn at_ rfl rfl rfl (.of_same rfl)
  | created at_ => exact .of_goOn at_ rfl rfl rfl (.of_same rfl)
  | missed at_ gone => exact .of_goOn at_ rfl rfl rfl (.of_same rfl)
  | rotated at_ => exact .of_goOn at_ rfl rfl rfl (keepsRows_rotate rfl)
  | performed at_ sweeping commands =>
    exact .of_goOn at_ (Call.bystander sweeping).returned (perform_calls _)
      (Call.token_resume _ sweeping) (.of_same (perform_sessions _))
  | selected at_ sweeping commands unread =>
    exact .of_goOn at_ (Call.bystander sweeping).returned rfl (Call.token_resume _ sweeping)
      (.of_same rfl)
  | nothing at_ sweeping unread one absent =>
    exact .of_goOn at_ (Call.bystander sweeping).returned rfl (Call.token_resume _ sweeping)
      (.of_same rfl)
  | committed at_ sweeping commands read =>
    exact .of_goOn at_ (Call.bystander sweeping).returned (commit_calls _ _)
      (Call.token_resume _ sweeping) (keepsRows_commit rfl)

end Extension

namespace World

/-- What a call may be: its token is one that was handed out, its pair one that it made for the
user, the session and the version of that token or of its login. -/
structure Fits (w : World) (i : ℕ) (c : Call) : Prop where
  issued : ∀ token, c.trading = some token → w.Issued token ∧ token.jti.type = .refresh
  agreed : ∀ token version, c.agreed = some (token, version) → token.version = some version
  traded : ∀ token pair, c.trade = some (token, pair) → ∃ time version,
    token.version = some version ∧ pair = tokenPair time i token.sub version token.sid
  entered : ∀ pair, c.entering = some pair → ∃ time user version,
    pair = tokenPair time i user version i
  entrant : ∀ user version, c.entrant = some (user, version) → ∃ row, w.users user = some row ∧
    row.isActive = true ∧ version ≤ row.tokenVersion ∧
    (w.swept user ≤ i → version = row.tokenVersion)

/-- A row names the pair of a call that has returned it for this session. -/
def Names (w : World) (key : ℕ) (row : SessionRow) : Prop :=
  ∃ n pair, row.currentAccessJti = ⟨.access, n⟩ ∧ row.currentRefreshJti = ⟨.refresh, n⟩ ∧
    w.returned n = some pair ∧ pair.refresh.sid = key

def Housed (w : World) (token : Token) : Prop :=
  (∃ row, w.sessions token.sid = some row ∧ row.userId = token.sub) ∧
    ∃ first, w.calls token.sid = some (.loggedIn first) ∧
      first.refresh.sub = token.sub ∧ first.refresh.version = token.version

structure Formed (w : World) : Prop where
  unborn : ∀ i, w.started ≤ i → w.calls i = none
  fits : ∀ i c, w.calls i = some c → w.Fits i c
  rows : ∀ key row, w.sessions key = some row → w.Names key row
  housed : ∀ n pair, w.returned n = some pair → w.Housed pair.refresh

end World

section Formation

variable {w t : World} {i n : ℕ} {c d : Call} {token : Token} {pair : TokenPair}

theorem returned_eq_some : w.returned n = some pair ↔
    ∃ c, w.calls n = some c ∧ c.returned = some pair := by
  rw [World.returned, Option.bind_eq_some_iff]

theorem World.Extends.returned_of (extends_ : w.Extends t) (returned : w.returned n = some pair) :
    t.returned n = some pair := by
  obtain ⟨c, at_, gives⟩ := returned_eq_some.mp returned
  exact returned_eq_some.mpr ⟨c, extends_.returned n c at_ (by rw [gives]; rfl), gives⟩

theorem World.Extends.issued (extends_ : w.Extends t) (issued : w.Issued token) :
    t.Issued token := by
  obtain ⟨pair, returned, one⟩ := issued
  exact ⟨pair, extends_.returned_of returned, one⟩

theorem World.Extends.housed (extends_ : w.Extends t) (housed : w.Housed token) :
    t.Housed token := by
  obtain ⟨⟨row, found, own⟩, first, at_, same⟩ := housed
  obtain ⟨later, there, user, -⟩ := extends_.sessions _ row found
  exact ⟨⟨later, there, user.trans own⟩, first, extends_.returned _ _ at_ rfl, same⟩

theorem World.Formed.minted (formed : w.Formed) (returned : w.returned n = some pair) :
    ∃ time user version session, pair = tokenPair time n user version session := by
  obtain ⟨c, at_, gives⟩ := returned_eq_some.mp returned
  have fits := formed.fits n c at_
  cases c with
  | loggedIn pair =>
    cases gives
    obtain ⟨time, user, version, made⟩ := fits.entered pair rfl
    exact ⟨time, user, version, n, made⟩
  | refresh token stage =>
    cases stage with
    | returned pair time =>
      cases gives
      obtain ⟨time, version, -, made⟩ := fits.traded token pair rfl
      exact ⟨time, token.sub, version, token.sid, made⟩
    | _ => cases gives
  | _ => cases gives

/-- The users stay active, and their versions only grow, at commits of `revoke_all_tokens`. -/
def World.Ages (w t : World) : Prop :=
  ∀ user row, w.users user = some row → ∃ later, t.users user = some later ∧
    later.isActive = row.isActive ∧ row.tokenVersion ≤ later.tokenVersion ∧
    (later.tokenVersion = row.tokenVersion ∧ t.swept user = w.swept user ∨ t.swept user = w.started)

theorem World.Ages.of_same (users : t.users = w.users) (swept : t.swept = w.swept) : w.Ages t :=
  fun _ row found => ⟨row, by rw [users, found], rfl, le_rfl, .inl ⟨rfl, by rw [swept]⟩⟩

theorem ages_commit {s : Sweep} {keys : List ℕ} : w.Ages ((w.commit s keys).goOn i d) := by
  intro user row found
  simp only [World.goOn, World.commit, World.revoke]
  split
  · exact ⟨row, found, rfl, le_rfl, .inl ⟨rfl, rfl⟩⟩
  · simp only [Function.update_apply]
    split
    · rename_i own
      rw [← own, found]
      exact ⟨_, rfl, rfl, Nat.le_succ _, .inr rfl⟩
    · exact ⟨row, found, rfl, le_rfl, .inl ⟨rfl, rfl⟩⟩

theorem perform_users (command : CacheCommand) : (w.perform command).users = w.users ∧
    (w.perform command).swept = w.swept ∧ (w.perform command).started = w.started := by
  cases command with
  | _ => exact ⟨rfl, rfl, rfl⟩

theorem World.Moves.ages {a : Action} (moves : w.Moves a t) : w.Ages t := by
  cases moves with
  | performed at_ sweeping commands =>
    exact .of_same (perform_users _).1 (perform_users _).2.1
  | committed at_ sweeping commands read => exact ages_commit
  | _ => exact .of_same rfl rfl

theorem World.Fits.extends (fits : w.Fits i c) (extends_ : w.Extends t) (ages : w.Ages t)
    (born : i < w.started) : t.Fits i c where
  issued token trading := by
    obtain ⟨issued, type⟩ := fits.issued token trading
    exact ⟨extends_.issued issued, type⟩
  agreed := fits.agreed
  traded := fits.traded
  entered := fits.entered
  entrant user version enters := by
    obtain ⟨row, found, active, bound, same⟩ := fits.entrant user version enters
    obtain ⟨later, there, still, grown, kept⟩ := ages user row found
    refine ⟨later, there, still.trans active, bound.trans grown, fun recent => ?_⟩
    rcases kept with ⟨version, swept⟩ | swept
    · rw [version, same (swept ▸ recent)]
    · omega

theorem World.Names.extends {key : ℕ} {row : SessionRow} (names : w.Names key row)
    (extends_ : w.Extends t) : t.Names key row := by
  obtain ⟨n, pair, access, refresh, returned, own⟩ := names
  exact ⟨n, pair, access, refresh, extends_.returned_of returned, own⟩

theorem World.Formed.of_update (formed : w.Formed) (extends_ : w.Extends t) (ages : w.Ages t)
    (calls : t.calls = Function.update w.calls i (some d)) (born : i < t.started)
    (later : w.started ≤ t.started) (fits : t.Fits i d)
    (rows : ∀ key row, t.sessions key = some row → t.Names key row)
    (housed : ∀ pair, d.returned = some pair → t.Housed pair.refresh) : t.Formed where
  unborn j after := by
    rw [calls, Function.update_of_ne (by omega)]
    exact formed.unborn j (by omega)
  fits j c at_ := by
    rw [calls, Function.update_apply] at at_
    split at at_
    · rename_i own
      cases at_
      rw [own]
      exact fits
    · refine (formed.fits j c at_).extends extends_ ages ?_
      by_contra unborn
      cases (formed.unborn j (by omega)).symm.trans at_
  rows := rows
  housed n pair returned := by
    obtain ⟨c, at_, gives⟩ := returned_eq_some.mp returned
    rw [calls, Function.update_apply] at at_
    split at at_
    · cases at_
      exact housed pair gives
    · exact extends_.housed (formed.housed n pair (returned_eq_some.mpr ⟨c, at_, gives⟩))

theorem World.Formed.of_quiet (formed : w.Formed) (extends_ : w.Extends t) (ages : w.Ages t)
    (calls : t.calls = Function.update w.calls i (some d)) (born : i < t.started)
    (later : w.started ≤ t.started) (fits : t.Fits i d) (sessions : t.sessions = w.sessions)
    (closed : d.returned = none) : t.Formed := by
  refine formed.of_update extends_ ages calls born later fits (fun key row found => ?_) ?_
  · rw [sessions] at found
    exact (formed.rows key row found).extends extends_
  · intro pair returned
    cases closed.symm.trans returned

theorem Call.Bystander.fits (apart : c.Bystander) : w.Fits i c where
  issued token trading := by cases apart.trading.symm.trans trading
  agreed token version agreed := by cases apart.agreed.symm.trans agreed
  traded token pair trade := by cases apart.trade.symm.trans trade
  entered pair entering := by cases apart.entering.symm.trans entering
  entrant user version entrant := by cases apart.entrant.symm.trans entrant

theorem World.Formed.born (formed : w.Formed) (at_ : w.calls i = some c) : i < w.started := by
  by_contra unborn
  cases (formed.unborn i (by omega)).symm.trans at_

theorem World.Formed.new (formed : w.Formed) (at_ : w.calls i = some (.insert pair)) :
    w.sessions pair.refresh.sid = none := by
  obtain ⟨time, user, version, rfl⟩ := (formed.fits i _ at_).entered pair rfl
  cases found : w.sessions i with
  | none => exact found
  | some row =>
    obtain ⟨n, named, -, -, returned, own⟩ := formed.rows i row found
    obtain ⟨-, first, entered, -⟩ := formed.housed n named returned
    rw [own] at entered
    cases at_.symm.trans entered

theorem World.Formed.extends {a : Action} (formed : w.Formed) (moves : w.Moves a t) :
    w.Extends t :=
  moves.extends (formed.unborn _ le_rfl) fun _ _ at_ => formed.new at_

theorem fits_trading {stage : RefreshStage} (issued : w.Issued token)
    (type : token.jti.type = .refresh) (agreed : (Call.refresh token stage).agreed = none)
    (trade : (Call.refresh token stage).trade = none) : w.Fits i (.refresh token stage) where
  issued other trading := by
    have same : other = token := by
      cases stage with
      | _ => cases trading <;> rfl
    rw [same]
    exact ⟨issued, type⟩
  agreed other version agrees := by cases agreed.symm.trans agrees
  traded other pair trades := by cases trade.symm.trans trades
  entered pair entering := by cases entering
  entrant user version entrant := by cases entrant

theorem fits_login {user : String} {version : ℕ} {row : UserRow} (found : w.users user = some row)
    (active : row.isActive = true) (bound : version ≤ row.tokenVersion)
    (same : w.swept user ≤ i → version = row.tokenVersion) : w.Fits i (.login user version) where
  issued token trading := by cases trading
  agreed token version agreed := by cases agreed
  traded token pair trade := by cases trade
  entered pair entering := by cases entering
  entrant user version entrant := by
    cases entrant
    exact ⟨row, found, active, bound, same⟩

theorem decode_eq_some {decoded : Token} :
    w.decode token = some decoded ↔ decoded = token ∧ w.Issued token ∧ w.now ≤ token.exp := by
  rw [World.decode]
  split
  · rename_i valid
    exact ⟨fun same => ⟨(Option.some.inj same).symm, valid⟩, fun both => by rw [both.1]⟩
  · rename_i invalid
    exact ⟨fun refused => (by cases refused), fun both => absurd both.2 invalid⟩

/-- A token that is presented is refused, revokes all, or is a refresh token of ours. -/
theorem World.presented_spec (w : World) (token : Token) :
    (∃ refusal, w.presented token = .refused refusal) ∨
      w.presented token = .revoking ⟨token.sub, none, none, none, []⟩ ∨
      ∃ data, w.presented token = .check data ∧ w.Issued token ∧ token.jti.type = .refresh := by
  rw [World.presented]
  cases decoded : w.decode token with
  | none => exact .inl ⟨_, rfl⟩
  | some valid =>
    obtain ⟨rfl, issued, -⟩ := decode_eq_some.mp decoded
    dsimp only
    split
    · exact .inl ⟨_, rfl⟩
    · rename_i type
      split
      · exact .inl ⟨_, rfl⟩
      · split
        · split
          · exact .inl ⟨_, rfl⟩
          · exact .inr (.inl rfl)
        · exact .inr (.inr ⟨_, rfl, issued, not_not.mp type⟩)

theorem World.logout_spec (w : World) (user : String) (authorization refreshToken : Option Token) :
    w.logout user authorization refreshToken = .swept ∨
      ∃ s, w.logout user authorization refreshToken = .sweep s := by
  rw [World.logout]
  split
  · exact .inl rfl
  · exact .inr ⟨_, rfl⟩

theorem World.Opens.forms {a : Action} (opens : w.Opens a c) :
    (∃ user version, c = .login user version) ∨
      (∃ token refusal, c = .refresh token (.refused refusal)) ∨
      (∃ token s, c = .refresh token (.revoking s)) ∨
      (∃ token data, c = .refresh token (.check data)) ∨ c = .swept ∨ ∃ s, c = .sweep s := by
  cases opens with
  | login => exact .inl ⟨_, _, rfl⟩
  | presented token =>
    rcases w.presented_spec token with ⟨refusal, stage⟩ | stage | ⟨data, stage, -⟩
    · exact .inr (.inl ⟨token, refusal, by rw [stage]⟩)
    · exact .inr (.inr (.inl ⟨token, _, by rw [stage]⟩))
    · exact .inr (.inr (.inr (.inl ⟨token, data, by rw [stage]⟩)))
  | logout user authorization refreshToken =>
    rcases w.logout_spec user authorization refreshToken with idle | sweeps
    · exact .inr (.inr (.inr (.inr (.inl idle))))
    · exact .inr (.inr (.inr (.inr (.inr sweeps))))
  | one | all | ban => exact .inr (.inr (.inr (.inr (.inr ⟨_, rfl⟩))))

theorem fits_opens {a : Action} (opens : w.Opens a c) : w.Fits w.started c ∧ c.returned = none := by
  cases opens with
  | login found active =>
    exact ⟨fits_login found active le_rfl fun _ => rfl, rfl⟩
  | presented token =>
    rcases w.presented_spec token with ⟨refusal, stage⟩ | stage | ⟨data, stage, issued, type⟩
    · rw [stage]
      exact ⟨Call.Bystander.fits ⟨rfl, rfl, rfl, rfl, rfl, rfl, rfl, rfl, rfl⟩, rfl⟩
    · rw [stage]
      exact ⟨(Call.bystander rfl).fits, rfl⟩
    · rw [stage]
      exact ⟨fits_trading issued type rfl rfl, rfl⟩
  | logout user authorization refreshToken =>
    rcases w.logout_spec user authorization refreshToken with idle | ⟨s, sweeps⟩
    · rw [idle]
      exact ⟨Call.Bystander.fits ⟨rfl, rfl, rfl, rfl, rfl, rfl, rfl, rfl, rfl⟩, rfl⟩
    · rw [sweeps]
      exact ⟨(Call.bystander rfl).fits, rfl⟩
  | one user session => exact ⟨(Call.bystander rfl).fits, rfl⟩
  | all user => exact ⟨(Call.bystander rfl).fits, rfl⟩
  | ban user reason durationHours ttl => exact ⟨(Call.bystander rfl).fits, rfl⟩

theorem World.Formed.home (formed : w.Formed) (issued : w.Issued token) : w.Housed token := by
  obtain ⟨pair, returned, one⟩ := issued
  generalize token.jti.call = n at returned
  have housed := formed.housed n pair returned
  obtain ⟨time, user, version, session, rfl⟩ := formed.minted returned
  rcases one with rfl | rfl
  · exact housed
  · exact housed

theorem World.Formed.version (formed : w.Formed) (issued : w.Issued token) :
    ∃ version, token.version = some version := by
  obtain ⟨pair, returned, one⟩ := issued
  generalize token.jti.call = n at returned
  obtain ⟨time, user, version, session, rfl⟩ := formed.minted returned
  rcases one with rfl | rfl
  · exact ⟨version, rfl⟩
  · exact ⟨version, rfl⟩

theorem fits_leads {stage next : RefreshStage} (formed : w.Formed)
    (at_ : w.calls i = some (.refresh token stage)) (leads : w.Leads token stage next) :
    w.Fits i (.refresh token next) ∧ (Call.refresh token next).returned = none := by
  have fits := formed.fits i _ at_
  cases leads with
  | admitted found own current =>
    obtain ⟨issued, type⟩ := fits.issued token rfl
    exact ⟨fits_trading issued type rfl rfl, rfl⟩
  | known found =>
    obtain ⟨issued, type⟩ := fits.issued token rfl
    exact ⟨fits_trading issued type rfl rfl, rfl⟩
  | welcome same =>
    obtain ⟨issued, type⟩ := fits.issued token rfl
    obtain ⟨version, known⟩ := formed.version issued
    refine ⟨⟨fits.issued, fun other agreed agrees => ?_, fun _ _ trade => (by cases trade),
      fun _ entering => (by cases entering), fun _ _ entrant => (by cases entrant)⟩, rfl⟩
    cases agrees
    rw [same, known, Option.getD_some]
  | there found =>
    exact ⟨⟨fits.issued, fun _ _ agreed => (by cases agreed), fits.traded,
      fun _ entering => (by cases entering), fun _ _ entrant => (by cases entrant)⟩, rfl⟩
  | refused asks => exact ⟨Call.Bystander.fits ⟨rfl, rfl, rfl, rfl, rfl, rfl, rfl, rfl, rfl⟩, rfl⟩

theorem fits_insert {time : ℤ} {user : String} {version : ℕ}
    (fits : w.Fits i (.login user version)) :
    w.Fits i (.insert (tokenPair time i user version i)) where
  issued token trading := by cases trading
  agreed token version agreed := by cases agreed
  traded token pair trade := by cases trade
  entered pair entering := by
    cases entering
    exact ⟨time, user, version, rfl⟩
  entrant known same entrant := by
    cases entrant
    exact fits.entrant _ _ rfl

theorem fits_loggedIn (fits : w.Fits i (.insert pair)) : w.Fits i (.loggedIn pair) where
  issued token trading := by cases trading
  agreed token version agreed := by cases agreed
  traded token pair trade := by cases trade
  entered := fits.entered
  entrant := fits.entrant

theorem fits_traded {stage : RefreshStage} (issued : w.Issued token)
    (type : token.jti.type = .refresh) (agreed : (Call.refresh token stage).agreed = none)
    (trade : (Call.refresh token stage).trade = some (token, pair))
    (made : ∃ time version, token.version = some version ∧
      pair = tokenPair time i token.sub version token.sid) : w.Fits i (.refresh token stage) where
  issued other trading := by
    have same : other = token := by
      cases stage with
      | _ => cases trading <;> rfl
    rw [same]
    exact ⟨issued, type⟩
  agreed other version agrees := by cases agreed.symm.trans agrees
  traded other given trades := by
    cases trade.symm.trans trades
    exact made
  entered pair entering := by cases entering
  entrant user version entrant := by cases entrant

theorem World.Formed.traded_home (formed : w.Formed) (at_ : w.calls i = some c)
    (trade : c.trade = some (token, pair)) : w.Housed pair.refresh := by
  have fits := formed.fits i c at_
  obtain ⟨time, version, same, rfl⟩ := fits.traded token pair trade
  have trading : c.trading = some token := by
    cases c with
    | refresh other stage =>
      cases stage with
      | _ => cases trade <;> rfl
    | _ => cases trade
  obtain ⟨row, first, entered, own, version⟩ := formed.home (fits.issued token trading).1
  exact ⟨row, first, entered, own, version.trans same⟩

theorem World.Formed.step {a : Action} (formed : w.Formed) (moves : w.Moves a t) : t.Formed := by
  have extends_ := formed.extends moves
  have ages := moves.ages
  -- What fits a call that goes on fits it when it has.
  have fits_later {i : ℕ} {c d : Call} (at_ : w.calls i = some c) (fits : w.Fits i d) :
      t.Fits i d := fits.extends extends_ ages (formed.born at_)
  cases moves with
  | ticked seconds =>
    exact ⟨formed.unborn, fun i c at_ => fits_later at_ (formed.fits i c at_),
      fun key row found => (formed.rows key row found).extends extends_, formed.housed⟩
  | began opens =>
    obtain ⟨fits, closed⟩ := fits_opens opens
    refine formed.of_quiet extends_ ages rfl (Nat.lt_succ_self _) (Nat.le_succ _) ?_ rfl closed
    refine ⟨fun token trading => ?_, fits.agreed, fits.traded, fits.entered, fits.entrant⟩
    obtain ⟨issued, type⟩ := fits.issued token trading
    exact ⟨extends_.issued issued, type⟩
  | drawn at_ =>
    refine formed.of_quiet extends_ ages rfl (formed.born at_) le_rfl (fits_later at_ ?_) rfl rfl
    exact fits_insert (formed.fits _ _ at_)
  | @inserted i pair at_ =>
    have returned : ((w.insertSession pair).goOn i (.loggedIn pair)).returned i = some pair :=
      returned_eq_some.mpr ⟨_, Function.update_self .., rfl⟩
    obtain ⟨time, user, version, rfl⟩ := (formed.fits _ _ at_).entered _ rfl
    refine formed.of_update extends_ ages rfl (formed.born at_) le_rfl
      (fits_later at_ (fits_loggedIn (formed.fits _ _ at_))) (fun key row found => ?_) ?_
    · simp only [World.goOn, World.insertSession, Function.update_apply] at found
      split at found
      · rename_i own
        cases found
        exact ⟨i, _, rfl, rfl, returned, own.symm⟩
      · exact (formed.rows key row found).extends extends_
    · intro pair gives
      cases gives
      exact ⟨⟨_, Function.update_self .., rfl⟩, _, Function.update_self .., rfl, rfl⟩
  | led at_ leads =>
    obtain ⟨fits, closed⟩ := fits_leads formed at_ leads
    exact formed.of_quiet extends_ ages rfl (formed.born at_) le_rfl (fits_later at_ fits) rfl closed
  | marked at_ =>
    obtain ⟨issued, type⟩ := (formed.fits _ _ at_).issued _ rfl
    exact formed.of_quiet extends_ ages rfl (formed.born at_) le_rfl
      (fits_later at_ (fits_trading issued type rfl rfl)) rfl rfl
  | created at_ =>
    obtain ⟨issued, type⟩ := (formed.fits _ _ at_).issued _ rfl
    have version := (formed.fits _ _ at_).agreed _ _ rfl
    exact formed.of_quiet extends_ ages rfl (formed.born at_) le_rfl
      (fits_later at_ (fits_traded issued type rfl rfl ⟨_, _, version, rfl⟩)) rfl rfl
  | @missed i token pair at_ gone =>
    obtain ⟨issued, type⟩ := (formed.fits _ _ at_).issued _ rfl
    have made := (formed.fits _ _ at_).traded _ _ rfl
    refine formed.of_update extends_ ages rfl (formed.born at_) le_rfl
      (fits_later at_ (fits_traded issued type rfl rfl made)) (fun key row found => ?_) ?_
    · exact (formed.rows key row found).extends extends_
    · intro pair gives
      cases gives
      exact extends_.housed (formed.traded_home at_ rfl)
  | @rotated i token pair at_ =>
    obtain ⟨issued, type⟩ := (formed.fits _ _ at_).issued _ rfl
    have made := (formed.fits _ _ at_).traded _ _ rfl
    refine formed.of_update extends_ ages rfl (formed.born at_) le_rfl
      (fits_later at_ (fits_traded issued type rfl rfl made)) (fun key row found => ?_) ?_
    · simp only [World.returns, World.goOn, World.rotateTokens, Function.update_apply] at found
      split at found
      · rename_i own
        obtain ⟨old, -, rfl⟩ := Option.map_eq_some_iff.mp found
        obtain ⟨time, version, -, rfl⟩ := made
        exact ⟨i, _, rfl, rfl, returned_eq_some.mpr ⟨_, Function.update_self .., rfl⟩, own.symm⟩
      · exact (formed.rows key row found).extends extends_
    · intro pair gives
      cases gives
      exact extends_.housed (formed.traded_home at_ rfl)
  | @performed i c s command rest at_ sweeping commands =>
    have apart := Call.bystander_resume (some { s with commands := rest }) sweeping
    exact formed.of_quiet extends_ ages (perform_calls _)
      (by rw [World.goOn, (perform_users _).2.2]; exact formed.born at_)
      (by rw [World.goOn, (perform_users _).2.2]) (fits_later at_ apart.fits)
      (perform_sessions _) apart.returned
  | @selected i c s at_ sweeping commands unread =>
    exact formed.of_quiet extends_ ages rfl (formed.born at_) le_rfl
      (fits_later at_ (Call.bystander_resume _ sweeping).fits) rfl
      (Call.bystander_resume _ sweeping).returned
  | nothing at_ sweeping unread one absent =>
    exact formed.of_quiet extends_ ages rfl (formed.born at_) le_rfl
      (fits_later at_ (Call.bystander_resume none sweeping).fits) rfl
      (Call.bystander_resume none sweeping).returned
  | @committed i c s keys at_ sweeping commands read =>
    have apart := Call.bystander_resume none sweeping
    have started : ((w.commit s keys).goOn i (c.resume none)).started = w.started := by
      simp only [World.goOn, World.commit, World.revoke]
      split
      · rfl
      · rfl
    refine formed.of_update extends_ ages (commit_calls _ _) (started ▸ formed.born at_)
      started.ge (fits_later at_ apart.fits) (fun key row found => ?_) ?_
    · simp only [World.goOn, commit_sessions] at found
      split at found
      · obtain ⟨old, there, rfl⟩ := Option.map_eq_some_iff.mp found
        exact (formed.rows key old there).extends extends_
      · exact (formed.rows key row found).extends extends_
    · intro pair gives
      cases apart.returned.symm.trans gives

theorem view_update {α : Type} {f : Call → Option α} {j : ℕ}
    (calls : t.calls = Function.update w.calls i (some d)) :
    t.view f j = if j = i then f d else w.view f j := by
  simp only [World.view, calls, Function.update_apply]
  split
  · rfl
  · rfl

theorem returned_update (calls : t.calls = Function.update w.calls i (some d)) :
    t.returned n = if n = i then d.returned else w.returned n :=
  view_update calls

theorem World.Extends.presented (extends_ : w.Extends t) (presented : w.Presented token) :
    t.Presented token := by
  obtain ⟨i, at_⟩ := presented
  exact ⟨i, extends_.tokens i token at_⟩

theorem World.Formed.refresh_jti (formed : w.Formed) (returned : w.returned n = some pair) :
    pair.refresh.jti = ⟨.refresh, n⟩ := by
  obtain ⟨time, user, version, session, rfl⟩ := formed.minted returned
  rfl

theorem World.Formed.eq_refresh (formed : w.Formed) (issued : w.Issued token)
    (type : token.jti.type = .refresh) (returned : w.returned n = some pair)
    (same : token.jti = pair.refresh.jti) : token = pair.refresh := by
  rw [formed.refresh_jti returned] at same
  obtain ⟨own, there, one⟩ := issued
  rw [same] at there
  cases returned.symm.trans there
  obtain ⟨time, user, version, session, rfl⟩ := formed.minted returned
  rcases one with access | refresh
  · rw [access] at type
    cases type
  · exact refresh

theorem World.Formed.eq_of_jti {other : Token} (formed : w.Formed)
    (valid : w.Issued token ∧ token.jti.type = .refresh)
    (known : w.Issued other ∧ other.jti.type = .refresh) (same : token.jti = other.jti) :
    token = other := by
  obtain ⟨pair, returned, -⟩ := valid.1
  have jti : token.jti = pair.refresh.jti := by
    rw [formed.refresh_jti returned, ← valid.2]
  rw [formed.eq_refresh valid.1 valid.2 returned jti,
    formed.eq_refresh known.1 known.2 returned (same.symm.trans jti)]

theorem World.Issued.ne (issued : w.Issued token) (at_ : w.calls i = some c)
    (open_ : c.returned = none) : token.jti.call ≠ i := by
  rintro rfl
  obtain ⟨pair, returned, -⟩ := issued
  obtain ⟨d, there, gives⟩ := returned_eq_some.mp returned
  cases at_.symm.trans there
  cases open_.symm.trans gives

end Formation

end Deeting.Sessions
