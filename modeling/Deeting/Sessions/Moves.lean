import Deeting.Sessions.Tokens

/-! The moves of the sessions: a constructor for each kind of command, with what it is taken on. -/
namespace Deeting.Sessions
open Transition Expiry

/-- The stages at which `refresh_tokens` may refuse. -/
def RefreshStage.asks : RefreshStage → Bool
  | .check _ | .user | .ban _ => true
  | _ => false

/-- A call of `refresh_tokens` goes on with nothing written. -/
inductive World.Leads (w : World) (token : Token) : RefreshStage → RefreshStage → Prop
  | admitted {data : RefreshData} {row : SessionRow}
      (found : w.activeSession token.sid = some row) (own : row.userId = token.sub)
      (current : row.currentRefreshJti = token.jti) : Leads w token (.check data) (.mark data)
  | known {user : UserRow} (found : w.users token.sub = some user) :
      Leads w token .user (.ban user.tokenVersion)
  | welcome {version : ℕ} (same : version = token.version.getD 0) :
      Leads w token (.ban version) (.create version)
  | there {pair : TokenPair} {row : SessionRow} (found : w.activeSession token.sid = some row) :
      Leads w token (.find pair) (.rotate pair)
  | refused {stage : RefreshStage} {refusal : Refusal} (asks : stage.asks = true) :
      Leads w token stage (.refused refusal)

inductive World.Opens (w : World) : Action → Call → Prop
  | login {user : String} {row : UserRow} (found : w.users user = some row)
      (active : row.isActive = true) : Opens w (.login user) (.login user row.tokenVersion)
  | presented (token : Token) :
      Opens w (.refreshTokens token) (.refresh token (w.presented token))
  | logout (user : String) (authorization refreshToken : Option Token) :
      Opens w (.logoutWithTokens user authorization refreshToken)
        (w.logout user authorization refreshToken)
  | one (user : String) (session : ℕ) :
      Opens w (.revokeLoginSession user session) (.sweep ⟨user, some session, none, none, []⟩)
  | all (user : String) :
      Opens w (.revokeAllTokens user) (.sweep ⟨user, none, none, none, []⟩)
  | ban (user reason : String) (durationHours : Option ℕ) (ttl : Option ℤ) :
      Opens w (.banUser user reason durationHours)
        (.sweep ⟨user, none, none, none, [.ban user reason ttl]⟩)

inductive World.Moves (w : World) : Action → World → Prop
  | ticked (seconds : ℕ) : Moves w (.tick seconds) { w with now := w.now + seconds }
  | began {a : Action} {c : Call} (opens : w.Opens a c) : Moves w a (w.begin c)
  | drawn {i : ℕ} {user : String} {version : ℕ} (at_ : w.calls i = some (.login user version)) :
      Moves w (.advance i) ((w.storeRefresh (tokenPair w.now i user version i).refresh version).goOn
        i (.insert (tokenPair w.now i user version i)))
  | inserted {i : ℕ} {pair : TokenPair} (at_ : w.calls i = some (.insert pair)) :
      Moves w (.advance i) ((w.insertSession pair).goOn i (.loggedIn pair))
  | led {i : ℕ} {token : Token} {stage next : RefreshStage}
      (at_ : w.calls i = some (.refresh token stage)) (leads : w.Leads token stage next) :
      Moves w (.advance i) (w.goOn i (.refresh token next))
  | marked {i : ℕ} {token : Token} {data : RefreshData}
      (at_ : w.calls i = some (.refresh token (.mark data))) :
      Moves w (.advance i) ((w.markUsed token data).goOn i (.refresh token .user))
  | created {i : ℕ} {token : Token} {version : ℕ}
      (at_ : w.calls i = some (.refresh token (.create version))) :
      Moves w (.advance i)
        ((w.storeRefresh (tokenPair w.now i token.sub version token.sid).refresh version).goOn i
          (.refresh token (.find (tokenPair w.now i token.sub version token.sid))))
  | missed {i : ℕ} {token : Token} {pair : TokenPair}
      (at_ : w.calls i = some (.refresh token (.find pair)))
      (gone : w.activeSession token.sid = none) : Moves w (.advance i) (w.returns i token pair)
  | rotated {i : ℕ} {token : Token} {pair : TokenPair}
      (at_ : w.calls i = some (.refresh token (.rotate pair))) :
      Moves w (.advance i) ((w.rotateTokens token.sid pair).returns i token pair)
  | performed {i : ℕ} {c : Call} {s : Sweep} {command : CacheCommand} {rest : List CacheCommand}
      (at_ : w.calls i = some c) (sweeping : c.sweeping = some s)
      (commands : s.commands = command :: rest) :
      Moves w (.advance i) ((w.perform command).goOn i (c.resume (some { s with commands := rest })))
  | selected {i : ℕ} {c : Call} {s : Sweep} (at_ : w.calls i = some c)
      (sweeping : c.sweeping = some s) (commands : s.commands = []) (unread : s.selected = none) :
      Moves w (.advance i) (w.goOn i (c.resume (some { s with
        selected := some ((w.select s).map Prod.fst)
        commands := (w.select s).flatMap fun found => s.invalidate found.2 })))
  | nothing {i : ℕ} {c : Call} {s : Sweep} {key : ℕ} (at_ : w.calls i = some c)
      (sweeping : c.sweeping = some s) (unread : s.selected = none) (one : s.session = some key)
      (absent : w.select s = []) : Moves w (.advance i) (w.goOn i (c.resume none))
  | committed {i : ℕ} {c : Call} {s : Sweep} {keys : List ℕ} (at_ : w.calls i = some c)
      (sweeping : c.sweeping = some s) (commands : s.commands = [])
      (read : s.selected = some keys) :
      Moves w (.advance i) ((w.commit s keys).goOn i (c.resume none))

section Inversion

variable {w t : World} {i : ℕ} {c : Call} {token : Token} {stage : RefreshStage}

theorem activeSession_eq_some {key : ℕ} {row : SessionRow} :
    w.activeSession key = some row ↔ w.sessions key = some row ∧ row.revokedAt = none := by
  simp [World.activeSession, Option.filter_eq_some_iff]

theorem Moves.of_sweepStep {s : Sweep} (at_ : w.calls i = some c)
    (sweeping : c.sweeping = some s) :
    w.Moves (.advance i) ((w.sweepStep s).1.goOn i (c.resume (w.sweepStep s).2)) := by
  rcases commands : s.commands with _ | ⟨command, rest⟩
  · rcases read : s.selected with _ | keys
    · by_cases absent : s.session.isSome ∧ w.select s = []
      · obtain ⟨key, one⟩ := Option.isSome_iff_exists.mp absent.1
        simp only [World.sweepStep, commands, read, if_pos absent]
        exact .nothing at_ sweeping read one absent.2
      · simp only [World.sweepStep, commands, read, if_neg absent]
        exact .selected at_ sweeping commands read
    · simp only [World.sweepStep, commands, read]
      exact .committed at_ sweeping commands read
  · simp only [World.sweepStep, commands]
    exact .performed at_ sweeping commands

theorem Moves.of_exchange (at_ : w.calls i = some (.refresh token stage))
    (taken : w.exchange i token stage = some t) : w.Moves (.advance i) t := by
  cases stage with
  | check data =>
    cases taken
    split
    · rename_i passes
      obtain ⟨row, found, own, current⟩ := passes
      exact .led at_ (.admitted found own current)
    · exact .led at_ (.refused rfl)
  | mark data =>
    cases taken
    exact .marked at_
  | user =>
    cases taken
    cases found : (w.users token.sub).filter UserRow.isActive with
    | none => exact .led at_ (.refused rfl)
    | some user => exact .led at_ (.known (Option.filter_eq_some_iff.mp found).1)
  | ban version =>
    cases taken
    split
    · exact .led at_ (.refused rfl)
    · split
      · exact .led at_ (.refused rfl)
      · rename_i same
        exact .led at_ (.welcome (not_not.mp same))
  | create version =>
    cases taken
    exact .created at_
  | find pair =>
    simp only [World.exchange] at taken
    split at taken
    · rename_i there
      obtain ⟨row, found⟩ := Option.isSome_iff_exists.mp there
      cases taken
      exact .led at_ (.there found)
    · rename_i gone
      cases taken
      exact .missed at_ (Option.not_isSome_iff_eq_none.mp gone)
  | rotate pair =>
    cases taken
    exact .rotated at_
  | returned pair time => cases taken
  | refused refusal => cases taken
  | revoking s => cases taken

theorem Moves.of_step {a : Action} (taken : sessionStep w a = some t) : w.Moves a t := by
  cases a with
  | tick seconds =>
    cases taken
    exact .ticked seconds
  | login user =>
    obtain ⟨row, found, taken⟩ := Option.map_eq_some_iff.mp taken
    obtain ⟨found, active⟩ := Option.filter_eq_some_iff.mp found
    cases taken
    exact .began (.login found active)
  | refreshTokens token =>
    cases taken
    exact .began (.presented token)
  | logoutWithTokens user authorization refreshToken =>
    cases taken
    exact .began (.logout user authorization refreshToken)
  | revokeLoginSession user session =>
    cases taken
    exact .began (.one user session)
  | revokeAllTokens user =>
    cases taken
    exact .began (.all user)
  | banUser user reason durationHours =>
    cases taken
    exact .began (.ban user reason durationHours _)
  | advance i =>
    obtain ⟨c, at_, taken⟩ := Option.bind_eq_some_iff.mp taken
    cases sweeping : c.sweeping with
    | some s =>
      simp only [World.advance, sweeping] at taken
      cases taken
      exact Moves.of_sweepStep at_ sweeping
    | none =>
      simp only [World.advance, sweeping] at taken
      cases c with
      | login user version =>
        cases taken
        exact .drawn at_
      | insert pair =>
        cases taken
        exact .inserted at_
      | loggedIn pair => cases taken
      | refresh token stage => exact Moves.of_exchange at_ taken
      | sweep s => cases taken
      | swept => cases taken

end Inversion

end Deeting.Sessions
