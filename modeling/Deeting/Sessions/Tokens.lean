import Deeting.Expiry
import Deeting.Transition
import Mathlib.Algebra.Order.Ring.Int
import Mathlib.Logic.Function.Basic

/-! Login sessions: `create_session_tokens`, `refresh_tokens`, the calls that revoke, and what
`_get_user_from_jwt` accepts. Every cache command and every committed statement is a step, and the
calls take their steps in any order. What the source draws at random, a session key and the jtis
of a pair, bears the number of the call that draws it. Times are seconds. -/
namespace Deeting.Sessions
open Transition Expiry

def accessTokenExpireSeconds : ℤ := 30 * 60

def refreshTokenExpireSeconds : ℤ := 7 * 24 * 3600

def refreshTokenReuseGraceSeconds : ℤ := 5

def usedMarkerSeconds : ℤ := 60

inductive TokenType where
  | access
  | refresh
  deriving DecidableEq

structure Jti where
  type : TokenType
  call : ℕ
  deriving DecidableEq

structure Token where
  jti : Jti
  sub : String
  sid : ℕ
  version : Option ℕ
  exp : ℤ
  deriving DecidableEq

structure TokenPair where
  access : Token
  refresh : Token
  deriving DecidableEq

structure Refusal where
  status : ℕ
  detail : String
  deriving DecidableEq

structure UserRow where
  tokenVersion : ℕ
  isActive : Bool
  deriving DecidableEq

structure SessionRow where
  userId : String
  currentAccessJti : Jti
  currentRefreshJti : Jti
  revokedAt : Option ℤ
  deriving DecidableEq

structure RefreshData where
  userId : String
  version : ℕ
  sessionKey : ℕ
  used : Bool
  usedAtTs : Option ℤ
  deriving DecidableEq

/-- `_is_refresh_reuse_within_grace`. -/
def RefreshData.withinGrace (now : ℤ) (data : RefreshData) : Bool :=
  match data.usedAtTs with
  | none => false
  | some usedAt => now - usedAt ≤ refreshTokenReuseGraceSeconds

inductive CacheCommand where
  | deleteRefresh (jti : Jti)
  | blacklist (jti : Jti)
  | ban (user : String) (reason : String) (ttl : Option ℤ)
  deriving DecidableEq

/-- A revocation under way, of one session or of all that a user has: the cache commands to
come, and once the rows are read the keys of those to commit as revoked. -/
structure Sweep where
  user : String
  session : Option ℕ
  accessJti : Option Jti := none
  selected : Option (List ℕ) := none
  commands : List CacheCommand := []
  deriving DecidableEq

/-- The next command of a call of `refresh_tokens`. -/
inductive RefreshStage where
  | check (data : RefreshData)
  | mark (data : RefreshData)
  | user
  | ban (version : ℕ)
  | create (version : ℕ)
  | find (pair : TokenPair)
  | rotate (pair : TokenPair)
  | returned (pair : TokenPair) (time : ℤ)
  | refused (refusal : Refusal)
  | revoking (sweep : Sweep)
  deriving DecidableEq

inductive Call where
  | login (user : String) (version : ℕ)
  | insert (pair : TokenPair)
  | loggedIn (pair : TokenPair)
  | refresh (token : Token) (stage : RefreshStage)
  | sweep (sweep : Sweep)
  | swept
  deriving DecidableEq

def Call.returned : Call → Option TokenPair
  | .loggedIn pair | .refresh _ (.returned pair _) => some pair
  | _ => none

/-- The tables, the cache and the calls; of each session the call that returned its last pair, and
of each user how many calls there were when `revoke_all_tokens` was last committed. -/
structure World where
  now : ℤ
  users : String → Option UserRow
  sessions : ℕ → Option SessionRow := fun _ => none
  refresh : Jti → Option (Entry ℤ RefreshData) := fun _ => none
  blacklist : Jti → Option (Entry ℤ Unit) := fun _ => none
  bans : String → Option (Entry ℤ String) := fun _ => none
  calls : ℕ → Option Call := fun _ => none
  started : ℕ := 0
  last : ℕ → Option ℕ := fun _ => none
  swept : String → ℕ := fun _ => 0

inductive Action where
  | tick (seconds : ℕ)
  | login (user : String)
  | refreshTokens (token : Token)
  | logoutWithTokens (user : String) (authorization refreshToken : Option Token)
  | revokeLoginSession (user : String) (session : ℕ)
  | revokeAllTokens (user : String)
  | banUser (user reason : String) (durationHours : Option ℕ)
  | advance (call : ℕ)

/-- What `refresh_tokens` answers once it has revoked all. -/
def reuseDetected : Refusal := ⟨401, "Token reuse detected, all sessions invalidated"⟩

def tokenPair (now : ℤ) (call : ℕ) (user : String) (version session : ℕ) : TokenPair where
  access := ⟨⟨.access, call⟩, user, session, some version, now + accessTokenExpireSeconds⟩
  refresh := ⟨⟨.refresh, call⟩, user, session, some version, now + refreshTokenExpireSeconds⟩

namespace World

/-- `get_active_by_key`. -/
def activeSession (w : World) (key : ℕ) : Option SessionRow :=
  (w.sessions key).filter fun row => row.revokedAt.isNone

def returned (w : World) (call : ℕ) : Option TokenPair :=
  (w.calls call).bind Call.returned

def Issued (w : World) (token : Token) : Prop :=
  ∃ pair ∈ w.returned token.jti.call, token = pair.access ∨ token = pair.refresh

instance (w : World) (token : Token) : Decidable (w.Issued token) :=
  inferInstanceAs (Decidable (∃ pair ∈ w.returned token.jti.call, _))

/-- `decode_token`. -/
def decode (w : World) (token : Token) : Option Token :=
  if w.Issued token ∧ w.now ≤ token.exp then some token else none

def getUserFromJwt (w : World) (token : Token) : Except Refusal UserRow :=
  match w.decode token with
  | none => .error ⟨401, "Invalid token"⟩
  | some token =>
    if token.jti.type ≠ .access then .error ⟨401, "Invalid token type"⟩
    else if (live w.now (w.blacklist token.jti)).isSome then .error ⟨401, "Token has been revoked"⟩
    else match w.users token.sub with
      | none => .error ⟨401, "User not found"⟩
      | some user =>
        if (∃ version ∈ token.version, version ≠ user.tokenVersion) ∨
            token.version = none ∧ 0 < user.tokenVersion then
          .error ⟨401, "Token has expired, please login again"⟩
        else match live w.now (w.bans token.sub) with
          | some ban => .error ⟨403, "Account is banned: " ++ ban.value⟩
          | none =>
            if ∃ row ∈ w.activeSession token.sid, row.userId = token.sub then .ok user
            else .error ⟨401, "Login session has been revoked"⟩

def begin (w : World) (c : Call) : World :=
  { w with calls := Function.update w.calls w.started (some c), started := w.started + 1 }

def goOn (w : World) (i : ℕ) (c : Call) : World :=
  { w with calls := Function.update w.calls i (some c) }

/-- `cache.set` of a new refresh token. -/
def storeRefresh (w : World) (token : Token) (version : ℕ) : World :=
  { w with
    refresh := Function.update w.refresh token.jti
      (some ⟨⟨token.sub, version, token.sid, false, none⟩,
        some (w.now + refreshTokenExpireSeconds)⟩) }

def insertSession (w : World) (pair : TokenPair) : World :=
  { w with
    sessions := Function.update w.sessions pair.refresh.sid
      (some ⟨pair.refresh.sub, pair.access.jti, pair.refresh.jti, none⟩)
    last := Function.update w.last pair.refresh.sid (some pair.refresh.jti.call) }

/-- What is left of `refresh_tokens` after the first cache command. -/
def presented (w : World) (token : Token) : RefreshStage :=
  match w.decode token with
  | none => .refused ⟨401, "Invalid refresh token"⟩
  | some token =>
    if token.jti.type ≠ .refresh then .refused ⟨401, "Invalid token type"⟩
    else match live w.now (w.refresh token.jti) with
      | none => .refused ⟨401, "Refresh token expired or invalid"⟩
      | some e =>
        if e.value.used then
          if e.value.withinGrace w.now then
            .refused ⟨401, "Refresh token reuse detected, retry with latest token"⟩
          else .revoking ⟨token.sub, none, none, none, []⟩
        else .check e.value

def markUsed (w : World) (token : Token) (data : RefreshData) : World :=
  { w with
    refresh := Function.update w.refresh token.jti
      (some ⟨{ data with used := true, usedAtTs := some w.now }, some (w.now + usedMarkerSeconds)⟩) }

def rotateTokens (w : World) (key : ℕ) (pair : TokenPair) : World :=
  { w with
    sessions := Function.update w.sessions key ((w.sessions key).map fun row =>
      { row with currentAccessJti := pair.access.jti, currentRefreshJti := pair.refresh.jti }) }

/-- `refresh_tokens` returns a pair. -/
def returns (w : World) (i : ℕ) (token : Token) (pair : TokenPair) : World :=
  { w.goOn i (.refresh token (.returned pair w.now)) with
    last := Function.update w.last token.sid (some i) }

/-- The next command of `refresh_tokens`. -/
def exchange (w : World) (i : ℕ) (token : Token) : RefreshStage → Option World
  | .check data =>
    some (w.goOn i (.refresh token (
      if ∃ row ∈ w.activeSession token.sid,
          row.userId = token.sub ∧ row.currentRefreshJti = token.jti then .mark data
      else .refused ⟨401, "Refresh token expired or invalid"⟩)))
  | .mark data => some ((w.markUsed token data).goOn i (.refresh token .user))
  | .user =>
    some (w.goOn i (.refresh token (
      match (w.users token.sub).filter UserRow.isActive with
      | none => .refused ⟨401, "User not found or inactive"⟩
      | some user => .ban user.tokenVersion)))
  | .ban version =>
    some (w.goOn i (.refresh token (
      if (live w.now (w.bans token.sub)).isSome then .refused ⟨423, "Account is banned"⟩
      else if version ≠ token.version.getD 0 then
        .refused ⟨401, "Token version mismatch, please login again"⟩
      else .create version)))
  | .create version =>
    let pair := tokenPair w.now i token.sub version token.sid
    some ((w.storeRefresh pair.refresh version).goOn i (.refresh token (.find pair)))
  | .find pair =>
    -- A session that is gone is not told from one that is rotated.
    if (w.activeSession token.sid).isSome then some (w.goOn i (.refresh token (.rotate pair)))
    else some (w.returns i token pair)
  | .rotate pair => some ((w.rotateTokens token.sid pair).returns i token pair)
  | .returned .. | .refused _ | .revoking _ => none

def perform (w : World) : CacheCommand → World
  | .deleteRefresh jti => { w with refresh := Function.update w.refresh jti none }
  | .blacklist jti =>
    { w with
      blacklist := Function.update w.blacklist jti
        (some ⟨(), some (w.now + accessTokenExpireSeconds)⟩) }
  | .ban user reason ttl =>
    { w with bans := Function.update w.bans user (some ⟨reason, ttl.map (w.now + ·)⟩) }

def select (w : World) (s : Sweep) : List (ℕ × SessionRow) :=
  (s.session.elim (List.range w.started) fun key => [key]).filterMap fun key =>
    ((w.activeSession key).filter fun row => row.userId = s.user).map fun row => (key, row)

end World

/-- The cache commands of `_invalidate_login_session`. -/
def Sweep.invalidate (s : Sweep) (row : SessionRow) : List CacheCommand :=
  [.deleteRefresh row.currentRefreshJti, .blacklist row.currentAccessJti] ++
    ((s.accessJti.filter fun jti => jti ≠ row.currentAccessJti).map CacheCommand.blacklist).toList

namespace World

def revoke (w : World) (keys : List ℕ) : World :=
  { w with
    sessions := fun key =>
      if key ∈ keys then (w.sessions key).map fun row => { row with revokedAt := some w.now }
      else w.sessions key }

/-- The sessions are revoked; `revoke_all_tokens` also counts the version of the user up. -/
def commit (w : World) (s : Sweep) (keys : List ℕ) : World :=
  let w := w.revoke keys
  if s.session.isSome then w
  else
    { w with
      users := Function.update w.users s.user
        ((w.users s.user).map fun user => { user with tokenVersion := user.tokenVersion + 1 })
      swept := Function.update w.swept s.user w.started }

def sweepStep (w : World) (s : Sweep) : World × Option Sweep :=
  match s.commands, s.selected with
  | command :: rest, _ => (w.perform command, some { s with commands := rest })
  | [], none =>
    if s.session.isSome ∧ w.select s = [] then (w, none)
    else (w, some { s with
      selected := some ((w.select s).map Prod.fst)
      commands := (w.select s).flatMap fun found => s.invalidate found.2 })
  | [], some keys => (w.commit s keys, none)

end World

def Call.sweeping : Call → Option Sweep
  | .sweep s | .refresh _ (.revoking s) => some s
  | _ => none

/-- The call goes on with what is left of its revocation. -/
def Call.resume (c : Call) (left : Option Sweep) : Call :=
  match c with
  | .refresh token _ => .refresh token (left.elim (.refused reuseDetected) .revoking)
  | _ => left.elim .swept .sweep

namespace World

def advance (w : World) (i : ℕ) (c : Call) : Option World :=
  match c.sweeping with
  | some s => some ((w.sweepStep s).1.goOn i (c.resume (w.sweepStep s).2))
  | none =>
    match c with
    | .login user version =>
      let pair := tokenPair w.now i user version i
      some ((w.storeRefresh pair.refresh version).goOn i (.insert pair))
    | .insert pair => some ((w.insertSession pair).goOn i (.loggedIn pair))
    | .refresh token stage => w.exchange i token stage
    | .loggedIn _ | .sweep _ | .swept => none

/-- `logout_with_tokens`: the tokens are dropped as they are, before the session is read. -/
def logout (w : World) (user : String) (authorization refreshToken : Option Token) : Call :=
  let access := authorization.bind w.decode
  let refresh := refreshToken.bind w.decode
  let drop := access.elim [] fun token => .blacklist token.jti ::
    (refresh.map fun token => .deleteRefresh token.jti).toList
  match (access.or refresh).map Token.sid with
  | none => .swept
  | some session => .sweep ⟨user, some session, access.map Token.jti, none, drop⟩

end World

def sessionStep (w : World) : Action → Option World
  | .tick seconds => some { w with now := w.now + seconds }
  | .login user =>
    ((w.users user).filter UserRow.isActive).map fun row => w.begin (.login user row.tokenVersion)
  | .refreshTokens token => some (w.begin (.refresh token (w.presented token)))
  | .logoutWithTokens user authorization refreshToken =>
    some (w.begin (w.logout user authorization refreshToken))
  | .revokeLoginSession user session => some (w.begin (.sweep ⟨user, some session, none, none, []⟩))
  | .revokeAllTokens user => some (w.begin (.sweep ⟨user, none, none, none, []⟩))
  | .banUser user reason durationHours =>
    some (w.begin (.sweep ⟨user, none, none, none, [.ban user reason
      ((durationHours.filter (· ≠ 0)).map fun hours => hours * 3600)]⟩))
  | .advance i => (w.calls i).bind (w.advance i)

end Deeting.Sessions
