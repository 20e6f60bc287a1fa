import Deeting.Expiry
import Deeting.Transition
import Deeting.Uuid
import Mathlib.Logic.Function.Basic

/-! `BridgeAgentTokenService` and a gateway that goes by the version in the row, with what one
call leaves. Times are microseconds. -/
namespace Deeting.McpBridge

open Expiry Transition

/-- One row of `bridge_agent_token`, under its user and agent. -/
structure BridgeAgentToken where
  version : ℤ
  issuedAt : ℤ
  expiresAt : ℤ
  deriving DecidableEq

/-- The payload of a token signed with the service's key; `iat` and `exp` are seconds. -/
structure SignedToken where
  type : String
  sub : Uuid
  agentId : String
  ver : ℤ
  iat : ℤ
  exp : ℤ
  iss : String
  deriving DecidableEq

structure BridgeAgentTokenResult where
  token : SignedToken
  expiresAt : ℤ
  version : ℤ
  deriving DecidableEq

/-- The payload under `bridge:agent_token_version:{user_id}:{agent_id}`. -/
structure CachedVersion where
  version : ℤ
  expiresAt : ℤ
  deriving DecidableEq

inductive IssueError where
  | agentId (message : String)
  | missingSecret (message : String)
  /-- `refresh` of an object that has no row. -/
  | notPersistent
  deriving DecidableEq

/-- What `session.refresh` does with changes that are not flushed: it writes them first, or it
drops them for what the row holds and refuses an object that has no row. -/
inductive Refresh where
  | flushes
  | discards
  deriving DecidableEq

/-- The stripped `JWT_SECRET_KEY`, `BRIDGE_AGENT_TOKEN_ISS`, `BRIDGE_AGENT_TOKEN_EXPIRE_DAYS`
and the session. -/
structure BridgeSettings where
  secret : String
  iss : String
  expireDays : ℤ
  refresh : Refresh

def second : ℤ := 1000000

def day : ℤ := 86400 * second

/-- The object as `refresh` leaves it, and the row after the commit. -/
def Refresh.reload (mode : Refresh) (stored : Option BridgeAgentToken)
    (rotated : BridgeAgentToken) : Option BridgeAgentToken :=
  match mode with
  | .flushes => some rotated
  | .discards => stored

/-- `_AGENT_ID_RE`. -/
def matchesAgentId (agentId : String) : Bool :=
  match agentId.toList with
  | [] => false
  | first :: rest =>
    first.isAlphanum && decide (2 ≤ rest.length ∧ rest.length ≤ 63) &&
      rest.all fun c => c.isAlphanum || c = '_' || c = '-'

/-- `validate_agent_id`; `none` where it passes. -/
def validateAgentId (agentId : String) : Option IssueError :=
  if agentId = "" then some (.agentId "missing agent_id")
  else if matchesAgentId agentId then none
  else some (.agentId "invalid agent_id")

def createJwtToken (cfg : BridgeSettings) (user : Uuid) (agentId : String)
    (version issuedAt expiresAt : ℤ) : Except IssueError SignedToken :=
  if cfg.secret = "" then .error (.missingSecret "missing JWT_SECRET_KEY for bridge agent token")
  else .ok
    { type := "bridge_agent", sub := user, agentId := agentId, ver := version,
      iat := issuedAt / second, exp := expiresAt / second, iss := cfg.iss }

/-- The database and Redis. The last two fields are for the statements: the tokens issued, and
those retired by a reset or a revocation. -/
structure Bridge where
  now : ℤ
  rows : Uuid × String → Option BridgeAgentToken
  cache : Uuid × String → Option (Entry ℤ CachedVersion) := fun _ => none
  issued : List SignedToken := []
  retired : List SignedToken := []

def nextVersion : Option BridgeAgentToken → ℤ
  | none => 1
  | some r => r.version + 1

namespace Bridge

variable (cfg : BridgeSettings) (w : Bridge)

/-- `_cache_version`; `redis` says whether the command takes effect. -/
def cacheVersion (key : Uuid × String) (version expiresAt : ℤ) (redis : Bool) : Bridge :=
  let ttl := (expiresAt - w.now).tdiv second
  let deadline := w.now + (if ttl ≤ 0 then 1 else ttl) * second
  if redis then
    { w with cache := Function.update w.cache key (some ⟨⟨version, expiresAt⟩, some deadline⟩) }
  else w

def retire (key : Uuid × String) : Bridge :=
  { w with retired := w.retired ++ w.issued.filter fun t => (t.sub, t.agentId) = key }

/-- The end of `issue_token`: the version is cached, the token returned. -/
def give (key : Uuid × String) (record : BridgeAgentToken) (redis : Bool) (token : SignedToken) :
    Bridge × Except IssueError BridgeAgentTokenResult :=
  ({ w.cacheVersion key record.version record.expiresAt redis with issued := token :: w.issued },
    .ok ⟨token, record.expiresAt, record.version⟩)

def rotated (stored : Option BridgeAgentToken) : BridgeAgentToken where
  version := nextVersion stored
  issuedAt := w.now
  expiresAt := w.now + cfg.expireDays * day

/-- The part of `issue_token` that replaces the record, with the commit of its caller. -/
def rotate (user : Uuid) (agentId : String) (reset redis : Bool) :
    Bridge × Except IssueError BridgeAgentTokenResult :=
  let stored := w.rows (user, agentId)
  let next := w.rotated cfg stored
  match createJwtToken cfg user agentId next.version next.issuedAt next.expiresAt,
    cfg.refresh.reload stored next with
  | .error e, _ => (w, .error e)
  | .ok _, none => (w, .error .notPersistent)
  | .ok token, some record =>
    let w := if reset then w.retire (user, agentId) else w
    { w with rows := Function.update w.rows (user, agentId) (some record) }.give
      (user, agentId) record redis token

def issueToken (user : Uuid) (agentId : String) (reset redis : Bool) :
    Bridge × Except IssueError BridgeAgentTokenResult :=
  match validateAgentId agentId with
  | some e => (w, .error e)
  | none =>
    match w.rows (user, agentId) with
    | none => w.rotate cfg user agentId reset redis
    | some record =>
      if reset ∨ record.expiresAt ≤ w.now then w.rotate cfg user agentId reset redis
      else
        match createJwtToken cfg user agentId record.version record.issuedAt record.expiresAt with
        | .error e => (w, .error e)
        | .ok token => w.give (user, agentId) record redis token

/-- `revoke_token`, with the commit of its caller. -/
def revokeToken (user : Uuid) (agentId : String) (redis : Bool) : Bridge × Bool :=
  match w.rows (user, agentId) with
  | none => (w, false)
  | some _ =>
    ({ w.retire (user, agentId) with
        rows := Function.update w.rows (user, agentId) none
        cache := if redis then Function.update w.cache (user, agentId) none else w.cache }, true)

/-- The gateway accepts the token: its `exp` has not passed and its `ver` is the stored one. -/
def Unexpired (now : ℤ) (t : SignedToken) : Prop := now / second ≤ t.exp

def Accepts (t : SignedToken) : Prop :=
  Unexpired w.now t ∧ (w.rows (t.sub, t.agentId)).map BridgeAgentToken.version = some t.ver

instance (now : ℤ) (t : SignedToken) : Decidable (Unexpired now t) :=
  inferInstanceAs (Decidable (_ ≤ _))

instance (w : Bridge) (t : SignedToken) : Decidable (w.Accepts t) :=
  inferInstanceAs (Decidable (_ ∧ _))

def Final : Prop := ∀ t ∈ w.retired, ¬ w.Accepts t

instance (w : Bridge) : Decidable w.Final :=
  inferInstanceAs (Decidable (∀ t ∈ w.retired, ¬ w.Accepts t))

end Bridge

inductive BridgeAction where
  | tick (micros : ℕ)
  | issueToken (user : Uuid) (agentId : String) (reset redis : Bool)
  | revokeToken (user : Uuid) (agentId : String) (redis : Bool)

open Bridge

def step (cfg : BridgeSettings) : Bridge → BridgeAction → Option Bridge :=
  total fun w a =>
    match a with
    | .tick micros => { w with now := w.now + micros }
    | .issueToken user agentId reset redis => (w.issueToken cfg user agentId reset redis).1
    | .revokeToken user agentId redis => (w.revokeToken user agentId redis).1

structure Replaces (cfg : BridgeSettings) (w : Bridge) (user : Uuid) (agentId : String)
    (reset : Bool) (record : BridgeAgentToken) : Prop where
  valid : validateAgentId agentId = none
  signed : cfg.secret ≠ ""
  due : ∀ r ∈ w.rows (user, agentId), reset ∨ r.expiresAt ≤ w.now
  reloaded : cfg.refresh.reload (w.rows (user, agentId)) (w.rotated cfg (w.rows (user, agentId))) =
    some record

section Steps

variable {cfg : BridgeSettings} {w : Bridge} {user : Uuid} {agentId : String} {reset redis : Bool}
  {record : BridgeAgentToken} {t : SignedToken}

theorem createJwtToken_eq_ok {version issuedAt expiresAt : ℤ}
    (signed : createJwtToken cfg user agentId version issuedAt expiresAt = .ok t) :
    cfg.secret ≠ "" ∧ t.sub = user ∧ t.agentId = agentId ∧ t.ver = version ∧
      t.exp = expiresAt / second := by
  rw [createJwtToken] at signed
  split at signed
  · cases signed
  · rename_i present
    cases signed
    exact ⟨present, rfl, rfl, rfl, rfl⟩

@[simp] theorem cacheVersion_frame {key : Uuid × String} {version expiresAt : ℤ} :
    (w.cacheVersion key version expiresAt redis).now = w.now ∧
      (w.cacheVersion key version expiresAt redis).rows = w.rows ∧
      (w.cacheVersion key version expiresAt redis).retired = w.retired := by
  rw [cacheVersion]
  cases redis <;> exact ⟨rfl, rfl, rfl⟩

theorem retire_frame (w : Bridge) (key : Uuid × String) (reset : Bool) :
    (if reset then w.retire key else w).now = w.now ∧
      (if reset then w.retire key else w).rows = w.rows ∧
      (if reset then w.retire key else w).issued = w.issued := by
  cases reset <;> exact ⟨rfl, rfl, rfl⟩

structure Replaced (w v : Bridge) (user : Uuid) (agentId : String) (reset : Bool)
    (record : BridgeAgentToken) : Prop where
  now : v.now = w.now
  rows : v.rows = Function.update w.rows (user, agentId) (some record)
  retired : v.retired = (if reset then w.retire (user, agentId) else w).retired
  issued : ∃ t, v.issued = t :: w.issued ∧ t.sub = user ∧ t.agentId = agentId ∧
    t.ver = nextVersion (w.rows (user, agentId))

structure Kept (w v : Bridge) : Prop where
  now : v.now = w.now
  rows : v.rows = w.rows
  retired : v.retired = w.retired
  issued : v.issued = w.issued ∨ ∃ t record, v.issued = t :: w.issued ∧
    w.rows (t.sub, t.agentId) = some record ∧ t.ver = record.version

theorem Kept.refl (w : Bridge) : Kept w w := ⟨rfl, rfl, rfl, .inl rfl⟩

/-- What a call of `issue_token` leaves. -/
def Issued (cfg : BridgeSettings) (w v : Bridge) (user : Uuid) (agentId : String)
    (reset : Bool) : Prop :=
  (∃ record, Replaces cfg w user agentId reset record ∧ Replaced w v user agentId reset record) ∨
    (∀ record, ¬ Replaces cfg w user agentId reset record) ∧ Kept w v

theorem issued_of_not_replaces (stays : ∀ record, ¬ Replaces cfg w user agentId reset record) :
    Issued cfg w w user agentId reset := .inr ⟨stays, .refl w⟩

theorem rotate_issued (valid : validateAgentId agentId = none)
    (due : ∀ r ∈ w.rows (user, agentId), reset ∨ r.expiresAt ≤ w.now) :
    Issued cfg w (w.rotate cfg user agentId reset redis).1 user agentId reset := by
  rw [rotate]
  split
  · rename_i e failed
    refine issued_of_not_replaces fun record r => ?_
    rw [createJwtToken, if_neg r.signed] at failed
    cases failed
  · rename_i reloaded
    exact issued_of_not_replaces fun record r => by cases reloaded.symm.trans r.reloaded
  · rename_i token record signed reloaded
    obtain ⟨present, sub, agent, ver, -⟩ := createJwtToken_eq_ok signed
    obtain ⟨now, rows, issued⟩ := retire_frame w (user, agentId) reset
    refine .inl ⟨record, ⟨valid, present, due, reloaded⟩, ?_⟩
    refine ⟨?_, ?_, ?_, token, ?_, sub, agent, ver⟩
    · exact cacheVersion_frame.1.trans now
    · exact cacheVersion_frame.2.1.trans (by rw [rows])
    · exact cacheVersion_frame.2.2
    · exact congrArg _ issued

theorem issueToken_issued (cfg : BridgeSettings) (w : Bridge) (user : Uuid) (agentId : String)
    (reset redis : Bool) :
    Issued cfg w (w.issueToken cfg user agentId reset redis).1 user agentId reset := by
  rw [issueToken]
  split
  · rename_i e refused
    refine issued_of_not_replaces fun record r => ?_
    rw [r.valid] at refused
    cases refused
  · rename_i valid
    split
    · rename_i absent
      exact rotate_issued valid (by simp [absent])
    · rename_i stored found
      split
      · rename_i due
        refine rotate_issued valid fun r mem => ?_
        rw [found] at mem
        cases mem
        exact due
      · rename_i fresh
        have stays (record) : ¬ Replaces cfg w user agentId reset record :=
          fun r => fresh (r.due stored found)
        split
        · exact issued_of_not_replaces stays
        · rename_i token signed
          obtain ⟨present, rfl, rfl, ver, -⟩ := createJwtToken_eq_ok signed
          refine .inr ⟨stays, cacheVersion_frame.1, cacheVersion_frame.2.1,
            cacheVersion_frame.2.2, .inr ⟨token, stored, rfl, found, ver⟩⟩

/-- What a call of `revoke_token` leaves where it finds a record. -/
structure Revoked (w v : Bridge) (user : Uuid) (agentId : String) : Prop where
  now : v.now = w.now
  rows : v.rows = Function.update w.rows (user, agentId) none
  retired : v.retired = (w.retire (user, agentId)).retired
  issued : v.issued = w.issued

theorem revokeToken_revoked (w : Bridge) (user : Uuid) (agentId : String) (redis : Bool) :
    (w.revokeToken user agentId redis).1 = w ∨
      Revoked w (w.revokeToken user agentId redis).1 user agentId := by
  rw [revokeToken]
  split
  · exact .inl rfl
  · exact .inr ⟨rfl, rfl, rfl, rfl⟩

theorem unexpired_earlier {now : ℤ} {micros : ℕ} (live : Unexpired (now + micros) t) :
    Unexpired now t :=
  (Int.ediv_le_ediv (by decide) (by omega)).trans live

end Steps

def Bridge.start (now : ℤ) (rows : Uuid × String → Option BridgeAgentToken) : Bridge where
  now := now
  rows := rows

section Caching

/-- Redis holds the version and expiry of the row, or nothing. -/
def CachedAt (w : Bridge) (key : Uuid × String) : Prop :=
  ∀ e ∈ w.cache key, (w.rows key).map (fun r => (⟨r.version, r.expiresAt⟩ : CachedVersion)) =
    some e.value

def ReachesRedis : BridgeAction → Prop
  | .issueToken _ _ _ redis | .revokeToken _ _ redis => redis
  | .tick _ => True

variable {cfg : BridgeSettings} {w v : Bridge} {user : Uuid} {agentId : String} {reset : Bool}
  {record : BridgeAgentToken} {t : SignedToken}

theorem give_cached {key : Uuid × String} (stored : w.rows key = some record)
    (others : ∀ other, other ≠ key → CachedAt w other) (other : Uuid × String) :
    CachedAt (w.give key record true t).1 other := by
  by_cases own : other = key
  · subst own
    intro e mem
    simp only [give, cacheVersion, if_true, Function.update_self, Option.mem_some_iff] at mem
    simp [give, cacheVersion, stored, ← mem]
  · simpa [CachedAt, give, cacheVersion, Function.update_of_ne own] using others other own

theorem rotate_cached (cached : ∀ key, CachedAt w key) (key : Uuid × String) :
    CachedAt (w.rotate cfg user agentId reset true).1 key := by
  rw [rotate]
  split
  · exact cached key
  · exact cached key
  · refine give_cached (by simp) (fun other own => ?_) key
    cases reset <;> simpa [CachedAt, retire, Function.update_of_ne own] using cached other

theorem issueToken_cached (cached : ∀ key, CachedAt w key) (key : Uuid × String) :
    CachedAt (w.issueToken cfg user agentId reset true).1 key := by
  rw [issueToken]
  split
  · exact cached key
  · split
    · exact rotate_cached cached key
    · rename_i record stored
      split
      · exact rotate_cached cached key
      · split
        · exact cached key
        · exact give_cached stored (fun other _ => cached other) key

theorem revokeToken_cached (cached : ∀ key, CachedAt w key) (key : Uuid × String) :
    CachedAt (w.revokeToken user agentId true).1 key := by
  rw [revokeToken]
  split
  · exact cached key
  · by_cases own : key = (user, agentId)
    · simp [CachedAt, own]
    · simpa [CachedAt, retire, Function.update_of_ne own] using cached key

theorem cached_version (started : ∀ key, CachedAt w key) {actions : List BridgeAction}
    (redis : ∀ a ∈ actions, ReachesRedis a) (reached : run (step cfg) w actions = some v)
    (key : Uuid × String) : CachedAt v key := by
  refine run_invariant (P := fun w => ∀ key, CachedAt w key) ?_ started
    (along_of_mem (fun a mem _ => redis a mem) w) reached key
  intro w a u cached effect taken
  cases taken
  cases a with
  | tick micros => exact cached
  | issueToken user agentId reset redis =>
    obtain rfl : redis = true := effect
    exact issueToken_cached cached
  | revokeToken user agentId redis =>
    obtain rfl : redis = true := effect
    exact revokeToken_cached cached

end Caching

end Deeting.McpBridge
