import Mathlib.Data.List.Infix
import Mathlib.Data.Nat.Notation

/-! Keys of the cache: the builders of `CacheKeys`, the prefix of `CacheService`, and the entries
of the production writers with the keys they are written and read under. -/
namespace Deeting.Cache

def given (argument : Option String) : List String := (argument.filter (· ≠ "")).toList

/-- A hexadecimal digest, as `_compute_key_hash` makes it. -/
structure Digest where
  text : String
  hex : ∀ c ∈ text.toList, c ∈ "0123456789abcdef".toList

structure Uuid where
  text : String
  dashed : '-' ∈ text.toList

namespace CacheKeys

def userScope (userId : Option String) (includePublic : Bool) : String :=
  (given userId).headD "anonymous" ++ (if includePublic then ":withpub" else ":private")

def providerInstanceList (userId : Option String) (includePublic : Bool) : String :=
  "gw:pi:list:" ++ userScope userId includePublic

def providerModelList (instanceId : String) : String := "gw:pm:list:" ++ instanceId

def providerCredentials (instanceId : String) : String := "gw:pc:list:" ++ instanceId

def providerModelCandidates (capability modelId : String) (userId : Option String)
    (includePublic : Bool) : String :=
  "gw:pm:cand:" ++ capability ++ ":" ++ modelId ++ ":" ++ userScope userId includePublic

def providerPreset (slug : String) : String := "gw:preset:one:" ++ slug

def providerPresetActiveList : String := "gw:preset:list:active"

def apiKey (keyId : String) : String := "gw:api_key:" ++ keyId

def apiKeyList (tenantId : String) : String := "gw:api_key:list:" ++ tenantId

def apiKeyRevoked (keyId : String) : String := "gw:api_key:revoked:" ++ keyId

def apiKeyBlacklist (keyId : String) : String := "gw:api_key:blacklist:" ++ keyId

def upstreamTemplate (providerModelId : String) : String := "gw:upstream_tpl:" ++ providerModelId

def pricing (presetId : String) : String := "gw:pricing:" ++ presetId

def limit (presetId : String) : String := "gw:limit:" ++ presetId

def quotaTenant (tenantId : String) : String := "gw:quota:" ++ tenantId

def quotaHash (tenantId : String) : String := "gw:quota:" ++ tenantId ++ ":hash"

def apikeyBudgetHash (keyId : String) : String := "gw:quota:apikey:" ++ keyId

def rateLimitRpm (subject route : String) : String := "gw:rl:" ++ subject ++ ":" ++ route ++ ":rpm"

def rateLimitTpm (subject route : String) : String := "gw:rl:" ++ subject ++ ":" ++ route ++ ":tpm"

def banditState (scene armId : String) : String := "gw:bandit:" ++ scene ++ ":" ++ armId

def routingAffinity (prefixFingerprint : String) : String :=
  "gw:routing:affinity:" ++ prefixFingerprint

def routingAffinityState (sessionId model : String) : String :=
  "gw:routing:affinity:" ++ sessionId ++ ":" ++ model

def upstreamCredential (provider : String) (secretRefId : Option String) : String :=
  "gw:upstream_cred:" ++ provider ++
    (match given secretRefId with
      | [] => ""
      | ref :: _ => ":" ++ ref)

def conversationMeta (sessionId : String) : String := "gw:conv:" ++ sessionId ++ ":meta"

def conversationMessages (sessionId : String) : String := "gw:conv:" ++ sessionId ++ ":msgs"

def conversationSummary (sessionId : String) : String := "gw:conv:" ++ sessionId ++ ":summary"

def conversationLock (sessionId : String) : String := "gw:conv:" ++ sessionId ++ ":lock"

def conversationSummaryJob (sessionId : String) : String :=
  "gw:conv:" ++ sessionId ++ ":summary_job"

def conversationSummaryLastActive (sessionId : String) : String :=
  "gw:conv:" ++ sessionId ++ ":summary:last_active"

def conversationSummaryPendingTask (sessionId : String) : String :=
  "gw:conv:" ++ sessionId ++ ":summary:pending"

end CacheKeys

def cachePrefix : String := "ai_gateway:"

def makeKey (key : String) : String := cachePrefix ++ key

inductive Entry where
  | preset (slug : String)
  | activePresets
  | affinity (fingerprint : String)
  | affinityState (session model : String)
  | principal (key : Uuid) (hash : Digest)
  | revoked (key : Uuid)
  | blacklisted (key : Uuid)
  | keyBudget (key : Uuid)
  | keyRequests (key : Uuid)
  | keyTokens (key : Uuid)
  | tenantTokens (tenant : String)
  | quota (tenant : String)
  | quotaHash (tenant : String)
  | bandit (scene arm : String)
  | credential (provider ref : String)
  | instances (user : Option String) (includePublic : Bool)
  | models (instance_ : String)
  | candidates (capability model : String) (user : Option String) (includePublic : Bool)
  | credentials (instance_ : String)
  | conversationMeta (session : String)
  | conversationMessages (session : String)
  | conversationSummary (session : String)
  | summaryLastActive (session : String)
  | summaryPendingTask (session : String)

namespace Entry

/-- The key that the writer writes, in full: those of the rate limits, of the conversations and of
the signature failures use the client of Redis itself. -/
def key : Entry → String
  | .preset slug => makeKey (CacheKeys.providerPreset slug)
  | .activePresets => makeKey CacheKeys.providerPresetActiveList
  | .affinity fingerprint => makeKey (CacheKeys.routingAffinity fingerprint)
  | .affinityState session model => makeKey (CacheKeys.routingAffinityState session model)
  | .principal _ hash => makeKey (CacheKeys.apiKey hash.text)
  | .revoked key => CacheKeys.apiKeyRevoked key.text
  | .blacklisted key => CacheKeys.apiKeyBlacklist key.text
  | .keyBudget key => makeKey (CacheKeys.apikeyBudgetHash key.text)
  | .keyRequests key => CacheKeys.rateLimitRpm ("ak:" ++ key.text) "chat"
  | .keyTokens key => CacheKeys.rateLimitTpm ("ak:" ++ key.text) "chat"
  | .tenantTokens tenant => CacheKeys.rateLimitTpm ("tenant:" ++ tenant) "chat"
  | .quota tenant => makeKey (CacheKeys.quotaTenant tenant)
  | .quotaHash tenant => makeKey (CacheKeys.quotaHash tenant)
  | .bandit scene arm => makeKey (CacheKeys.banditState scene arm)
  | .credential provider ref => makeKey (CacheKeys.upstreamCredential provider ref)
  | .instances user includePublic => makeKey (CacheKeys.providerInstanceList user includePublic)
  | .models instance_ => makeKey (CacheKeys.providerModelList instance_)
  | .candidates capability model user includePublic =>
    makeKey (CacheKeys.providerModelCandidates capability model user includePublic)
  | .credentials instance_ => makeKey (CacheKeys.providerCredentials instance_)
  | .conversationMeta session => CacheKeys.conversationMeta session
  | .conversationMessages session => CacheKeys.conversationMessages session
  | .conversationSummary session => CacheKeys.conversationSummary session
  | .summaryLastActive session => CacheKeys.conversationSummaryLastActive session
  | .summaryPendingTask session => CacheKeys.conversationSummaryPendingTask session

def readKeys : Entry → List String
  | .revoked key => [makeKey (CacheKeys.apiKeyRevoked key.text), CacheKeys.apiKeyRevoked key.text]
  | .blacklisted key =>
    [makeKey (CacheKeys.apiKeyBlacklist key.text), CacheKeys.apiKeyBlacklist key.text]
  | entry => [entry.key]

/-- The entries that are read with `get_with_version`. -/
def versioned : Entry → Bool
  | .quota _ | .bandit _ _ => true
  | _ => false

end Entry

structure Redis where
  version : ℕ := 0
  keys : List (String × Option ℕ) := []

/-- A write of an entry, with the version that was current so many bumps ago. -/
structure Write where
  entry : Entry
  bump : Bool := false
  behind : ℕ := 0

def Entry.tag (version : ℕ) : Entry → Option ℕ
  | .quota _ => if version = 0 then none else some version
  | .bandit _ _ => some version
  | _ => none

def Redis.set (redis : Redis) (key : String) (tag : Option ℕ) : Redis :=
  { redis with keys := (key, tag) :: redis.keys.filter fun e => e.1 ≠ key }

def Redis.write (redis : Redis) (w : Write) : Redis :=
  let version := redis.version + if w.bump then 1 else 0
  { redis with version }.set w.entry.key (w.entry.tag (version - w.behind))

def written (writes : List Write) : Redis := writes.foldl Redis.write {}

def Redis.Holds (redis : Redis) (entry : Entry) : Prop := ∃ e ∈ redis.keys, e.1 = entry.key

def Redis.Readable (redis : Redis) (entry : Entry) : Prop :=
  ∃ e ∈ redis.keys, e.1 ∈ entry.readKeys ∧
    (entry.versioned = true → redis.version = 0 ∨ e.2 = some redis.version)

theorem key_mem_readKeys (entry : Entry) : entry.key ∈ entry.readKeys := by
  cases entry <;> simp [Entry.readKeys, Entry.key]

/-- What is stored was written under the key of an entry. -/
theorem exists_entry_of_written (writes : List Write) :
    ∀ e ∈ (written writes).keys, ∃ entry : Entry, e.1 = entry.key := by
  induction writes using List.reverseRecOn with
  | nil => exact fun _ mem => (List.not_mem_nil mem).elim
  | append_singleton writes w ih =>
    rw [written, List.foldl_append, ← written]
    intro e mem
    rcases List.mem_cons.mp mem with rfl | mem
    · exact ⟨w.entry, rfl⟩
    · exact ih e (List.mem_of_mem_filter mem)

theorem tag_le_version (writes : List Write) :
    ∀ e ∈ (written writes).keys, ∀ v ∈ e.2, v ≤ (written writes).version := by
  induction writes using List.reverseRecOn with
  | nil => exact fun _ mem => (List.not_mem_nil mem).elim
  | append_singleton writes w ih =>
    rw [written, List.foldl_append, ← written]
    intro e mem v tagged
    rcases List.mem_cons.mp mem with rfl | mem
    · cases w with
      | mk entry bump behind =>
        dsimp only [List.foldl_cons, List.foldl_nil, Redis.write, Redis.set] at tagged ⊢
        cases entry <;> simp [Entry.tag] at tagged <;> omega
    · have before := ih e (List.mem_of_mem_filter mem) v tagged
      exact before.trans (Nat.le_add_right _ _)

end Deeting.Cache
