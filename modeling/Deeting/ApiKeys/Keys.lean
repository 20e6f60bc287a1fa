import Deeting.Expiry
import Deeting.Table
import Mathlib.Data.Rat.Defs
import Mathlib.Logic.Function.Basic

/-! API keys, the repository over their rows, and the parts of `ApiKeyService` that issue,
check and rotate them. Times are microseconds; `float` of a sum of money is taken as exact. -/
namespace Deeting.ApiKeys
open Expiry

abbrev KeyId := String

abbrev KeyHash := String

inductive ApiKeyType where
  | internal
  | external
  deriving DecidableEq

inductive ApiKeyStatus where
  | active
  | expiring
  | revoked
  | expired
  deriving DecidableEq

inductive ScopeType where
  | capability
  | model
  | endpoint
  deriving DecidableEq

inductive ScopePermission where
  | allow
  | deny
  deriving DecidableEq

inductive QuotaType where
  | token
  | request
  | cost
  deriving DecidableEq

inductive QuotaResetPeriod where
  | daily
  | monthly
  | never
  deriving DecidableEq

structure ApiKeyScope where
  scopeType : ScopeType
  scopeValue : String
  permission : ScopePermission
  deriving DecidableEq

structure ApiKeyRateLimit where
  rpm : Option ℤ := none
  tpm : Option ℤ := none
  rpd : Option ℤ := none
  tpd : Option ℤ := none
  concurrentLimit : Option ℤ := none
  burstLimit : Option ℤ := none
  isWhitelist : Bool := false
  deriving DecidableEq

structure ApiKeyQuota where
  quotaType : QuotaType
  totalQuota : ℤ
  usedQuota : ℤ
  resetPeriod : QuotaResetPeriod
  deriving DecidableEq

structure ApiKeyIpWhitelist where
  ipPattern : String
  description : Option String
  deriving DecidableEq

structure ApiKey where
  id : KeyId
  keyPrefix : String
  keyHash : KeyHash
  keyHint : String
  secretHash : Option String
  secretHint : Option String
  type : ApiKeyType
  status : ApiKeyStatus
  name : String
  allowedModels : Option (List String)
  allowedIps : Option (List String)
  budgetLimit : Option ℚ
  budgetUsed : ℚ
  rateLimitRpm : Option ℤ
  enableLogging : Bool
  tenantId : Option String
  userId : Option String
  createdBy : String
  expiresAt : Option ℤ
  lastUsedAt : Option ℤ
  revokedAt : Option ℤ
  revokedReason : Option String
  scopes : List ApiKeyScope
  rateLimit : Option ApiKeyRateLimit
  quotas : List ApiKeyQuota
  ipWhitelist : List ApiKeyIpWhitelist
  deriving DecidableEq

structure ApiPrincipal where
  apiKeyId : KeyId
  keyType : ApiKeyType
  tenantId : Option String
  userId : Option String
  scopes : List (ScopeType × String)
  isWhitelist : Bool
  rateLimitRpm : Option ℤ
  rateLimitTpm : Option ℤ
  allowedModels : Option (List String)
  allowedIps : Option (List String)
  budgetLimit : Option ℚ
  budgetUsed : ℚ
  enableLogging : Bool
  secretHash : Option String
  secretHint : Option String
  deriving DecidableEq

/-- `a or b` of two limits, one of which may be zero. -/
def orLimit (a b : Option ℤ) : Option ℤ :=
  match a with
  | some n => if n = 0 then b else some n
  | none => b

/-- `a or b` of two lists, one of which may be missing. -/
def orList {α : Type} (a : Option (List α)) (b : List α) : List α :=
  match a with
  | some (x :: xs) => x :: xs
  | _ => b

/-- The rows of the keys; `id` and `key_hash` are unique columns. -/
structure KeyStore where
  keys : Table ApiKey.id
  hashes : (keys.rows.map ApiKey.keyHash).Nodup

/-- What `update` is called with; a missing value is skipped. -/
structure KeyUpdate where
  status : Option ApiKeyStatus := none
  expiresAt : Option ℤ := none
  revokedAt : Option ℤ := none
  revokedReason : Option String := none

def KeyUpdate.apply (u : KeyUpdate) (k : ApiKey) : ApiKey :=
  { k with
    status := u.status.getD k.status
    expiresAt := u.expiresAt <|> k.expiresAt
    revokedAt := u.revokedAt <|> k.revokedAt
    revokedReason := u.revokedReason <|> k.revokedReason }

namespace KeyStore

def empty : KeyStore := ⟨.empty, List.nodup_nil⟩

def byHash (s : KeyStore) : Table ApiKey.keyHash := ⟨s.keys.rows, s.hashes⟩

def getById (s : KeyStore) (id : KeyId) : Option ApiKey := s.keys.find? id

def getByKeyHash (s : KeyStore) (hash : KeyHash) : Option ApiKey := s.byHash.find? hash

/-- `create`, where `none` is the violation of a unique constraint. -/
def create (s : KeyStore) (k : ApiKey) : Option KeyStore :=
  if fresh : s.getById k.id = none ∧ s.getByKeyHash k.keyHash = none then
    some
      { keys := ⟨k :: s.keys.rows,
          List.nodup_cons.mpr ⟨(s.keys.find?_eq_none _).mp fresh.1, s.keys.unique⟩⟩
        hashes := List.nodup_cons.mpr ⟨(s.byHash.find?_eq_none _).mp fresh.2, s.hashes⟩ }
  else none

def modify (s : KeyStore) (id : KeyId) (f : ApiKey → ApiKey)
    (ids : ∀ k, (f k).id = k.id) (hashed : ∀ k, (f k).keyHash = k.keyHash) : KeyStore where
  keys := s.keys.modify id f ids
  hashes := by
    have same : (ApiKey.keyHash ∘ fun k => if k.id = id then f k else k) = ApiKey.keyHash := by
      funext k
      simp only [Function.comp_apply]
      split
      · exact hashed k
      · rfl
    rw [Table.modify, List.map_map, same]
    exact s.hashes

def update (s : KeyStore) (id : KeyId) (u : KeyUpdate) : KeyStore :=
  s.modify id u.apply (fun _ => rfl) fun _ => rfl

def delete (s : KeyStore) (id : KeyId) : KeyStore where
  keys := s.keys.erase id
  hashes := s.hashes.sublist ((s.keys.rows.filter_sublist).map ApiKey.keyHash)

/-- `list_keys` of the ACTIVE rows with one owner; their order does not matter to its callers. -/
def listKeys (s : KeyStore) (owned : ApiKey → Prop) [DecidablePred owned] : List ApiKey :=
  s.keys.rows.filter fun k => owned k ∧ k.status = .active

def updateLastUsed (s : KeyStore) (id : KeyId) (now : ℤ) : KeyStore :=
  s.modify id (fun k => { k with lastUsedAt := some now }) (fun _ => rfl) fun _ => rfl

end KeyStore

section Rows

variable {s : KeyStore} {k : ApiKey} {id : KeyId} {hash : KeyHash}

theorem KeyStore.getById_eq_some : s.getById id = some k ↔ k ∈ s.keys.rows ∧ k.id = id :=
  Table.find?_eq_some

theorem KeyStore.getByKeyHash_eq_some :
    s.getByKeyHash hash = some k ↔ k ∈ s.keys.rows ∧ k.keyHash = hash :=
  Table.find?_eq_some (t := s.byHash)

theorem KeyStore.create_eq_some {s' : KeyStore} (created : s.create k = some s') :
    s.getById k.id = none ∧ s.getByKeyHash k.keyHash = none ∧ s'.keys.rows = k :: s.keys.rows := by
  rw [KeyStore.create] at created
  split at created
  · rename_i fresh
    cases created
    exact ⟨fresh.1, fresh.2, rfl⟩
  · cases created

theorem KeyStore.mem_modify {f : ApiKey → ApiKey} {ids : ∀ k, (f k).id = k.id}
    {hashed : ∀ k, (f k).keyHash = k.keyHash} :
    k ∈ (s.modify id f ids hashed).keys.rows ↔
      ∃ row ∈ s.keys.rows, (if row.id = id then f row else row) = k :=
  List.mem_map

theorem KeyStore.mem_modify_of_ne {f : ApiKey → ApiKey} (ids : ∀ k, (f k).id = k.id)
    (hashed : ∀ k, (f k).keyHash = k.keyHash) (present : k ∈ s.keys.rows) (other : k.id ≠ id) :
    k ∈ (s.modify id f ids hashed).keys.rows :=
  KeyStore.mem_modify.mpr ⟨k, present, if_neg other⟩

theorem KeyStore.getByKeyHash_modify (s : KeyStore) (id : KeyId) (f : ApiKey → ApiKey)
    (ids : ∀ k, (f k).id = k.id) (hashed : ∀ k, (f k).keyHash = k.keyHash) (hash : KeyHash) :
    (s.modify id f ids hashed).getByKeyHash hash =
      (s.getByKeyHash hash).map fun k => if k.id = id then f k else k := by
  have same (k : ApiKey) : (if k.id = id then f k else k).keyHash = k.keyHash := by
    split
    · exact hashed k
    · rfl
  ext k
  rw [KeyStore.getByKeyHash_eq_some, KeyStore.mem_modify, Option.map_eq_some_iff]
  constructor
  · rintro ⟨⟨row, present, rfl⟩, hashed⟩
    exact ⟨row, KeyStore.getByKeyHash_eq_some.mpr ⟨present, (same row).symm.trans hashed⟩, rfl⟩
  · rintro ⟨row, found, rfl⟩
    obtain ⟨present, hashed⟩ := KeyStore.getByKeyHash_eq_some.mp found
    exact ⟨⟨row, present, rfl⟩, (same row).trans hashed⟩

theorem KeyStore.getByKeyHash_update (s : KeyStore) (id : KeyId) (u : KeyUpdate) (hash : KeyHash) :
    (s.update id u).getByKeyHash hash =
      (s.getByKeyHash hash).map fun k => if k.id = id then u.apply k else k :=
  KeyStore.getByKeyHash_modify ..

theorem KeyStore.getByKeyHash_delete (s : KeyStore) (id : KeyId) (hash : KeyHash) :
    (s.delete id).getByKeyHash hash = (s.getByKeyHash hash).filter fun k => k.id ≠ id := by
  ext k
  rw [KeyStore.getByKeyHash_eq_some, Option.filter_eq_some_iff, KeyStore.getByKeyHash_eq_some]
  simp only [KeyStore.delete, Table.erase, List.mem_filter]
  tauto

theorem KeyStore.getById_eq_none : s.getById id = none ↔ ∀ k ∈ s.keys.rows, k.id ≠ id := by
  rw [KeyStore.getById, Table.find?_eq_none, List.mem_map]
  simp

end Rows

/-- The data that `update_rate_limit` takes; a missing value is skipped. -/
structure RateLimitData where
  rpm : Option ℤ := none
  tpm : Option ℤ := none
  rpd : Option ℤ := none
  tpd : Option ℤ := none
  concurrentLimit : Option ℤ := none
  burstLimit : Option ℤ := none
  isWhitelist : Option Bool := none

/-- `update_rate_limit` on the row of the key, which is made if there is none. -/
def updateRateLimit (row : Option ApiKeyRateLimit) (data : RateLimitData) : ApiKeyRateLimit :=
  let rl := row.getD {}
  { rpm := data.rpm <|> rl.rpm
    tpm := data.tpm <|> rl.tpm
    rpd := data.rpd <|> rl.rpd
    tpd := data.tpd <|> rl.tpd
    concurrentLimit := data.concurrentLimit <|> rl.concurrentLimit
    burstLimit := data.burstLimit <|> rl.burstLimit
    isWhitelist := data.isWhitelist.getD rl.isWhitelist }

structure ScopeData where
  type : Option ScopeType := none
  value : Option String := none
  permission : Option ScopePermission := none

def ScopeData.toScope (s : ScopeData) : ApiKeyScope where
  scopeType := s.type.getD .capability
  scopeValue := s.value.getD ""
  permission := s.permission.getD .allow

structure QuotaData where
  type : Option QuotaType := none
  total : Option ℤ := none
  resetPeriod : Option QuotaResetPeriod := none

def QuotaData.toQuota (q : QuotaData) : ApiKeyQuota where
  quotaType := q.type.getD .request
  totalQuota := q.total.getD 0
  usedQuota := 0
  resetPeriod := q.resetPeriod.getD .monthly

/-- The parameters of `generate_key`. -/
structure KeyRequest where
  keyType : ApiKeyType
  name : String
  createdBy : String
  tenantId : Option String := none
  userId : Option String := none
  expiresAt : Option ℤ := none
  scopes : List ScopeData := []
  rateLimit : Option RateLimitData := none
  quotas : List QuotaData := []
  ipWhitelist : List String := []
  generateSecret : Bool := true
  allowedModels : Option (List String) := none
  allowedIps : Option (List String) := none
  budgetLimit : Option ℚ := none
  rateLimitRpm : Option ℤ := none
  enableLogging : Option Bool := none

structure KeyMaterial where
  id : KeyId
  random : String
  secret : String

structure KeyWorld where
  store : KeyStore
  cache : KeyHash → Option (Entry ℤ ApiPrincipal)

def keyPrefix : ApiKeyType → String
  | .external => "sk-ext-"
  | .internal => "sk-int-"

def rawKey (type : ApiKeyType) (m : KeyMaterial) : String := keyPrefix type ++ m.random

def hint (raw : String) : String := String.ofList (raw.toList.drop (raw.length - 4))

section Service

/-! `_compute_key_hash` is a parameter. -/
variable (computeKeyHash : String → KeyHash)

/-- The row of `generate_key`, with its children. -/
def newRow (r : KeyRequest) (m : KeyMaterial) : ApiKey where
  id := m.id
  keyPrefix := String.ofList ((rawKey r.keyType m).toList.take 7)
  keyHash := computeKeyHash (rawKey r.keyType m)
  keyHint := hint (rawKey r.keyType m)
  secretHash := if r.generateSecret then some (computeKeyHash m.secret) else none
  secretHint := if r.generateSecret then some (hint m.secret) else none
  type := r.keyType
  status := .active
  name := r.name
  allowedModels := some (orList r.allowedModels [])
  allowedIps := some (orList r.allowedIps r.ipWhitelist)
  budgetLimit := r.budgetLimit
  budgetUsed := 0
  rateLimitRpm := orLimit r.rateLimitRpm (r.rateLimit.bind RateLimitData.rpm)
  enableLogging := r.enableLogging.getD true
  tenantId := r.tenantId
  userId := r.userId
  createdBy := r.createdBy
  expiresAt := r.expiresAt
  lastUsedAt := none
  revokedAt := none
  revokedReason := none
  scopes := r.scopes.map ScopeData.toScope
  rateLimit := r.rateLimit.map (updateRateLimit none)
  quotas := r.quotas.map QuotaData.toQuota
  ipWhitelist := r.ipWhitelist.map fun ip => ⟨ip, none⟩

def generateKey (s : KeyStore) (r : KeyRequest) (m : KeyMaterial) : Option (KeyStore × ApiKey) :=
  let row := newRow computeKeyHash r m
  (s.create row).map fun s => (s, row)

def principalOf (k : ApiKey) : ApiPrincipal where
  apiKeyId := k.id
  keyType := k.type
  tenantId := k.tenantId
  userId := k.userId
  scopes := k.scopes.map fun s => (s.scopeType, s.scopeValue)
  isWhitelist := k.rateLimit.any ApiKeyRateLimit.isWhitelist
  rateLimitRpm := orLimit k.rateLimitRpm (k.rateLimit.bind ApiKeyRateLimit.rpm)
  rateLimitTpm := k.rateLimit.bind ApiKeyRateLimit.tpm
  allowedModels := k.allowedModels
  allowedIps := k.allowedIps
  budgetLimit := k.budgetLimit
  budgetUsed := k.budgetUsed
  enableLogging := k.enableLogging
  secretHash := k.secretHash
  secretHint := k.secretHint

/-- The check of `validate_key` on the row that it finds. -/
def checkRow (now : ℤ) (row : Option ApiKey) : Option ApiPrincipal :=
  row.bind fun k =>
    if k.status ≠ .active then none
    else if k.expiresAt.any (· < now) then none
    else some (principalOf k)

def principalTtl : ℤ := 300 * 1000000

def validateKey (w : KeyWorld) (now : ℤ) (raw : String) : KeyWorld × Option ApiPrincipal :=
  if raw = "" then (w, none)
  else
    let hash := computeKeyHash raw
    match live now (w.cache hash) with
    | some e => (w, some e.value)
    | none =>
      match checkRow now (w.store.getByKeyHash hash) with
      | none => (w, none)
      | some p =>
        ({ store := w.store.updateLastUsed p.apiKeyId now
           cache := Function.update w.cache hash (some ⟨p, some (now + principalTtl)⟩) }, some p)

/-- `_invalidate_cache`. The entry is `dropped` unless the service has no `redis`, as the routes
build it, or Redis fails. -/
def invalidateCache (dropped : Bool) (hash : KeyHash)
    (cache : KeyHash → Option (Entry ℤ ApiPrincipal)) : KeyHash → Option (Entry ℤ ApiPrincipal) :=
  if dropped then Function.update cache hash none else cache

def hours (n : ℤ) : ℤ := n * 3600 * 1000000

/-- What `rotate_key` asks `generate_key` for. -/
def rotationRequest (old : ApiKey) : KeyRequest where
  keyType := old.type
  name := old.name ++ " (rotated)"
  createdBy := old.createdBy
  tenantId := old.tenantId
  userId := old.userId
  expiresAt := old.expiresAt
  allowedModels := old.allowedModels
  allowedIps := old.allowedIps
  budgetLimit := old.budgetLimit
  rateLimitRpm := old.rateLimitRpm
  enableLogging := some old.enableLogging

/-- Steps 3 to 5 of `rotate_key`: scopes, rate limit and IP whitelist of the old key are
added to the new one. -/
def copyChildren (old new : ApiKey) : ApiKey :=
  { new with
    scopes := new.scopes ++ old.scopes
    rateLimit := match old.rateLimit with
      | none => new.rateLimit
      | some rl => some <| updateRateLimit new.rateLimit
          { rpm := rl.rpm, tpm := rl.tpm, rpd := rl.rpd, tpd := rl.tpd
            concurrentLimit := rl.concurrentLimit, burstLimit := rl.burstLimit
            isWhitelist := some rl.isWhitelist }
    ipWhitelist := new.ipWhitelist ++ old.ipWhitelist }

structure Rotated where
  newKey : ApiKey
  rawKey : String
  rawSecret : String

/-- `rotate_key`, committed. The session shares the row of the old key with `update`, so what
is inherited is read after the update. The result is `none` where the database refuses. -/
def rotateKey (w : KeyWorld) (dropped : Bool) (now : ℤ) (id : KeyId) (gracePeriodHours : ℤ)
    (m : KeyMaterial) : Option (KeyWorld × Option Rotated) :=
  match w.store.getById id with
  | none => some (w, none)
  | some found => do
    let change : KeyUpdate :=
      { status := some .expiring, expiresAt := some (now + hours gracePeriodHours) }
    let old := change.apply found
    let (store, new) ← generateKey computeKeyHash (w.store.update id change)
      (rotationRequest old) m
    let store := store.modify new.id (copyChildren old) (fun _ => rfl) fun _ => rfl
    let w : KeyWorld := ⟨store, invalidateCache dropped old.keyHash w.cache⟩
    some (w, some ⟨copyChildren old new, rawKey old.type m, m.secret⟩)

end Service

end Deeting.ApiKeys
