import Deeting.Collecting
import Deeting.Routing.Capabilities
import Deeting.Table
import Deeting.Uuid

/-! `RoutingSelector`: the candidates for a model by its name and by its id, over the tables of
the providers, with what the two repositories select. Caches are cold. -/
namespace Deeting.Routing

structure Preset where
  id : Uuid
  slug : String
  provider : String
  isActive : Bool
  protocolProfiles : Json

structure Instance where
  id : Uuid
  userId : Option Uuid
  presetSlug : String
  credentialsRef : String
  isEnabled : Bool
  isPublic : Bool

structure Model where
  id : Uuid
  instanceId : Uuid
  capabilities : List String
  modelId : String
  unifiedModelId : Option String
  pricingConfig : Json
  limitConfig : Json
  routingConfig : Json
  configOverride : Json
  weight : ℤ
  priority : ℤ
  isActive : Bool

structure Credential where
  id : Uuid
  instanceId : Uuid
  alias_ : String
  secretRefId : String
  weight : ℤ
  priority : ℤ
  isActive : Bool

structure Catalog where
  presets : Table Preset.slug
  instances : Table Instance.id
  models : Table Model.id
  credentials : List Credential
  /-- The users with the models they have bought. -/
  entitlements : List (Uuid × Uuid)

/-- How `Decimal(text)` compares with 0. -/
inductive Amount where
  | refused
  | unordered
  | positive
  | notPositive

structure Endpoint where
  upstreamUrl : String
  asyncConfig : Json
  outputMapping : Json
  authType : String
  authConfig : Json
  protocolProfile : Json

/-- The dialect of the database, built-in functions, and the protocol runtime: the
configuration of a stored profile and the endpoint that is built from it. -/
structure Runtime where
  postgres : Bool
  lower : String → String
  lower_empty : lower "" = ""
  int16 : String → Option ℤ
  decimal : String → Amount
  resolveProfile : Json → Option Json
  buildEndpoint : Preset → Instance → Model → String → Json → Option Endpoint

/-- The arguments the two loads share; no allowed providers are the same as none given. -/
structure Query where
  capability : String
  channel : String
  userId : Option String
  includePublic : Bool
  allowedProviders : List String

structure CredentialEntry where
  id : Option Uuid
  alias_ : String
  secretRef : String
  weight : ℤ
  priority : ℤ

structure RoutingCandidate where
  presetId : Uuid
  presetSlug : String
  instanceId : Uuid
  providerModelId : Uuid
  provider : String
  channel : String
  endpoint : Endpoint
  pricingConfig : Json
  limitConfig : Json
  routingConfig : Json
  configOverride : Json
  weight : ℤ
  priority : ℤ
  credentialId : Option Uuid
  credentialAlias : String

section Access

/-- `parse_unlock_price_credits`: whether there is a price, `none` where the comparison
raises. -/
def parseUnlockPrice (rt : Runtime) (pricing : Json) : Option Bool :=
  match pricing.get "unlock_price_credits" with
  | .int n => some (0 < n)
  | .float q => some (0 < q)
  | .str text =>
      match rt.decimal text with
      | .refused | .notPositive => some false
      | .unordered => none
      | .positive => some true
  | _ => some false

def requiresModelPurchase (owner user : Option Uuid) (priced : Bool) : Bool :=
  priced && user.isSome && owner ≠ user

/-- A user is locked out of a model that has to be bought and was not. -/
def locked (rt : Runtime) (db : Catalog) (user owner : Option Uuid) (m : Model) : Option Bool :=
  (parseUnlockPrice rt m.pricingConfig).map fun priced =>
    requiresModelPurchase owner user priced && !user.any fun u => (u, m.id) ∈ db.entitlements

/-- `_public_instance_clause`. -/
def Instance.Public (i : Instance) : Prop := i.isPublic ∨ i.userId = none

instance (i : Instance) : Decidable i.Public := inferInstanceAs (Decidable (_ ∨ _))

def visible (user : Option Uuid) (includePublic : Bool) (i : Instance) : Bool :=
  i.userId = user ∨ includePublic ∧ i.Public

def Query.user (rt : Runtime) (c : Query) : Option Uuid := c.userId.bind (Uuid.parse rt.int16)

end Access

section Queries
variable (rt : Runtime) (db : Catalog) (c : Query)

def getAvailableInstances : List Instance :=
  let enabled := db.instances.rows.filter Instance.isEnabled
  match c.userId with
  | some _ => enabled.filter (visible (c.user rt) c.includePublic)
  | none => if c.includePublic then enabled else []

def Model.AnswersTo (m : Model) (name : String) : Prop :=
  m.modelId = name ∨ m.unifiedModelId = some name

instance (m : Model) (name : String) : Decidable (m.AnswersTo name) :=
  inferInstanceAs (Decidable (_ ∨ _))

def capable (m : Model) : Bool :=
  let names := expandCapabilities rt.lower c.capability
  if rt.postgres then names.any (· ∈ m.capabilities)
  else m.capabilities.any fun cap => (expandCapabilities rt.lower cap).any (· ∈ names)

/-- The user `get_candidates` is called with: an empty one is none. -/
def Query.candidateUser : Option String := c.userId.filter (· ≠ "")

/-- The rows of the query in `get_candidates`, with the filter on capabilities. -/
def matching (name : String) : List Model :=
  db.models.rows.filter fun m =>
    m.AnswersTo name ∧ m.isActive ∧ capable rt c m ∧
      (db.instances.find? m.instanceId).any fun i =>
        i.isEnabled && (c.candidateUser.isNone || visible (c.user rt) c.includePublic i)

/-- `owner_map.get`. -/
def owner (m : Model) : Option Uuid := (db.instances.find? m.instanceId).bind Instance.userId

/-- `get_candidates`; a model that has to be bought is left out unless it was. -/
def getCandidates (name : String) : Option (List Model) :=
  if c.candidateUser = none ∧ ¬ c.includePublic then some []
  else if expandCapabilities rt.lower c.capability = [] then some []
  else if c.user rt = none then some (matching rt db c name)
  else collect (fun m =>
      (locked rt db (c.user rt) (owner db m) m).map fun shut => if shut then [] else [m])
    (matching rt db c name)

end Queries

section Configuration

mutual

def mergeValue (old : Option Json) : Json → Json
  | .obj entries =>
      match old with
      | some (.obj base) => .obj (mergeEntries base entries)
      | _ => .obj entries
  | value => value

def mergeEntries (base : List (String × Json)) : List (String × Json) → List (String × Json)
  | [] => base
  | (key, value) :: rest =>
      match value with
      | .null => mergeEntries (base.filter fun entry => entry.1 ≠ key) rest
      | value =>
          mergeEntries
            (Json.setEntry key (mergeValue ((Json.obj base).get? key) value) base) rest

end

def deepMerge (base override : Json) : Json :=
  match base, override with
  | .obj entries, .obj changes => .obj (mergeEntries entries changes)
  | base, _ => base

/-- `resolve_effective_config_from_preset`: `none` where the stored profile is refused. -/
def resolveEffectiveConfig (rt : Runtime) (preset : Preset) (capability : String) :
    Option (Option Json) :=
  match preset.protocolProfiles.get? capability with
  | some (.obj raw) => (rt.resolveProfile (.obj raw)).map some
  | _ => some none

def configured (rt : Runtime) (preset : Preset) (m : Model) (capability : String) :
    Option (Option Json) :=
  (resolveEffectiveConfig rt preset capability).map fun config =>
    (config.filter Json.truthy).bind fun config =>
      let allowOverride := (m.routingConfig.get "allow_template_override") matches .bool true
      let effective :=
        if allowOverride ∧ m.configOverride.truthy then deepMerge config m.configOverride
        else config
      if (Stream.orElse (effective.get "request_template") (effective.get "body_template")).truthy
      then some effective
      else none

end Configuration

section Loads
variable (rt : Runtime) (db : Catalog) (c : Query)

/-- `get_by_instance_ids`, for one of them. -/
def extraCredentials (i : Instance) : List Credential :=
  db.credentials.filter fun cred => cred.instanceId = i.id ∧ cred.isActive

def defaultRef (i : Instance) : String :=
  if i.credentialsRef ≠ "" ∧ ¬ "db:".toList.isPrefixOf i.credentialsRef.toList then
    (((extraCredentials db i).find? (·.alias_ = i.credentialsRef)).map
      Credential.secretRefId).getD i.credentialsRef
  else i.credentialsRef

def credentialEntries (i : Instance) : List CredentialEntry :=
  (extraCredentials db i).map (fun cred =>
      ⟨some cred.id, cred.alias_, cred.secretRefId, cred.weight, cred.priority⟩) ++
    if defaultRef db i = "" then [] else [⟨none, "default", defaultRef db i, 0, 0⟩]

def usablePreset (i : Instance) : Option Preset :=
  (db.presets.find? i.presetSlug).filter fun preset =>
    preset.isActive ∧ (c.allowedProviders = [] ∨ preset.provider ∈ c.allowedProviders)

def candidate (preset : Preset) (i : Instance) (m : Model) (e : Endpoint)
    (entry : CredentialEntry) : RoutingCandidate where
  presetId := preset.id
  presetSlug := i.presetSlug
  instanceId := i.id
  providerModelId := m.id
  provider := preset.provider
  channel := c.channel
  endpoint := { e with
    authConfig := (e.authConfig.set "secret_ref_id" (.str entry.secretRef)).set "provider"
      (.str preset.provider) }
  pricingConfig := m.pricingConfig
  limitConfig := m.limitConfig
  routingConfig := m.routingConfig
  configOverride := m.configOverride
  weight := m.weight + entry.weight
  priority := m.priority + entry.priority
  credentialId := entry.id
  credentialAlias := entry.alias_

def withCredentials (preset : Preset) (i : Instance) (m : Model) (capability : String)
    (config : Json) : Option (List RoutingCandidate) :=
  (rt.buildEndpoint preset i m capability config).map fun e =>
    (credentialEntries db i).map (candidate c preset i m e)

/-- A round of the inner loop of `load_candidates`. -/
def modelCandidates (preset : Preset) (i : Instance) (m : Model) :
    Option (List RoutingCandidate) :=
  (configured rt preset m c.capability).bind fun
    | none => some []
    | some config => withCredentials rt db c preset i m c.capability config

def instanceCandidates (models : List Model) (i : Instance) : Option (List RoutingCandidate) :=
  let instanceModels := models.filter (·.instanceId = i.id)
  if instanceModels = [] then some []
  else
    match usablePreset db c i with
    | none => some []
    | some preset =>
        if credentialEntries db i = [] then some []
        else collect (modelCandidates rt db c preset i) instanceModels

/-- `load_candidates`; `none` where it raises. -/
def loadCandidates (name : String) : Option (List RoutingCandidate) :=
  let instances := getAvailableInstances rt db c
  if instances = [] then some []
  else
    (getCandidates rt db c name).bind fun models =>
      collect (instanceCandidates rt db c models) instances

/-- The owner as `load_candidates_by_provider_model_id` asks for it. -/
def mayUse (i : Instance) : Prop :=
  match c.user rt with
  | none => True
  | some user =>
      if c.includePublic then i.userId = some user ∨ i.userId = none else i.userId = some user

def shutOut (i : Instance) (m : Model) : Option Bool :=
  if c.userId = none then some false else locked rt db (c.user rt) i.userId m

def resolvedCapability (m : Model) : String :=
  if c.capability = "" then m.capabilities.headD "chat" else c.capability

instance (i : Instance) : Decidable (mayUse rt c i) := by
  unfold mayUse
  split <;> infer_instance

/-- `load_candidates_by_provider_model_id`; `none` where it raises. -/
def loadCandidatesByProviderModelId (id : Uuid) : Option (List RoutingCandidate) :=
  match db.models.find? id with
  | none => some []
  | some m =>
      if ¬ m.isActive then some []
      else if c.capability ≠ "" ∧ c.capability ∉ m.capabilities then some []
      else
        match db.instances.find? m.instanceId with
        | none => some []
        | some i =>
            if ¬ i.isEnabled then some []
            else if ¬ mayUse rt c i then some []
            else
              (shutOut rt db c i m).bind fun shut =>
                if shut then some []
                else
                  match usablePreset db c i with
                  | none => some []
                  | some preset =>
                      (configured rt preset m (resolvedCapability c m)).bind fun
                        | none => some []
                        | some config =>
                            if credentialEntries db i = [] then some []
                            else withCredentials rt db c preset i m (resolvedCapability c m) config

end Loads

end Deeting.Routing
