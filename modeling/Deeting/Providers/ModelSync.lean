import Deeting.Collecting
import Deeting.Routing.Capabilities
import Deeting.Transition
import Deeting.Upserting
import Deeting.Uuid

/-! The models of provider instances: what an upstream lists and what is added by name become the
same payloads, and two upserts write them, of which one keeps what users have set. -/
namespace Deeting.Providers
open Deeting.Agent (stripText)
open Deeting.Stream (orElse)
open Routing Upserting

structure Settings where
  displayName : Json
  weight : ℤ
  priority : ℤ
  pricingConfig : Json
  limitConfig : Json
  tokenizerConfig : Json
  routingConfig : Json
  configOverride : Json
  isActive : Bool

structure ProviderModel extends Settings where
  id : Uuid
  instanceId : Uuid
  capabilities : List String
  modelId : String
  unifiedModelId : Option String
  upstreamPath : String
  source : String
  extraMeta : Json
  syncedAt : Option ℚ

/-- `uq_provider_model_identity`. -/
def ProviderModel.identity (m : ProviderModel) : Uuid × String × String :=
  (m.instanceId, m.modelId, m.upstreamPath)

structure ProviderInstance where
  id : Uuid
  presetSlug : String
  metadata : Json

/-- `str.lower`, and `str` of what is no text. -/
structure Builtins where
  lower : String → String
  str : Json → String

structure ModelPayload where
  capabilities : List String
  modelId : String
  unifiedModelId : String
  displayName : Json
  upstreamPath : String
  pricingConfig : Json := .obj []
  limitConfig : Json := .obj []
  tokenizerConfig : Json := .obj []
  routingConfig : Json := .obj []
  source : String := "auto"
  extraMeta : Json
  weight : ℤ := 100
  priority : ℤ := 0
  isActive : Bool := true
  syncedAt : ℚ

section Payloads

variable (env : Builtins)

def extractModelId (m : Json) : String :=
  match orElse (orElse (orElse (m.get "id") (m.get "model")) (m.get "name")) (.str "") with
  | .str mid =>
    if "models/".toList.isPrefixOf mid.toList then String.ofList (mid.toList.drop 7) else mid
  | mid => env.str mid

def upstreamPathFor (proto cap modelId : String) : String :=
  let named (word : String) : Bool := word.toList <:+: proto.toList
  if named "azure" then
    let base := "openai/deployments/" ++ modelId
    if cap = "embedding" then base ++ "/embeddings"
    else if cap = "text_to_speech" then base ++ "/audio/speech"
    else if cap = "speech_to_text" then base ++ "/audio/transcriptions"
    else if cap = "image_generation" then base ++ "/images/generations"
    else if cap = "video_generation" then base ++ "/videos/generations"
    else base ++ "/chat/completions"
  else if named "gemini" || named "google" || named "vertex" then
    if cap = "embedding" then "v1beta/models/" ++ modelId ++ ":embedContent"
    else "v1beta/models/" ++ modelId ++ ":generateContent"
  else if named "ark" || named "volcengine" then
    if cap = "video_generation" then "api/v3/contents/generations/tasks"
    else "api/v3/chat/completions"
  else if cap = "embedding" then "embeddings"
  else if cap = "text_to_speech" then "audio/speech"
  else if cap = "speech_to_text" then "audio/transcriptions"
  else if cap = "image_generation" then "images/generations"
  else if cap = "video_generation" then "videos/generations"
  else "chat/completions"

/-- What a model of the list gives, `none` where it is no object. -/
def modelPayload (modelPrefix proto : String) (forcedCapability : Option String) (now : ℚ)
    (m : Json) : Option (List ModelPayload) :=
  match m with
  | .obj _ =>
    let rawModelId := extractModelId env m
    if rawModelId = "" then some []
    else
      let modelId := modelPrefix ++ rawModelId
      let caps :=
        match forcedCapability.filter fun capability => capability ≠ "" with
        | some capability => normalizeCapabilities env.lower [capability]
        | none => normalizeCapabilities env.lower (guessCapabilities env.lower modelId)
      some [{
        capabilities := caps
        modelId := modelId
        unifiedModelId := modelId
        displayName := orElse (orElse (orElse (m.get "display_name") (m.get "model"))
          (m.get "id")) (.str modelId)
        upstreamPath := upstreamPathFor proto (caps.head?.getD "chat") modelId
        extraMeta := .obj [("upstream_capabilities", .arr (caps.map .str)), ("raw", m)]
        syncedAt := now }]
  | _ => none

/-- `_build_model_payloads`, `none` where it raises. -/
def buildModelPayloads (models : List Json) (inst : ProviderInstance)
    (forcedCapability : Option String) (now : ℚ) : Option (List ModelPayload) :=
  match if inst.metadata.truthy then inst.metadata else .obj [] with
  | .obj entries =>
    let metadata := Json.obj entries
    let modelPrefix :=
      match orElse (metadata.get "model_prefix") (.str "") with
      | .str text => text
      | other => env.str other
    match orElse (metadata.get "protocol") (.str inst.presetSlug) with
    | .str proto =>
      collect (modelPayload env modelPrefix (env.lower proto) forcedCapability now) models
    | _ => none
  | _ => none

end Payloads

structure Outside where
  /-- The checks before the models are written pass. -/
  allowed : Bool
  /-- The times at which the payloads are built and written. -/
  builtAt : ℚ
  now : ℚ
  /-- `uuid4()`, for each model that is made. -/
  fresh : ℕ → Uuid
  /-- The commit goes through; whatever the database refuses, no model is changed. -/
  commits : Bool

section Upserts

variable (inst : ProviderInstance) (o : Outside)

def ModelPayload.create (p : ModelPayload) (id : Uuid) (syncedAt : ℚ) : ProviderModel where
  displayName := p.displayName
  weight := p.weight
  priority := p.priority
  pricingConfig := p.pricingConfig
  limitConfig := p.limitConfig
  tokenizerConfig := p.tokenizerConfig
  routingConfig := p.routingConfig
  configOverride := .obj []
  isActive := p.isActive
  id := id
  instanceId := inst.id
  capabilities := p.capabilities
  modelId := p.modelId
  unifiedModelId := some p.unifiedModelId
  upstreamPath := p.upstreamPath
  source := p.source
  extraMeta := p.extraMeta
  syncedAt := some syncedAt

/-- The settings that a payload gives a model; it says nothing of the override. -/
def ModelPayload.settings (p : ModelPayload) (m : ProviderModel) : Settings where
  displayName := p.displayName
  weight := p.weight
  priority := p.priority
  pricingConfig := p.pricingConfig
  limitConfig := p.limitConfig
  tokenizerConfig := p.tokenizerConfig
  routingConfig := p.routingConfig
  configOverride := m.configOverride
  isActive := p.isActive

def ProviderModel.describe (m : ProviderModel) (p : ModelPayload) (syncedAt : ℚ) : ProviderModel :=
  { m with
    capabilities := p.capabilities
    modelId := p.modelId
    unifiedModelId := some p.unifiedModelId
    upstreamPath := p.upstreamPath
    source := p.source
    extraMeta := p.extraMeta
    syncedAt := some syncedAt }

def payloadKey (p : ModelPayload) : Uuid × String × String := (inst.id, p.modelId, p.upstreamPath)

/-- `upsert_for_instance`, for one payload: it gives all its fields. -/
def forInstance : Rule ProviderModel ModelPayload (Uuid × String × String) where
  key := ProviderModel.identity
  keyOf := payloadKey inst
  update m p := { m.describe p o.now with toSettings := p.settings m }
  create n p := p.create inst (o.fresh n) o.now

/-- `upsert_from_upstream`, for one payload. -/
def fromUpstream (preserveUserOverrides : Bool) :
    Rule ProviderModel ModelPayload (Uuid × String × String) where
  key := ProviderModel.identity
  keyOf := payloadKey inst
  update m p :=
    if preserveUserOverrides && m.source = "manual" then m
    else
      let described := m.describe p p.syncedAt
      if preserveUserOverrides then described else { described with toSettings := p.settings m }
  create n p := p.create inst (o.fresh n) p.syncedAt

def dedupePayloads (payloads : List ModelPayload) : List ModelPayload :=
  firsts (payloadKey inst) payloads

def written (rule : Rule ProviderModel ModelPayload (Uuid × String × String))
    (models : List ProviderModel) (payloads : List ModelPayload) : List ProviderModel :=
  let batch := upsertAll rule ⟨models, []⟩ (dedupePayloads inst payloads)
  batch.rows ++ batch.created

end Upserts

inductive Call where
  /-- `sync_models_from_upstream` with `preserve_user_overrides`, for what the upstream lists. -/
  | sync (models : List Json)
  | quickAdd (modelIds : List String) (capability : Option String)

structure Request where
  inst : ProviderInstance
  call : Call
  outside : Outside

section Calls

variable (env : Builtins)

/-- The models that `quick_add_models` makes of the names. -/
def rawModels (modelIds : List String) : List Json :=
  (firsts id ((modelIds.map stripText).filter fun mid => mid ≠ "")).map fun mid =>
    .obj [("id", .str mid)]

/-- The payloads that a call writes, `none` where it raises before. -/
def Request.payloads (r : Request) : Option (List ModelPayload) :=
  match r.call with
  | .sync models => buildModelPayloads env models r.inst none r.outside.builtAt
  | .quickAdd modelIds capability =>
    if rawModels modelIds = [] then none
    else buildModelPayloads env (rawModels modelIds) r.inst capability r.outside.builtAt

def Request.rule (r : Request) : Rule ProviderModel ModelPayload (Uuid × String × String) :=
  match r.call with
  | .sync _ => fromUpstream r.inst r.outside true
  | .quickAdd _ _ => forInstance r.inst r.outside

/-- The models after a call; one that raises leaves them as they are. -/
def step (models : List ProviderModel) (r : Request) : List ProviderModel :=
  if r.outside.allowed && r.outside.commits then
    match r.payloads env with
    | some payloads => written r.inst r.rule models payloads
    | none => models
  else models

end Calls
end Deeting.Providers
