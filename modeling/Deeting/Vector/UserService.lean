import Deeting.Vector.Collections
import Deeting.Vector.Qdrant

/-! `QdrantUserVectorService`: finding the collection, the scope of payloads and filters, and the
seven operations. What other code answers is an input of each call; a request can be carried out
and its response still be lost. -/
namespace Deeting.Vector

structure Environment (Id : Type) where
  /-- What Qdrant reads as the id of a point. -/
  pointId : String → Option Id
  similarity : List ℚ → List ℚ → ℚ
  settings : CollectionSettings := {}
  hashing : Hashing

structure QdrantUserVectorService where
  userId : Uuid
  pluginId : Option String := none
  failOpen : Bool := true
  enforceEmbeddingModelScope : Bool := true
  /-- `EMBEDDING_VECTOR_SIZE`, where it is a positive number. -/
  defaultVectorSize : Option ℕ := none

inductive VectorError where
  | value (message : String)
  | runtime (message : String)
  /-- What other code raises. -/
  | outside

structure Item (Id : Type) where
  id : Id
  score : Option ℚ := none
  content : Json
  payload : Payload

inductive Reply (Id : Type) where
  | id (id : String)
  | page (items : List (Item Id)) (next : Option Id)
  | point (point : Option (Item Id))
  | done

def Reply.items {Id : Type} : Reply Id → List (Item Id)
  | .page items _ => items
  | .point found => found.toList
  | .id _ | .done => []

structure Outside where
  /-- `embed_text`, `none` where it raises. -/
  embed : String → Option (List ℚ)
  /-- The model of the embedding service from then on. -/
  model : Option String
  /-- `get_vector_size()`, where there is one and it does not raise. -/
  resolver : Option ℤ
  /-- `ensure_collection_vector_size` goes through. -/
  ensures : String → ℕ → Bool
  /-- Qdrant carries the request out; for one that reads, the collection is there. -/
  carried : Bool
  /-- The response says so. -/
  answered : Bool
  /-- `uuid4()`. -/
  fresh : String

/-- The fields of the service that change, the points, and what the calls have returned. -/
structure World (Id : Type) where
  embeddingModel : Option String
  collectionName : Option String := none
  store : Store Id
  returned : List (Item Id) := []

inductive Call (Id : Type) where
  | upsert (content : String) (payload : Option Payload) (id : Option String)
  | search (query : String) (limit : ℤ) (scoreThreshold : Option ℚ)
  | delete (ids : List String)
  | listPoints (limit : ℤ) (cursor : Option Id)
  | getPoint (pointId : String)
  | updatePayload (pointIds : List String) (payload : Payload)
  | clearAll

inductive Located where
  | found (name : String)
  | degraded
  | raised (error : VectorError)

def Located.name? : Located → Option String
  | .found name => some name
  | _ => none

section Service

variable {Id : Type} [LinearOrder Id] (env : Environment Id) (service : QdrantUserVectorService)

def World.refreshEmbeddingModel (w : World Id) (o : Outside) : World Id :=
  match given o.model with
  | some model => { w with embeddingModel := some model }
  | none => w

def resolveVectorSize (w : World Id) (o : Outside) : World Id × Except VectorError ℕ :=
  let resolved := o.resolver.filter (0 < ·)
  let probed := ((o.embed "test").map List.length).filter (0 < ·)
  match resolved, probed, service.defaultVectorSize with
  | some size, _, _ => (w.refreshEmbeddingModel o, .ok size.toNat)
  | none, some size, _ => (w.refreshEmbeddingModel o, .ok size)
  | none, none, some size => (w, .ok size)
  | none, none, none =>
    (w, .error (.runtime ("unable to resolve embedding vector size; configure " ++
      "/admin/settings/embedding or set EMBEDDING_VECTOR_SIZE explicitly")))

/-- `_ensure_collection` with `ensure_user_collection`: the name is kept of a collection that
could not be ensured, too. -/
def ensureCollection (w : World Id) (vectorSize : ℕ) (o : Outside) : World Id × Located :=
  match getUserMemoryCollectionName env.settings env.hashing service.userId w.embeddingModel with
  | .error message => (w, .raised (.value message))
  | .ok name =>
    if o.ensures name vectorSize then ({ w with collectionName := some name }, .found name)
    else if service.failOpen then ({ w with collectionName := some name }, .degraded)
    else (w, .raised .outside)

/-- `self._collection_name`, or the collection that is resolved and ensured. -/
def currentCollection (w : World Id) (o : Outside) : World Id × Located :=
  match given w.collectionName with
  | some name => (w, .found name)
  | none =>
    match resolveVectorSize service w o with
    | (w, .error error) => (w, .raised error)
    | (w, .ok size) => ensureCollection env service w size o

def basePayload (w : World Id) (extra : Payload) : Payload :=
  let owned := extra.set "user_id" (.str service.userId.text)
  let ofPlugin :=
    match given service.pluginId with
    | some plugin => owned.set "plugin_id" (.str plugin)
    | none => owned.pop "plugin_id"
  match given w.embeddingModel with
  | some model => ofPlugin.set "embedding_model" (.str model)
  | none => ofPlugin

def ownFilter : Filter Id :=
  .field "user_id" service.userId.text ::
    ((given service.pluginId).toList.map fun plugin => .field "plugin_id" plugin)

def baseFilter (w : World Id) : Filter Id :=
  ownFilter service ++
    if service.enforceEmbeddingModelScope then
      (given w.embeddingModel).toList.map fun model => .field "embedding_model" model
    else []

/-- `except Exception`: with fail-open a failure is as good as the default. -/
def caught (default : Reply Id) : Except VectorError (Reply Id) → Except VectorError (Reply Id)
  | .ok reply => .ok reply
  | .error error => if service.failOpen then .ok default else .error error

def inCollection (located : World Id × Located) (degraded : Reply Id)
    (request : World Id → String → World Id × Except VectorError (Reply Id)) :
    World Id × Except VectorError (Reply Id) :=
  match located with
  | (w, .raised error) => (w, .error error)
  | (w, .degraded) => (w, .ok degraded)
  | (w, .found name) => request w name

def change (w : World Id) (name : String) (reply : Reply Id) (o : Outside)
    (f : Collection Id → Collection Id) : World Id × Except VectorError (Reply Id) :=
  let store := if o.carried then Function.update w.store name (f (w.store name)) else w.store
  ({ w with store }, caught service reply (if o.answered then .ok reply else .error .outside))

def read (w : World Id) (name : String) (default : Reply Id) (o : Outside)
    (f : Collection Id → Reply Id) : World Id × Except VectorError (Reply Id) :=
  let found := if o.carried then f (w.store name) else default
  (w, caught service default (if o.answered then .ok found else .error .outside))

def upsert (w : World Id) (content : String) (payload : Option Payload) (id : Option String)
    (o : Outside) : World Id × Except VectorError (Reply Id) :=
  let pointId := orDefault (id.getD "") o.fresh
  match o.embed content with
  | none => (w, .error .outside)
  | some vector =>
    let located := ensureCollection env service (w.refreshEmbeddingModel o) vector.length o
    inCollection located (.id pointId) fun w name =>
      let payload := basePayload service w ((payload.getD []).set "content" (.str content))
      if strip pointId = "" then
        (w, caught service (.id pointId) (.error (.value "empty point_id")))
      else if vector = [] then
        (w, caught service (.id pointId) (.error (.value "empty vector")))
      else
        change service w name (.id pointId) o fun c =>
          match env.pointId (strip pointId) with
          | some id => c.upsert ⟨id, vector, payload⟩
          | none => c

/-- `item.get("payload") or {}` and its content. -/
def Point.item (point : Point Id) (score : Option ℚ) : Item Id where
  id := point.id
  score
  content := (point.payload.get? "content").getD (.str "")
  payload := point.payload

def search (w : World Id) (query : String) (limit : ℤ) (scoreThreshold : Option ℚ) (o : Outside) :
    World Id × Except VectorError (Reply Id) :=
  match o.embed query with
  | none => (w, .error .outside)
  | some vector =>
    let located := ensureCollection env service (w.refreshEmbeddingModel o) vector.length o
    inCollection located (.page [] none) fun w name =>
      if vector = [] then (w, caught service (.page [] none) (.error (.value "empty vector")))
      else
        let k := if limit ≤ 0 then 3 else max 1 (min limit 50)
        read service w name (.page [] none) o fun c =>
          let hits := c.search env.similarity (baseFilter service w) vector k.toNat scoreThreshold
          .page (hits.map fun hit => hit.2.item (some hit.1)) none

def delete (w : World Id) (ids : List String) (o : Outside) :
    World Id × Except VectorError (Reply Id) :=
  if ids = [] then (w, .ok .done)
  else
    let (w, reply) := inCollection (currentCollection env service w o) .done fun w name =>
      change service w name .done o fun c =>
        c.delete (ownFilter service ++ [.hasId (ids.filterMap env.pointId)])
    (w, caught service .done reply)

def scrollLimit (limit : ℤ) : ℕ := (max 1 (min limit 100)).toNat

def listPoints (w : World Id) (limit : ℤ) (cursor : Option Id) (o : Outside) :
    World Id × Except VectorError (Reply Id) :=
  inCollection (currentCollection env service w o) (.page [] none) fun w name =>
    let w := w.refreshEmbeddingModel o
    read service w name (.page [] none) o fun c =>
      let (points, next) := c.scroll (baseFilter service w) (scrollLimit limit) cursor
      .page (points.map fun p => p.item none) next

def getPoint (w : World Id) (pointId : String) (o : Outside) :
    World Id × Except VectorError (Reply Id) :=
  let pid := strip pointId
  if pid = "" then (w, .ok (.point none))
  else
    inCollection (currentCollection env service w o) (.point none) fun w name =>
      let w := w.refreshEmbeddingModel o
      read service w name (.point none) o fun c =>
        let filter := baseFilter service w ++ [.hasId (env.pointId pid).toList]
        let (points, _) := c.scroll filter (scrollLimit 1) none
        .point (points.head?.map fun p => p.item none)

def updatePayload (w : World Id) (pointIds : List String) (payload : Payload) (o : Outside) :
    World Id × Except VectorError (Reply Id) :=
  if pointIds = [] ∨ payload = [] then (w, .ok .done)
  else
    inCollection (currentCollection env service w o) .done fun w name =>
      change service w name .done o fun c =>
        c.setPayload (pointIds.filterMap env.pointId) payload

def clearAll (w : World Id) (o : Outside) : World Id × Except VectorError (Reply Id) :=
  inCollection (currentCollection env service w o) .done fun w name =>
    change service w name .done o fun c => c.delete (baseFilter service w)

def call (w : World Id) (o : Outside) : Call Id → World Id × Except VectorError (Reply Id)
  | .upsert content payload id => upsert env service w content payload id o
  | .search query limit scoreThreshold => search env service w query limit scoreThreshold o
  | .delete ids => delete env service w ids o
  | .listPoints limit cursor => listPoints env service w limit cursor o
  | .getPoint pointId => getPoint env service w pointId o
  | .updatePayload pointIds payload => updatePayload env service w pointIds payload o
  | .clearAll => clearAll env service w o

def repliedItems : Except VectorError (Reply Id) → List (Item Id)
  | .ok reply => reply.items
  | .error _ => []

/-- A call, and what it returns added to what was returned before. -/
def callStep (w : World Id) (c : Call Id × Outside) : World Id :=
  let (w', reply) := call env service w c.2 c.1
  { w' with returned := w.returned ++ repliedItems reply }

end Service
end Deeting.Vector
