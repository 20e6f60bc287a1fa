import Deeting.Dict
import Deeting.Vector.UserService

/-! `index_sync_service`: the difference of two lists of items under their stripped keys, and the
points of a collection that follow it, upserts first and deletions after them. -/
namespace Deeting.Indexing
open Deeting.Vector

structure Functions (T : Type) where
  keyFn : T → Option String
  fingerprintFn : T → String
  textFn : T → String
  payloadFn : T → Payload
  idFn : T → Option String

/-- `(text or "").strip()`. -/
def stripped (text : Option String) : String := strip (text.getD "")

structure IndexDelta (T : Type) where
  toUpsert : List T
  toDelete : List T

section Delta

variable {T : Type} (fns : Functions T)

def Functions.key (item : T) : String := stripped (fns.keyFn item)

/-- `old_map`, `new_map`. -/
def itemMap (items : List T) : Dict String (T × String) :=
  items.foldl (fun map item =>
    if fns.key item = "" then map
    else Dict.set map (fns.key item) (item, fns.fingerprintFn item)) Table.empty

def computeDelta (oldItems newItems : List T) : IndexDelta T :=
  let oldMap := itemMap fns oldItems
  let newMap := itemMap fns newItems
  let changed := newMap.rows.filter fun (key, _, fp) =>
    match Dict.get? oldMap key with
    | none => true
    | some (_, old) => old ≠ fp
  let gone := oldMap.rows.filter fun (key, _) => (Dict.get? newMap key).isNone
  { toUpsert := changed.map fun entry => entry.2.1, toDelete := gone.map fun entry => entry.2.1 }

end Delta

inductive VectorsConfig where
  | unnamed (size : ℕ)
  | named (sizes : List (String × ℕ))

structure Stored (Id : Type) where
  vectors : VectorsConfig
  points : Collection Id

abbrev Index (Id : Type) := Option (Stored Id)

def Index.points {Id : Type} : Index Id → Collection Id
  | none => Table.empty
  | some stored => stored.points

structure Environment (Id : Type) where
  /-- What Qdrant reads as the id of a point. -/
  pointId : String → Option Id
  /-- The description of a collection, and names, as a message shows them. -/
  shownResponse : VectorsConfig → String
  shownNames : List String → String

structure Outside where
  /-- `qdrant_is_configured()`. -/
  configured : Bool
  /-- `embed_documents`, `none` where it raises. -/
  embedDocuments : List String → Option (List (List ℚ))
  /-- Qdrant carries out the upsert, and the deletion. -/
  upserts : Bool
  deletes : Bool

namespace VectorsConfig

def names : VectorsConfig → List String
  | unnamed _ => []
  | named sizes => (sizes.map Prod.fst).filter fun name => name ≠ ""

/-- The size under `text`. -/
def textSize? : VectorsConfig → Option ℕ
  | unnamed _ => none
  | named sizes => sizes.lookup "text"

/-- `get_collection_vector_size`: a single name stands in for `text`. -/
def size? : VectorsConfig → Option ℕ
  | unnamed size => if 0 < size then some size else none
  | named sizes =>
    match (sizes.lookup "text").filter (0 < ·), sizes.filter fun entry => entry.1 ≠ "" with
    | some size, _ => some size
    | none, [(_, size)] => if 0 < size then some size else none
    | none, _ => none

end VectorsConfig

section Collections

variable {Id : Type} (env : Environment Id) (collectionName : String)

/-- `_resolve_vector_name`, the name sought being `text`. -/
def resolveVectorName (vectors : VectorsConfig) : Except VectorError Unit :=
  match vectors with
  | .unnamed _ =>
    .error (.runtime ("qdrant collection uses unnamed vectors; expected named vector 'text' " ++
      s!"(collection={collectionName})"))
  | .named _ =>
    if vectors.names ≠ [] ∧ "text" ∉ vectors.names then
      .error (.runtime ("qdrant collection vector name mismatch; expected 'text', got " ++
        s!"{env.shownNames vectors.names} (collection={collectionName})"))
    else .ok ()

def ensureCollectionVectorSize (index : Index Id) (vectorSize : ℕ) :
    Except VectorError VectorsConfig :=
  match index with
  | none =>
    if vectorSize = 0 then .error (.value "vector_size must be positive")
    else .ok (.named [("text", vectorSize)])
  | some stored =>
    match stored.vectors.size?, resolveVectorName env collectionName stored.vectors with
    | none, _ =>
      .error (.runtime ("unexpected qdrant collection response (missing vector size): " ++
        env.shownResponse stored.vectors))
    | some _, .error error => .error error
    | some existing, .ok () =>
      if existing ≠ vectorSize then
        .error (.runtime (s!"qdrant collection vector size mismatch: collection={collectionName}" ++
          s!" existing={existing} expected={vectorSize}"))
      else .ok stored.vectors

structure PointStruct where
  id : String
  vector : List ℚ
  payload : Payload

def PointStruct.normalize (point : PointStruct) : Except VectorError PointStruct :=
  if strip point.id = "" then .error (.value "point id is required")
  else if point.vector = [] then .error (.value "point vector must be non-empty list")
  else .ok { point with id := strip point.id }

def PointStruct.read (point : PointStruct) : Option (Point Id) :=
  (env.pointId point.id).map fun id => ⟨id, point.vector, point.payload⟩

variable [DecidableEq Id]

def upsertPoints (o : Outside) (stored : Stored Id) (points : List PointStruct) :
    Stored Id × Except VectorError Unit :=
  if points = [] then (stored, .error (.value "points must be non-empty list"))
  else
    match resolveVectorName env collectionName stored.vectors,
        points.mapM PointStruct.normalize with
    | .error error, _ => (stored, .error error)
    | .ok (), .error error => (stored, .error error)
    | .ok (), .ok normalized =>
      match normalized.mapM (PointStruct.read env) with
      | some taken =>
        if o.upserts ∧ ∀ point ∈ taken, stored.vectors.textSize? = some point.vector.length then
          ({ stored with points := stored.points.upsertAll taken }, .ok ())
        else (stored, .error .outside)
      | none => (stored, .error .outside)

def deletePoints (o : Outside) (index : Index Id) (ids : List String) : Index Id :=
  match index, ids.mapM env.pointId with
  | some stored, some taken =>
    if o.deletes then some { stored with points := stored.points.delete [.hasId taken] } else index
  | _, _ => index

end Collections

section Service

variable {Id T : Type} [DecidableEq Id] (env : Environment Id) (collectionName : String)
  (fns : Functions T)

/-- `zip(items, vectors, strict=True)`, an item without an id being passed over. -/
def pointsOf (items : List T) (vectors : List (List ℚ)) : Except VectorError (List PointStruct) :=
  if vectors.length < items.length then
    .error (.value "zip() argument 2 is shorter than argument 1")
  else if items.length < vectors.length then
    .error (.value "zip() argument 2 is longer than argument 1")
  else
    .ok ((items.zip vectors).filterMap fun (item, vector) =>
      (given (fns.idFn item)).map fun pid => ⟨pid, vector, fns.payloadFn item⟩)

def upsert (o : Outside) (index : Index Id) (items : List T) :
    Index Id × Except VectorError Unit :=
  if o.configured = false ∨ items = [] then (index, .ok ())
  else
    match o.embedDocuments (items.map fns.textFn) with
    | none => (index, .error .outside)
    | some [] => (index, .ok ())
    | some (first :: more) =>
      match ensureCollectionVectorSize env collectionName index first.length with
      | .error error => (index, .error error)
      | .ok vectors =>
        let stored : Stored Id := { vectors := vectors, points := index.points }
        match pointsOf fns items (first :: more) with
        | .error error => (some stored, .error error)
        | .ok [] => (some stored, .ok ())
        | .ok points =>
          let (stored, reply) := upsertPoints env collectionName o stored points
          (some stored, reply)

def delete (o : Outside) (index : Index Id) (items : List T) : Index Id :=
  if o.configured = false then index
  else
    let ids := ((items.map fun item =>
      stripped (fns.idFn item)).filter fun pid => pid ≠ "").eraseDups
    if ids = [] then index else deletePoints env o index ids

def sync (o : Outside) (index : Index Id) (oldItems newItems : List T) :
    Index Id × Except VectorError (IndexDelta T) :=
  let delta := computeDelta fns oldItems newItems
  match if delta.toUpsert.isEmpty then (index, .ok ())
    else upsert env collectionName fns o index delta.toUpsert with
  | (index, .error error) => (index, .error error)
  | (index, .ok ()) =>
    (if delta.toDelete.isEmpty then index else delete env fns o index delta.toDelete, .ok delta)

end Service
end Deeting.Indexing
