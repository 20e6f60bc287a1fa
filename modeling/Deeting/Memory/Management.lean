import Deeting.Knowledge.Documents
import Deeting.Vector.Isolation

/-! `MemoryManagementService` as the routes build it, one service for each request, next to the
indexing of the user's documents, which writes to the same collections. -/
namespace Deeting.Memory
open Deeting.Vector Knowledge

/-- The deployment, and what Qdrant makes of ids and vectors. -/
structure Host (Id : Type) extends Deployment Id where
  pointId : String → Option Id
  similarity : List ℚ → List ℚ → ℚ
  /-- `EMBEDDING_VECTOR_SIZE`, where it is a positive number. -/
  vectorSize : Option ℕ := none

/-- `MemoryUpdateRequest`; a field that is given can still be `None`. -/
structure MemoryUpdateRequest where
  content : String
  recallWhen : Option (Option String) := none
  memoryTier : Option (Option String) := none
  isCore : Option (Option Bool) := none
  isBoot : Option (Option Bool) := none

structure MemorySnapshot where
  userId : Uuid
  memoryPointId : String
  action : String
  oldContent : Option String
  newContent : Option String := none
  oldMetadata : Option Payload
  newMetadata : Option Payload := none

/-- What other code answers during one request: the model of a new embedding service, the first
and the second call to Qdrant, and whether the snapshot is saved and committed. -/
structure Request where
  model : Option String
  reading : Outside
  writing : Outside
  saves : Bool
  commits : Bool

inductive Operation (Id : Type) where
  | list (limit : ℤ) (cursor : Option Id)
  | update (memoryId : String) (request : MemoryUpdateRequest)
  | delete (memoryId : String)
  | clear
  | rollback (memoryId : String) (snapshotId : ℕ)

inductive Action (Id : Type) where
  | memory (operation : Operation Id) (request : Request)
  | index (document : UserDocument) (given : Given)
  | deleteVectors (document : UserDocument) (carried : Bool)

/-- The points and the snapshots. The last two fields are for the statements: under which ids an
indexing wrote last, and what the last listing returned and from where. -/
structure Memories (Id : Type) where
  store : Store Id
  snapshots : List MemorySnapshot := []
  indexed : List (String × Id) := []
  shown : List (String × Item Id) := []

section Metadata

/-- `metadata or None`. -/
def orNone (metadata : Payload) : Option Payload :=
  if metadata.isEmpty then none else some metadata

def userMetadata (payload : Payload) : Option Payload :=
  orNone (payload.filter fun entry =>
    entry.1 ∉ ["content", "user_id", "plugin_id", "embedding_model"])

def mergeText (metadata : Payload) (key : String) : Option (Option String) → Payload
  | none => metadata
  | some value =>
      let text := strip (value.getD "")
      if text = "" then metadata.pop key else metadata.set key (.str text)

def mergeFlag (metadata : Payload) (key : String) : Option (Option Bool) → Payload
  | none => metadata
  | some none => metadata.pop key
  | some (some value) => metadata.set key (.bool value)

def mergeMetadata (current : Option Payload) (request : MemoryUpdateRequest) : Option Payload :=
  let next := mergeText (current.getD []) "recall_when" request.recallWhen
  let next := mergeText next "memory_tier" request.memoryTier
  let next := mergeFlag next "is_core" request.isCore
  orNone (mergeFlag next "is_boot" request.isBoot)

end Metadata

section Service

variable {Id : Type} [LinearOrder Id] (host : Host Id) (userId : Uuid)

def Host.environment (host : Host Id) : Environment Id where
  pointId := host.pointId
  similarity := host.similarity
  settings := host.settings
  hashing := host.hashing

/-- `get_vector_memory_service`. -/
def Host.service (host : Host Id) (userId : Uuid) : QdrantUserVectorService where
  userId
  failOpen := false
  enforceEmbeddingModelScope := false
  defaultVectorSize := host.vectorSize

def Memories.opened (w : Memories Id) (r : Request) : World Id where
  embeddingModel := r.model
  store := w.store

/-- `get_point`, `none` where it raises. -/
def fetchPoint (w : Memories Id) (memoryId : String) (r : Request) :
    Option (World Id × Option (Item Id)) :=
  match getPoint host.environment (host.service userId) (w.opened r) memoryId r.reading with
  | (v, .ok (.point found)) => some (v, found)
  | _ => none

def foundMetadata (found : Option (Item Id)) : Option Payload :=
  userMetadata ((found.map Item.payload).getD [])

def foundContent (found : Option (Item Id)) : Option String :=
  found.bind fun item => item.content.string?

def Memories.commit (w : Memories Id) (snapshot : MemorySnapshot) (done : Bool) : Memories Id :=
  if done then { w with snapshots := w.snapshots ++ [snapshot] } else w

def succeeded {α ε : Type} : Except ε α → Bool
  | .ok _ => true
  | .error _ => false

/-- The upsert of `update_memory` and `rollback_memory`, after the snapshot. -/
def writeBack (w : Memories Id) (v : World Id) (memoryId content : String)
    (metadata : Option Payload) (snapshot : MemorySnapshot) (r : Request) : Memories Id :=
  if r.saves then
    let target := upsertTarget host.environment (host.service userId) v r.writing content memoryId
    let (v, reply) :=
      upsert host.environment (host.service userId) v content metadata memoryId r.writing
    { w with
      store := v.store
      indexed := w.indexed.filter fun place => some place ≠ target }.commit snapshot
        (succeeded reply && r.commits)
  else w

def updateMemory (w : Memories Id) (memoryId : String) (request : MemoryUpdateRequest)
    (r : Request) : Memories Id :=
  match fetchPoint host userId w memoryId r with
  | none => w
  | some (v, found) =>
      let preserved := foundMetadata found
      let next := mergeMetadata preserved request
      writeBack host userId w v memoryId request.content next
        { userId, memoryPointId := memoryId, action := "update", oldContent := foundContent found
          newContent := request.content, oldMetadata := preserved, newMetadata := next } r

def deleteMemory (w : Memories Id) (memoryId : String) (r : Request) : Memories Id :=
  match fetchPoint host userId w memoryId r with
  | none => w
  | some (v, found) =>
      if r.saves then
        let (v, reply) := delete host.environment (host.service userId) v [memoryId] r.writing
        { w with store := v.store }.commit
          { userId, memoryPointId := memoryId, action := "delete"
            oldContent := foundContent found, oldMetadata := foundMetadata found }
          (succeeded reply && r.commits)
      else w

def clearMemories (w : Memories Id) (r : Request) : Memories Id :=
  { w with
    store := (clearAll host.environment (host.service userId) (w.opened r) r.reading).1.store }

/-- The snapshot that `rollback_memory` restores, past its three refusals. -/
def restorable (w : Memories Id) (memoryId : String) (snapshotId : ℕ) :
    Option (MemorySnapshot × String) :=
  (w.snapshots[snapshotId]?.filter fun snapshot =>
    snapshot.userId = userId ∧ snapshot.memoryPointId = memoryId).bind fun snapshot =>
      (given snapshot.oldContent).map fun content => (snapshot, content)

def rollbackMemory (w : Memories Id) (memoryId : String) (snapshotId : ℕ) (r : Request) :
    Memories Id :=
  match restorable userId w memoryId snapshotId with
  | none => w
  | some (snapshot, content) =>
      match fetchPoint host userId w memoryId r with
      | none => w
      | some (v, found) =>
          let current := foundMetadata found
          let restored := snapshot.oldMetadata <|> current
          writeBack host userId w v memoryId content restored
            { userId, memoryPointId := memoryId, action := "rollback"
              oldContent := foundContent found, newContent := content, oldMetadata := current
              newMetadata := restored } r

def place (w : Memories Id) (r : Request) : Option String :=
  (currentCollection host.environment (host.service userId) (w.opened r) r.reading).2.name?

def listMemories (w : Memories Id) (limit : ℤ) (cursor : Option Id) (r : Request) : Memories Id :=
  let listed :=
    listPoints host.environment (host.service userId) (w.opened r) limit cursor r.reading
  { w with
    shown := (place host userId w r).toList.flatMap fun name =>
      (repliedItems listed.2).map fun item => (name, item) }

def operate (w : Memories Id) (r : Request) : Operation Id → Memories Id
  | .list limit cursor => listMemories host userId w limit cursor r
  | .update memoryId request =>
      if memoryId = "" then w else updateMemory host userId w memoryId request r
  | .delete memoryId => if memoryId = "" then w else deleteMemory host userId w memoryId r
  | .clear => clearMemories host userId w r
  | .rollback memoryId snapshotId =>
      if memoryId = "" then w else rollbackMemory host userId w memoryId snapshotId r

def indexDocument (w : Memories Id) (document : UserDocument) (g : Given) : Memories Id :=
  if document.userId = userId then
    match indexPoints host.toDeployment document g with
    | .ok (name, points) =>
        { w with
          store := Function.update w.store name ((w.store name).upsertAll points)
          indexed := points.map (fun p => (name, p.id)) ++ w.indexed }
    | .error _ => w
  else w

def step (w : Memories Id) : Action Id → Memories Id
  | .memory operation r =>
      if host.qdrantIsConfigured then operate host userId { w with shown := [] } r operation
      else { w with shown := [] }
  | .index document g => indexDocument host userId { w with shown := [] } document g
  | .deleteVectors document carried =>
      { w with
        shown := []
        store := if carried then deleteDocumentVectors host.toDeployment w.store document
          else w.store }

end Service

end Deeting.Memory
