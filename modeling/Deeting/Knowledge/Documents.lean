import Deeting.Transition
import Deeting.Vector.Collections
import Deeting.Vector.Qdrant

/-! Documents of users and their vectors: the requests of `UserDocumentService` and the index task in
three parts, loading the document, writing its points and committing the row, between which
anything else can run. What the parsers, the splitter and the embedding give is an input of the
task; requests to Qdrant go through. -/
namespace Deeting.Knowledge
open Deeting.Vector Transition

inductive Status where
  | pending
  | processing
  | indexed
  | failed
  deriving DecidableEq

structure UserDocument where
  id : Uuid
  userId : Uuid
  filename : String
  status : Status := .pending
  errorMessage : Option String := none
  chunkCount : ℕ := 0
  embeddingModel : Option String := none

structure Deployment (Id : Type) where
  settings : CollectionSettings := {}
  hashing : Hashing
  qdrantIsConfigured : Bool := true
  /-- `uuid5(document.id, str(index))`, taken to give every chunk an id of its own. -/
  chunkId : Uuid → ℕ → Id
  injective : ∀ {document index other index'}, chunkId document index = chunkId other index' →
    document = other ∧ index = index'

/-- An index task, with the document as its session has it. -/
inductive IndexTask (Id : Type) where
  | enqueued (docId : Uuid)
  | started (document : UserDocument)
  | written (document : UserDocument) (model : Option String) (collection : String)
      (points : List (Point Id))

namespace IndexTask

variable {Id : Type}

def document? : IndexTask Id → Option UserDocument
  | .enqueued _ => none
  | .started document | .written document _ _ _ => some document

def docId : IndexTask Id → Uuid
  | .enqueued docId => docId
  | .started document | .written document _ _ _ => document.id

theorem docId_of_document? {t : IndexTask Id} {document : UserDocument}
    (has : document ∈ t.document?) : document.id = t.docId := by
  cases t with
  | enqueued docId => cases has
  | started document => exact congrArg UserDocument.id (Option.some.inj has).symm
  | written document model collection points =>
    exact congrArg UserDocument.id (Option.some.inj has).symm

def isWritten : IndexTask Id → Bool
  | .written _ _ _ _ => true
  | _ => false

end IndexTask

/-- What an index task is given, errors with their texts. -/
structure Given where
  /-- The cleaned text of the file. -/
  text : Except String String
  split : String → List String
  embed : List String → Except String (List (List ℚ))
  /-- The model of the embedding service after that. -/
  model : Option String
  /-- The collection is ensured, and the points pass the checks of `upsert_points`. -/
  checked : Except String Unit

structure Library (Id : Type) where
  documents : Table UserDocument.id
  tasks : List (IndexTask Id) := []
  store : Store Id
  /-- The documents that were deleted. -/
  deleted : List Uuid := []
  /-- The collection and the points of the last successful indexing of each document. -/
  lastIndexed : Uuid → String × List (Point Id) := fun _ => ("", [])
  /-- What was last written of each document. -/
  lastWritten : Uuid → String × List (Point Id) := fun _ => ("", [])

inductive Action where
  | upload (docId userId : Uuid) (filename : String)
  | rename (userId docId : Uuid) (name : String)
  | retry (userId docId : Uuid)
  | delete (userId docId : Uuid)
  /-- A task loads its document; the media asset is found, or not. -/
  | start (i : ℕ) (assetFound : Bool)
  | write (i : ℕ) (given : Given)
  | finish (i : ℕ)

def Library.empty {Id : Type} : Library Id where
  documents := Table.empty
  store _ := Table.empty

section Steps

variable {Id : Type} [DecidableEq Id] (dep : Deployment Id)

def Library.getOwned (w : Library Id) (docId userId : Uuid) : Option UserDocument :=
  (w.documents.find? docId).filter fun d => d.userId = userId

def Library.update (w : Library Id) (docId : Uuid) (f : UserDocument → UserDocument)
    (keeps : ∀ d, (f d).id = d.id) : Library Id :=
  { w with documents := w.documents.modify docId f keeps }

/-- `_mark_failed`, and the end of the task. -/
def Library.fail (w : Library Id) (i : ℕ) (docId : Uuid) (reason : String) : Library Id :=
  { w.update docId (fun d => { d with
      status := .failed
      errorMessage := some (String.ofList (reason.toList.take 2000)) }) fun _ => rfl with
    tasks := w.tasks.eraseIdx i }

def chunkPayload (document : UserDocument) (model : Option String) (index : ℕ) (chunk : String) :
    Payload :=
  [("text", .str chunk), ("doc_id", .str document.id.text), ("file_id", .str document.id.text),
    ("user_id", .str document.userId.text), ("embedding_model", model.elim .null .str),
    ("filename", .str document.filename), ("chunk_index", .int index), ("page", .int 0),
    ("source", .str "user_upload")]

def chunkPoint (document : UserDocument) (model : Option String) (index : ℕ)
    (chunk : String × List ℚ) : Point Id where
  id := dep.chunkId document.id index
  vector := chunk.2
  payload := chunkPayload document model index chunk.1

def indexPoints (document : UserDocument) (g : Given) : Except String (String × List (Point Id)) :=
  g.text.bind fun text =>
  if text = "" then .error "Empty content after parsing"
  else if g.split text = [] then .error "Chunking produced no content"
  else if ¬ dep.qdrantIsConfigured then .error "Qdrant not configured"
  else
    (g.embed (g.split text)).bind fun vectors =>
    if vectors = [] then .error "Embedding returned empty vectors"
    else
      (getUserMemoryCollectionName dep.settings dep.hashing document.userId g.model).bind fun name =>
      g.checked.map fun _ =>
        (name, ((g.split text).zip vectors).mapIdx (chunkPoint dep document g.model))

/-- `_resolve_user_collection_name`, without a fallback to the current model. -/
def resolveUserCollectionName (userId : Uuid) (embeddingModel : Option String) : Option String :=
  (getUserMemoryCollectionName dep.settings dep.hashing userId
    (given (embeddingModel.map strip))).toOption

def deletedFrom (document : UserDocument) : Option String :=
  if dep.qdrantIsConfigured then resolveUserCollectionName dep document.userId document.embeddingModel
  else none

def deleteDocumentVectors (store : Store Id) (document : UserDocument) : Store Id :=
  match deletedFrom dep document with
  | some name =>
    Function.update store name ((store name).delete
      [.field "user_id" document.userId.text, .field "doc_id" document.id.text])
  | none => store

def commitRow (loaded : UserDocument) (chunkCount : ℕ) (model : Option String) (row : UserDocument) :
    UserDocument :=
  { row with
    status := .indexed
    chunkCount := if loaded.chunkCount = chunkCount then row.chunkCount else chunkCount
    embeddingModel := if loaded.embeddingModel = model then row.embeddingModel else model }

def libraryStep (w : Library Id) : Action → Option (Library Id)
  | .upload docId userId filename =>
    -- `uuid4()` gives an id that was never used
    if docId ∈ w.deleted then none
    else
      (w.documents.insert? { id := docId, userId, filename }).map fun documents =>
        { w with
          documents
          tasks := w.tasks ++ [.enqueued docId]
          lastIndexed := Function.update w.lastIndexed docId ("", [])
          lastWritten := Function.update w.lastWritten docId ("", []) }
  | .rename userId docId name =>
    match w.getOwned docId userId with
    | some _ =>
      if strip name = "" then some w
      else some (w.update docId (fun d => { d with filename := strip name }) fun _ => rfl)
    | none => some w
  | .retry userId docId =>
    match w.getOwned docId userId with
    | some document =>
      if document.status = .processing then some w
      else
        some { w.update docId (fun d => { d with
            status := .pending
            errorMessage := none
            chunkCount := 0
            embeddingModel := none }) fun _ => rfl with
          tasks := w.tasks ++ [.enqueued docId] }
    | none => some w
  | .delete userId docId =>
    match w.getOwned docId userId with
    | some document =>
      some { w with
        documents := w.documents.erase docId
        store := deleteDocumentVectors dep w.store document
        deleted := docId :: w.deleted }
    | none => some w
  | .start i assetFound =>
    match w.tasks[i]? with
    | some (.enqueued docId) =>
      match w.documents.find? docId with
      | none => some { w with tasks := w.tasks.eraseIdx i }
      | some document =>
        if assetFound then
          let processing (d : UserDocument) : UserDocument :=
            { d with status := .processing, errorMessage := none }
          some { w.update docId processing fun _ => rfl with
            tasks := w.tasks.set i (.started (processing document)) }
        else some (w.fail i docId "Linked media asset not found")
    | _ => none
  | .write i g =>
    match w.tasks[i]? with
    | some (.started document) =>
      match indexPoints dep document g with
      | .error reason => some (w.fail i document.id reason)
      | .ok (name, points) =>
        some { w with
          store := Function.update w.store name ((w.store name).upsertAll points)
          tasks := w.tasks.set i (.written document g.model name points)
          lastWritten := Function.update w.lastWritten document.id (name, points) }
    | _ => none
  | .finish i =>
    match w.tasks[i]? with
    | some (.written document model name points) =>
      match w.documents.find? document.id with
      -- the commit finds no row, and neither does the one of `_mark_failed`
      | none => some { w with tasks := w.tasks.eraseIdx i }
      | some _ =>
        some { w.update document.id (commitRow document points.length model) fun _ => rfl with
          tasks := w.tasks.eraseIdx i
          lastIndexed := Function.update w.lastIndexed document.id (name, points) }
    | _ => none

end Steps
end Deeting.Knowledge
