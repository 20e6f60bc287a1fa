import Deeting.Knowledge.Coherence
import Deeting.Memory.Management
import Mathlib.Data.List.Lex

/-! Memories and the chunks of documents have the owner in common and, for one model, the
collection. Requests that name a point keep all others; a listing, a clearing and the deletion of
a document go by payloads, and keep apart what the payloads tell apart. -/
namespace Deeting.Memory
open Deeting.Vector Knowledge Transition

section Stores

variable {Id : Type} {env : Environment Id} {service : QdrantUserVectorService} {w : World Id}
  {o : Outside} {reply : Reply Id}

theorem inCollection_store {located : World Id × Located}
    {request : World Id → String → World Id × Except VectorError (Reply Id)}
    (same : located.1.store = w.store)
    (keeps : ∀ v name, v.store = w.store → (request v name).1.store = w.store) :
    (inCollection located reply request).1.store = w.store := by
  obtain ⟨v, found⟩ := located
  cases found with
  | found name => exact keeps v name same
  | degraded => exact same
  | raised error => exact same

variable [LinearOrder Id]

theorem getPoint_store (env : Environment Id) (service : QdrantUserVectorService) (w : World Id)
    (pointId : String) (o : Outside) : (getPoint env service w pointId o).1.store = w.store := by
  unfold getPoint
  dsimp only
  split
  · rfl
  · apply inCollection_store currentCollection_store
    intro v name same
    simp [Vector.read, same]

theorem upsert_store (env : Environment Id) (service : QdrantUserVectorService) (w : World Id)
    (content : String) (payload : Option Payload) (id : Option String) (o : Outside) :
    (upsert env service w content payload id o).1.store = w.store ∨
      ∃ name pid vector stored, upsertTarget env service w o content id = some (name, pid) ∧
        (upsert env service w content payload id o).1.store =
          Function.update w.store name ((w.store name).upsert ⟨pid, vector, stored⟩) := by
  unfold upsert upsertTarget
  dsimp only
  cases o.embed content with
  | none => exact .inl rfl
  | some vector =>
    have same : (ensureCollection env service (w.refreshEmbeddingModel o) vector.length o).1.store =
        w.store := by simp
    dsimp only
    generalize ensureCollection env service (w.refreshEmbeddingModel o) vector.length o = located
      at same
    obtain ⟨v, found⟩ := located
    cases found with
    | raised error => exact .inl same
    | degraded => exact .inl same
    | found name =>
      replace same : v.store = w.store := same
      simp only [inCollection]
      generalize orDefault (id.getD "") o.fresh = written
      split
      · exact .inl same
      · split
        · exact .inl same
        · rename_i hasId hasVector
          simp only [change, hasId, hasVector, false_or]
          cases read : env.pointId (strip written) with
          | none => exact .inl (by simpa using same)
          | some pid =>
            cases carried : o.carried with
            | false => exact .inl same
            | true =>
              refine .inr ⟨name, pid, vector,
                basePayload service v ((payload.getD []).set "content" (.str content)), by simp, ?_⟩
              simp [same]

theorem mem_inCollection_delete {located : World Id × Located} (filter : World Id → Vector.Filter Id)
    (same : located.1.store = w.store) {other : String} {p : Point Id} :
    p ∈ ((inCollection located .done fun v name =>
        change service v name .done o fun c => c.delete (filter v)).1.store other).rows ↔
      p ∈ (w.store other).rows ∧ (o.carried = true → located.2.name? = some other →
        ¬ (filter located.1).selects p) := by
  obtain ⟨v, found⟩ := located
  replace same : v.store = w.store := same
  cases found with
  | degraded => simp [inCollection, Located.name?, same]
  | raised error => simp [inCollection, Located.name?, same]
  | found name =>
    simp only [inCollection, change, same, Located.name?, Option.some.injEq]
    cases o.carried with
    | false => simp
    | true =>
      by_cases here : name = other
      · subst here
        simp [Collection.mem_delete]
      · simp [here, Function.update_of_ne (Ne.symm here)]

theorem mem_delete_ids {ids : List String} {name : String} {p : Point Id} (some_ : ids ≠ []) :
    p ∈ ((delete env service w ids o).1.store name).rows ↔
      p ∈ (w.store name).rows ∧ (o.carried = true →
        (currentCollection env service w o).2.name? = some name →
          ¬ (ownFilter service ++ [.hasId (ids.filterMap env.pointId)] : Vector.Filter Id).selects p) := by
  have requested : (delete env service w ids o).1 =
      (inCollection (currentCollection env service w o) .done fun w name =>
        change service w name .done o fun c =>
          c.delete (ownFilter service ++ [.hasId (ids.filterMap env.pointId)])).1 := by
    rw [delete, if_neg some_]
  rw [requested]
  exact mem_inCollection_delete _ currentCollection_store

theorem mem_clearAll {name : String} {p : Point Id} :
    p ∈ ((clearAll env service w o).1.store name).rows ↔
      p ∈ (w.store name).rows ∧ (o.carried = true →
        (currentCollection env service w o).2.name? = some name →
          ¬ (baseFilter service (currentCollection env service w o).1 : Vector.Filter Id).selects p) :=
  mem_inCollection_delete (baseFilter service) currentCollection_store

/-- A service that raises lists the page of its collection, if the request is answered. -/
theorem mem_listPoints (env : Environment Id) (service : QdrantUserVectorService) (w : World Id)
    (limit : ℤ) (cursor : Option Id) (o : Outside) (item : Item Id)
    (raises : service.failOpen = false) :
    item ∈ repliedItems (listPoints env service w limit cursor o).2 ↔
      ∃ name, (currentCollection env service w o).2.name? = some name ∧ o.carried = true ∧
        o.answered = true ∧ ∃ p ∈ ((w.store name).scroll
          (baseFilter service ((currentCollection env service w o).1.refreshEmbeddingModel o))
          (scrollLimit limit) cursor).1, p.item none = item := by
  have same : (currentCollection env service w o).1.store = w.store := currentCollection_store
  unfold listPoints
  generalize currentCollection env service w o = located at same
  obtain ⟨v, found⟩ := located
  replace same : v.store = w.store := same
  cases found with
  | degraded => simp [inCollection, Located.name?, repliedItems, Reply.items]
  | raised error => simp [inCollection, Located.name?, repliedItems]
  | found name =>
    simp only [inCollection, Vector.read, Located.name?, Option.some.injEq, exists_eq_left',
      refreshEmbeddingModel_store, same]
    cases o.answered with
    | false => simp [caught, raises, repliedItems]
    | true =>
      cases o.carried with
      | false => simp [caught, repliedItems, Reply.items]
      | true => simp [caught, repliedItems, Reply.items]

end Stores

section Statement

variable {Id : Type} [LinearOrder Id] (host : Host Id) (userId : Uuid)

/-- A chunk of a document: an indexing wrote last under its id. -/
def Memories.Chunk (w : Memories Id) (name : String) (p : Point Id) : Prop :=
  p ∈ (w.store name).rows ∧ (name, p.id) ∈ w.indexed

def Memories.Remembered (w : Memories Id) (name : String) (p : Point Id) : Prop :=
  p ∈ (w.store name).rows ∧ (name, p.id) ∉ w.indexed

def namedId (memoryId : String) : List Id := [memoryId, strip memoryId].filterMap host.pointId

def Operation.named : Operation Id → List Id
  | .update memoryId _ | .delete memoryId | .rollback memoryId _ => namedId host memoryId
  | .list _ _ | .clear => []

/-- A memory operation leaves every chunk as it is that its caller does not name, and lists
none; a deletion of a document leaves every memory. -/
def Apart (w t : Memories Id) : Action Id → Prop
  | .memory operation _ =>
      (∀ name p, w.Chunk name p → p.id ∉ operation.named host → p ∈ (t.store name).rows) ∧
        ∀ name item, (name, item) ∈ t.shown → ∀ p, w.Chunk name p → item ≠ p.item none
  | .deleteVectors _ _ => ∀ name p, w.Remembered name p → p ∈ (t.store name).rows
  | .index _ _ => True

def ofUser (userId : Uuid) : Vector.Filter Id := [.field "user_id" userId.text]

/-- The filter of `_delete_document_vectors`. -/
def ofDocument (document : UserDocument) : Vector.Filter Id :=
  [.field "user_id" document.userId.text, .field "doc_id" document.id.text]

/-- A page that is listed has no chunk of a document, nor has a collection that is cleared; and a
memory that carries the id of a document is not there when the document is deleted. -/
def Keeps (w : Memories Id) : Action Id → Prop
  | .memory (.list limit cursor) r => host.qdrantIsConfigured = true → r.reading.carried = true →
      r.reading.answered = true → ∀ name, place host userId w r = some name →
        ∀ p ∈ ((w.store name).scroll (ofUser userId) (scrollLimit limit) cursor).1,
          (name, p.id) ∉ w.indexed
  | .memory .clear r => host.qdrantIsConfigured = true → r.reading.carried = true →
      ∀ name, place host userId w r = some name → ∀ p, ¬ w.Chunk name p
  | .deleteVectors document carried => carried = true →
      ∀ name, deletedFrom host.toDeployment document = some name → ∀ p, w.Remembered name p →
        ¬ (ofDocument document).selects p
  | _ => True

def Memories.Owned (w : Memories Id) : Prop :=
  ∀ name p, w.Chunk name p → p.payload.get? "user_id" = some (.str userId.text)

end Statement

section Steps

variable {Id : Type} {w t : Memories Id}

structure Touches (ids : List Id) (w t : Memories Id) : Prop where
  kept : ∀ name, ∀ p ∈ (w.store name).rows, p.id ∉ ids → p ∈ (t.store name).rows
  chunk : ∀ name p, t.Chunk name p → w.Chunk name p
  shown : t.shown = w.shown

theorem Touches.refl (ids : List Id) (w : Memories Id) : Touches ids w w :=
  ⟨fun _ _ mem _ => mem, fun _ _ => id, rfl⟩

@[simp] theorem commit_store {snapshot : MemorySnapshot} {done : Bool} :
    (w.commit snapshot done).store = w.store := by
  unfold Memories.commit
  split <;> rfl

@[simp] theorem commit_indexed {snapshot : MemorySnapshot} {done : Bool} :
    (w.commit snapshot done).indexed = w.indexed := by
  unfold Memories.commit
  split <;> rfl

@[simp] theorem commit_shown {snapshot : MemorySnapshot} {done : Bool} :
    (w.commit snapshot done).shown = w.shown := by
  unfold Memories.commit
  split <;> rfl

variable [LinearOrder Id] {host : Host Id} {userId : Uuid}

theorem recall_store {memoryId : String} {r : Request} {v : World Id} {found : Option (Item Id)}
    (recalled : fetchPoint host userId w memoryId r = some (v, found)) : v.store = w.store := by
  unfold fetchPoint at recalled
  have same := getPoint_store host.environment (host.service userId) (w.opened r) memoryId r.reading
  split at recalled
  · rename_i got
    cases recalled
    rw [got] at same
    exact same
  · cases recalled

omit [LinearOrder Id] in
theorem pointId_of_upsertTarget {env : Environment Id} {service : QdrantUserVectorService}
    {v : World Id} {o : Outside} {content memoryId name : String} {pid : Id}
    (given : memoryId ≠ "")
    (target : upsertTarget env service v o content memoryId = some (name, pid)) :
    env.pointId (strip memoryId) = some pid := by
  unfold upsertTarget at target
  split at target
  · cases target
  · split at target
    · dsimp only at target
      split at target
      · cases target
      · obtain ⟨other, read, same⟩ := Option.map_eq_some_iff.mp target
        cases same
        simpa [orDefault, given] using read
    · cases target

theorem touches_writeBack {v : World Id} {memoryId content : String} {metadata : Option Payload}
    {snapshot : MemorySnapshot} {r : Request} (given : memoryId ≠ "") (same : v.store = w.store) :
    Touches (namedId host memoryId) w
      (writeBack host userId w v memoryId content metadata snapshot r) := by
  unfold writeBack
  split
  swap
  · exact .refl _ _
  rcases upsert_store host.environment (host.service userId) v content metadata memoryId r.writing
    with idle | ⟨name, pid, vector, stored, target, replaced⟩
  · refine ⟨fun name p mem _ => ?_, fun name p chunk => ?_, by simp⟩
    · simpa [idle, same] using mem
    · obtain ⟨mem, listed⟩ := chunk
      simp only [commit_store, idle, same] at mem
      simp only [commit_indexed] at listed
      exact ⟨mem, (List.mem_filter.mp listed).1⟩
  · have named : pid ∈ namedId host memoryId := by
      have read : host.pointId (strip memoryId) = some pid := pointId_of_upsertTarget given target
      exact List.mem_filterMap.mpr ⟨strip memoryId, by simp, read⟩
    refine ⟨fun other p mem foreign => ?_, fun other p chunk => ?_, by simp⟩
    · simp only [commit_store, replaced, same]
      by_cases here : other = name
      · subst here
        rw [Function.update_self]
        exact Collection.mem_upsert.mpr (.inl ⟨mem, fun same => foreign (same ▸ named)⟩)
      · rwa [Function.update_of_ne here]
    · obtain ⟨mem, listed⟩ := chunk
      simp only [commit_store, replaced, same] at mem
      simp only [commit_indexed] at listed
      obtain ⟨before, untouched⟩ := List.mem_filter.mp listed
      refine ⟨?_, before⟩
      by_cases here : other = name
      · subst here
        rw [Function.update_self] at mem
        rcases Collection.mem_upsert.mp mem with ⟨old, -⟩ | rfl
        · exact old
        · simp [target] at untouched
      · rwa [Function.update_of_ne here] at mem

theorem touches_updateMemory {memoryId : String} {request : MemoryUpdateRequest} {r : Request}
    (given : memoryId ≠ "") :
    Touches (namedId host memoryId) w (updateMemory host userId w memoryId request r) := by
  unfold updateMemory
  split
  · exact .refl _ _
  · rename_i recalled
    exact touches_writeBack given (recall_store recalled)

theorem touches_rollbackMemory {memoryId : String} {snapshotId : ℕ} {r : Request}
    (given : memoryId ≠ "") :
    Touches (namedId host memoryId) w (rollbackMemory host userId w memoryId snapshotId r) := by
  unfold rollbackMemory
  split
  · exact .refl _ _
  · split
    · exact .refl _ _
    · rename_i recalled
      exact touches_writeBack given (recall_store recalled)

theorem touches_deleteMemory {memoryId : String} {r : Request} :
    Touches (namedId host memoryId) w (deleteMemory host userId w memoryId r) := by
  unfold deleteMemory
  split
  · exact .refl _ _
  · rename_i v found recalled
    split
    swap
    · exact .refl _ _
    have same := recall_store recalled
    refine ⟨fun name p mem foreign => ?_, fun name p chunk => ?_, by simp⟩
    · simp only [commit_store]
      refine (mem_delete_ids (by simp)).mpr ⟨same ▸ mem, fun _ _ selected => foreign ?_⟩
      have holds := Vector.Filter.holds_of_selects selected (List.mem_append_right _ List.mem_cons_self)
      obtain ⟨text, mem, read⟩ := List.mem_filterMap.mp (of_decide_eq_true holds)
      rw [List.mem_singleton.mp mem] at read
      exact List.mem_filterMap.mpr ⟨memoryId, by simp, read⟩
    · obtain ⟨mem, listed⟩ := chunk
      simp only [commit_store] at mem
      exact ⟨same ▸ ((mem_delete_ids (by simp)).mp mem).1, by simpa using listed⟩

theorem mem_clearMemories {r : Request} {name : String} {p : Point Id} :
    p ∈ ((clearMemories host userId w r).store name).rows ↔
      p ∈ (w.store name).rows ∧ (r.reading.carried = true → place host userId w r = some name →
        ¬ (ofUser userId : Vector.Filter Id).selects p) :=
  mem_clearAll

theorem selects_ofUser {p : Point Id} (owned : p.payload.get? "user_id" = some (.str userId.text)) :
    (ofUser userId : Vector.Filter Id).selects p := by
  simp [ofUser, Vector.Filter.selects, Condition.holds, owned, hasText]

theorem mem_shown {limit : ℤ} {cursor : Option Id} {r : Request} {name : String} {item : Item Id} :
    (name, item) ∈ (listMemories host userId w limit cursor r).shown ↔
      place host userId w r = some name ∧ r.reading.carried = true ∧ r.reading.answered = true ∧
        ∃ p ∈ ((w.store name).scroll (ofUser userId) (scrollLimit limit) cursor).1,
          p.item none = item := by
  have listed (item : Item Id) := mem_listPoints host.environment (host.service userId) (w.opened r)
    limit cursor r.reading item rfl
  simp only [listMemories, List.mem_flatMap, List.mem_map, Prod.mk.injEq, Option.mem_toList]
  constructor
  · rintro ⟨_, placed, found, shown, rfl, rfl⟩
    obtain ⟨name, same, carried, answered, listing⟩ := (listed found).mp shown
    cases placed.symm.trans same
    exact ⟨placed, carried, answered, listing⟩
  · rintro ⟨placed, carried, answered, listing⟩
    have shown := (listed item).mpr ⟨name, placed, carried, answered, listing⟩
    exact ⟨name, placed, item, shown, rfl, rfl⟩

theorem mem_deleteDocumentVectors {dep : Deployment Id} {store : Store Id} {document : UserDocument}
    {name : String} {p : Point Id} :
    p ∈ (deleteDocumentVectors dep store document name).rows ↔ p ∈ (store name).rows ∧
      (deletedFrom dep document = some name → ¬ (ofDocument document).selects p) := by
  unfold deleteDocumentVectors
  cases from_ : deletedFrom dep document with
  | none => simp
  | some other =>
    by_cases here : other = name
    · subst here
      simp [Collection.mem_delete, ofDocument]
    · simp [here, Function.update_of_ne (Ne.symm here)]

theorem indexDocument_chunk {document : UserDocument} {g : Given} {name : String} {p : Point Id}
    (chunk : (indexDocument host userId w document g).Chunk name p) :
    w.Chunk name p ∨ p.payload.get? "user_id" = some (.str userId.text) := by
  unfold indexDocument at chunk
  split at chunk
  swap
  · exact .inl chunk
  rename_i own
  split at chunk
  swap
  · exact .inl chunk
  rename_i target points prepared
  obtain ⟨chunks, rfl⟩ := indexPoints_eq_ok prepared
  have numbered : Numbered host.toDeployment document.id
      (chunks.mapIdx (chunkPoint host.toDeployment document g.model)) :=
    numbered_mapIdx g.model chunks
  obtain ⟨mem, listed⟩ := chunk
  simp only at mem listed
  by_cases here : name = target
  · subst here
    rw [Function.update_self, Collection.mem_upsertAll numbered.distinct] at mem
    rcases mem with ⟨old, fresh⟩ | new
    · rcases List.mem_append.mp listed with now | before
      · obtain ⟨q, mem, same⟩ := List.mem_map.mp now
        exact absurd (List.mem_map.mpr ⟨q, mem, congrArg Prod.snd same⟩) fresh
      · exact .inl ⟨old, before⟩
    · obtain ⟨k, _, rfl⟩ := List.exists_of_mem_mapIdx new
      right
      simp [chunkPoint, chunkPayload, Payload.get?, Json.get?, own]
  · rw [Function.update_of_ne here] at mem
    rcases List.mem_append.mp listed with now | before
    · obtain ⟨q, _, same⟩ := List.mem_map.mp now
      exact absurd (congrArg Prod.fst same).symm here
    · exact .inl ⟨mem, before⟩

omit [LinearOrder Id] in
theorem touches_guarded {ids : List Id} {memoryId : String} {t : Memories Id}
    (touches : memoryId ≠ "" → Touches ids w t) :
    Touches ids w (if memoryId = "" then w else t) := by
  split
  · exact .refl _ _
  · rename_i given
    exact touches given

theorem operate_chunk {operation : Operation Id} {r : Request} {name : String} {p : Point Id}
    (chunk : (operate host userId w r operation).Chunk name p) : w.Chunk name p := by
  cases operation with
  | list limit cursor => exact chunk
  | clear => exact ⟨(mem_clearMemories.mp chunk.1).1, chunk.2⟩
  | update memoryId request =>
    exact (touches_guarded touches_updateMemory).chunk name p chunk
  | delete memoryId =>
    exact (touches_guarded fun _ => touches_deleteMemory).chunk name p chunk
  | rollback memoryId snapshotId =>
    exact (touches_guarded touches_rollbackMemory).chunk name p chunk

theorem Memories.Owned.step {a : Action Id} (owned : w.Owned userId) :
    (step host userId w a).Owned userId := by
  obtain ⟨v, hidden⟩ : ∃ v : Memories Id, v = { w with shown := [] } := ⟨_, rfl⟩
  have kept : v.Owned userId := by
    rw [hidden]
    exact owned
  intro name p chunk
  cases a with
  | index document g =>
    simp only [Memory.step, ← hidden] at chunk
    exact (indexDocument_chunk chunk).elim (kept name p) id
  | deleteVectors document carried =>
    refine owned name p ⟨?_, chunk.2⟩
    have mem := chunk.1
    simp only [Memory.step] at mem
    split at mem
    · exact (mem_deleteDocumentVectors.mp mem).1
    · exact mem
  | memory operation r =>
    simp only [Memory.step, ← hidden] at chunk
    split at chunk
    · exact kept name p (operate_chunk chunk)
    · exact kept name p chunk

omit [LinearOrder Id] in
theorem apart_of_touches {operation : Operation Id} {r : Request} (hidden : w.shown = [])
    (touches : Touches (operation.named host) w t) : Apart host w t (.memory operation r) := by
  refine ⟨fun name p chunk foreign => touches.kept name p chunk.1 foreign, fun name item mem => ?_⟩
  rw [touches.shown, hidden] at mem
  cases mem

theorem apart_list_iff {limit : ℤ} {cursor : Option Id} {r : Request} :
    Apart host w (listMemories host userId w limit cursor r) (.memory (.list limit cursor) r) ↔
      (r.reading.carried = true → r.reading.answered = true → ∀ name,
        place host userId w r = some name →
          ∀ p ∈ ((w.store name).scroll (ofUser userId) (scrollLimit limit) cursor).1,
            (name, p.id) ∉ w.indexed) := by
  constructor
  · rintro ⟨-, unlisted⟩ carried answered name placed p listed chunk
    have there := (Collection.mem_of_mem_scroll listed).1
    have shown := mem_shown.mpr ⟨placed, carried, answered, p, listed, rfl⟩
    exact unlisted name (p.item none) shown p ⟨there, chunk⟩ rfl
  · intro clean
    refine ⟨fun name p chunk _ => chunk.1, fun name item mem p chunk same => ?_⟩
    obtain ⟨placed, carried, answered, q, listed, rfl⟩ := mem_shown.mp mem
    have there := (Collection.mem_of_mem_scroll listed).1
    have one : q = p := Collection.eq_of_id there chunk.1 (congrArg Item.id same)
    exact clean carried answered name placed q listed (one ▸ chunk.2)

theorem apart_clear_iff {r : Request} (owned : w.Owned userId) (hidden : w.shown = []) :
    Apart host w (clearMemories host userId w r) (.memory .clear r) ↔
      (r.reading.carried = true → ∀ name, place host userId w r = some name →
        ∀ p, ¬ w.Chunk name p) := by
  constructor
  · rintro ⟨kept, -⟩ carried name placed p chunk
    have left := mem_clearMemories.mp (kept name p chunk List.not_mem_nil)
    exact left.2 carried placed (selects_ofUser (owned name p chunk))
  · intro clean
    refine ⟨fun name p chunk _ => ?_, fun name item mem => ?_⟩
    · exact mem_clearMemories.mpr
        ⟨chunk.1, fun carried placed => absurd chunk (clean carried name placed p)⟩
    · have none : (clearMemories host userId w r).shown = [] := hidden
      rw [none] at mem
      cases mem

theorem apart_deleteVectors_iff {document : UserDocument} {carried : Bool} :
    Apart host w (step host userId w (.deleteVectors document carried))
        (.deleteVectors document carried) ↔
      Keeps host userId w (.deleteVectors document carried) := by
  constructor
  · intro apart lost name from_ p remembered
    have left := apart name p remembered
    simp only [step, lost, if_true] at left
    exact (mem_deleteDocumentVectors.mp left).2 from_
  · intro clean name p remembered
    simp only [step]
    split
    · rename_i carried
      exact mem_deleteDocumentVectors.mpr
        ⟨remembered.1, fun from_ => clean carried name from_ p remembered⟩
    · exact remembered.1

/-- A step keeps memories and documents apart just where it is so from the state before. -/
theorem apart_step_iff {a : Action Id} (owned : w.Owned userId) :
    Apart host w (step host userId w a) a ↔ Keeps host userId w a := by
  obtain ⟨v, hidden⟩ : ∃ v : Memories Id, v = { w with shown := [] } := ⟨_, rfl⟩
  have none : v.shown = [] := by rw [hidden]
  have kept : v.Owned userId := by
    rw [hidden]
    exact owned
  cases a with
  | index document g => exact iff_of_true trivial trivial
  | deleteVectors document carried => exact apart_deleteVectors_iff
  | memory operation r =>
    have same (t : Memories Id) : Apart host w t (.memory operation r) ↔
        Apart host v t (.memory operation r) := by
      rw [hidden]
      rfl
    have keeps : Keeps host userId w (.memory operation r) ↔
        Keeps host userId v (.memory operation r) := by
      rw [hidden]
      rfl
    rw [same, keeps]
    simp only [step, ← hidden]
    split
    · rename_i configured
      cases operation with
      | list limit cursor =>
        simp only [operate, Keeps, configured, true_imp_iff]
        exact apart_list_iff
      | clear =>
        simp only [operate, Keeps, configured, true_imp_iff]
        exact apart_clear_iff kept none
      | update memoryId request =>
        exact iff_of_true (apart_of_touches none (touches_guarded touches_updateMemory)) trivial
      | delete memoryId =>
        exact iff_of_true
          (apart_of_touches none (touches_guarded fun _ => touches_deleteMemory)) trivial
      | rollback memoryId snapshotId =>
        exact iff_of_true (apart_of_touches none (touches_guarded touches_rollbackMemory)) trivial
    · rename_i missing
      refine iff_of_true (apart_of_touches none (.refl _ _)) ?_
      cases operation <;> simp [Keeps, missing]

end Steps

/-- In a run that starts with any memories, every step keeps memories and documents apart if and
only if it is so from the state before it. -/
theorem apart_throughout_iff {Id : Type} [LinearOrder Id] (host : Host Id) (userId : Uuid)
    (store : Store Id) (snapshots : List MemorySnapshot) (actions : List (Action Id)) :
    Along (total (step host userId)) (fun w a => Apart host w (step host userId w a) a)
        { store, snapshots } actions ↔
      Along (total (step host userId)) (Keeps host userId) { store, snapshots } actions := by
  have start : ({ store, snapshots } : Memories Id).Owned userId := by
    rintro name p ⟨-, chunk⟩
    cases chunk
  have preserved {s t : Memories Id} {a : Action Id} (owned : s.Owned userId)
      (taken : total (step host userId) s a = some t) : t.Owned userId := by
    cases taken
    exact owned.step
  constructor
  · exact along_of_invariant (fun owned _ taken => preserved owned taken)
      (fun owned apart => (apart_step_iff owned).mp apart) start
  · exact along_of_invariant (fun owned _ taken => preserved owned taken)
      (fun owned keeps => (apart_step_iff owned).mpr keeps) start

section Mixed

def essay : Uuid := .repeated 3

/-- A collection for each user, and one id that Qdrant is given, of the first chunk of `essay`. -/
def plainHost : Host (List ℕ) where
  hashing := ⟨id, id⟩
  chunkId document index := index :: document.digits.map Fin.val
  injective {document index other index'} same := by
    obtain ⟨indices, digits⟩ := List.cons.inj same
    have equal := List.map_injective_iff.mpr Fin.val_injective digits
    cases document
    cases other
    cases equal
    exact ⟨rfl, indices⟩
  pointId text := if text = "chunk" then some (0 :: essay.digits.map Fin.val) else none
  similarity _ _ := 0

def indexEssay : Action (List ℕ) :=
  .index { id := essay, userId := alice, filename := "essay.txt", embeddingModel := some "m" }
    { text := .ok "text", split := fun text => [text], embed := fun _ => .ok [[1]]
      model := some "m", checked := .ok () }

def plainRequest : Request := ⟨some "m", answering, answering, true, true⟩

/-- The document is indexed, and nothing was there before. -/
def stored : Memories (List ℕ) :=
  step plainHost alice { store := fun _ => Table.empty } indexEssay

def listing : Action (List ℕ) := .memory (.list 20 none) plainRequest

def clearing : Action (List ℕ) := .memory .clear plainRequest

/-- The chunk is rewritten as a memory, under its id, and the document is deleted. -/
def rewriting : Action (List ℕ) := .memory (.update "chunk" { content := "mine" }) plainRequest

def deleting : Action (List ℕ) :=
  .deleteVectors
    { id := essay, userId := alice, filename := "essay.txt", embeddingModel := some "m" } true

def home : String := "user_memory_" ++ alice.hex

/-- The chunk is listed as a memory and cleared with the memories; and a memory goes with the
document whose chunk it was made of. -/
theorem mixed_up :
    ¬ Apart plainHost stored (step plainHost alice stored listing) listing ∧
    ¬ Apart plainHost stored (step plainHost alice stored clearing) clearing ∧
    ¬ Apart plainHost (step plainHost alice stored rewriting)
      (step plainHost alice (step plainHost alice stored rewriting) deleting) deleting := by
  have before : ((stored.store home).rows.map Point.id, stored.indexed) =
      ([0 :: essay.digits.map Fin.val], [(home, 0 :: essay.digits.map Fin.val)]) := by
    decide +kernel
  obtain ⟨points, chunks⟩ := Prod.mk.inj before
  obtain ⟨p, rows, named⟩ := List.map_eq_singleton_iff.mp points
  have chunk : stored.Chunk home p := ⟨by simp [rows], by simp [chunks, named]⟩
  refine ⟨fun apart => ?_, fun apart => ?_, fun apart => ?_⟩
  · have shown : ((step plainHost alice stored listing).shown.map fun s => (s.1, s.2.id)) =
        [(home, 0 :: essay.digits.map Fin.val)] := by decide +kernel
    obtain ⟨⟨name, item⟩, listed, same⟩ := List.map_eq_singleton_iff.mp shown
    obtain ⟨rfl, itemId⟩ := Prod.mk.inj same
    have mem : (home, item) ∈ (step plainHost alice stored listing).shown := by simp [listed]
    obtain ⟨-, -, -, q, page, rfl⟩ := mem_shown.mp mem
    have named : q.id = 0 :: essay.digits.map Fin.val := itemId
    have chunk : stored.Chunk home q :=
      ⟨(Collection.mem_of_mem_scroll page).1, by simp [chunks, named]⟩
    have unlisted := apart.2 home (q.item none) mem q chunk
    exact unlisted rfl
  · have after : ((step plainHost alice stored clearing).store home).rows.length = 0 := by
      decide +kernel
    have kept := apart.1 home p chunk List.not_mem_nil
    rw [List.length_eq_zero_iff.mp after] at kept
    cases kept
  · have rewritten : (((step plainHost alice stored rewriting).store home).rows.length,
        (step plainHost alice stored rewriting).indexed,
        ((step plainHost alice (step plainHost alice stored rewriting) deleting).store
          home).rows.length) = (1, [], 0) := by decide +kernel
    simp only [Prod.mk.injEq] at rewritten
    obtain ⟨one, none, gone⟩ := rewritten
    obtain ⟨q, rows⟩ := List.length_eq_one_iff.mp one
    have kept := apart home q ⟨by simp [rows], by simp [none]⟩
    rw [List.length_eq_zero_iff.mp gone] at kept
    cases kept

end Mixed

end Deeting.Memory
