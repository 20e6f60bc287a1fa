import Deeting.Memory.Apart

/-! Rolling back to a snapshot. It holds the content and the metadata of the memory before the
call that recorded it, and no `None` of either is put back: an empty content is refused, and for
no metadata those of the moment are kept. -/
namespace Deeting.Memory
open Deeting.Vector Transition

structure Recollection where
  content : Option String
  metadata : Option Payload

section Undoing

def restored (before now : Option Recollection) : Option Recollection :=
  match given (before.bind Recollection.content) with
  | none => now
  | some content => some ⟨some content, before.bind Recollection.metadata <|> now.bind Recollection.metadata⟩

def Holds (memory : Option Recollection) : Prop := given (memory.bind Recollection.content) ≠ none

def Describes (memory : Option Recollection) : Prop := memory.bind Recollection.metadata ≠ none

/-- Nothing has changed, or both times there is a content, and metadata both times or neither. -/
def Reversible (before now : Option Recollection) : Prop :=
  now = before ∨ Holds before ∧ Holds now ∧ (Describes before ↔ Describes now)

variable {before now : Option Recollection}

theorem restored_of_not_holds (empty : ¬ Holds before) : restored before now = now := by
  have none : given (before.bind Recollection.content) = none := not_not.mp empty
  rw [restored, none]

/-- A content that is not empty comes back, with the metadata or else those of the moment. -/
theorem restored_of_holds (holds : Holds before) (now : Option Recollection) : ∃ content metadata,
    before = some ⟨some content, metadata⟩ ∧ content ≠ "" ∧
      restored before now = some ⟨some content, metadata <|> now.bind Recollection.metadata⟩ := by
  obtain ⟨content, there⟩ := Option.ne_none_iff_exists'.mp holds
  obtain ⟨held, nonempty⟩ := Option.filter_eq_some_iff.mp there
  obtain ⟨⟨kept, metadata⟩, rfl, same⟩ := Option.bind_eq_some_iff.mp held
  cases same
  refine ⟨content, metadata, rfl, of_decide_eq_true nonempty, ?_⟩
  rw [restored, there]
  rfl

theorem restored_eq_iff (holds : Holds before) :
    restored before now = before ↔ (Describes now → Describes before) := by
  obtain ⟨content, metadata, rfl, -, same⟩ := restored_of_holds holds now
  rw [same]
  cases metadata with
  | some metadata => simp [Describes]
  | none => simp [Describes]

theorem holds_restored (holds : Holds before) : Holds (restored before now) := by
  obtain ⟨content, metadata, -, nonempty, same⟩ := restored_of_holds holds now
  simp [Holds, same, given, nonempty]

theorem describes_restored (holds : Holds before) :
    Describes (restored before now) ↔ Describes before ∨ Describes now := by
  obtain ⟨content, metadata, rfl, -, same⟩ := restored_of_holds holds now
  rw [Describes, same]
  cases metadata with
  | some metadata => simp [Describes]
  | none => simp [Describes]

/-- Where there was a content, the rollback and a second one that undoes it both restore. -/
theorem restored_twice_iff (holds : Holds before) :
    restored before now = before ∧ restored now (restored before now) = now ↔
      Holds now ∧ (Describes before ↔ Describes now) := by
  rw [restored_eq_iff holds]
  by_cases there : Holds now
  · rw [restored_eq_iff there, describes_restored holds]
    tauto
  · rw [restored_of_not_holds there]
    refine iff_of_false ?_ fun both => there both.1
    rintro ⟨-, same⟩
    exact there (same ▸ holds_restored holds)

theorem reversible_iff_of_holds (holds : Holds before) :
    Reversible before now ↔ Holds now ∧ (Describes before ↔ Describes now) := by
  constructor
  · rintro (rfl | ⟨-, both⟩)
    · exact ⟨holds, Iff.rfl⟩
    · exact both
  · exact fun both => .inr ⟨holds, both⟩

end Undoing

section Metadata

def Plain (metadata : Option Payload) : Prop := userMetadata (metadata.getD []) = metadata

theorem plain_userMetadata (payload : Payload) : Plain (userMetadata payload) := by
  unfold Plain userMetadata
  generalize kept : payload.filter (fun entry =>
    entry.1 ∉ ["content", "user_id", "plugin_id", "embedding_model"]) = metadata
  have again : metadata.filter (fun entry =>
      entry.1 ∉ ["content", "user_id", "plugin_id", "embedding_model"]) = metadata := by
    rw [← kept, List.filter_filter]
    simp only [Bool.and_self]
  cases metadata with
  | nil => rfl
  | cons entry rest =>
    simp only [orNone, List.isEmpty_cons, Bool.false_eq_true, if_false, Option.getD_some, again]

theorem plain_bind (point : Option Recollection)
    (plain : ∀ memory ∈ point, Plain memory.metadata) :
    Plain (point.bind Recollection.metadata) := by
  cases point with
  | none => rfl
  | some memory => exact plain memory rfl

theorem Plain.orElse {first second : Option Payload} (plain : Plain first) (also : Plain second) :
    Plain (first <|> second) := by
  cases first with
  | none => exact also
  | some payload => exact plain

def UserKeys (metadata : Payload) : Prop :=
  ∀ entry ∈ metadata, entry.1 ∉ ["content", "user_id", "plugin_id", "embedding_model"]

theorem plain_orNone {metadata : Payload} (user : UserKeys metadata) : Plain (orNone metadata) := by
  cases metadata with
  | nil => rfl
  | cons entry rest =>
    have kept := List.filter_eq_self.mpr fun entry mem => decide_eq_true (user entry mem)
    simp only [Plain, userMetadata, orNone, List.isEmpty_cons, Bool.false_eq_true, if_false,
      Option.getD_some, kept]

theorem Plain.userKeys {metadata : Option Payload} (plain : Plain metadata) :
    UserKeys (metadata.getD []) := by
  intro entry mem
  cases metadata with
  | none => cases mem
  | some metadata =>
    have same : userMetadata metadata = some metadata := plain
    unfold userMetadata orNone at same
    split at same
    · cases same
    · rw [Option.getD_some, ← Option.some.inj same] at mem
      exact of_decide_eq_true (List.mem_filter.mp mem).2

theorem mem_set {payload : Payload} {key : String} {value : Json} {entry : String × Json}
    (mem : entry ∈ payload.set key value) : entry.1 = key ∨ entry ∈ payload := by
  unfold Payload.set at mem
  induction payload with
  | nil =>
    rw [List.mem_singleton.mp mem]
    exact .inl rfl
  | cons first rest ih =>
    rw [Json.setEntry] at mem
    split at mem
    · rcases List.mem_cons.mp mem with rfl | later
      · exact .inl rfl
      · exact .inr (List.mem_cons_of_mem _ later)
    · rcases List.mem_cons.mp mem with rfl | later
      · exact .inr List.mem_cons_self
      · exact (ih later).imp_right (List.mem_cons_of_mem _)

section Keys

variable {metadata : Payload} (user : UserKeys metadata) {key : String}
  (own : key ∉ ["content", "user_id", "plugin_id", "embedding_model"])
include user

theorem UserKeys.pop : UserKeys (metadata.pop key) :=
  fun entry mem => user entry (List.mem_filter.mp mem).1

include own

theorem UserKeys.set {value : Json} : UserKeys (metadata.set key value) := by
  intro entry mem
  rcases mem_set mem with same | old
  · exact same ▸ own
  · exact user entry old

theorem UserKeys.mergeText {value : Option (Option String)} :
    UserKeys (mergeText metadata key value) := by
  unfold Memory.mergeText
  split
  · exact user
  · dsimp only
    split
    · exact user.pop
    · exact user.set own

theorem UserKeys.mergeFlag {value : Option (Option Bool)} :
    UserKeys (mergeFlag metadata key value) := by
  unfold Memory.mergeFlag
  split
  · exact user
  · exact user.pop
  · exact user.set own

end Keys

theorem plain_mergeMetadata {current : Option Payload} (plain : Plain current)
    (request : MemoryUpdateRequest) : Plain (mergeMetadata current request) := by
  refine plain_orNone (.mergeFlag (.mergeFlag (.mergeText (.mergeText plain.userKeys ?_) ?_) ?_) ?_)
  all_goals decide

theorem userMetadata_set {payload : Payload} {key : String} {value : Json}
    (system : key ∈ ["content", "user_id", "plugin_id", "embedding_model"]) :
    userMetadata (payload.set key value) = userMetadata payload := by
  suffices (payload.set key value).filter (fun entry =>
      entry.1 ∉ ["content", "user_id", "plugin_id", "embedding_model"]) =
      payload.filter fun entry =>
        entry.1 ∉ ["content", "user_id", "plugin_id", "embedding_model"] by
    rw [userMetadata, this, userMetadata]
  unfold Payload.set
  induction payload with
  | nil => simp only [Json.setEntry, List.filter_cons, system, not_true_eq_false, decide_false,
      Bool.false_eq_true, if_false]
  | cons entry rest ih =>
    rw [Json.setEntry]
    split
    · rename_i same
      simp only [List.filter_cons, same, system, not_true_eq_false, decide_false,
        Bool.false_eq_true, if_false]
    · rw [List.filter_cons, List.filter_cons, ih]

theorem userMetadata_pop {payload : Payload} {key : String}
    (system : key ∈ ["content", "user_id", "plugin_id", "embedding_model"]) :
    userMetadata (payload.pop key) = userMetadata payload := by
  rw [userMetadata, Payload.pop, List.filter_filter, userMetadata]
  congr 1
  refine List.filter_congr fun entry _ => ?_
  by_cases same : entry.1 = key
  · simp [same, system]
  · simp [same]

theorem userMetadata_basePayload {service : QdrantUserVectorService} {Id : Type} {v : World Id}
    {payload : Payload} (unplugged : service.pluginId = none) :
    userMetadata (basePayload service v payload) = userMetadata payload := by
  have owned : userMetadata ((payload.set "user_id" (.str service.userId.text)).pop "plugin_id") =
      userMetadata payload :=
    (userMetadata_pop (by simp)).trans (userMetadata_set (by simp))
  simp only [basePayload, unplugged, given, Option.filter_none]
  split
  · rw [userMetadata_set (by simp), owned]
  · exact owned

theorem userMetadata_written {service : QdrantUserVectorService} {Id : Type} {v : World Id}
    {metadata : Option Payload} {content : String} (unplugged : service.pluginId = none)
    (plain : Plain metadata) :
    userMetadata (basePayload service v ((metadata.getD []).set "content" (.str content))) =
      metadata := by
  rw [userMetadata_basePayload unplugged, userMetadata_set (by simp)]
  exact plain

theorem get?_basePayload {service : QdrantUserVectorService} {Id : Type} {v : World Id}
    {payload : Payload} {key : String} (unplugged : service.pluginId = none)
    (free : key ∉ ["user_id", "plugin_id", "embedding_model"]) :
    (basePayload service v payload).get? key = payload.get? key := by
  simp only [List.mem_cons, List.not_mem_nil, or_false, not_or] at free
  obtain ⟨notUser, notPlugin, notModel⟩ := free
  simp only [basePayload, unplugged, given, Option.filter_none]
  split
  · rw [Payload.get?_set_of_ne (Ne.symm notModel), Payload.get?_pop_of_ne (Ne.symm notPlugin),
      Payload.get?_set_of_ne (Ne.symm notUser)]
  · rw [Payload.get?_pop_of_ne (Ne.symm notPlugin), Payload.get?_set_of_ne (Ne.symm notUser)]

end Metadata

section Working

/-- All other code works, and `model` is the embedding model. -/
structure Works (model : Option String) (o : Outside) : Prop where
  model : o.model = model
  embeds : ∀ text, text ≠ "" → ∃ vector, vector ≠ [] ∧ o.embed text = some vector
  ensures : ∀ name size, o.ensures name size = true
  carried : o.carried = true
  answered : o.answered = true

structure Request.Reads (model : Option String) (r : Request) : Prop where
  opened : r.model = model
  reading : Works model r.reading

structure Request.GoesThrough (model : Option String) (r : Request) : Prop extends
    r.Reads model where
  writing : Works model r.writing
  saves : r.saves = true
  commits : r.commits = true

variable {model : Option String} {o : Outside}

theorem Works.refresh (works : Works model o) {Id : Type} {w : World Id}
    (opened : w.embeddingModel = model) : w.refreshEmbeddingModel o = w := by
  unfold World.refreshEmbeddingModel
  rw [works.model]
  split
  · rename_i text there
    have same := (Option.filter_eq_some_iff.mp there).1
    rw [← same, ← opened]
  · rfl

variable {Id : Type} [LinearOrder Id] {host : Host Id} {userId : Uuid} {name : String}

/-- The filter of `get_point`. -/
def ownPoint (userId : Uuid) (pid : Id) : Vector.Filter Id := ofUser userId ++ [.hasId [pid]]

def findPoint (c : Collection Id) (userId : Uuid) (pid : Id) : Option (Point Id) :=
  c.rows.find? (ownPoint userId pid).selects

def Memories.recall (w : Memories Id) (userId : Uuid) (name : String) (pid : Id) :
    Option Recollection :=
  (findPoint (w.store name) userId pid).map fun p =>
    ⟨(p.item none).content.string?, userMetadata p.payload⟩

omit [LinearOrder Id] in
theorem Works.ensureCollection (works : Works model o)
    (named : getUserMemoryCollectionName host.settings host.hashing userId model = .ok name)
    {w : World Id} (opened : w.embeddingModel = model) {size : ℕ} :
    ensureCollection host.environment (host.service userId) w size o =
      ({ w with collectionName := some name }, .found name) := by
  have named : getUserMemoryCollectionName host.environment.settings host.environment.hashing
      (host.service userId).userId w.embeddingModel = .ok name := opened ▸ named
  rw [Vector.ensureCollection, named]
  simp [works.ensures]

omit [LinearOrder Id] in
theorem Works.resolve (works : Works model o) (service : QdrantUserVectorService) {w : World Id}
    (opened : w.embeddingModel = model) :
    ∃ size, resolveVectorSize service w o = (w, .ok size) := by
  obtain ⟨vector, nonempty, probed⟩ := works.embeds "test" (by decide)
  have length : 0 < vector.length := List.length_pos_iff.mpr nonempty
  unfold resolveVectorSize
  rw [works.refresh opened, probed]
  cases o.resolver.filter (0 < ·) with
  | some size => exact ⟨size.toNat, rfl⟩
  | none => exact ⟨vector.length, by simp [Option.filter, length]⟩

theorem id_of_ownPoint {pid : Id} {p : Point Id} (selected : (ownPoint userId pid).selects p) :
    p.id = pid := by
  have holds := Vector.Filter.holds_of_selects selected (List.mem_append_right _ List.mem_cons_self)
  simpa [Condition.holds] using holds

/-- At most one point has the id, so that the first of the page is the one that is there. -/
theorem scroll_ownPoint {c : Collection Id} {pid : Id} :
    (c.scroll (ownPoint userId pid) 1 none).1.head? = findPoint c userId pid := by
  have selected {p : Point Id} (mem : p ∈ c.rows.filter (ownPoint userId pid).selects) :
      p.id = pid := id_of_ownPoint (List.mem_filter.mp mem).2
  have unique : ((c.rows.filter (ownPoint userId pid).selects).map Point.id).Nodup :=
    c.unique.sublist ((c.rows.filter_sublist).map _)
  rw [findPoint, ← List.head?_filter, Collection.scroll]
  generalize c.rows.filter (ownPoint userId pid).selects = found at selected unique
  match found with
  | [] => rfl
  | [p] => simp
  | p :: q :: rest =>
    have same : p.id = q.id := (selected (by simp)).trans (selected (by simp)).symm
    simp [same] at unique

variable {w t : Memories Id} {memoryId : String} {pid : Id} {r : Request}

structure Names (host : Host Id) (memoryId : String) (pid : Id) : Prop where
  text : strip memoryId ≠ ""
  point : host.pointId (strip memoryId) = some pid

omit [LinearOrder Id] in
theorem Names.ne_empty (names : Names host memoryId pid) : memoryId ≠ "" := by
  rintro rfl
  exact names.text (by decide)

theorem fetchPoint_eq (names : Names host memoryId pid)
    (named : getUserMemoryCollectionName host.settings host.hashing userId model = .ok name)
    (reads : r.Reads model) : ∃ v : World Id, v.embeddingModel = model ∧ v.store = w.store ∧
      fetchPoint host userId w memoryId r =
        some (v, (findPoint (w.store name) userId pid).map (·.item none)) := by
  have opened : (w.opened r).embeddingModel = model := reads.opened
  obtain ⟨v, found⟩ : ∃ v, v = { w.opened r with collectionName := some name } := ⟨_, rfl⟩
  have kept : v.embeddingModel = model := by rw [found, opened]
  have store : v.store = w.store := by rw [found, Memories.opened]
  obtain ⟨size, resolved⟩ := reads.reading.resolve (host.service userId) opened
  have located : currentCollection host.environment (host.service userId) (w.opened r) r.reading =
      (v, .found name) := by
    simp only [currentCollection, Memories.opened, given, Option.filter_none]
    rw [← Memories.opened, resolved, found]
    exact reads.reading.ensureCollection named opened
  have point : (baseFilter (host.service userId) v ++
      [.hasId (host.environment.pointId (strip memoryId)).toList] : Vector.Filter Id) =
      ownPoint userId pid := by
    rw [show host.environment.pointId (strip memoryId) = some pid from names.point]
    rfl
  refine ⟨v, kept, store, ?_⟩
  rw [fetchPoint, getPoint, if_neg names.text, located]
  simp only [inCollection]
  rw [reads.reading.refresh kept, point]
  simp only [Vector.read, reads.reading.carried, reads.reading.answered, if_true, caught, store]
  rw [show scrollLimit 1 = 1 from rfl, scroll_ownPoint]

theorem writeBack_eq (names : Names host memoryId pid)
    (named : getUserMemoryCollectionName host.settings host.hashing userId model = .ok name)
    (through : r.GoesThrough model) {content : String} (nonempty : content ≠ "") {v : World Id}
    (opened : v.embeddingModel = model) (metadata : Option Payload) (snapshot : MemorySnapshot) :
    ∃ vector payload, payload = basePayload (host.service userId) v
        ((metadata.getD []).set "content" (.str content)) ∧
      (writeBack host userId w v memoryId content metadata snapshot r).store name =
        (v.store name).upsert ⟨pid, vector, payload⟩ ∧
      (writeBack host userId w v memoryId content metadata snapshot r).snapshots =
        w.snapshots ++ [snapshot] := by
  obtain ⟨vector, some_, embedded⟩ := through.writing.embeds content nonempty
  have written : upsert host.environment (host.service userId) v content metadata memoryId
      r.writing = ({ v with
        collectionName := some name
        store := Function.update v.store name ((v.store name).upsert
          ⟨pid, vector, basePayload (host.service userId) v
            ((metadata.getD []).set "content" (.str content))⟩) }, .ok (.id memoryId)) := by
    have point : host.environment.pointId (strip memoryId) = some pid := names.point
    rw [upsert, embedded]
    simp only [through.writing.refresh opened, through.writing.ensureCollection named opened,
      inCollection, Option.getD_some, orDefault, names.ne_empty, if_false, names.text, some_, change,
      through.writing.carried, through.writing.answered, if_true, caught, point]
    rfl
  refine ⟨vector, _, rfl, ?_, ?_⟩
  · simp [writeBack, through.saves, written]
  · simp [writeBack, through.saves, through.commits, written, Memories.commit, succeeded]

theorem foundContent_eq : foundContent ((findPoint (w.store name) userId pid).map (·.item none)) =
    (w.recall userId name pid).bind Recollection.content := by
  unfold Memories.recall
  cases findPoint (w.store name) userId pid <;> rfl

theorem foundMetadata_eq :
    foundMetadata ((findPoint (w.store name) userId pid).map (·.item none)) =
      (w.recall userId name pid).bind Recollection.metadata := by
  unfold Memories.recall
  cases findPoint (w.store name) userId pid <;> rfl

theorem plain_recall : Plain ((w.recall userId name pid).bind Recollection.metadata) := by
  refine plain_bind _ fun memory mem => ?_
  obtain ⟨p, -, rfl⟩ := Option.map_eq_some_iff.mp mem
  exact plain_userMetadata p.payload

structure Records (userId : Uuid) (memoryId : String) (memory : Option Recollection)
    (snapshot : MemorySnapshot) : Prop where
  user : snapshot.userId = userId
  point : snapshot.memoryPointId = memoryId
  content : snapshot.oldContent = memory.bind Recollection.content
  metadata : snapshot.oldMetadata = memory.bind Recollection.metadata

theorem recall_writeBack (names : Names host memoryId pid)
    (named : getUserMemoryCollectionName host.settings host.hashing userId model = .ok name)
    (through : r.GoesThrough model) {content : String} (nonempty : content ≠ "")
    {metadata : Option Payload} (plain : Plain metadata) {v : World Id}
    (opened : v.embeddingModel = model) (snapshot : MemorySnapshot) :
    (writeBack host userId w v memoryId content metadata snapshot r).recall userId name pid =
        some ⟨some content, metadata⟩ ∧
      (writeBack host userId w v memoryId content metadata snapshot r).snapshots =
        w.snapshots ++ [snapshot] := by
  obtain ⟨vector, payload, stored, written, saved⟩ :=
    writeBack_eq (w := w) names named through nonempty opened metadata snapshot
  refine ⟨?_, saved⟩
  have owner : payload.get? "user_id" = some (.str userId.text) := by
    rw [stored]
    exact get?_user_basePayload _
  have text : payload.get? "content" = some (.str content) := by
    rw [stored, get?_basePayload rfl (by decide), Payload.get?_set]
  have described : userMetadata payload = metadata := by
    rw [stored]
    exact userMetadata_written rfl plain
  have selected : (ownPoint userId pid).selects ⟨pid, vector, payload⟩ := by
    simp [ownPoint, Vector.Filter.selects, ofUser, Condition.holds, owner, hasText]
  have others : ((v.store name).rows.filter fun p => p.id ≠ pid).find?
      (ownPoint userId pid).selects = none := by
    refine List.find?_eq_none.mpr fun p mem selected => ?_
    exact of_decide_eq_true (List.mem_filter.mp mem).2 (id_of_ownPoint selected)
  rw [Memories.recall, written, findPoint, Collection.upsert, List.find?_append, others,
    List.find?_cons_of_pos selected]
  simp [Point.item, text, described, Json.string?]

omit [LinearOrder Id] in
theorem restorable_eq {before : Option Recollection} {snapshotId : ℕ} {snapshot : MemorySnapshot}
    (saved : w.snapshots[snapshotId]? = some snapshot)
    (records : Records userId memoryId before snapshot) :
    restorable userId w memoryId snapshotId =
      (given (before.bind Recollection.content)).map fun content => (snapshot, content) := by
  have own : (some snapshot).filter (fun snapshot =>
      snapshot.userId = userId ∧ snapshot.memoryPointId = memoryId) = some snapshot :=
    Option.filter_some_pos (by simp [records.user, records.point])
  rw [restorable, saved, own, Option.bind_some, records.content]

structure RollsBack (userId : Uuid) (memoryId name : String) (pid : Id) (before : Option Recollection)
    (w t : Memories Id) : Prop where
  recalled : t.recall userId name pid = restored before (w.recall userId name pid)
  refused : ¬ Holds before → t.snapshots = w.snapshots
  saved : Holds before → ∃ own, t.snapshots = w.snapshots ++ [own] ∧
    Records userId memoryId (w.recall userId name pid) own

theorem rollbackMemory_spec (names : Names host memoryId pid)
    (named : getUserMemoryCollectionName host.settings host.hashing userId model = .ok name)
    (through : r.GoesThrough model) {before : Option Recollection}
    (plain : Plain (before.bind Recollection.metadata)) {snapshotId : ℕ} {snapshot : MemorySnapshot}
    (saved : w.snapshots[snapshotId]? = some snapshot)
    (records : Records userId memoryId before snapshot) :
    RollsBack userId memoryId name pid before w
      (rollbackMemory host userId w memoryId snapshotId r) := by
  have found := restorable_eq saved records
  by_cases holds : Holds before
  · obtain ⟨content, metadata, rfl, nonempty, same⟩ :=
      restored_of_holds holds (w.recall userId name pid)
    obtain ⟨v, opened, -, fetched⟩ := fetchPoint_eq (w := w) names named through.toReads
    have text : given ((some ⟨some content, metadata⟩ : Option Recollection).bind
        Recollection.content) = some content := by
      simp [given, nonempty]
    have restores : snapshot.oldMetadata = metadata := records.metadata
    rw [rollbackMemory, found, text, Option.map_some, fetched]
    simp only [foundMetadata_eq, foundContent_eq, restores]
    obtain ⟨recalled, snapshots⟩ := recall_writeBack names named through nonempty
      (plain.orElse (plain_recall (w := w))) opened _
    refine ⟨?_, fun none => absurd holds none, fun _ => ⟨_, snapshots, rfl, rfl, rfl, rfl⟩⟩
    rw [same]
    exact recalled
  · have refused : rollbackMemory host userId w memoryId snapshotId r = w := by
      rw [rollbackMemory, found, show given (before.bind Recollection.content) = none from
        not_not.mp holds]
      rfl
    rw [refused]
    exact ⟨(restored_of_not_holds holds).symm, fun _ => rfl, fun there => absurd there holds⟩

/-- A rollback to a snapshot of a memory without a content is refused; any other writes the
memory back, and a snapshot of the one of the moment. -/
theorem rollback_spec (configured : host.qdrantIsConfigured = true)
    (names : Names host memoryId pid)
    (named : getUserMemoryCollectionName host.settings host.hashing userId model = .ok name)
    (through : r.GoesThrough model) {before : Option Recollection}
    (plain : Plain (before.bind Recollection.metadata)) {snapshotId : ℕ} {snapshot : MemorySnapshot}
    (saved : w.snapshots[snapshotId]? = some snapshot)
    (records : Records userId memoryId before snapshot) :
    RollsBack userId memoryId name pid before w
      (step host userId w (.memory (.rollback memoryId snapshotId) r)) := by
  rw [step, if_pos configured, operate, if_neg names.ne_empty]
  obtain ⟨recalled, refused, own⟩ :=
    rollbackMemory_spec (w := { w with shown := [] }) names named through plain saved records
  exact ⟨recalled, refused, own⟩

/-- An update writes the content and the merged metadata, and a snapshot of the memory before. -/
theorem update_spec (configured : host.qdrantIsConfigured = true)
    (names : Names host memoryId pid)
    (named : getUserMemoryCollectionName host.settings host.hashing userId model = .ok name)
    (through : r.GoesThrough model) {request : MemoryUpdateRequest}
    (nonempty : request.content ≠ "")
    (updated : step host userId w (.memory (.update memoryId request) r) = t) :
    t.recall userId name pid = some ⟨some request.content,
        mergeMetadata ((w.recall userId name pid).bind Recollection.metadata) request⟩ ∧
      ∃ own, t.snapshots = w.snapshots ++ [own] ∧
        Records userId memoryId (w.recall userId name pid) own := by
  obtain ⟨v, opened, -, fetched⟩ :=
    fetchPoint_eq (w := { w with shown := [] }) names named through.toReads
  rw [step, if_pos configured, operate, if_neg names.ne_empty, updateMemory, fetched] at updated
  simp only [foundMetadata_eq, foundContent_eq] at updated
  have merged : Plain
      (mergeMetadata ((w.recall userId name pid).bind Recollection.metadata) request) :=
    plain_mergeMetadata plain_recall request
  obtain ⟨recalled, snapshots⟩ :=
    recall_writeBack (w := { w with shown := [] }) names named through nonempty merged opened
      { userId, memoryPointId := memoryId, action := "update"
        oldContent := (w.recall userId name pid).bind Recollection.content
        newContent := request.content
        oldMetadata := (w.recall userId name pid).bind Recollection.metadata
        newMetadata :=
          mergeMetadata ((w.recall userId name pid).bind Recollection.metadata) request }
  rw [← updated]
  exact ⟨recalled, _, snapshots, rfl, rfl, rfl, rfl⟩

section Snapshots

theorem writeBack_snapshots (host : Host Id) (userId : Uuid) (w : Memories Id) (v : World Id)
    (memoryId content : String) (metadata : Option Payload) (snapshot : MemorySnapshot)
    (r : Request) :
    (writeBack host userId w v memoryId content metadata snapshot r).snapshots = w.snapshots ∨
      (writeBack host userId w v memoryId content metadata snapshot r).snapshots =
        w.snapshots ++ [snapshot] := by
  unfold writeBack Memories.commit
  dsimp only
  split
  · split
    · exact .inr rfl
    · exact .inl rfl
  · exact .inl rfl

def Operation.Changes (memoryId : String) : Operation Id → Prop
  | .update changed _ | .delete changed => changed = memoryId
  | .list _ _ | .clear | .rollback _ _ => False

theorem deleteMemory_snapshots {v : World Id} {found : Option (Item Id)}
    (fetched : fetchPoint host userId w memoryId r = some (v, found)) :
    (deleteMemory host userId w memoryId r).snapshots = w.snapshots ∨
      (deleteMemory host userId w memoryId r).snapshots = w.snapshots ++
        [{ userId, memoryPointId := memoryId, action := "delete"
           oldContent := foundContent found, oldMetadata := foundMetadata found }] := by
  rw [deleteMemory, fetched]
  simp only [Memories.commit]
  split
  · split
    · exact .inr rfl
    · exact .inl rfl
  · exact .inl rfl

omit [LinearOrder Id] in
theorem eq_of_recorded {snapshots : List MemorySnapshot} {own snapshot : MemorySnapshot}
    (either : snapshots = w.snapshots ∨ snapshots = w.snapshots ++ [own])
    (recorded : snapshots = w.snapshots ++ [snapshot]) : own = snapshot := by
  rcases either with none | one
  · simp [none] at recorded
  · simpa [one] using recorded

theorem records_of_changes {operation : Operation Id} (changes : operation.Changes memoryId)
    (names : Names host memoryId pid)
    (named : getUserMemoryCollectionName host.settings host.hashing userId model = .ok name)
    (reads : r.Reads model) {snapshot : MemorySnapshot}
    (recorded : (step host userId w (.memory operation r)).snapshots = w.snapshots ++ [snapshot]) :
    host.qdrantIsConfigured = true ∧
      Records userId memoryId (w.recall userId name pid) snapshot := by
  by_cases configured : host.qdrantIsConfigured = true
  swap
  · simp [step, configured] at recorded
  refine ⟨configured, ?_⟩
  rw [step, if_pos configured] at recorded
  obtain ⟨v, -, -, fetched⟩ := fetchPoint_eq (w := { w with shown := [] }) names named reads
  cases operation with
  | list limit cursor => cases changes
  | clear => cases changes
  | rollback changed snapshotId => cases changes
  | update changed request =>
    cases changes
    rw [operate, if_neg names.ne_empty, updateMemory, fetched] at recorded
    cases eq_of_recorded (w := { w with shown := [] }) (writeBack_snapshots ..) recorded
    exact ⟨rfl, rfl, foundContent_eq, foundMetadata_eq⟩
  | delete changed =>
    cases changes
    rw [operate, if_neg names.ne_empty] at recorded
    cases eq_of_recorded (w := { w with shown := [] }) (deleteMemory_snapshots fetched) recorded
    exact ⟨rfl, rfl, foundContent_eq, foundMetadata_eq⟩

theorem operate_snapshots (operation : Operation Id) :
    w.snapshots <+: (operate host userId w r operation).snapshots := by
  have written {v : World Id} {changed content : String} {metadata : Option Payload}
      {snapshot : MemorySnapshot} : w.snapshots <+:
      (writeBack host userId w v changed content metadata snapshot r).snapshots := by
    have either := writeBack_snapshots host userId w v changed content metadata snapshot r
    rcases either with same | more
    · exact same ▸ List.prefix_rfl
    · rw [more]
      exact List.prefix_append _ _
  cases operation with
  | list limit cursor => exact List.prefix_rfl
  | clear => exact List.prefix_rfl
  | update changed request =>
    simp only [operate, updateMemory]
    split
    · exact List.prefix_rfl
    · split
      · exact List.prefix_rfl
      · exact written
  | delete changed =>
    simp only [operate]
    split
    · exact List.prefix_rfl
    · cases fetched : fetchPoint host userId w changed r with
      | none => simp [deleteMemory, fetched]
      | some found =>
        rcases deleteMemory_snapshots fetched with same | more
        · exact same ▸ List.prefix_rfl
        · rw [more]
          exact List.prefix_append _ _
  | rollback changed snapshotId =>
    simp only [operate, rollbackMemory]
    split
    · exact List.prefix_rfl
    · split
      · exact List.prefix_rfl
      · split
        · exact List.prefix_rfl
        · exact written

theorem step_snapshots (a : Action Id) : w.snapshots <+: (step host userId w a).snapshots := by
  cases a with
  | memory operation r =>
    rw [step]
    split
    · exact operate_snapshots (w := { w with shown := [] }) operation
    · exact List.prefix_rfl
  | index document g =>
    rw [step, indexDocument]
    split
    · split <;> exact List.prefix_rfl
    · exact List.prefix_rfl
  | deleteVectors document carried => exact List.prefix_rfl

theorem foldl_snapshots {actions : List (Action Id)} :
    w.snapshots <+: (actions.foldl (step host userId) w).snapshots := by
  induction actions generalizing w with
  | nil => exact List.prefix_rfl
  | cons a rest ih => exact (step_snapshots a).trans ih

end Snapshots

end Working

section Statement

variable {Id : Type} [LinearOrder Id]

/-- After an update or a deletion of a memory that recorded a snapshot, and after any requests
since, a rollback to the snapshot restores the memory and a rollback to the snapshot of this
rollback undoes it, if and only if nothing has changed, or both times the memory had a content,
and both times metadata or both times none. -/
theorem rollback_restores_iff (host : Host Id) (userId : Uuid) (model : Option String)
    {name memoryId : String} {pid : Id} (names : Names host memoryId pid)
    (named : getUserMemoryCollectionName host.settings host.hashing userId model = .ok name)
    (w : Memories Id) {operation : Operation Id} (changes : operation.Changes memoryId)
    {first second third : Request} (reads : first.Reads model)
    (through : second.GoesThrough model) (also : third.GoesThrough model)
    {snapshot : MemorySnapshot} (recorded :
      (step host userId w (.memory operation first)).snapshots = w.snapshots ++ [snapshot])
    (since : List (Action Id)) :
    let now := since.foldl (step host userId) (step host userId w (.memory operation first))
    let back := step host userId now (.memory (.rollback memoryId w.snapshots.length) second)
    let undone := step host userId back (.memory (.rollback memoryId now.snapshots.length) third)
    (back.recall userId name pid = w.recall userId name pid ∧
        ∀ own, back.snapshots = now.snapshots ++ [own] →
          undone.recall userId name pid = now.recall userId name pid) ↔
      Reversible (w.recall userId name pid) (now.recall userId name pid) := by
  intro now back undone
  obtain ⟨configured, records⟩ := records_of_changes changes names named reads recorded
  have saved : now.snapshots[w.snapshots.length]? = some snapshot := by
    obtain ⟨more, kept⟩ : w.snapshots ++ [snapshot] <+: now.snapshots :=
      recorded ▸ foldl_snapshots
    simp [← kept]
  have rolled := rollback_spec configured names named through plain_recall saved records
  by_cases holds : Holds (w.recall userId name pid)
  · obtain ⟨own, more, of⟩ := rolled.saved holds
    have last : back.snapshots[now.snapshots.length]? = some own := by
      rw [more]
      simp
    have again := (rollback_spec configured names named also plain_recall last of).recalled
    rw [rolled.recalled] at again
    rw [rolled.recalled, again, more, reversible_iff_of_holds holds, ← restored_twice_iff holds]
    simp
  · rw [rolled.recalled, restored_of_not_holds holds, rolled.refused holds]
    simp [Reversible, holds]

end Statement

section Asked

def chunkId : List ℕ := 0 :: essay.digits.map Fin.val

def noted : Memories (List ℕ) := step plainHost alice { store := fun _ => Table.empty } rewriting

def asking : Operation (List ℕ) :=
  .update "chunk" { content := "yours", recallWhen := some (some "asked") }

theorem names_chunk : Names plainHost "chunk" chunkId := ⟨by decide +kernel, by decide +kernel⟩

theorem named_home : getUserMemoryCollectionName plainHost.settings plainHost.hashing alice
    (some "m") = .ok home := by
  decide +kernel

theorem plainRequest_through : plainRequest.GoesThrough (some "m") := by
  have works : Works (some "m") answering :=
    ⟨rfl, fun _ _ => ⟨[1], List.cons_ne_nil _ _, rfl⟩, fun _ _ => rfl, rfl, rfl⟩
  exact { opened := rfl, reading := works, writing := works, saves := rfl, commits := rfl }

theorem noted_recall : noted.recall alice home chunkId = some ⟨some "mine", none⟩ :=
  (update_spec rfl names_chunk named_home plainRequest_through (by decide)
    (rfl : step plainHost alice { store := fun _ => Table.empty }
      (.memory (.update "chunk" { content := "mine" }) plainRequest) = noted)).1

def rewording : Operation (List ℕ) := .update "chunk" { content := "yours" }

theorem rewording_recorded {t : Memories (List ℕ)}
    (reworded : step plainHost alice noted (.memory rewording plainRequest) = t) :
    t.recall alice home chunkId = some ⟨some "yours", none⟩ ∧
      ∃ own, t.snapshots = noted.snapshots ++ [own] := by
  obtain ⟨recalled, own, saved, -⟩ :=
    update_spec rfl names_chunk named_home plainRequest_through (by decide) reworded
  rw [noted_recall] at recalled
  exact ⟨recalled, own, saved⟩

/-- A content alone comes back, and goes again. -/
theorem content_restored :
    let now := step plainHost alice noted (.memory rewording plainRequest)
    let back := step plainHost alice now
      (.memory (.rollback "chunk" noted.snapshots.length) plainRequest)
    let undone := step plainHost alice back
      (.memory (.rollback "chunk" now.snapshots.length) plainRequest)
    back.recall alice home chunkId = noted.recall alice home chunkId ∧
      ∀ own, back.snapshots = now.snapshots ++ [own] →
        undone.recall alice home chunkId = now.recall alice home chunkId := by
  intro now back undone
  obtain ⟨recalled, own, recorded⟩ := rewording_recorded (t := now) rfl
  have reversible : Reversible (noted.recall alice home chunkId) (now.recall alice home chunkId) := by
    rw [noted_recall, recalled]
    refine .inr ⟨?_, ?_, Iff.rfl⟩ <;> simp [Holds, given]
  have changes : rewording.Changes "chunk" := rfl
  exact (rollback_restores_iff plainHost alice (some "m") names_chunk named_home noted changes
    plainRequest_through.toReads plainRequest_through plainRequest_through recorded []).mpr
    reversible

/-- The update gives the memory metadata, and the rollback to its snapshot leaves them there. -/
theorem metadata_left_behind :
    let now := step plainHost alice noted (.memory asking plainRequest)
    let back := step plainHost alice now
      (.memory (.rollback "chunk" noted.snapshots.length) plainRequest)
    (∃ snapshot, now.snapshots = noted.snapshots ++ [snapshot]) ∧
      back.recall alice home chunkId ≠ noted.recall alice home chunkId := by
  intro now back
  obtain ⟨recalled, own, saved, records⟩ := update_spec rfl names_chunk named_home
    plainRequest_through (by decide) (rfl : step plainHost alice noted (.memory asking plainRequest) =
      now)
  have there : now.snapshots[noted.snapshots.length]? = some own := by
    rw [saved]
    simp
  have rolled := (rollback_spec rfl names_chunk named_home plainRequest_through plain_recall there
    records).recalled
  have holds : Holds (noted.recall alice home chunkId) := by
    rw [noted_recall]
    simp [Holds, given]
  have asked : strip "asked" = "asked" := by decide +kernel
  have describes : Describes (now.recall alice home chunkId) := by
    rw [recalled]
    simp [Describes, mergeMetadata, mergeText, mergeFlag, asked, noted_recall, orNone, Payload.set,
      Json.setEntry]
  have bare : ¬ Describes (noted.recall alice home chunkId) := by
    rw [noted_recall]
    simp [Describes]
  refine ⟨⟨own, saved⟩, fun same => bare ((restored_eq_iff holds).mp ?_ describes)⟩
  rw [← rolled]
  exact same

end Asked

end Deeting.Memory
