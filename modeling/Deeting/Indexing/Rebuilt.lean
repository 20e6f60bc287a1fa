import Deeting.Indexing.Sync

/-! A synchronized collection is the one that indexing the new items alone would give. -/
namespace Deeting.Indexing
open Deeting.Vector

section Delta

variable {T : Type} (fns : Functions T)

def Functions.IsLast (items : List T) (item : T) : Prop :=
  fns.key item ≠ "" ∧ items.reverse.find? (fun other => fns.key other = fns.key item) = some item

variable {fns} {items oldItems newItems : List T} {a b item : T}

theorem Functions.IsLast.mem (last : fns.IsLast items item) : item ∈ items :=
  List.mem_reverse.mp (List.mem_of_find?_eq_some last.2)

theorem Functions.IsLast.unique (lastA : fns.IsLast items a) (lastB : fns.IsLast items b)
    (same : fns.key a = fns.key b) : a = b := by
  have found := lastA.2
  rw [same, lastB.2] at found
  exact (Option.some.inj found).symm

theorem isLast_append : fns.IsLast (items ++ [b]) a ↔
    (a = b ∧ fns.key b ≠ "") ∨ (fns.IsLast items a ∧ fns.key a ≠ fns.key b) := by
  simp only [Functions.IsLast, List.reverse_append, List.reverse_singleton, List.singleton_append,
    List.find?_cons]
  by_cases same : fns.key b = fns.key a
  · simp only [same, decide_true, Option.some.injEq, ne_eq, not_true_eq_false, and_false, or_false]
    constructor
    · rintro ⟨keyed, rfl⟩
      exact ⟨rfl, keyed⟩
    · rintro ⟨rfl, keyed⟩
      exact ⟨keyed, rfl⟩
  · simp only [same, decide_false]
    constructor
    · exact fun last => .inr ⟨last, Ne.symm same⟩
    · rintro (⟨rfl, -⟩ | ⟨last, -⟩)
      · exact absurd rfl same
      · exact last

theorem mem_itemMap {key fp : String} : (key, item, fp) ∈ (itemMap fns items).rows ↔
    fns.IsLast items item ∧ key = fns.key item ∧ fp = fns.fingerprintFn item := by
  induction items using List.reverseRecOn generalizing key item fp with
  | nil => simp [itemMap, Table.empty, Functions.IsLast]
  | append_singleton rest b ih =>
    rw [isLast_append, itemMap, List.foldl_append, ← itemMap, List.foldl_cons, List.foldl_nil]
    split
    · rename_i unkeyed
      rw [ih]
      constructor
      · rintro ⟨last, rfl, rfl⟩
        exact ⟨.inr ⟨last, unkeyed ▸ last.1⟩, rfl, rfl⟩
      · rintro ⟨⟨-, keyed⟩ | ⟨last, -⟩, rfl, rfl⟩
        · exact absurd unkeyed keyed
        · exact ⟨last, rfl, rfl⟩
    · rename_i keyed
      rw [Dict.mem_set, ih, Prod.mk.injEq]
      constructor
      · rintro (⟨rfl, rfl, rfl⟩ | ⟨other, last, rfl, rfl⟩)
        · exact ⟨.inl ⟨rfl, keyed⟩, rfl, rfl⟩
        · exact ⟨.inr ⟨last, other⟩, rfl, rfl⟩
      · rintro ⟨⟨rfl, -⟩ | ⟨last, other⟩, rfl, rfl⟩
        · exact .inl ⟨rfl, rfl, rfl⟩
        · exact .inr ⟨other, last, rfl, rfl⟩

theorem mem_toUpsert : item ∈ (computeDelta fns oldItems newItems).toUpsert ↔
    fns.IsLast newItems item ∧ ∀ old, fns.IsLast oldItems old → fns.key old = fns.key item →
      fns.fingerprintFn old ≠ fns.fingerprintFn item := by
  simp only [computeDelta, List.mem_map, List.mem_filter, Prod.exists, exists_and_right,
    exists_eq_right]
  constructor
  · rintro ⟨key, fp, mem, changed⟩
    obtain ⟨last, rfl, rfl⟩ := mem_itemMap.mp mem
    refine ⟨last, fun old lastOld same => ?_⟩
    have found := Dict.get?_eq_some.mpr (mem_itemMap.mpr ⟨lastOld, same.symm, rfl⟩)
    simpa [found] using changed
  · rintro ⟨last, changed⟩
    refine ⟨fns.key item, fns.fingerprintFn item, mem_itemMap.mpr ⟨last, rfl, rfl⟩, ?_⟩
    cases found : Dict.get? (itemMap fns oldItems) (fns.key item) with
    | none => rfl
    | some entry =>
      obtain ⟨old, fp⟩ := entry
      obtain ⟨lastOld, same, rfl⟩ := mem_itemMap.mp (Dict.get?_eq_some.mp found)
      simpa using changed old lastOld same.symm

theorem mem_toDelete : item ∈ (computeDelta fns oldItems newItems).toDelete ↔
    fns.IsLast oldItems item ∧ ∀ new, fns.IsLast newItems new → fns.key new ≠ fns.key item := by
  simp only [computeDelta, List.mem_map, List.mem_filter, Prod.exists, exists_and_right,
    exists_eq_right, Option.isNone_iff_eq_none, Dict.get?_eq_none, Prod.forall]
  constructor
  · rintro ⟨key, ⟨fp, mem⟩, gone⟩
    obtain ⟨last, rfl, rfl⟩ := mem_itemMap.mp mem
    exact ⟨last, fun new lastNew same => gone new _ (mem_itemMap.mpr ⟨lastNew, same.symm, rfl⟩)⟩
  · rintro ⟨last, gone⟩
    refine ⟨fns.key item, ⟨fns.fingerprintFn item, mem_itemMap.mpr ⟨last, rfl, rfl⟩⟩, ?_⟩
    intro new fp mem
    obtain ⟨lastNew, same, -⟩ := mem_itemMap.mp mem
    exact gone new lastNew same.symm

theorem pairwise_toUpsert : (computeDelta fns oldItems newItems).toUpsert.Pairwise fun a b =>
    fns.key a ≠ fns.key b := by
  have keys : ∀ chosen, ((itemMap fns newItems).rows.filter chosen).map
      (fns.key ∘ fun entry => entry.2.1) =
        ((itemMap fns newItems).rows.filter chosen).map Prod.fst := by
    intro chosen
    apply List.map_congr_left
    rintro ⟨key, item, fp⟩ mem
    exact (mem_itemMap.mp (List.mem_of_mem_filter mem)).2.1.symm
  have distinct : ((computeDelta fns oldItems newItems).toUpsert.map fns.key).Nodup := by
    rw [computeDelta, List.map_map, keys]
    exact (itemMap fns newItems).unique.sublist (List.filter_sublist.map _)
  rwa [List.Nodup, List.pairwise_map] at distinct

end Delta

section Calls

variable {T Id : Type} [DecidableEq Id]

structure Functions.Coherent (fns : Functions T) (items : List T) : Prop where
  sameId : ∀ a ∈ items, ∀ b ∈ items, fns.key a = fns.key b → fns.idFn a = fns.idFn b
  otherId : ∀ a ∈ items, ∀ b ∈ items, fns.key a ≠ fns.key b → fns.idFn a ≠ fns.idFn b
  solid : ∀ a ∈ items, fns.key a ≠ "" → ∃ id, fns.idFn a = some id ∧ id ≠ "" ∧ strip id = id
  content : ∀ a ∈ items, ∀ b ∈ items, fns.fingerprintFn a = fns.fingerprintFn b →
    fns.textFn a = fns.textFn b ∧ fns.payloadFn a = fns.payloadFn b

/-- The calls succeed: every text has a vector of the size of the collection, and Qdrant takes the
ids as those of points, different ones as those of different points. -/
structure Succeed (env : Environment Id) (fns : Functions T) (o : Outside) (index : Index Id)
    (vector : String → List ℚ) (ids : T → Id) (size : ℕ) (oldItems newItems : List T) : Prop where
  configured : o.configured = true
  embeds : ∀ texts ⊆ newItems.map fns.textFn, o.embedDocuments texts = some (texts.map vector)
  sized : ∀ item ∈ newItems, (vector (fns.textFn item)).length = size
  positive : 0 < size
  takes : ∀ stored ∈ index, stored.vectors.textSize? = some size
  upserts : o.upserts = true
  deletes : o.deletes = true
  reads : ∀ item ∈ oldItems ++ newItems, fns.key item ≠ "" → ∀ id ∈ fns.idFn item,
    env.pointId id = some (ids item)
  tells : ∀ a ∈ oldItems ++ newItems, ∀ b ∈ oldItems ++ newItems, ids a = ids b →
    fns.idFn a = fns.idFn b

def Functions.point (fns : Functions T) (vector : String → List ℚ) (ids : T → Id) (item : T) :
    Point Id :=
  ⟨ids item, vector (fns.textFn item), fns.payloadFn item⟩

/-- The collection has the points of the last items of the keys, and no others. -/
def Holds (fns : Functions T) (vector : String → List ℚ) (ids : T → Id) (index : Index Id)
    (items : List T) : Prop :=
  ∀ p, p ∈ index.points.rows ↔ ∃ item, fns.IsLast items item ∧ p = fns.point vector ids item

theorem mapM_eq_pure {m : Type → Type} [Monad m] [LawfulMonad m] {α β : Type} {f : α → m β}
    {g : α → β} {l : List α} (each : ∀ a ∈ l, f a = pure (g a)) : l.mapM f = pure (l.map g) := by
  induction l with
  | nil => simp
  | cons a rest ih =>
    obtain ⟨first, each⟩ := List.forall_mem_cons.mp each
    simp [List.mapM_cons, first, ih each]

theorem mapM_eq_filterMap {α β : Type} {f : α → Option β} {l : List α}
    (each : ∀ a ∈ l, ∃ b, f a = some b) : l.mapM f = some (l.filterMap f) := by
  induction l with
  | nil => rfl
  | cons a rest ih =>
    obtain ⟨⟨b, first⟩, each⟩ := List.forall_mem_cons.mp each
    simp [List.mapM_cons, first, ih each]

variable {env : Environment Id} {fns : Functions T} {o : Outside} {index : Index Id}
  {vector : String → List ℚ} {ids : T → Id} {size : ℕ} {oldItems newItems items : List T}
  {p : Point Id} {a b : T} (name : String)

omit [DecidableEq Id] in
theorem resolve_of_textSize {vectors : VectorsConfig}
    (sized : vectors.textSize? = some size) :
    resolveVectorName env name vectors = .ok () := by
  cases vectors with
  | unnamed other => cases sized
  | named sizes =>
    have mem : "text" ∈ (VectorsConfig.named sizes).names := by
      rw [VectorsConfig.names, List.mem_filter]
      obtain ⟨before, after, rfl, -⟩ := List.lookup_eq_some_iff.mp sized
      exact ⟨by simp, by decide⟩
    rw [resolveVectorName, if_neg (fun wrong => wrong.2 mem)]

omit [DecidableEq Id] in
/-- A collection of the size is taken as it is, and one that is not there is created. -/
theorem ensure_ok (takes : ∀ stored ∈ index, stored.vectors.textSize? = some size)
    (positive : 0 < size) : ∃ vectors,
      ensureCollectionVectorSize env name index size = .ok vectors ∧ vectors.textSize? = some size := by
  cases index with
  | none =>
    refine ⟨.named [("text", size)], ?_, by simp [VectorsConfig.textSize?]⟩
    rw [ensureCollectionVectorSize, if_neg positive.ne']
  | some stored =>
    have sized := takes stored rfl
    refine ⟨stored.vectors, ?_, sized⟩
    have known : stored.vectors.size? = some size := by
      cases shape : stored.vectors with
      | unnamed other => rw [shape] at sized; cases sized
      | named sizes =>
        rw [shape, VectorsConfig.textSize?] at sized
        simp [VectorsConfig.size?, sized, Option.filter, positive]
    simp [ensureCollectionVectorSize, known, resolve_of_textSize name sized]

def Functions.struct (fns : Functions T) (vector : String → List ℚ) (item : T) : PointStruct :=
  ⟨(fns.idFn item).getD "", vector (fns.textFn item), fns.payloadFn item⟩

theorem pointsOf_ok (vector : String → List ℚ)
    (solid : ∀ item ∈ items, ∃ id, fns.idFn item = some id ∧ id ≠ "" ∧ strip id = id) :
    pointsOf fns items ((items.map fns.textFn).map vector) =
      .ok (items.map (fns.struct vector)) := by
  have given : ∀ item ∈ items, (given (fns.idFn item)).map (fun pid =>
      (⟨pid, vector (fns.textFn item), fns.payloadFn item⟩ : PointStruct)) =
        some (fns.struct vector item) := by
    intro item mem
    obtain ⟨id, has, filled, -⟩ := solid item mem
    simp [Vector.given, Functions.struct, has, Option.filter, filled]
  rw [pointsOf, if_neg (by simp), if_neg (by simp), List.map_map, ← List.map_prod_left_eq_zip,
    List.filterMap_map, ← List.filterMap_eq_map]
  congr 1
  exact List.filterMap_congr given

theorem upsertPoints_ok (stored : Stored Id) (nonempty : items ≠ []) (upserts : o.upserts = true)
    (sized : stored.vectors.textSize? = some size) (positive : 0 < size)
    (solid : ∀ item ∈ items, ∃ id, fns.idFn item = some id ∧ id ≠ "" ∧ strip id = id)
    (fits : ∀ item ∈ items, (vector (fns.textFn item)).length = size)
    (reads : ∀ item ∈ items, ∀ id ∈ fns.idFn item, env.pointId id = some (ids item)) :
    upsertPoints env name o stored (items.map (fns.struct vector)) =
      ({ stored with points := stored.points.upsertAll (items.map (fns.point vector ids)) },
        .ok ()) := by
  have normal : (items.map (fns.struct vector)).mapM PointStruct.normalize =
      .ok (items.map (fns.struct vector)) := by
    refine (mapM_eq_pure ?_).trans (congrArg Except.ok (List.map_id _))
    intro point made
    obtain ⟨item, mem, rfl⟩ := List.mem_map.mp made
    obtain ⟨id, has, filled, bare⟩ := solid item mem
    have some : vector (fns.textFn item) ≠ [] := by
      rw [← List.length_pos_iff, fits item mem]
      exact positive
    simp [PointStruct.normalize, Functions.struct, has, bare, filled, some]
    rfl
  have taken : (items.map (fns.struct vector)).mapM (PointStruct.read env) =
      some (items.map (fns.point vector ids)) := by
    rw [List.mapM_map]
    apply mapM_eq_pure
    intro item mem
    obtain ⟨id, has, -, -⟩ := solid item mem
    simp [PointStruct.read, Functions.struct, Functions.point, has, reads item mem id has]
  have agree : ∀ point ∈ items.map (fns.point vector ids),
      stored.vectors.textSize? = some point.vector.length := by
    intro point made
    obtain ⟨item, mem, rfl⟩ := List.mem_map.mp made
    rw [sized, Functions.point, fits item mem]
  rw [upsertPoints, if_neg (by simpa using nonempty), resolve_of_textSize name sized, normal]
  simp only [taken]
  rw [if_pos ⟨upserts, agree⟩]

theorem upsert_ok
    (succeed : Succeed env fns o index vector ids size oldItems newItems)
    (nonempty : items ≠ []) (among : items ⊆ newItems)
    (solid : ∀ item ∈ items, ∃ id, fns.idFn item = some id ∧ id ≠ "" ∧ strip id = id)
    (reads : ∀ item ∈ items, ∀ id ∈ fns.idFn item, env.pointId id = some (ids item)) :
    ∃ vectors, upsert env name fns o index items =
      (some ⟨vectors, index.points.upsertAll (items.map (fns.point vector ids))⟩, .ok ()) := by
  obtain ⟨vectors, ensured, sized⟩ : ∃ vectors,
      ensureCollectionVectorSize env name index size = .ok vectors ∧
        vectors.textSize? = some size := ensure_ok name succeed.takes succeed.positive
  have embedded := succeed.embeds (items.map fns.textFn) (List.map_subset _ among)
  have fits : ∀ item ∈ items, (vector (fns.textFn item)).length = size :=
    fun item mem => succeed.sized item (among mem)
  have made := pointsOf_ok vector solid
  have sent := upsertPoints_ok name ⟨vectors, index.points⟩ nonempty succeed.upserts sized
    succeed.positive solid fits reads
  refine ⟨vectors, ?_⟩
  cases items with
  | nil => contradiction
  | cons first rest =>
    rw [upsert, if_neg (by simp [succeed.configured]), embedded]
    simp only [List.map_cons] at made sent ⊢
    rw [fits first List.mem_cons_self, ensured, made]
    simp only [sent]

theorem mem_delete_iff (configured : o.configured = true) (deletes : o.deletes = true)
    (solid : ∀ item ∈ items, ∃ id, fns.idFn item = some id ∧ id ≠ "" ∧ strip id = id)
    (reads : ∀ item ∈ items, ∀ id ∈ fns.idFn item, env.pointId id = some (ids item)) :
    p ∈ (delete env fns o index items).points.rows ↔
      p ∈ index.points.rows ∧ ∀ item ∈ items, p.id ≠ ids item := by
  obtain ⟨sought, named⟩ : ∃ sought, sought = ((items.map fun item =>
    stripped (fns.idFn item)).filter fun pid => pid ≠ "").eraseDups := ⟨_, rfl⟩
  have mem_sought : ∀ pid, pid ∈ sought ↔ ∃ item ∈ items, fns.idFn item = some pid := by
    intro pid
    rw [named, List.mem_eraseDups, List.mem_filter, List.mem_map]
    constructor
    · rintro ⟨⟨item, mem, rfl⟩, -⟩
      obtain ⟨id, has, -, bare⟩ := solid item mem
      exact ⟨item, mem, by simp [stripped, has, bare]⟩
    · rintro ⟨item, mem, has⟩
      obtain ⟨id, same, filled, bare⟩ := solid item mem
      obtain rfl := Option.some.inj (has.symm.trans same)
      exact ⟨⟨item, mem, by simp [stripped, has, bare]⟩, by simpa using filled⟩
  have mem_taken : p.id ∈ sought.filterMap env.pointId ↔ ∃ item ∈ items, p.id = ids item := by
    rw [List.mem_filterMap]
    constructor
    · rintro ⟨pid, mem, read⟩
      obtain ⟨item, mem, has⟩ := (mem_sought pid).mp mem
      exact ⟨item, mem, Option.some.inj (read.symm.trans (reads item mem pid has))⟩
    · rintro ⟨item, mem, same⟩
      obtain ⟨id, has, -, -⟩ := solid item mem
      exact ⟨id, (mem_sought id).mpr ⟨item, mem, has⟩, by rw [same, reads item mem id has]⟩
  have read : sought.mapM env.pointId = some (sought.filterMap env.pointId) := by
    apply mapM_eq_filterMap
    intro pid mem
    obtain ⟨item, mem, has⟩ := (mem_sought pid).mp mem
    exact ⟨ids item, reads item mem pid has⟩
  rw [delete, if_neg (by simp [configured]), ← named]
  by_cases none : sought = []
  · rw [if_pos none]
    have apart : ∀ item ∈ items, p.id ≠ ids item := by
      intro item mem same
      simpa [none] using mem_taken.mpr ⟨item, mem, same⟩
    exact ⟨fun mem => ⟨mem, apart⟩, And.left⟩
  · rw [if_neg none]
    cases index with
    | none => simp [deletePoints, Index.points, Table.empty]
    | some stored =>
      simp only [deletePoints, read, deletes, if_true, Index.points]
      rw [Collection.mem_delete]
      simp only [Filter.selects, List.all_cons, List.all_nil, Condition.holds, Bool.and_true,
        decide_eq_true_eq, mem_taken, not_exists, not_and, ne_eq]

section Synchronized

variable (coherent : fns.Coherent (oldItems ++ newItems))
  (succeed : Succeed env fns o index vector ids size oldItems newItems)
include coherent succeed

omit [DecidableEq Id] in
theorem ids_eq_iff (memA : a ∈ oldItems ++ newItems) (memB : b ∈ oldItems ++ newItems)
    (keyed : fns.key a ≠ "") : ids a = ids b ↔ fns.key a = fns.key b := by
  constructor
  · intro same
    by_contra other
    exact coherent.otherId a memA b memB other (succeed.tells a memA b memB same)
  · intro same
    obtain ⟨id, has, -, -⟩ := coherent.solid a memA keyed
    have also := coherent.sameId a memA b memB same
    have readA := succeed.reads a memA keyed id has
    have readB := succeed.reads b memB (same ▸ keyed) id (also ▸ has)
    exact Option.some.inj (readA.symm.trans readB)

/-- After the upserts the items of the delta are there, and what they do not replace. -/
theorem upsertDelta_ok : ∃ index',
    (if (computeDelta fns oldItems newItems).toUpsert.isEmpty then (index, .ok ())
      else upsert env name fns o index (computeDelta fns oldItems newItems).toUpsert) =
        (index', .ok ()) ∧
    ∀ p, p ∈ index'.points.rows ↔
      (p ∈ index.points.rows ∧
        ∀ item ∈ (computeDelta fns oldItems newItems).toUpsert, p.id ≠ ids item) ∨
      ∃ item ∈ (computeDelta fns oldItems newItems).toUpsert, p = fns.point vector ids item := by
  have lasts : ∀ item ∈ (computeDelta fns oldItems newItems).toUpsert,
      fns.IsLast newItems item := fun item mem => (mem_toUpsert.mp mem).1
  have apart : (computeDelta fns oldItems newItems).toUpsert.Pairwise fun a b =>
      fns.key a ≠ fns.key b := pairwise_toUpsert
  generalize (computeDelta fns oldItems newItems).toUpsert = items at lasts apart
  have inside : ∀ item ∈ items, item ∈ oldItems ++ newItems :=
    fun item mem => List.mem_append_right _ (lasts item mem).mem
  by_cases none : items = []
  · exact ⟨index, by simp [none], by simp [none]⟩
  obtain ⟨vectors, done⟩ := upsert_ok name succeed none
    (fun item mem => (lasts item mem).mem)
    (fun item mem => coherent.solid item (inside item mem) (lasts item mem).1)
    (fun item mem => succeed.reads item (inside item mem) (lasts item mem).1)
  have distinct : ((items.map (fns.point vector ids)).map Point.id).Nodup := by
    rw [List.map_map, List.Nodup, List.pairwise_map]
    refine List.Pairwise.imp_of_mem ?_ apart
    intro a b memA memB other same
    exact other ((ids_eq_iff coherent succeed (inside a memA) (inside b memB)
      (lasts a memA).1).mp same)
  refine ⟨_, by rw [if_neg (by simpa using none), done], ?_⟩
  intro p
  rw [Index.points, Collection.mem_upsertAll distinct]
  simp [Functions.point, eq_comm]

theorem mem_deleteDelta {index' : Index Id} :
    p ∈ (Index.points (if (computeDelta fns oldItems newItems).toDelete.isEmpty then index'
      else delete env fns o index' (computeDelta fns oldItems newItems).toDelete)).rows ↔
    p ∈ index'.points.rows ∧
      ∀ item ∈ (computeDelta fns oldItems newItems).toDelete, p.id ≠ ids item := by
  have lasts : ∀ item ∈ (computeDelta fns oldItems newItems).toDelete,
      fns.IsLast oldItems item := fun item mem => (mem_toDelete.mp mem).1
  split
  · rename_i none
    simp [List.isEmpty_iff.mp none]
  · exact mem_delete_iff succeed.configured succeed.deletes
      (fun item mem => coherent.solid item (List.mem_append_left _ (lasts item mem).mem)
        (lasts item mem).1)
      (fun item mem => succeed.reads item (List.mem_append_left _ (lasts item mem).mem)
        (lasts item mem).1)

omit [DecidableEq Id] in
/-- A last old item is the point of a last new one where neither a deletion nor an upsert is for
its key. -/
theorem kept_point (lastOld : fns.IsLast oldItems b)
    (kept : ∀ item ∈ (computeDelta fns oldItems newItems).toUpsert, ids b ≠ ids item)
    (left : ∀ item ∈ (computeDelta fns oldItems newItems).toDelete, ids b ≠ ids item) :
    ∃ a, fns.IsLast newItems a ∧ fns.point vector ids b = fns.point vector ids a := by
  have remains : ¬ ∀ new, fns.IsLast newItems new → fns.key new ≠ fns.key b :=
    fun gone => left b (mem_toDelete.mpr ⟨lastOld, gone⟩) rfl
  push Not at remains
  obtain ⟨a, lastNew, same⟩ := remains
  have memA := List.mem_append_right oldItems lastNew.mem
  have memB := List.mem_append_left newItems lastOld.mem
  have sameIds := (ids_eq_iff coherent succeed memB memA lastOld.1).mpr same.symm
  have unchanged : fns.fingerprintFn b = fns.fingerprintFn a := by
    by_contra changed
    refine kept a (mem_toUpsert.mpr ⟨lastNew, fun old last key => ?_⟩) sameIds
    rwa [last.unique lastOld (key.trans same)]
  obtain ⟨text, payload⟩ := coherent.content b memB a memA unchanged
  exact ⟨a, lastNew, by rw [Functions.point, Functions.point, sameIds, text, payload]⟩

omit [DecidableEq Id] in
theorem unchanged_point (lastNew : fns.IsLast newItems a)
    (same : a ∉ (computeDelta fns oldItems newItems).toUpsert) :
    ∃ b, fns.IsLast oldItems b ∧ fns.point vector ids a = fns.point vector ids b := by
  rw [mem_toUpsert] at same
  push Not at same
  obtain ⟨b, lastOld, key, fingerprint⟩ := same lastNew
  have memA := List.mem_append_right oldItems lastNew.mem
  have memB := List.mem_append_left newItems lastOld.mem
  have sameIds := (ids_eq_iff coherent succeed memB memA lastOld.1).mpr key
  obtain ⟨text, payload⟩ := coherent.content b memB a memA fingerprint
  exact ⟨b, lastOld, by rw [Functions.point, Functions.point, sameIds, text, payload]⟩

end Synchronized

/-- Where a collection holds the points of the last of the old items, a synchronization returns,
and the collection then holds exactly those of the last of the new items. -/
theorem sync_rebuilds (coherent : fns.Coherent (oldItems ++ newItems))
    (succeed : Succeed env fns o index vector ids size oldItems newItems)
    (holds : Holds fns vector ids index oldItems) :
    ∃ index', sync env name fns o index oldItems newItems =
      (index', .ok (computeDelta fns oldItems newItems)) ∧
        Holds fns vector ids index' newItems := by
  obtain ⟨index', done, upserted⟩ := upsertDelta_ok name coherent succeed
  refine ⟨_, by rw [sync]; simp only [done]; rfl, ?_⟩
  intro p
  rw [mem_deleteDelta coherent succeed, upserted p, holds p]
  constructor
  · rintro ⟨⟨⟨b, lastOld, rfl⟩, kept⟩ | ⟨a, mem, rfl⟩, left⟩
    · exact kept_point coherent succeed lastOld kept left
    · exact ⟨a, (mem_toUpsert.mp mem).1, rfl⟩
  · rintro ⟨a, lastNew, rfl⟩
    have memA := List.mem_append_right oldItems lastNew.mem
    refine ⟨?_, ?_⟩
    · by_cases mem : a ∈ (computeDelta fns oldItems newItems).toUpsert
      · exact .inr ⟨a, mem, rfl⟩
      · refine .inl ⟨unchanged_point coherent succeed lastNew mem, fun item replaced same => mem ?_⟩
        have last := (mem_toUpsert.mp replaced).1
        have key := (ids_eq_iff coherent succeed memA (List.mem_append_right _ last.mem)
          lastNew.1).mp same
        rwa [lastNew.unique last key]
    · intro item deleted same
      obtain ⟨last, gone⟩ := mem_toDelete.mp deleted
      exact gone a lastNew ((ids_eq_iff coherent succeed memA (List.mem_append_left _ last.mem)
        lastNew.1).mp same)

end Calls

def named : Functions (String × String) where
  keyFn item := some item.1
  fingerprintFn item := item.2
  textFn item := item.2
  payloadFn item := [("text", .str item.2)]
  idFn item := some ("id:" ++ strip item.1)

def lengths (text : String) : List ℚ := [text.length, 1]

def answering : Outside where
  configured := true
  embedDocuments texts := some (texts.map lengths)
  upserts := true
  deletes := true

def textEnvironment : Environment String where
  pointId := some
  shownResponse _ := ""
  shownNames _ := ""

def idOf (item : String × String) : String := "id:" ++ strip item.1

def oldNames : List (String × String) := [("a", "w"), (" a", "x")]

def newNames : List (String × String) := [("b", "x"), (" ", "y"), ("c", "x"), ("b ", "z")]

def onePoint : Index String :=
  some ⟨.named [("text", 2)], Collection.upsert Table.empty (named.point lengths idOf (" a", "x"))⟩

theorem names_rebuilt : ∃ index', sync textEnvironment "names" named answering onePoint oldNames
    newNames = (index', .ok (computeDelta named oldNames newNames)) ∧
      Holds named lengths idOf index' newNames := by
  refine sync_rebuilds "names" ?_ (?_ : Succeed _ _ _ _ _ _ 2 _ _) ?_
  · constructor
    · decide
    · decide
    · intro a mem keyed
      exact ⟨_, rfl, by revert a; decide⟩
    · rintro a - b - same
      have text : a.2 = b.2 := same
      exact ⟨text, by simp only [named, text]⟩
  · constructor
    · rfl
    · exact fun texts _ => rfl
    · exact fun item _ => rfl
    · decide
    · rintro stored ⟨⟩
      rfl
    · rfl
    · rfl
    · rintro item - - id ⟨⟩
      rfl
    · exact fun a _ b _ same => congrArg some same
  · intro p
    have rows : p ∈ onePoint.points.rows ↔ p = named.point lengths idOf (" a", "x") := by
      simp [onePoint, Index.points, Collection.mem_upsert, Table.empty]
    rw [rows]
    constructor
    · rintro rfl
      exact ⟨_, ⟨by decide, by decide⟩, rfl⟩
    · rintro ⟨item, last, rfl⟩
      obtain rfl | rfl : item = ("a", "w") ∨ item = (" a", "x") := by
        simpa [oldNames] using last.mem
      · exact absurd last.2 (by decide)
      · rfl

end Deeting.Indexing
