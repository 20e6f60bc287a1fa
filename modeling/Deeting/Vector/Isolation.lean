import Deeting.Transition
import Deeting.Vector.UserService

/-! Whose points the calls on a service return and change: the filters and the payloads keep to the
scope of the service, and an upsert and an update of payloads go by the ids alone. -/
namespace Deeting.Vector
open Transition

inductive Foreign (service : QdrantUserVectorService) (payload : Payload) : Prop where
  | owner {other : Uuid} (ne : other ≠ service.userId)
      (owned : payload.get? "user_id" = some (.str other.text))
  | plugin {plugin other : String} (has : given service.pluginId = some plugin) (ne : other ≠ plugin)
      (owned : payload.get? "user_id" = some (.str service.userId.text))
      (entered : payload.get? "plugin_id" = some (.str other))

/-- The points that are foreign at first are all there as they were, and none was returned. -/
structure Intact {Id : Type} (service : QdrantUserVectorService) (w w' : World Id) : Prop where
  kept : ∀ name, ∀ p ∈ (w.store name).rows, Foreign service p.payload → p ∈ (w'.store name).rows
  unreturned : ∃ new, w'.returned = w.returned ++ new ∧ ∀ item ∈ new, ∀ name,
    ∀ p ∈ (w.store name).rows, Foreign service p.payload → ∀ score, item ≠ p.item score

section Scope

variable {Id : Type} {service : QdrantUserVectorService} {w w' : World Id} {point : Point Id}

theorem Intact.refl (w : World Id) : Intact service w w where
  kept _ _ mem _ := mem
  unreturned := ⟨[], (List.append_nil _).symm, fun _ mem => absurd mem List.not_mem_nil⟩

theorem Intact.trans {w'' : World Id} (first : Intact service w w')
    (second : Intact service w' w'') : Intact service w w'' := by
  refine ⟨fun name p mem foreign => second.kept name p (first.kept name p mem foreign) foreign, ?_⟩
  obtain ⟨new, returned, none⟩ := first.unreturned
  obtain ⟨more, again, noneLater⟩ := second.unreturned
  refine ⟨new ++ more, by rw [again, returned, List.append_assoc], ?_⟩
  intro item mem name p present foreign
  rcases List.mem_append.mp mem with mem | mem
  · exact none item mem name p present foreign
  · exact noneLater item mem name p (first.kept name p present foreign) foreign

theorem not_foreign_of_selects [DecidableEq Id] {filter : Filter Id}
    (selected : filter.selects point) (own : ∀ condition ∈ ownFilter service, condition ∈ filter) :
    ¬ Foreign service point.payload := by
  intro foreign
  cases foreign with
  | owner ne owned =>
    have holds := filter.holds_of_selects selected (own _ List.mem_cons_self)
    exact ne (Uuid.text_injective (Condition.eq_of_holds holds owned))
  | @plugin plugin _ has ne _ entered =>
    have mem : (.field "plugin_id" plugin : Condition Id) ∈ ownFilter service := by
      simp [ownFilter, has]
    exact ne (Condition.eq_of_holds (filter.holds_of_selects selected (own _ mem)) entered)

theorem mem_baseFilter : ∀ condition ∈ ownFilter service, condition ∈ baseFilter service w :=
  fun _ mem => List.mem_append_left _ mem

theorem get?_user_basePayload (extra : Payload) :
    (basePayload service w extra).get? "user_id" = some (.str service.userId.text) := by
  unfold basePayload
  split <;> split <;>
    simp [Payload.get?_set_of_ne, Payload.get?_pop_of_ne]

theorem not_foreign_basePayload (extra : Payload) :
    ¬ Foreign service (basePayload service w extra) := by
  intro foreign
  cases foreign with
  | owner ne owned =>
    rw [get?_user_basePayload, Option.some.injEq, Json.str.injEq] at owned
    exact ne (Uuid.text_injective owned.symm)
  | @plugin plugin _ has ne _ entered =>
    have entered' : (basePayload service w extra).get? "plugin_id" = some (.str plugin) := by
      unfold basePayload
      simp only [has]
      split <;> simp [Payload.get?_set_of_ne]
    rw [entered', Option.some.injEq, Json.str.injEq] at entered
    exact ne entered.symm

end Scope

section Calls

variable {Id : Type} {env : Environment Id} {service : QdrantUserVectorService} {w : World Id}
  {o : Outside} {reply : Reply Id}

/-- What a call keeps of the foreign points, and that it returns none. -/
structure Spared (service : QdrantUserVectorService) (w : World Id)
    (result : World Id × Except VectorError (Reply Id)) : Prop where
  kept : ∀ name, ∀ p ∈ (w.store name).rows, Foreign service p.payload →
    p ∈ (result.1.store name).rows
  unreturned : ∀ item ∈ repliedItems result.2, ¬ Foreign service item.payload

@[simp] theorem refreshEmbeddingModel_store : (w.refreshEmbeddingModel o).store = w.store := by
  unfold World.refreshEmbeddingModel
  split <;> rfl

@[simp] theorem resolveVectorSize_store : (resolveVectorSize service w o).1.store = w.store := by
  unfold resolveVectorSize
  dsimp only
  split <;> simp

@[simp] theorem ensureCollection_store {size : ℕ} :
    (ensureCollection env service w size o).1.store = w.store := by
  unfold ensureCollection
  split
  · rfl
  · split
    · rfl
    · split <;> rfl

@[simp] theorem currentCollection_store :
    (currentCollection env service w o).1.store = w.store := by
  unfold currentCollection
  split
  · rfl
  · have kept : (resolveVectorSize service w o).1.store = w.store := resolveVectorSize_store
    split
    · rename_i resolved
      rwa [resolved] at kept
    · rename_i resolved
      rw [resolved] at kept
      rw [ensureCollection_store]
      exact kept

theorem spared_idle {w' : World Id} {result : Except VectorError (Reply Id)}
    (same : w'.store = w.store) (nothing : repliedItems result = []) :
    Spared service w (w', result) where
  kept name p mem _ := by simpa only [same] using mem
  unreturned item mem := by simp [nothing] at mem

theorem items_caught {result : Except VectorError (Reply Id)} (nothing : reply.items = []) :
    ∀ item ∈ repliedItems (caught service reply result), item ∈ repliedItems result := by
  intro item mem
  cases result with
  | ok found => exact mem
  | error error =>
    unfold caught at mem
    dsimp only at mem
    split at mem
    · simp [repliedItems, nothing] at mem
    · exact mem

theorem items_failed {error : VectorError} (nothing : reply.items = []) :
    repliedItems (caught service reply (.error error)) = [] := by
  unfold caught
  dsimp only
  split
  · exact nothing
  · rfl

theorem spared_failed {w' : World Id} {error : VectorError} (same : w'.store = w.store)
    (nothing : reply.items = []) : Spared service w (w', caught service reply (.error error)) :=
  spared_idle same (items_failed nothing)

theorem items_change {w' : World Id} {name : String} {f : Collection Id → Collection Id}
    (nothing : reply.items = []) : repliedItems (change service w' name reply o f).2 = [] := by
  apply List.eq_nil_iff_forall_not_mem.mpr
  intro item mem
  have replied := items_caught nothing item mem
  split at replied <;> simp [repliedItems, nothing] at replied

theorem items_inCollection {located : World Id × Located}
    {request : World Id → String → World Id × Except VectorError (Reply Id)}
    (nothing : reply.items = []) (none : ∀ w name, repliedItems (request w name).2 = []) :
    repliedItems (inCollection located reply request).2 = [] := by
  obtain ⟨w', found⟩ := located
  cases found with
  | found name => exact none w' name
  | degraded => exact nothing
  | raised error => rfl

theorem spared_change_iff {w' : World Id} {name : String} {f : Collection Id → Collection Id}
    (same : w'.store = w.store) (nothing : reply.items = []) :
    Spared service w (change service w' name reply o f) ↔
      (o.carried → ∀ p ∈ (w.store name).rows, Foreign service p.payload →
        p ∈ (f (w.store name)).rows) := by
  constructor
  · intro spared carried p mem foreign
    have kept := spared.kept name p mem foreign
    simpa only [change, same, carried, if_true, Function.update_self] using kept
  · intro keeps
    refine ⟨fun other p mem foreign => ?_, fun item mem => ?_⟩
    · simp only [change, same]
      split
      · rename_i carried
        by_cases here : other = name
        · subst here
          rw [Function.update_self]
          exact keeps carried p mem foreign
        · rwa [Function.update_of_ne here]
      · exact mem
    · simp [items_change nothing] at mem

theorem spared_read {w' : World Id} {name : String} {f : Collection Id → Reply Id}
    (same : w'.store = w.store) (nothing : reply.items = [])
    (own : ∀ item ∈ (f (w.store name)).items, ¬ Foreign service item.payload) :
    Spared service w (read service w' name reply o f) where
  kept other p mem _ := by simpa only [read, same] using mem
  unreturned item mem := by
    have replied := items_caught nothing item mem
    rw [same] at replied
    split at replied
    · split at replied
      · exact own item replied
      · simp [repliedItems, nothing] at replied
    · simp [repliedItems] at replied

theorem spared_inCollection {located : World Id × Located}
    {request : World Id → String → World Id × Except VectorError (Reply Id)}
    (same : located.1.store = w.store) (nothing : reply.items = [])
    (spared : ∀ name, located.2 = .found name → Spared service w (request located.1 name)) :
    Spared service w (inCollection located reply request) := by
  obtain ⟨w', found⟩ := located
  cases found with
  | found name => exact spared name rfl
  | degraded => exact spared_idle same nothing
  | raised error => exact spared_idle same rfl

variable [LinearOrder Id]

theorem spared_search {query : String} {limit : ℤ} {threshold : Option ℚ} :
    Spared service w (search env service w query limit threshold o) := by
  unfold search
  split
  · exact spared_idle rfl rfl
  · apply spared_inCollection (by simp) rfl
    intro name _
    dsimp only
    split
    · exact spared_failed (by simp) rfl
    · apply spared_read (by simp) rfl
      intro item mem
      obtain ⟨⟨score, p⟩, hit, rfl⟩ := List.mem_map.mp mem
      exact not_foreign_of_selects (Collection.mem_of_mem_search hit).2 mem_baseFilter

theorem spared_delete {ids : List String} : Spared service w (delete env service w ids o) := by
  unfold delete
  split
  · exact spared_idle rfl rfl
  · have spared : Spared service w (inCollection (currentCollection env service w o) .done
        fun w name => change service w name .done o fun c =>
          c.delete (ownFilter service ++ [.hasId (ids.filterMap env.pointId)])) := by
      apply spared_inCollection currentCollection_store rfl
      intro name _
      apply (spared_change_iff currentCollection_store rfl).mpr
      intro _ p mem foreign
      rw [Collection.mem_delete]
      refine ⟨mem, fun selected => ?_⟩
      exact not_foreign_of_selects selected (fun _ own => List.mem_append_left _ own) foreign
    exact ⟨spared.kept, fun item mem => spared.unreturned item (items_caught rfl item mem)⟩

theorem spared_clearAll : Spared service w (clearAll env service w o) := by
  apply spared_inCollection currentCollection_store rfl
  intro name _
  apply (spared_change_iff currentCollection_store rfl).mpr
  intro _ p mem foreign
  rw [Collection.mem_delete]
  exact ⟨mem, fun selected => not_foreign_of_selects selected mem_baseFilter foreign⟩

theorem spared_listPoints {limit : ℤ} {cursor : Option Id} :
    Spared service w (listPoints env service w limit cursor o) := by
  apply spared_inCollection currentCollection_store rfl
  intro name _
  apply spared_read (by simp) rfl
  intro item mem
  obtain ⟨p, listed, rfl⟩ := List.mem_map.mp mem
  exact not_foreign_of_selects (Collection.mem_of_mem_scroll listed).2 mem_baseFilter

theorem spared_getPoint {pointId : String} :
    Spared service w (getPoint env service w pointId o) := by
  unfold getPoint
  dsimp only
  split
  · exact spared_idle rfl rfl
  · apply spared_inCollection currentCollection_store rfl
    intro name _
    apply spared_read (by simp) rfl
    intro item mem
    obtain ⟨p, found, rfl⟩ := Option.mem_map.mp (Option.mem_toList.mp mem)
    have selected := (Collection.mem_of_mem_scroll (List.mem_of_head? found)).2
    exact not_foreign_of_selects selected fun condition own =>
      List.mem_append_left _ (mem_baseFilter condition own)

variable (env service w o) in
def upsertTarget (content : String) (id : Option String) : Option (String × Id) :=
  match o.embed content with
  | none => none
  | some vector =>
    match (ensureCollection env service (w.refreshEmbeddingModel o) vector.length o).2 with
    | .found name =>
      let pid := strip (orDefault (id.getD "") o.fresh)
      if pid = "" ∨ vector = [] ∨ ¬ o.carried then none
      else (env.pointId pid).map fun pid => (name, pid)
    | _ => none

variable (env service w o) in
def payloadTarget (pointIds : List String) (payload : Payload) : Option String :=
  if pointIds = [] ∨ payload = [] ∨ ¬ o.carried then none
  else (currentCollection env service w o).2.name?

/-- An upsert of a point of the service's own replaces a foreign one just where the id is its. -/
theorem kept_upsert_iff {c : Collection Id} {point : Point Id}
    (own : ¬ Foreign service point.payload) :
    (∀ p ∈ c.rows, Foreign service p.payload → p ∈ (c.upsert point).rows) ↔
      ∀ p ∈ c.rows, Foreign service p.payload → p.id ≠ point.id := by
  constructor
  · intro kept p mem foreign
    rcases Collection.mem_upsert.mp (kept p mem foreign) with ⟨-, other⟩ | rfl
    · exact other
    · exact absurd foreign own
  · intro others p mem foreign
    exact Collection.mem_upsert.mpr (.inl ⟨mem, others p mem foreign⟩)

/-- Merging a payload into points keeps a foreign one just where it has every field already. -/
theorem kept_setPayload_iff {c : Collection Id} {ids : List Id} {payload : Payload} :
    (∀ p ∈ c.rows, Foreign service p.payload → p ∈ (c.setPayload ids payload).rows) ↔
      ∀ p ∈ c.rows, Foreign service p.payload → p.id ∈ ids →
        p.payload.merge payload = p.payload := by
  constructor
  · intro kept p mem foreign named
    have merged : _ ∈ (c.setPayload ids payload).rows := Collection.mem_setPayload_of_mem mem
    rw [if_pos named] at merged
    have same := Collection.eq_of_id merged (kept p mem foreign) rfl
    exact congrArg Point.payload same
  · intro unchanged p mem foreign
    have merged : _ ∈ (c.setPayload ids payload).rows := Collection.mem_setPayload_of_mem mem
    split at merged
    · rename_i named
      rwa [unchanged p mem foreign named] at merged
    · exact merged

theorem spared_upsert_iff {content : String} {payload : Option Payload} {id : Option String} :
    Spared service w (upsert env service w content payload id o) ↔
      ∀ name pid, upsertTarget env service w o content id = some (name, pid) →
        ∀ p ∈ (w.store name).rows, Foreign service p.payload → p.id ≠ pid := by
  unfold upsert upsertTarget
  dsimp only
  cases o.embed content with
  | none => exact iff_of_true (spared_idle rfl rfl) fun _ _ target => by cases target
  | some vector =>
    have same : (ensureCollection env service (w.refreshEmbeddingModel o) vector.length o).1.store =
        w.store := by simp
    dsimp only
    generalize ensureCollection env service (w.refreshEmbeddingModel o) vector.length o = located
      at same
    obtain ⟨w', found⟩ := located
    cases found with
    | raised error => exact iff_of_true (spared_idle same rfl) fun _ _ target => by cases target
    | degraded => exact iff_of_true (spared_idle same rfl) fun _ _ target => by cases target
    | found name =>
      simp only [inCollection]
      generalize orDefault (id.getD "") o.fresh = written
      split
      · rename_i empty
        refine iff_of_true (spared_failed same rfl) fun _ _ target => ?_
        simp [empty] at target
      · split
        · rename_i empty
          refine iff_of_true (spared_failed same rfl) fun _ _ target => ?_
          simp [empty] at target
        · rename_i hasId hasVector
          rw [spared_change_iff same rfl]
          simp only [hasId, hasVector, false_or]
          cases read : env.pointId (strip written) with
          | none => exact iff_of_true (fun _ _ mem _ => mem) fun _ _ target => by simp at target
          | some pid =>
            cases carried : o.carried with
            | false => exact iff_of_true (fun has => by cases has) fun _ _ target => by cases target
            | true =>
              let extra := (payload.getD []).set "content" (.str content)
              let new : Point Id := ⟨pid, vector, basePayload service w' extra⟩
              have own : ¬ Foreign service new.payload := not_foreign_basePayload extra
              simpa using kept_upsert_iff own

theorem spared_updatePayload_iff {pointIds : List String} {payload : Payload} :
    Spared service w (updatePayload env service w pointIds payload o) ↔
      ∀ name, payloadTarget env service w o pointIds payload = some name →
        ∀ p ∈ (w.store name).rows, Foreign service p.payload →
          p.id ∈ pointIds.filterMap env.pointId → p.payload.merge payload = p.payload := by
  unfold updatePayload payloadTarget
  have same : (currentCollection env service w o).1.store = w.store := currentCollection_store
  generalize currentCollection env service w o = located at same
  obtain ⟨w', found⟩ := located
  split
  · rename_i empty
    refine iff_of_true (spared_idle rfl rfl) fun _ target => ?_
    rw [if_pos (by tauto)] at target
    cases target
  · rename_i given
    obtain ⟨hasIds, hasFields⟩ := not_or.mp given
    cases found with
    | raised error =>
      refine iff_of_true (spared_idle same rfl) fun _ target => ?_
      simp [Located.name?] at target
    | degraded =>
      refine iff_of_true (spared_idle same rfl) fun _ target => ?_
      simp [Located.name?] at target
    | found name =>
      simp only [inCollection, hasIds, hasFields, false_or, Located.name?]
      rw [spared_change_iff same rfl, kept_setPayload_iff]
      cases carried : o.carried with
      | false => exact iff_of_true (fun has => by cases has) fun _ target => by cases target
      | true => simp

theorem items_upsert {content : String} {payload : Option Payload} {id : Option String} :
    repliedItems (upsert env service w content payload id o).2 = [] := by
  unfold upsert
  dsimp only
  split
  · rfl
  · apply items_inCollection rfl
    intro w name
    split
    · exact items_failed rfl
    · split
      · exact items_failed rfl
      · exact items_change rfl

theorem items_updatePayload {pointIds : List String} {payload : Payload} :
    repliedItems (updatePayload env service w pointIds payload o).2 = [] := by
  unfold updatePayload
  split
  · rfl
  · exact items_inCollection rfl fun w name => items_change rfl

variable (env service w) in
/-- An upsert is not under the id of a foreign point of its collection, and an update of payloads
names no foreign point that it would give another field. -/
def Spares : Call Id × Outside → Prop
  | (.upsert content _ id, o) =>
    ∀ name pid, upsertTarget env service w o content id = some (name, pid) →
      ∀ p ∈ (w.store name).rows, Foreign service p.payload → p.id ≠ pid
  | (.updatePayload pointIds payload, o) =>
    ∀ name, payloadTarget env service w o pointIds payload = some name →
      ∀ p ∈ (w.store name).rows, Foreign service p.payload →
        p.id ∈ pointIds.filterMap env.pointId → p.payload.merge payload = p.payload
  | _ => True

theorem spared_call_iff (c : Call Id) :
    Spared service w (call env service w o c) ↔ Spares env service w (c, o) := by
  cases c with
  | upsert content payload id => exact spared_upsert_iff
  | updatePayload pointIds payload => exact spared_updatePayload_iff
  | search query limit threshold => exact iff_of_true spared_search trivial
  | delete ids => exact iff_of_true spared_delete trivial
  | listPoints limit cursor => exact iff_of_true spared_listPoints trivial
  | getPoint pointId => exact iff_of_true spared_getPoint trivial
  | clearAll => exact iff_of_true spared_clearAll trivial

theorem not_foreign_of_mem_items (c : Call Id) :
    ∀ item ∈ repliedItems (call env service w o c).2, ¬ Foreign service item.payload := by
  cases c with
  | upsert content payload id => simp [call, items_upsert]
  | updatePayload pointIds payload => simp [call, items_updatePayload]
  | search query limit threshold => exact spared_search.unreturned
  | delete ids => exact spared_delete.unreturned
  | listPoints limit cursor => exact spared_listPoints.unreturned
  | getPoint pointId => exact spared_getPoint.unreturned
  | clearAll => exact spared_clearAll.unreturned

theorem intact_callStep_iff (c : Call Id × Outside) :
    Intact service w (callStep env service w c) ↔ Spares env service w c := by
  obtain ⟨c, o⟩ := c
  rw [← spared_call_iff]
  have own : ∀ item ∈ repliedItems (call env service w o c).2, ¬ Foreign service item.payload :=
    not_foreign_of_mem_items c
  constructor
  · exact fun intact => ⟨intact.kept, own⟩
  · intro spared
    refine ⟨spared.kept, repliedItems (call env service w o c).2, rfl, ?_⟩
    intro item mem name p _ foreign score same
    exact own item mem (same ▸ foreign)

/-- In a run, whatever is foreign at some moment is kept as it is and never returned from then on,
just when every call spares the foreign points. -/
theorem isolated_iff {calls : List (Call Id × Outside)} :
    (∀ first second w₁ w₂, first ++ second <+: calls →
      run (total (callStep env service)) w first = some w₁ →
        run (total (callStep env service)) w₁ second = some w₂ → Intact service w₁ w₂) ↔
      Along (total (callStep env service)) (Spares env service) w calls := by
  have step : (fun (w : World Id) c => ∀ t, total (callStep env service) w c = some t →
      Intact service w t) = Spares env service := by
    funext w c
    simp only [total, Option.some.injEq, forall_eq', intact_callStep_iff]
  rw [← step]
  exact forall_segment_iff_along Intact.refl Intact.trans

end Calls

section Shared

def alice : Uuid := .repeated 1
def bob : Uuid := .repeated 2

/-- One collection for all, and one id that Qdrant is given. -/
def sharedEnvironment : Environment ℕ where
  pointId text := if text = "33333333-3333-3333-3333-333333333333" then some 3 else none
  similarity _ _ := 0
  settings := { strategy := "shared" }
  hashing := ⟨id, id⟩

def bobsPoint : Point ℕ :=
  ⟨3, [1], [("content", .str "his own"), ("user_id", .str bob.text)]⟩

def sharedWorld : World ℕ where
  embeddingModel := some "m"
  store name := if name = "kb_shared_v1" then ⟨[bobsPoint], List.nodup_singleton _⟩ else Table.empty

def answering : Outside where
  embed _ := some [1]
  model := some "m"
  resolver := none
  ensures _ _ := true
  carried := true
  answered := true
  fresh := ""

/-- Alice gives Bob's point another owner, or replaces it. -/
theorem bobs_point_taken :
    let ids := ["33333333-3333-3333-3333-333333333333"]
    let take : Call ℕ := .updatePayload ids [("user_id", .str alice.text)]
    let replace : Call ℕ := .upsert "hers" none ids.head?
    ∀ c ∈ [take, replace], ¬ Intact { userId := alice } sharedWorld
      (callStep sharedEnvironment { userId := alice } sharedWorld (c, answering)) := by
  intro ids take replace c mem
  have owned : bobsPoint.payload.get? "user_id" = some (.str bob.text) := by
    simp [bobsPoint, Payload.get?, Json.get?]
  have ne : bob ≠ alice := by decide
  have foreign : Foreign { userId := alice } bobsPoint.payload := .owner ne owned
  have there : bobsPoint ∈ (sharedWorld.store "kb_shared_v1").rows := List.mem_singleton_self _
  rw [intact_callStep_iff]
  rcases List.mem_pair.mp mem with rfl | rfl
  · intro spares
    have target : payloadTarget sharedEnvironment { userId := alice } sharedWorld answering ids
        [("user_id", .str alice.text)] = some "kb_shared_v1" := by decide +kernel
    have same := spares "kb_shared_v1" target bobsPoint there foreign (by decide +kernel)
    have owner : (bobsPoint.payload.set "user_id" (.str alice.text)).get? "user_id" =
        bobsPoint.payload.get? "user_id" := congrArg (Payload.get? · "user_id") same
    rw [Payload.get?_set, owned, Option.some.injEq, Json.str.injEq] at owner
    exact ne (Uuid.text_injective owner.symm)
  · intro spares
    have target : upsertTarget sharedEnvironment { userId := alice } sharedWorld answering "hers"
        ids.head? = some ("kb_shared_v1", 3) := by decide +kernel
    exact spares "kb_shared_v1" 3 target bobsPoint there foreign rfl

end Shared
end Deeting.Vector
