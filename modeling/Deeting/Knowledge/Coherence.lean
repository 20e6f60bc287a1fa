import Deeting.Counting
import Deeting.Knowledge.Documents

/-! What ties the rows of documents to their points and to the tasks that are outstanding, and the
condition on each step under which it stays so. -/
namespace Deeting.Knowledge
open Deeting.Vector Transition Counting

variable {Id : Type}

def Carries (docId : Uuid) (p : Point Id) : Prop :=
  p.payload.get? "doc_id" = some (.str docId.text)

theorem Carries.unique {docId other : Uuid} {p : Point Id} (carries : Carries docId p)
    (also : Carries other p) : docId = other := by
  have same := carries.symm.trans also
  rw [Option.some.injEq, Json.str.injEq] at same
  exact Uuid.text_injective same

/-- The points with the document's id are these, in this collection. -/
def Holds (store : Store Id) (docId : Uuid) (placed : String × List (Point Id)) : Prop :=
  ∀ n p, (p ∈ (store n).rows ∧ Carries docId p) ↔ (n = placed.1 ∧ p ∈ placed.2)

def Outstanding (tasks : List (IndexTask Id)) (docId : Uuid) : Prop :=
  ∃ t ∈ tasks, t.docId = docId

def Uncommitted (tasks : List (IndexTask Id)) (docId : Uuid) : Prop :=
  ∃ t ∈ tasks, t.docId = docId ∧ t.isWritten

/-- Another task of the document is outstanding, or the row counts the chunks of the last
successful indexing: no retry has reset the count. -/
def MayFail (w : Library Id) (i : ℕ) (docId : Uuid) : Prop :=
  Outstanding (w.tasks.eraseIdx i) docId ∨
    ∀ row, w.documents.find? docId = some row → row.chunkCount = (w.lastIndexed docId).2.length

/-- A task that writes finds the row there, and what was written last of the document had no more
chunks and is in the same collection; one that fails may fail; one that commits has written last,
or another is still to commit, and if no other is outstanding, its count reaches the row; and the
row of a document that is deleted leads to what was written last. -/
def Keeps (dep : Deployment Id) (w : Library Id) : Action → Prop
  | .start i assetFound => assetFound = false → ∀ docId, w.tasks[i]? = some (.enqueued docId) →
      MayFail w i docId
  | .write i g => ∀ document, w.tasks[i]? = some (.started document) →
    match indexPoints dep document g with
    | .error _ => MayFail w i document.id
    | .ok (name, points) => (∃ row, w.documents.find? document.id = some row) ∧
        ((w.lastWritten document.id).2 = [] ∨ (w.lastWritten document.id).1 = name ∧
          (w.lastWritten document.id).2.length ≤ points.length)
  | .finish i => ∀ document model name points row,
    w.tasks[i]? = some (.written document model name points) →
    w.documents.find? document.id = some row →
      (Uncommitted (w.tasks.eraseIdx i) document.id ∨
        w.lastWritten document.id = (name, points)) ∧
      (Outstanding (w.tasks.eraseIdx i) document.id ∨
        document.chunkCount ≠ points.length ∨ row.chunkCount = points.length)
  | .delete userId docId => ∀ document, w.getOwned docId userId = some document →
    (w.lastWritten docId).2 = [] ∨ deletedFrom dep document = some (w.lastWritten docId).1
  | _ => True

structure Numbered (dep : Deployment Id) (docId : Uuid) (points : List (Point Id)) : Prop where
  ids : points.map Point.id = (List.range points.length).map (dep.chunkId docId)
  carry : ∀ p ∈ points, Carries docId p

structure Coherent (dep : Deployment Id) (w : Library Id) : Prop where
  chunk : ∀ n, ∀ p ∈ (w.store n).rows, ∃ docId index, p.id = dep.chunkId docId index ∧
    Carries docId p
  there : ∀ n, ∀ p ∈ (w.store n).rows, ∀ docId, Carries docId p →
    ∃ row, w.documents.find? docId = some row ∧
      p.payload.get? "user_id" = some (.str row.userId.text)
  known : ∀ t ∈ w.tasks, (∃ row, w.documents.find? t.docId = some row) ∨ t.docId ∈ w.deleted
  session : ∀ t ∈ w.tasks, ∀ document ∈ t.document?, ∀ row,
    w.documents.find? document.id = some row → row.userId = document.userId
  gone : ∀ docId ∈ w.deleted, w.documents.find? docId = none
  numbered : ∀ docId, Numbered dep docId (w.lastWritten docId).2
  held : ∀ docId row, w.documents.find? docId = some row →
    Holds w.store docId (w.lastWritten docId)
  committed : ∀ docId row, w.documents.find? docId = some row → ¬ Uncommitted w.tasks docId →
    w.lastIndexed docId = w.lastWritten docId
  counted : ∀ docId row, w.documents.find? docId = some row → ¬ Outstanding w.tasks docId →
    row.chunkCount = (w.lastIndexed docId).2.length

namespace Numbered

variable {dep : Deployment Id} {docId : Uuid} {points : List (Point Id)}

theorem distinct (numbered : Numbered dep docId points) : (points.map Point.id).Nodup := by
  rw [numbered.ids]
  exact List.nodup_range.map fun _ _ same => (dep.injective same).2

theorem exists_index (numbered : Numbered dep docId points) {p : Point Id} (mem : p ∈ points) :
    ∃ k < points.length, p.id = dep.chunkId docId k := by
  have named : p.id ∈ points.map Point.id := List.mem_map_of_mem mem
  rw [numbered.ids] at named
  obtain ⟨k, within, same⟩ := List.mem_map.mp named
  exact ⟨k, List.mem_range.mp within, same.symm⟩

theorem mem_ids (numbered : Numbered dep docId points) {k : ℕ} (within : k < points.length) :
    dep.chunkId docId k ∈ points.map Point.id := by
  rw [numbered.ids]
  exact List.mem_map_of_mem (List.mem_range.mpr within)

end Numbered

section Points

variable {dep : Deployment Id} {document : UserDocument} {g : Given} {name : String}
  {points : List (Point Id)}

theorem numbered_mapIdx (model : Option String) (chunks : List (String × List ℚ)) :
    Numbered dep document.id (chunks.mapIdx (chunkPoint dep document model)) where
  ids := by
    apply List.ext_getElem
    · simp
    · intro k _ _
      simp [chunkPoint]
  carry p mem := by
    obtain ⟨k, within, rfl⟩ := List.exists_of_mem_mapIdx mem
    simp [Carries, chunkPoint, chunkPayload, Payload.get?, Json.get?]

theorem exists_of_bind {α β : Type} {x : Except String α} {f : α → Except String β} {b : β}
    (done : x.bind f = .ok b) : ∃ a, x = .ok a ∧ f a = .ok b := by
  cases x with
  | error reason => cases done
  | ok a => exact ⟨a, rfl, done⟩

theorem indexPoints_eq_ok (prepared : indexPoints dep document g = .ok (name, points)) :
    ∃ chunks : List (String × List ℚ), points = chunks.mapIdx (chunkPoint dep document g.model) := by
  unfold indexPoints at prepared
  obtain ⟨text, -, prepared⟩ := exists_of_bind prepared
  split at prepared
  · cases prepared
  split at prepared
  · cases prepared
  split at prepared
  · cases prepared
  obtain ⟨vectors, -, prepared⟩ := exists_of_bind prepared
  split at prepared
  · cases prepared
  obtain ⟨collection, -, prepared⟩ := exists_of_bind prepared
  cases checked : g.checked with
  | error reason =>
    rw [checked] at prepared
    cases prepared
  | ok _ =>
    rw [checked] at prepared
    cases prepared
    exact ⟨_, rfl⟩

theorem user_mapIdx (model : Option String) (chunks : List (String × List ℚ)) :
    ∀ p ∈ chunks.mapIdx (chunkPoint dep document model),
      p.payload.get? "user_id" = some (.str document.userId.text) := by
  intro p mem
  obtain ⟨k, within, rfl⟩ := List.exists_of_mem_mapIdx mem
  simp [chunkPoint, chunkPayload, Payload.get?, Json.get?]

end Points

theorem Outstanding.erase {tasks : List (IndexTask Id)} {i : ℕ} {t : IndexTask Id} {docId : Uuid}
    (outstanding : Outstanding tasks docId) (at_ : tasks[i]? = some t) (other : docId ≠ t.docId) :
    Outstanding (tasks.eraseIdx i) docId := by
  obtain ⟨x, mem, named⟩ := outstanding
  refine ⟨x, mem_eraseIdx_of_ne at_ mem ?_, named⟩
  rintro rfl
  exact other named.symm

theorem Outstanding.append {tasks : List (IndexTask Id)} {docId : Uuid}
    (outstanding : Outstanding tasks docId) (more : List (IndexTask Id)) :
    Outstanding (tasks ++ more) docId := by
  obtain ⟨x, mem, named⟩ := outstanding
  exact ⟨x, List.mem_append_left _ mem, named⟩

theorem Uncommitted.append {tasks : List (IndexTask Id)} {docId : Uuid}
    (uncommitted : Uncommitted tasks docId) (more : List (IndexTask Id)) :
    Uncommitted (tasks ++ more) docId := by
  obtain ⟨x, mem, named⟩ := uncommitted
  exact ⟨x, List.mem_append_left _ mem, named⟩

theorem Uncommitted.erase {tasks : List (IndexTask Id)} {i : ℕ} {t : IndexTask Id} {docId : Uuid}
    (uncommitted : Uncommitted tasks docId) (at_ : tasks[i]? = some t)
    (other : docId = t.docId → t.isWritten = false) : Uncommitted (tasks.eraseIdx i) docId := by
  obtain ⟨x, mem, named, writes⟩ := uncommitted
  refine ⟨x, mem_eraseIdx_of_ne at_ mem ?_, named, writes⟩
  rintro rfl
  exact absurd (other named.symm) (by simp [writes])

theorem Uncommitted.set {tasks : List (IndexTask Id)} {i : ℕ} {t t' : IndexTask Id} {docId : Uuid}
    (uncommitted : Uncommitted tasks docId) (at_ : tasks[i]? = some t)
    (unwritten : t.isWritten = false) : Uncommitted (tasks.set i t') docId := by
  obtain ⟨x, mem, named, writes⟩ := uncommitted
  refine ⟨x, mem_set_of_ne _ at_ mem ?_, named, writes⟩
  rintro rfl
  exact absurd unwritten (by simp [writes])

theorem Outstanding.set {tasks : List (IndexTask Id)} {i : ℕ} {t t' : IndexTask Id} {docId : Uuid}
    (outstanding : Outstanding tasks docId) (at_ : tasks[i]? = some t)
    (same : t'.docId = t.docId) : Outstanding (tasks.set i t') docId := by
  obtain ⟨x, mem, named⟩ := outstanding
  by_cases here : x = t
  · exact ⟨t', mem_set_self at_, same.trans (here ▸ named)⟩
  · exact ⟨x, mem_set_of_ne _ at_ mem here, named⟩

theorem find?_update {w : Library Id} {k : Uuid} {f : UserDocument → UserDocument}
    {keeps : ∀ d, (f d).id = d.id} (docId : Uuid) :
    (w.update k f keeps).documents.find? docId =
      (w.documents.find? docId).map fun d => if docId = k then f d else d := by
  rw [Library.update, Table.find?_modify]
  split
  · rename_i same
    rw [same]
  · rw [Option.map_id']

namespace Coherent

variable {dep : Deployment Id} {w : Library Id} (coherent : Coherent dep w)
include coherent

theorem rows {documents : Table UserDocument.id} {tasks : List (IndexTask Id)}
    {lastIndexed : Uuid → String × List (Point Id)} (f : Uuid → UserDocument → UserDocument)
    (same : ∀ docId, documents.find? docId = (w.documents.find? docId).map (f docId))
    (owner : ∀ docId d, (f docId d).userId = d.userId)
    (tasks_ : ∀ t ∈ tasks, t ∈ w.tasks ∨ (∃ row, w.documents.find? t.docId = some row) ∧
      ∀ document ∈ t.document?, ∀ row, w.documents.find? document.id = some row →
        row.userId = document.userId)
    (committed : ∀ docId row, w.documents.find? docId = some row → ¬ Uncommitted tasks docId →
      lastIndexed docId = w.lastWritten docId)
    (counted : ∀ docId row, w.documents.find? docId = some row → ¬ Outstanding tasks docId →
      (f docId row).chunkCount = (lastIndexed docId).2.length) :
    Coherent dep { w with documents, tasks, lastIndexed } where
  chunk := coherent.chunk
  there n p mem docId carries := by
    obtain ⟨row, found, user⟩ := coherent.there n p mem docId carries
    exact ⟨f docId row, by rw [same, found, Option.map_some], by rw [owner, user]⟩
  known t mem := by
    rcases tasks_ t mem with old | ⟨⟨row, found⟩, -⟩
    · rcases coherent.known t old with ⟨row, found⟩ | deleted
      · exact .inl ⟨f t.docId row, by rw [same, found, Option.map_some]⟩
      · exact .inr deleted
    · exact .inl ⟨f t.docId row, by rw [same, found, Option.map_some]⟩
  session t mem document has row found := by
    rw [same, Option.map_eq_some_iff] at found
    obtain ⟨old, found, rfl⟩ := found
    rw [owner]
    rcases tasks_ t mem with before | ⟨-, new⟩
    · exact coherent.session t before document has old found
    · exact new document has old found
  gone docId mem := by rw [same, coherent.gone docId mem, Option.map_none]
  numbered := coherent.numbered
  held docId row found := by
    rw [same, Option.map_eq_some_iff] at found
    obtain ⟨old, found, -⟩ := found
    exact coherent.held docId old found
  committed docId row found none := by
    rw [same, Option.map_eq_some_iff] at found
    obtain ⟨old, found, -⟩ := found
    exact committed docId old found none
  counted docId row found none := by
    rw [same, Option.map_eq_some_iff] at found
    obtain ⟨old, found, rfl⟩ := found
    exact counted docId old found none

theorem update {k : Uuid} {f : UserDocument → UserDocument} {keeps : ∀ d, (f d).id = d.id}
    {tasks : List (IndexTask Id)} (owner : ∀ d, (f d).userId = d.userId)
    (tasks_ : ∀ t ∈ tasks, t ∈ w.tasks ∨ (∃ row, w.documents.find? t.docId = some row) ∧
      ∀ document ∈ t.document?, ∀ row, w.documents.find? document.id = some row →
        row.userId = document.userId)
    (uncommitted : ∀ docId, Uncommitted w.tasks docId → Uncommitted tasks docId)
    (outstanding : ∀ docId, docId ≠ k → Outstanding w.tasks docId → Outstanding tasks docId)
    (counted : ∀ row, w.documents.find? k = some row → ¬ Outstanding tasks k →
      (f row).chunkCount = (w.lastIndexed k).2.length) :
    Coherent dep { w.update k f keeps with tasks } := by
  refine coherent.rows (fun docId d => if docId = k then f d else d) (fun docId => ?_)
    (fun docId d => ?_) tasks_ (fun docId row found none => ?_) fun docId row found none => ?_
  · exact find?_update docId
  · split
    · exact owner d
    · rfl
  · exact coherent.committed docId row found fun before => none (uncommitted docId before)
  · split
    · rename_i here
      subst here
      exact counted row found none
    · rename_i other
      exact coherent.counted docId row found fun before => none (outstanding docId other before)

theorem fail {i : ℕ} {t : IndexTask Id} {reason : String} (at_ : w.tasks[i]? = some t)
    (unwritten : t.isWritten = false) (may : MayFail w i t.docId) :
    Coherent dep (w.fail i t.docId reason) := by
  refine coherent.update (fun _ => rfl) (fun x mem => .inl (List.mem_of_mem_eraseIdx mem))
    (fun docId before => before.erase at_ fun _ => unwritten)
    (fun docId other before => before.erase at_ other) fun row found none => ?_
  rcases may with others | count
  · exact absurd others none
  · exact count row found

theorem drop {i : ℕ} {t : IndexTask Id} (at_ : w.tasks[i]? = some t)
    (gone : w.documents.find? t.docId = none) :
    Coherent dep { w with tasks := w.tasks.eraseIdx i } := by
  have other : ∀ {docId row}, w.documents.find? docId = some row → docId ≠ t.docId := by
    rintro docId row found rfl
    rw [gone] at found
    cases found
  refine coherent.rows (fun _ => id) (fun docId => by simp) (fun _ _ => rfl)
    (fun x mem => .inl (List.mem_of_mem_eraseIdx mem))
    (fun docId row found none => ?_) fun docId row found none => ?_
  · exact coherent.committed docId row found fun before =>
      none (before.erase at_ fun same => absurd same (other found))
  · exact coherent.counted docId row found fun before => none (before.erase at_ (other found))

theorem not_carries {docId : Uuid} (fresh : w.documents.find? docId = none) {n : String}
    {p : Point Id} (mem : p ∈ (w.store n).rows) : ¬ Carries docId p := by
  intro carries
  obtain ⟨row, found, -⟩ := coherent.there n p mem docId carries
  rw [fresh] at found
  cases found

theorem docId_ne {docId : Uuid} (fresh : w.documents.find? docId = none)
    (unused : docId ∉ w.deleted) {t : IndexTask Id} (mem : t ∈ w.tasks) : t.docId ≠ docId := by
  rintro rfl
  rcases coherent.known t mem with ⟨row, found⟩ | deleted
  · rw [fresh] at found
    cases found
  · exact unused deleted

variable [DecidableEq Id]

theorem rename {userId docId : Uuid} {name : String} {w' : Library Id}
    (taken : libraryStep dep w (.rename userId docId name) = some w') : Coherent dep w' := by
  simp only [libraryStep] at taken
  split at taken
  · split at taken
    · cases taken
      exact coherent
    · cases taken
      let named (d : UserDocument) : UserDocument := { d with filename := strip name }
      have renamed : Coherent dep { w.update docId named fun _ => rfl with tasks := w.tasks } :=
        coherent.update (fun _ => rfl) (fun x mem => .inl mem) (fun _ before => before)
          (fun _ _ before => before) (coherent.counted docId)
      exact renamed
  · cases taken
    exact coherent

theorem retry {userId docId : Uuid} {w' : Library Id}
    (taken : libraryStep dep w (.retry userId docId) = some w') : Coherent dep w' := by
  simp only [libraryStep] at taken
  split at taken
  · rename_i document owned
    split at taken
    · cases taken
      exact coherent
    · cases taken
      have found := (Option.filter_eq_some_iff.mp owned).1
      refine coherent.update (fun _ => rfl) (fun x mem => ?_) (fun _ before => before.append _)
        (fun _ _ before => before.append _) fun row at_ none => ?_
      · rcases List.mem_append.mp mem with old | new
        · exact .inl old
        · rw [List.mem_singleton.mp new]
          exact .inr ⟨⟨document, found⟩, fun _ has => by cases has⟩
      · exact absurd ⟨.enqueued docId, by simp, rfl⟩ none
  · cases taken
    exact coherent

theorem start {i : ℕ} {assetFound : Bool} {w' : Library Id} (keeps : Keeps dep w (.start i assetFound))
    (taken : libraryStep dep w (.start i assetFound) = some w') : Coherent dep w' := by
  simp only [libraryStep] at taken
  split at taken
  · rename_i docId at_
    split at taken
    · rename_i gone
      cases taken
      exact coherent.drop at_ gone
    · rename_i document found
      split at taken
      · cases taken
        have id_eq : document.id = docId := Table.key_of_find? found
        refine coherent.update (fun _ => rfl) (fun x mem => ?_) (fun _ before => before.set at_ rfl)
          (fun _ _ before => before.set at_ (by exact id_eq)) fun row there none => ?_
        · rcases List.mem_or_eq_of_mem_set mem with old | rfl
          · exact .inl old
          · refine .inr ⟨⟨document, by rw [← found, ← id_eq]; rfl⟩, fun d has row there => ?_⟩
            cases has
            dsimp only at there ⊢
            rw [id_eq, found, Option.some.injEq] at there
            rw [there]
        · exact absurd ⟨_, mem_set_self at_, id_eq⟩ none
      · rename_i missing
        cases taken
        exact coherent.fail at_ rfl (keeps (by simpa using missing) docId at_)
  · cases taken

omit coherent in
theorem mem_update {points : List (Point Id)} {name n : String} {p : Point Id}
    (distinct : (points.map Point.id).Nodup) :
    p ∈ (Function.update w.store name ((w.store name).upsertAll points) n).rows ↔
      (p ∈ (w.store n).rows ∧ (n = name → p.id ∉ points.map Point.id)) ∨ n = name ∧ p ∈ points := by
  by_cases here : n = name
  · subst here
    rw [Function.update_self, Collection.mem_upsertAll distinct]
    simp
  · rw [Function.update_of_ne here]
    simp [here]

theorem mem_update_of_ne {points : List (Point Id)} {name n : String} {p : Point Id}
    {docId other : Uuid} (numbered : Numbered dep docId points) (ne : other ≠ docId) :
    (p ∈ (Function.update w.store name ((w.store name).upsertAll points) n).rows ∧
      Carries other p) ↔ (p ∈ (w.store n).rows ∧ Carries other p) := by
  rw [mem_update numbered.distinct]
  constructor
  · rintro ⟨⟨old, -⟩ | ⟨-, new⟩, carries⟩
    · exact ⟨old, carries⟩
    · exact absurd (carries.unique (numbered.carry p new)) ne
  · rintro ⟨old, carries⟩
    refine ⟨.inl ⟨old, fun _ overwritten => ?_⟩, carries⟩
    obtain ⟨q, new, same⟩ := List.mem_map.mp overwritten
    obtain ⟨k, -, at_⟩ := numbered.exists_index new
    obtain ⟨its, index, named, has⟩ := coherent.chunk n p old
    have documents := (dep.injective (named.symm.trans (same.symm.trans at_))).1
    exact ne ((carries.unique has).trans documents)

/-- What was written last is what the document has, when all of the earlier is overwritten. -/
theorem holds_written {docId : Uuid} {name : String} {points : List (Point Id)} {row : UserDocument}
    (found : w.documents.find? docId = some row) (numbered : Numbered dep docId points)
    (fits : (w.lastWritten docId).2 = [] ∨ (w.lastWritten docId).1 = name ∧
      (w.lastWritten docId).2.length ≤ points.length) :
    Holds (Function.update w.store name ((w.store name).upsertAll points)) docId (name, points) := by
  intro n p
  rw [mem_update numbered.distinct]
  constructor
  · rintro ⟨⟨old, kept⟩ | new, carries⟩
    · obtain ⟨at_, mem⟩ := (coherent.held docId row found n p).mp ⟨old, carries⟩
      rcases fits with none | ⟨same, length⟩
      · rw [none] at mem
        exact absurd mem List.not_mem_nil
      · obtain ⟨k, within, named⟩ := (coherent.numbered docId).exists_index mem
        have overwritten := numbered.mem_ids (Nat.lt_of_lt_of_le within length)
        exact absurd (named ▸ overwritten) (kept (at_.trans same))
    · exact new
  · exact fun new => ⟨.inr new, numbered.carry p new.2⟩

theorem placed {i : ℕ} {document row : UserDocument} {model : Option String} {name : String}
    {points : List (Point Id)} (at_ : w.tasks[i]? = some (.started document))
    (found : w.documents.find? document.id = some row) (numbered : Numbered dep document.id points)
    (users : ∀ p ∈ points, p.payload.get? "user_id" = some (.str document.userId.text))
    (fits : (w.lastWritten document.id).2 = [] ∨ (w.lastWritten document.id).1 = name ∧
      (w.lastWritten document.id).2.length ≤ points.length) :
    Coherent dep { w with
      store := Function.update w.store name ((w.store name).upsertAll points)
      tasks := w.tasks.set i (.written document model name points)
      lastWritten := Function.update w.lastWritten document.id (name, points) } where
  chunk n p mem := by
    rcases (mem_update numbered.distinct).mp mem with ⟨old, -⟩ | ⟨-, new⟩
    · exact coherent.chunk n p old
    · obtain ⟨k, -, named⟩ := numbered.exists_index new
      exact ⟨document.id, k, named, numbered.carry p new⟩
  there n p mem docId carries := by
    rcases (mem_update numbered.distinct).mp mem with ⟨old, -⟩ | ⟨-, new⟩
    · exact coherent.there n p old docId carries
    · have same := carries.unique (numbered.carry p new)
      have user := coherent.session _ (List.mem_of_getElem? at_) document rfl row found
      exact ⟨row, same ▸ found, by rw [users p new, user]⟩
  known t mem := by
    rcases List.mem_or_eq_of_mem_set mem with old | rfl
    · exact coherent.known t old
    · exact .inl ⟨row, found⟩
  session t mem := by
    rcases List.mem_or_eq_of_mem_set mem with old | rfl
    · exact coherent.session t old
    · exact coherent.session (.started document) (List.mem_of_getElem? at_)
  gone := coherent.gone
  numbered docId := by
    dsimp only
    by_cases here : docId = document.id
    · rw [here, Function.update_self]
      exact numbered
    · rw [Function.update_of_ne here]
      exact coherent.numbered docId
  held docId row' found' := by
    dsimp only
    by_cases here : docId = document.id
    · subst here
      rw [Function.update_self]
      exact coherent.holds_written found numbered fits
    · rw [Function.update_of_ne here]
      intro n p
      rw [coherent.mem_update_of_ne numbered here]
      exact coherent.held docId row' found' n p
  committed docId row' found' none := by
    dsimp only
    by_cases here : docId = document.id
    · exact absurd ⟨_, mem_set_self at_, here.symm, rfl⟩ none
    · rw [Function.update_of_ne here]
      exact coherent.committed docId row' found' fun before => none (before.set at_ rfl)
  counted docId row' found' none :=
    coherent.counted docId row' found' fun before => none (before.set at_ rfl)

theorem write {i : ℕ} {g : Given} {w' : Library Id} (keeps : Keeps dep w (.write i g))
    (taken : libraryStep dep w (.write i g) = some w') : Coherent dep w' := by
  simp only [libraryStep] at taken
  split at taken
  · rename_i document at_
    have condition := keeps document at_
    split at taken
    · rename_i reason failed
      rw [failed] at condition
      cases taken
      exact coherent.fail at_ rfl condition
    · rename_i name points prepared
      rw [prepared] at condition
      obtain ⟨⟨row, found⟩, fits⟩ := condition
      obtain ⟨chunks, rfl⟩ := indexPoints_eq_ok prepared
      cases taken
      exact coherent.placed at_ found (numbered_mapIdx g.model chunks) (user_mapIdx g.model chunks) fits
  · cases taken

theorem finish {i : ℕ} {w' : Library Id} (keeps : Keeps dep w (.finish i))
    (taken : libraryStep dep w (.finish i) = some w') : Coherent dep w' := by
  simp only [libraryStep] at taken
  split at taken
  · rename_i document model name points at_
    split at taken
    · rename_i gone
      cases taken
      exact coherent.drop at_ gone
    · rename_i row found
      obtain ⟨last, counts⟩ := keeps document model name points row at_ found
      cases taken
      refine coherent.rows (fun docId d =>
          if docId = document.id then commitRow document points.length model d else d)
        (fun docId => ?_) (fun docId d => ?_) (fun x mem => .inl (List.mem_of_mem_eraseIdx mem))
        (fun docId row' found' none => ?_) fun docId row' found' none => ?_
      · exact find?_update docId
      · split <;> rfl
      · by_cases here : docId = document.id
        · subst here
          rw [Function.update_self]
          exact (last.resolve_left none).symm
        · rw [Function.update_of_ne here]
          exact coherent.committed docId row' found' fun before =>
            none (before.erase at_ fun same => absurd same here)
      · by_cases here : docId = document.id
        · subst here
          rw [Function.update_self, if_pos rfl]
          rw [found, Option.some.injEq] at found'
          subst found'
          rcases counts.resolve_left none with differs | reached
          · exact if_neg differs
          · simp only [commitRow, reached, ite_self]
        · rw [Function.update_of_ne here, if_neg here]
          exact coherent.counted docId row' found' fun before => none (before.erase at_ here)
  · cases taken

omit coherent in
theorem mem_of_mem_delete {document : UserDocument} {n : String} {p : Point Id}
    (mem : p ∈ (deleteDocumentVectors dep w.store document n).rows) : p ∈ (w.store n).rows := by
  unfold deleteDocumentVectors at mem
  cases leads : deletedFrom dep document with
  | none =>
    rw [leads] at mem
    exact mem
  | some name =>
    rw [leads] at mem
    dsimp only at mem
    by_cases here : n = name
    · subst here
      rw [Function.update_self] at mem
      exact (Collection.mem_delete.mp mem).1
    · rwa [Function.update_of_ne here] at mem

omit coherent in
theorem mem_delete_of_ne {document : UserDocument} {n : String} {p : Point Id} {other : Uuid}
    (mem : p ∈ (w.store n).rows) (carries : Carries other p) (ne : other ≠ document.id) :
    p ∈ (deleteDocumentVectors dep w.store document n).rows := by
  unfold deleteDocumentVectors
  cases deletedFrom dep document with
  | none => exact mem
  | some name =>
    dsimp only
    by_cases here : n = name
    · subst here
      rw [Function.update_self, Collection.mem_delete]
      refine ⟨mem, fun selected => ne (Uuid.text_injective ?_)⟩
      exact Condition.eq_of_holds (Filter.holds_of_selects selected (by simp)) carries
    · rwa [Function.update_of_ne here]

theorem not_carries_of_mem_delete {document : UserDocument} {n : String} {p : Point Id}
    (found : w.documents.find? document.id = some document)
    (leads : (w.lastWritten document.id).2 = [] ∨
      deletedFrom dep document = some (w.lastWritten document.id).1)
    (mem : p ∈ (deleteDocumentVectors dep w.store document n).rows) :
    ¬ Carries document.id p := by
  intro carries
  have before := mem_of_mem_delete mem
  obtain ⟨at_, placed⟩ := (coherent.held document.id document found n p).mp ⟨before, carries⟩
  rcases leads with none | leads
  · rw [none] at placed
    exact absurd placed List.not_mem_nil
  · obtain ⟨row, found', user⟩ := coherent.there n p before document.id carries
    rw [found, Option.some.injEq] at found'
    subst found'
    unfold deleteDocumentVectors at mem
    rw [leads, at_] at mem
    dsimp only at mem
    rw [Function.update_self, Collection.mem_delete] at mem
    apply mem.2
    unfold Carries at carries
    simp [Filter.selects, Condition.holds, user, carries, hasText]

theorem delete {userId docId : Uuid} {w' : Library Id} (keeps : Keeps dep w (.delete userId docId))
    (taken : libraryStep dep w (.delete userId docId) = some w') : Coherent dep w' := by
  simp only [libraryStep] at taken
  split at taken
  · rename_i document owned
    have leads := keeps document owned
    have found := (Option.filter_eq_some_iff.mp owned).1
    have id_eq : document.id = docId := Table.key_of_find? found
    subst id_eq
    cases taken
    exact
      { chunk := fun n p mem => coherent.chunk n p (mem_of_mem_delete mem)
        there := fun n p mem other carries => by
          obtain ⟨row, there, user⟩ := coherent.there n p (mem_of_mem_delete mem) other carries
          refine ⟨row, Table.find?_erase_eq_some.mpr ⟨?_, there⟩, user⟩
          rintro rfl
          exact coherent.not_carries_of_mem_delete found leads mem carries
        known := fun t mem => by
          by_cases here : t.docId = document.id
          · exact .inr (by simp [here])
          · rw [Table.find?_erase, if_neg here]
            exact (coherent.known t mem).imp_right (List.mem_cons_of_mem _)
        session := fun t mem d has row there =>
          coherent.session t mem d has row (Table.find?_erase_eq_some.mp there).2
        gone := fun other mem => by
          rw [Table.find?_erase]
          split
          · rfl
          · rename_i ne
            exact coherent.gone other ((List.mem_cons.mp mem).resolve_left ne)
        numbered := coherent.numbered
        held := fun other row there n p => by
          obtain ⟨ne, there⟩ := Table.find?_erase_eq_some.mp there
          rw [← coherent.held other row there n p]
          constructor
          · rintro ⟨mem, carries⟩
            exact ⟨mem_of_mem_delete mem, carries⟩
          · rintro ⟨mem, carries⟩
            exact ⟨mem_delete_of_ne mem carries ne, carries⟩
        committed := fun other row there =>
          coherent.committed other row (Table.find?_erase_eq_some.mp there).2
        counted := fun other row there =>
          coherent.counted other row (Table.find?_erase_eq_some.mp there).2 }
  · cases taken
    exact coherent

theorem upload {docId userId : Uuid} {filename : String} {w' : Library Id}
    (taken : libraryStep dep w (.upload docId userId filename) = some w') : Coherent dep w' := by
  simp only [libraryStep] at taken
  split at taken
  · cases taken
  · rename_i unused
    obtain ⟨documents, inserted, rfl⟩ := Option.map_eq_some_iff.mp taken
    have fresh : w.documents.find? docId = none := (Table.insert?_eq_some.mp inserted).1
    have find := Table.find?_insert inserted
    exact
      { chunk := coherent.chunk
        there := fun n p mem other carries => by
          obtain ⟨row, found, user⟩ := coherent.there n p mem other carries
          exact ⟨row, Table.find?_of_insert inserted found, user⟩
        known := fun t mem => by
          rcases List.mem_append.mp mem with before | new
          · rcases coherent.known t before with ⟨row, found⟩ | deleted
            · exact .inl ⟨row, Table.find?_of_insert inserted found⟩
            · exact .inr deleted
          · rw [List.mem_singleton.mp new]
            exact .inl ⟨_, by rw [find]; exact if_pos rfl⟩
        session := fun t mem document has row found => by
          rcases List.mem_append.mp mem with before | new
          · have other : document.id ≠ docId :=
              IndexTask.docId_of_document? has ▸ coherent.docId_ne fresh unused before
            rw [find, if_neg other] at found
            exact coherent.session t before document has row found
          · rw [List.mem_singleton.mp new] at has
            cases has
        gone := fun other mem => by
          have ne : other ≠ docId := fun same => unused (same ▸ mem)
          rw [find, if_neg ne]
          exact coherent.gone other mem
        numbered := fun other => by
          dsimp only
          by_cases here : other = docId
          · rw [here, Function.update_self]
            exact ⟨rfl, fun _ mem => absurd mem List.not_mem_nil⟩
          · rw [Function.update_of_ne here]
            exact coherent.numbered other
        held := fun other row found n p => by
          dsimp only
          by_cases here : other = docId
          · rw [here, Function.update_self]
            simpa using coherent.not_carries fresh
          · rw [Function.update_of_ne here]
            rw [find, if_neg here] at found
            exact coherent.held other row found n p
        committed := fun other row found none => by
          dsimp only
          by_cases here : other = docId
          · rw [here, Function.update_self, Function.update_self]
          · rw [Function.update_of_ne here, Function.update_of_ne here]
            rw [find, if_neg here] at found
            exact coherent.committed other row found fun before => none (before.append _)
        counted := fun other row found none => by
          dsimp only
          by_cases here : other = docId
          · exact absurd ⟨.enqueued docId, by simp, here.symm⟩ none
          · rw [Function.update_of_ne here]
            rw [find, if_neg here] at found
            exact coherent.counted other row found fun before => none (before.append _) }

theorem step {a : Action} {w' : Library Id} (keeps : Keeps dep w a)
    (taken : libraryStep dep w a = some w') : Coherent dep w' := by
  cases a with
  | upload docId userId filename => exact coherent.upload taken
  | rename userId docId name => exact coherent.rename taken
  | retry userId docId => exact coherent.retry taken
  | delete userId docId => exact coherent.delete keeps taken
  | start i assetFound => exact coherent.start keeps taken
  | write i g => exact coherent.write keeps taken
  | finish i => exact coherent.finish keeps taken

end Coherent

theorem coherent_empty {dep : Deployment Id} : Coherent dep Library.empty where
  chunk _ _ mem := absurd mem List.not_mem_nil
  there _ _ mem := absurd mem List.not_mem_nil
  known _ mem := absurd mem List.not_mem_nil
  session _ mem := absurd mem List.not_mem_nil
  gone _ mem := absurd mem List.not_mem_nil
  numbered _ := ⟨rfl, fun _ mem => absurd mem List.not_mem_nil⟩
  held _ _ found := by cases found
  committed _ _ found := by cases found
  counted _ _ found := by cases found

end Deeting.Knowledge
