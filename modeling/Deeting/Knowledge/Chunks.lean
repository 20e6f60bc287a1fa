import Deeting.Knowledge.Documents
import Deeting.Paging
import Deeting.Stream.Accumulator

/-! The pages of a document's chunks: `UserDocumentService.list_chunks` over `scroll_points`. The
row, the configuration and the collection name are given, and so are the points of the document in
the order in which Qdrant scrolls them. -/
namespace Deeting.Knowledge
open Paging

structure Chunk where
  id : String
  chunkIndex : ℕ
  text : String
  deriving DecidableEq

/-- The scroll endpoint with the filter of one document whose chunks are numbered from zero:
batches of the points that are left, and a cursor until there are none. -/
structure Scroller (Cursor : Type) where
  scroll : ℕ → Option Cursor → List Chunk × Option Cursor
  left : Option Cursor → List Chunk
  batch : ∀ {limit} offset, 0 < limit → (scroll limit offset).1 = (left offset).take limit
  ends : ∀ {limit} offset, 0 < limit →
    ((scroll limit offset).2 = none ↔ (left offset).length ≤ limit)
  next : ∀ {limit} offset cursor, 0 < limit → (scroll limit offset).2 = some cursor →
    left (some cursor) = (left offset).drop limit
  numbered : ((left none).map Chunk.chunkIndex).Perm (List.range (left none).length)

structure KnowledgeChunkRead where
  id : String
  fileId : Uuid
  index : ℕ
  content : String
  tokenCount : ℕ
  deriving DecidableEq

structure KnowledgeChunkListResponse where
  items : List KnowledgeChunkRead
  total : ℕ
  offset : ℕ
  limit : ℕ
  deriving DecidableEq

/-- What `get_owned`, `qdrant_is_configured` and `_resolve_user_collection_name` give. -/
structure Found where
  document : Option UserDocument
  qdrantIsConfigured : Bool := true
  collectionName : Option String

def estimateTokens (text : String) : ℕ :=
  if text = "" then 0
  else max 1 ((text.toList.splitOnP Stream.isSpace).filter fun word => !word.isEmpty).length

def readChunk (fileId : Uuid) (chunk : Chunk) : KnowledgeChunkRead :=
  ⟨chunk.id, fileId, chunk.chunkIndex, chunk.text, estimateTokens chunk.text⟩

section Listing
variable {Cursor : Type} (s : Scroller Cursor)

def Scroller.points : List Chunk := s.left none

def scrollPoints (limit : ℕ) (offset : Option Cursor) : List Chunk × Option Cursor :=
  s.scroll (max 1 (min limit 100)) offset

def gather (expected : ℕ) (gathered : List Chunk) (cursor : Option Cursor) : List Chunk :=
  if gathered.length < expected then
    let answer := scrollPoints s (min 100 (max 20 (expected - gathered.length))) cursor
    if answer.1.isEmpty then gathered
    else match answer.2 with
      | none => gathered ++ answer.1
      | some next => gather expected (gathered ++ answer.1) (some next)
  else gathered
termination_by expected - gathered.length
decreasing_by
  rename_i short filled
  have grown : 0 < answer.1.length := List.length_pos_iff.mpr (by simpa using filled)
  change expected - (gathered ++ answer.1).length < expected - gathered.length
  rw [List.length_append]
  omega

def listChunks (found : Found) (fileId : Uuid) (offset limit : ℕ) :
    Except (ℕ × String) KnowledgeChunkListResponse :=
  match found.document with
  | none => .error (404, "Document not found")
  | some doc =>
    if doc.status ≠ .indexed ∨ ¬ found.qdrantIsConfigured then .ok ⟨[], doc.chunkCount, offset, limit⟩
    else if found.collectionName.isNone then .ok ⟨[], doc.chunkCount, offset, limit⟩
    else
      let gathered := gather s (offset + limit) [] none
      let sliced := slice offset limit (sortBy Chunk.chunkIndex gathered)
      .ok {
        items := sliced.map (readChunk fileId)
        total := if doc.chunkCount ≠ 0 then doc.chunkCount else gathered.length
        offset := offset
        limit := limit }

def Found.Indexed (found : Found) : Prop :=
  (∃ doc, found.document = some doc ∧ doc.status = .indexed) ∧ found.qdrantIsConfigured ∧
    found.collectionName.isSome

def page (found : Found) (fileId : Uuid) (limit k : ℕ) : List KnowledgeChunkRead :=
  match listChunks s found fileId (k * limit) limit with
  | .ok response => response.items
  | .error _ => []

/-- However many pages are read to the end, they are every chunk once, in the order of their
indices. -/
def Partitions (found : Found) (fileId : Uuid) (limit : ℕ) : Prop :=
  ∀ pages, s.points.length ≤ pages * limit →
    (List.range pages).flatMap (page s found fileId limit) =
      (sortBy Chunk.chunkIndex s.points).map (readChunk fileId)

/-- How many points the loop asks for until it has as many as expected. -/
def reach (expected : ℕ) : ℕ :=
  expected / 100 * 100 + if expected % 100 = 0 then 0 else max 20 (expected % 100)

theorem le_reach (expected : ℕ) : expected ≤ reach expected := by
  unfold reach
  split <;> omega

variable {s}

theorem gather_eq {expected p : ℕ} {gathered : List Chunk} {cursor : Option Cursor}
    (taken : gathered = s.points.take p) (left : s.left cursor = s.points.drop p)
    (within : p ≤ s.points.length) (place : p = reach expected ∨ p % 100 = 0 ∧ p ≤ expected) :
    gather s expected gathered cursor = s.points.take (reach expected) := by
  induction rest : expected - p using Nat.strong_induction_on generalizing p gathered cursor with
  | _ rest ih =>
  have length : gathered.length = p := by rw [taken, List.length_take, min_eq_left within]
  rw [gather, length]
  split
  · rename_i short
    have round : p % 100 = 0 ∧ p ≤ expected := by
      rcases place with rfl | round
      · have := le_reach expected
        omega
      · exact round
    obtain ⟨ask, asks⟩ : ∃ ask, ask = min 100 (max 20 (expected - p)) := ⟨_, rfl⟩
    have positive : 0 < ask := by omega
    have request : scrollPoints s ask cursor = s.scroll ask cursor := by
      rw [scrollPoints, show max 1 (min ask 100) = ask by omega]
    have asked : ask = 100 ∧ p + 100 ≤ expected ∨ p + ask = reach expected := by
      simp only [reach, asks]
      split <;> omega
    have far : p + ask ≤ reach expected := by
      rcases asked with ⟨whole, before⟩ | last
      · have := le_reach expected
        omega
      · omega
    have batch := s.batch cursor positive
    rw [left] at batch
    simp only [← asks, request, batch]
    split
    · rename_i none_left
      have done : s.points.length ≤ p := by
        rcases List.take_eq_nil_iff.mp (List.isEmpty_iff.mp none_left) with zero | beyond
        · omega
        · exact List.drop_eq_nil_iff.mp beyond
      rw [taken, List.take_of_length_le done, List.take_of_length_le (by omega)]
    split
    · rename_i ended
      have all := (s.ends cursor positive).mp ended
      rw [left, List.length_drop] at all
      rw [taken, ← List.take_add, List.take_of_length_le (by omega), List.take_of_length_le (by omega)]
    · rename_i next more
      have after := s.next cursor next positive more
      have fits : ¬ (s.left cursor).length ≤ ask := fun beyond => by
        rw [(s.ends cursor positive).mpr beyond] at more
        simp at more
      rw [left, List.length_drop] at fits
      refine ih (expected - (p + ask)) (by omega) (p := p + ask) ?_ ?_ (by omega) ?_ rfl
      · rw [taken, ← List.take_add]
      · rw [after, left, List.drop_drop]
      · rcases asked with ⟨whole, before⟩ | last
        · exact .inr (by omega)
        · exact .inl last
  · rename_i enough
    have here : p = reach expected := by
      rcases place with rfl | round
      · rfl
      · have exact_ : p = expected := by omega
        simp only [reach, ← exact_, round.1, if_true]
        omega
    rw [taken, here]

theorem gather_all (expected : ℕ) : gather s expected [] none = s.points.take (reach expected) :=
  gather_eq (p := 0) (List.take_zero ..).symm List.drop_zero.symm (Nat.zero_le _)
    (.inr ⟨rfl, Nat.zero_le _⟩)

variable {found : Found} {fileId : Uuid} {limit : ℕ}

theorem page_eq (indexed : found.Indexed) (k : ℕ) :
    page s found fileId limit k =
      (slice (k * limit) limit
        (sortBy Chunk.chunkIndex (s.points.take (reach (k * limit + limit))))).map (readChunk fileId) := by
  obtain ⟨⟨doc, document, status⟩, configured, named⟩ := indexed
  obtain ⟨name, named⟩ := Option.isSome_iff_exists.mp named
  simp only [page, listChunks, document, status, configured, named, gather_all, ne_eq, not_true_eq_false,
    or_self, if_false, Option.isNone_some, Bool.false_eq_true]

theorem length_page (indexed : found.Indexed) (k : ℕ) :
    (page s found fileId limit k).length = min limit (s.points.length - k * limit) := by
  have far := le_reach (k * limit + limit)
  rw [page_eq indexed, List.length_map, length_slice, (perm_sortBy _ _).length_eq, List.length_take]
  omega

theorem readChunk_map_index (chunks : List Chunk) :
    (chunks.map (readChunk fileId)).map KnowledgeChunkRead.index = chunks.map Chunk.chunkIndex := by
  rw [List.map_map]
  rfl

/-- A page is what it should be when everything beyond the points asked for belongs on a later
page. -/
theorem page_eq_iff (indexed : found.Indexed) (positive : 0 < limit) {k : ℕ}
    (inside : k * limit < s.points.length) :
    page s found fileId limit k =
        (slice (k * limit) limit (sortBy Chunk.chunkIndex s.points)).map (readChunk fileId) ↔
      ∀ chunk ∈ s.points.drop (reach (k * limit + limit)), k * limit + limit ≤ chunk.chunkIndex := by
  have far := le_reach (k * limit + limit)
  have parts := List.take_append_drop (reach (k * limit + limit)) s.points
  have numbered := s.numbered
  have long : min (k * limit + limit) s.points.length ≤
      (s.points.take (reach (k * limit + limit))).length := by
    rw [List.length_take]
    omega
  have whole := slice_sortBy_eq_iff (u := s.points.take (reach (k * limit + limit)))
    (v := s.points.drop (reach (k * limit + limit))) (n := s.points.length)
    (by rw [parts]; exact numbered) positive inside long
  rw [parts] at whole
  rw [← whole, page_eq indexed]
  constructor
  · intro same
    have keys := congrArg (List.map KnowledgeChunkRead.index) same
    rw [readChunk_map_index, readChunk_map_index] at keys
    have distinct : (s.points.map Chunk.chunkIndex).Nodup := numbered.nodup_iff.mpr List.nodup_range
    refine eq_of_map_eq distinct (fun x member => ?_) (fun x member => ?_) keys
    · exact List.mem_of_mem_take
        ((perm_sortBy _ _).mem_iff.mp (List.mem_of_mem_drop (List.mem_of_mem_take member)))
    · exact (perm_sortBy _ _).mem_iff.mp (List.mem_of_mem_drop (List.mem_of_mem_take member))
  · rintro same
    rw [same]

/-- The pages are the document exactly where, for each page, the points asked for have every chunk
of this page and the ones before it. -/
theorem partitions_iff (indexed : found.Indexed) (positive : 0 < limit) :
    Partitions s found fileId limit ↔
      ∀ k, k * limit < s.points.length →
        ∀ chunk ∈ s.points.drop (reach (k * limit + limit)), k * limit + limit ≤ chunk.chunkIndex := by
  let ideal : ℕ → List KnowledgeChunkRead := fun k =>
    (slice (k * limit) limit (sortBy Chunk.chunkIndex s.points)).map (readChunk fileId)
  have length : (sortBy Chunk.chunkIndex s.points).length = s.points.length :=
    (perm_sortBy _ _).length_eq
  have wholly : ∀ pages, s.points.length ≤ pages * limit →
      (List.range pages).flatMap ideal =
        (sortBy Chunk.chunkIndex s.points).map (readChunk fileId) := by
    intro pages enough
    rw [← List.map_flatMap, flatMap_slice, List.take_of_length_le (by omega)]
  constructor
  · intro parts k inside
    have enough : s.points.length ≤ s.points.length * limit := Nat.le_mul_of_pos_right _ positive
    have counted : k < s.points.length := lt_of_le_of_lt (Nat.le_mul_of_pos_right _ positive) inside
    refine (page_eq_iff indexed positive inside).mp (eq_of_flatMap_eq (g := ideal) (fun j _ => ?_)
      ((parts _ enough).trans (wholly _ enough).symm) k counted)
    rw [length_page indexed, List.length_map, length_slice, length]
  · intro reached pages enough
    rw [← wholly pages enough]
    refine List.flatMap_congr fun k _ => ?_
    by_cases inside : k * limit < s.points.length
    · exact (page_eq_iff indexed positive inside).mpr (reached k inside)
    · rw [List.eq_nil_of_length_eq_zero (l := page s found fileId limit k), eq_comm, List.map_eq_nil_iff,
        ← List.length_eq_zero_iff, length_slice, length]
      · omega
      · rw [length_page indexed]
        omega

end Listing

def listScroller (points : List Chunk)
    (numbered : (points.map Chunk.chunkIndex).Perm (List.range points.length)) : Scroller ℕ where
  scroll limit offset :=
    let left := points.drop (offset.getD 0)
    (left.take limit, if left.length ≤ limit then none else some (offset.getD 0 + limit))
  left offset := points.drop (offset.getD 0)
  batch _ _ := rfl
  ends offset _ := by simp
  next offset cursor _ more := by
    simp only [ite_eq_iff, reduceCtorEq, and_false, false_or, Option.some.injEq] at more
    rw [← more.2, List.drop_drop]
    rfl
  numbered := numbered

section Runs

def chunks (indices : List ℕ) : List Chunk := indices.map fun i => ⟨"", i, ""⟩

def notes : UserDocument :=
  { id := .repeated 1, userId := .repeated 2, filename := "notes.md", status := .indexed }

def foundNotes : Found := { document := some notes, collectionName := some "kb_user" }

theorem foundNotes_indexed : foundNotes.Indexed := ⟨⟨notes, rfl, rfl⟩, rfl, rfl⟩

/-- Two chunks in reverse, one to a page. -/
theorem partitions_two :
    Partitions (listScroller (chunks [1, 0]) (by decide)) foundNotes notes.id 1 := by
  refine (partitions_iff foundNotes_indexed one_pos).mpr fun k inside => ?_
  have few : k < 2 := by simpa [Scroller.points, listScroller, chunks] using inside
  have all : (listScroller (chunks [1, 0]) (by decide)).points.drop (reach (k * 1 + 1)) = [] := by
    match k, few with
    | 0, _ => rfl
    | 1, _ => rfl
  rw [all]
  exact List.forall_mem_nil _

/-- Twenty-one chunks, the first of which is scrolled last: it is on no page, and the last one is
on two. -/
theorem first_chunk_on_no_page :
    let s := listScroller (chunks (List.range' 1 20 ++ [0])) (by decide)
    ((List.range 2).flatMap (page s foundNotes notes.id 20)).map KnowledgeChunkRead.index =
        List.range' 1 20 ++ [20] ∧
      ¬ Partitions s foundNotes notes.id 20 := by
  intro s
  have read : ((List.range 2).flatMap (page s foundNotes notes.id 20)).map KnowledgeChunkRead.index =
      List.range' 1 20 ++ [20] := by
    simp only [List.range_succ, List.range_zero, List.nil_append, List.flatMap_append,
      List.flatMap_singleton, page_eq foundNotes_indexed, List.map_append, readChunk_map_index]
    decide
  refine ⟨read, fun parts => ?_⟩
  have all := congrArg (List.map KnowledgeChunkRead.index) (parts 2 (by decide))
  rw [read, readChunk_map_index] at all
  exact absurd (all.trans (map_sortBy s.numbered)) (by decide)

end Runs
end Deeting.Knowledge
