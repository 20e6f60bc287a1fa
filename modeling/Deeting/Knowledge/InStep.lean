import Deeting.Knowledge.Coherence

/-! Rows of documents and their points over whole runs: in step while every step keeps to the
condition, and out of step after a retry that fails. -/
namespace Deeting.Knowledge
open Deeting.Vector Transition

variable {Id : Type}

/-- The document's points are the chunks of its last successful indexing, and the row counts
them. -/
structure InStep (w : Library Id) (row : UserDocument) : Prop where
  counted : row.chunkCount = (w.lastIndexed row.id).2.length
  held : Holds w.store row.id (w.lastIndexed row.id)

theorem Coherent.inStep {dep : Deployment Id} {w : Library Id} (coherent : Coherent dep w)
    {row : UserDocument} (found : w.documents.find? row.id = some row)
    (none : ¬ Outstanding w.tasks row.id) : InStep w row := by
  constructor
  · exact coherent.counted row.id row found none
  · have committed := coherent.committed row.id row found fun ⟨t, mem, named, _⟩ =>
      none ⟨t, mem, named⟩
    rw [committed]
    exact coherent.held row.id row found

section Runs

variable [DecidableEq Id] {dep : Deployment Id} {actions : List Action} {w : Library Id}

/-- In a run whose steps keep them in step, a document without an outstanding task has the points
that its row counts, and a deleted document has none. -/
theorem in_step (keeps : Along (libraryStep dep) (Keeps dep) Library.empty actions)
    (reached : run (libraryStep dep) Library.empty actions = some w) :
    (∀ row ∈ w.documents.rows, ¬ Outstanding w.tasks row.id → InStep w row) ∧
      ∀ docId ∈ w.deleted, ∀ n, ∀ p ∈ (w.store n).rows, ¬ Carries docId p := by
  have coherent : Coherent dep w :=
    run_invariant (fun held keeps taken => held.step keeps taken) coherent_empty keeps reached
  constructor
  · intro row mem none
    exact coherent.inStep (Table.find?_eq_some.mpr ⟨mem, rfl⟩) none
  · intro docId deleted n p mem carries
    obtain ⟨row, found, -⟩ := coherent.there n p mem docId carries
    rw [coherent.gone docId deleted] at found
    cases found

end Runs

section Shared

def report : Uuid := .repeated 1
def handbook : Uuid := .repeated 3
def reader : Uuid := .repeated 2

def sharedDeployment : Deployment (Uuid × ℕ) where
  settings := { strategy := "shared" }
  hashing := ⟨id, id⟩
  chunkId := Prod.mk
  injective same := Prod.mk.inj same

/-- A file of one chunk, and an embedding that answers or does not. -/
def oneChunk (answers : Bool) : Given where
  text := .ok "a line"
  split text := [text]
  embed _ := if answers then .ok [[1]] else .error "timeout"
  model := some "m"
  checked := .ok ()

def uploaded : List Action :=
  [.upload report reader "report.txt", .start 0 true, .write 0 (oneChunk true), .finish 0]

/-- The document is indexed a second time, another one is uploaded and indexed, and the first
one is deleted. -/
def renewed : List Action :=
  uploaded ++ [.retry reader report, .start 0 true, .write 0 (oneChunk true), .finish 0,
    .upload handbook reader "handbook.txt", .start 0 true, .write 0 (oneChunk true), .finish 0,
    .delete reader report]

theorem keeps_renewed :
    Along (libraryStep sharedDeployment) (Keeps sharedDeployment) Library.empty renewed := by
  refine (along_cons_of_step rfl).mpr ⟨trivial, ?_⟩
  refine (along_cons_of_step rfl).mpr ⟨nofun, ?_⟩
  refine (along_cons_of_step rfl).mpr ⟨fun document at_ => ?_, ?_⟩
  · cases at_
    exact ⟨⟨_, rfl⟩, .inl rfl⟩
  refine (along_cons_of_step rfl).mpr ⟨fun document model name points row at_ found => ?_, ?_⟩
  · cases at_
    exact ⟨.inr rfl, .inr (.inl (by decide))⟩
  refine (along_cons_of_step rfl).mpr ⟨trivial, ?_⟩
  refine (along_cons_of_step rfl).mpr ⟨nofun, ?_⟩
  refine (along_cons_of_step rfl).mpr ⟨fun document at_ => ?_, ?_⟩
  · cases at_
    exact ⟨⟨_, rfl⟩, .inr ⟨rfl, by decide⟩⟩
  refine (along_cons_of_step rfl).mpr ⟨fun document model name points row at_ found => ?_, ?_⟩
  · cases at_
    exact ⟨.inr rfl, .inr (.inl (by decide))⟩
  refine (along_cons_of_step rfl).mpr ⟨trivial, ?_⟩
  refine (along_cons_of_step rfl).mpr ⟨nofun, ?_⟩
  refine (along_cons_of_step rfl).mpr ⟨fun document at_ => ?_, ?_⟩
  · cases at_
    exact ⟨⟨_, rfl⟩, .inl rfl⟩
  refine (along_cons_of_step rfl).mpr ⟨fun document model name points row at_ found => ?_, ?_⟩
  · cases at_
    exact ⟨.inr rfl, .inr (.inl (by decide))⟩
  refine ⟨fun document found => ?_, fun _ _ => trivial⟩
  cases found
  exact .inr rfl

theorem in_step_renewed :
    ∃ w, run (libraryStep sharedDeployment) Library.empty renewed = some w ∧
      w.deleted = [report] ∧ w.documents.rows.map UserDocument.id = [handbook] ∧
      (∀ row ∈ w.documents.rows, ¬ Outstanding w.tasks row.id → InStep w row) ∧
      ∀ docId ∈ w.deleted, ∀ n, ∀ p ∈ (w.store n).rows, ¬ Carries docId p := by
  have ends : (run (libraryStep sharedDeployment) Library.empty renewed).map (fun w =>
      (w.deleted, w.documents.rows.map UserDocument.id)) = some ([report], [handbook]) := by
    decide +kernel
  obtain ⟨w, reached, same⟩ := Option.map_eq_some_iff.mp ends
  obtain ⟨deleted, rows⟩ := Prod.mk.inj same
  exact ⟨w, reached, deleted, rows, in_step keeps_renewed reached⟩

/-- The document is tried again, and the embedding does not answer: nothing is counted any more,
and the chunk is still there. -/
theorem failed_retry_out_of_step :
    ∃ w, run (libraryStep sharedDeployment) Library.empty
        (uploaded ++ [.retry reader report, .start 0 true, .write 0 (oneChunk false)]) = some w ∧
      w.tasks = [] ∧ ∃ row ∈ w.documents.rows, ¬ InStep w row := by
  let ran := run (libraryStep sharedDeployment) Library.empty
    (uploaded ++ [.retry reader report, .start 0 true, .write 0 (oneChunk false)])
  have tasks : ran.map (fun w => w.tasks.length) = some 0 := by decide +kernel
  have rows : ran.map (fun w => w.documents.rows.map fun d => (d.id, d.chunkCount)) =
      some [(report, 0)] := by decide +kernel
  have points : ran.map (fun w => (w.store "kb_shared_v1").rows.map fun p =>
      (p.payload.get? "doc_id").bind Json.string?) = some [some report.text] := by decide +kernel
  obtain ⟨w, reached, none⟩ := Option.map_eq_some_iff.mp tasks
  refine ⟨w, reached, List.length_eq_zero_iff.mp none, ?_⟩
  rw [reached, Option.map_some, Option.some.injEq] at rows points
  obtain ⟨row, rows, same⟩ := List.map_eq_singleton_iff.mp rows
  obtain ⟨p, stored, text⟩ := List.map_eq_singleton_iff.mp points
  obtain ⟨row_id, count⟩ := Prod.mk.inj same
  refine ⟨row, by simp [rows], fun inStep => ?_⟩
  have carries : Carries row.id p := by
    obtain ⟨value, has, string⟩ := Option.bind_eq_some_iff.mp text
    cases value with
    | str found =>
      rw [row_id, Carries, has]
      exact congrArg (some ∘ Json.str) (Option.some.inj string)
    | _ => cases string
  have mem : p ∈ (w.store "kb_shared_v1").rows := by simp [stored]
  have indexed := ((inStep.held "kb_shared_v1" p).mp ⟨mem, carries⟩).2
  have counted := inStep.counted
  rw [count] at counted
  rw [List.length_eq_zero_iff.mp counted.symm] at indexed
  exact absurd indexed List.not_mem_nil

end Shared
end Deeting.Knowledge
