import Deeting.SpecAgent.Executor

/-! The execution log as a status for each node: what a new row and the end of a row change,
where no node has two rows. -/
namespace Deeting.SpecAgent

def statusOf (logs : List LogRow) (id : NodeId) : Option LogStatus :=
  latestStatus (getLatestNodeLogs logs) id

def Single (logs : List LogRow) : Prop := (logs.map LogRow.nodeId).Nodup

section Logs

variable {logs : List LogRow} {row : LogRow} {id : NodeId} {status : LogStatus}

theorem Single.find? (single : Single logs) :
    (logs.find? fun row => row.nodeId = id) = some row ↔ row ∈ logs ∧ row.nodeId = id := by
  constructor
  · intro found
    exact ⟨List.mem_of_find?_eq_some found, by simpa using List.find?_some found⟩
  · rintro ⟨mem, rfl⟩
    cases found : logs.find? fun other => other.nodeId = row.nodeId with
    | none => simpa using List.find?_eq_none.mp found row mem
    | some other =>
      have same : other.nodeId = row.nodeId := by simpa using List.find?_some found
      rw [List.inj_on_of_nodup_map single (List.mem_of_find?_eq_some found) mem same]

theorem Single.perm_latest (single : Single logs) : (getLatestNodeLogs logs).Perm logs := by
  have all : (logs.filter fun row => ∀ other ∈ logs, other.nodeId = row.nodeId →
      other.stamp ≤ row.stamp) = logs := by
    rw [List.filter_eq_self]
    intro row mem
    simp only [decide_eq_true_eq]
    intro other present same
    rw [List.inj_on_of_nodup_map single present mem same]
  rw [getLatestNodeLogs, all]
  exact List.perm_insertionSort _ _

theorem Single.latest (single : Single logs) : Single (getLatestNodeLogs logs) :=
  (single.perm_latest.map _).nodup_iff.mpr single

theorem Single.reverse (single : Single logs) : Single logs.reverse := by
  rw [Single, List.map_reverse]
  exact List.nodup_reverse.mpr single

theorem Single.statusOf_eq (single : Single logs) :
    statusOf logs id = some status ↔ ∃ row ∈ logs, row.nodeId = id ∧ row.status = status := by
  rw [statusOf, latestStatus, Option.map_eq_some_iff]
  simp only [single.latest.reverse.find?, List.mem_reverse, single.perm_latest.mem_iff, and_assoc]

theorem Single.mem_idsWith (single : Single logs) :
    id ∈ idsWith status (getLatestNodeLogs logs) ↔ statusOf logs id = some status := by
  rw [single.statusOf_eq, idsWith]
  simp only [List.mem_map, List.mem_filter, single.perm_latest.mem_iff, decide_eq_true_eq]
  constructor
  · rintro ⟨row, ⟨mem, has⟩, own⟩
    exact ⟨row, mem, own, has⟩
  · rintro ⟨row, mem, own, has⟩
    exact ⟨row, ⟨mem, has⟩, own⟩

theorem Single.statusOf_eq_none (single : Single logs) :
    statusOf logs id = none ↔ ∀ row ∈ logs, row.nodeId ≠ id := by
  constructor
  · intro absent row mem own
    have found := single.statusOf_eq.mpr ⟨row, mem, own, rfl⟩
    rw [absent] at found
    cases found
  · intro absent
    cases found : statusOf logs id with
    | none => rfl
    | some status =>
      obtain ⟨row, mem, own, -⟩ := single.statusOf_eq.mp found
      exact absurd own (absent row mem)

theorem Single.append (single : Single logs) (fresh : statusOf logs row.nodeId = none) :
    Single (logs ++ [row]) := by
  rw [Single, List.map_append, List.map_singleton, List.nodup_append]
  refine ⟨single, List.nodup_singleton _, ?_⟩
  rintro id mem other last rfl
  obtain ⟨present, listed, rfl⟩ := List.mem_map.mp mem
  exact single.statusOf_eq_none.mp fresh present listed (List.mem_singleton.mp last)

theorem Single.statusOf_append (single : Single logs) (fresh : statusOf logs row.nodeId = none) :
    statusOf (logs ++ [row]) = Function.update (statusOf logs) row.nodeId (some row.status) := by
  funext id
  by_cases own : id = row.nodeId
  · subst own
    rw [Function.update_self, (single.append fresh).statusOf_eq]
    exact ⟨row, by simp, rfl, rfl⟩
  · rw [Function.update_of_ne own]
    refine Option.ext fun status => ?_
    rw [(single.append fresh).statusOf_eq, single.statusOf_eq]
    simp only [List.mem_append, List.mem_singleton]
    constructor
    · rintro ⟨present, mem | rfl, same, has⟩
      · exact ⟨present, mem, same, has⟩
      · exact absurd same.symm own
    · rintro ⟨present, mem, same, has⟩
      exact ⟨present, .inl mem, same, has⟩

variable {now log : ℕ} {outputData : Option Json}

theorem map_finish : (finishNodeExecution now log status outputData logs).map LogRow.nodeId =
    logs.map LogRow.nodeId := by
  refine List.ext_getElem? fun i => ?_
  simp only [finishNodeExecution, List.getElem?_map, List.getElem?_modify]
  cases logs[i]? with
  | none => rfl
  | some row =>
    simp only [Option.map_some]
    split <;> rfl

theorem Single.finish (single : Single logs) :
    Single (finishNodeExecution now log status outputData logs) := by
  rwa [Single, map_finish]

theorem Single.statusOf_finish (single : Single logs) (found : logs[log]? = some row) :
    statusOf (finishNodeExecution now log status outputData logs) =
      Function.update (statusOf logs) row.nodeId (some status) := by
  have listed : ∀ i, (finishNodeExecution now log status outputData logs)[i]? =
      (logs[i]?).map fun r => if log = i then
        { r with status, completedAt := some now, outputData := outputData <|> r.outputData } else r := by
    intro i
    simp only [finishNodeExecution, List.getElem?_modify]
    rfl
  funext id
  by_cases own : id = row.nodeId
  · subst own
    rw [Function.update_self, single.finish.statusOf_eq]
    refine ⟨{ row with status, completedAt := some now, outputData := outputData <|> row.outputData },
      List.mem_of_getElem? (i := log) ?_, rfl, rfl⟩
    rw [listed, found, Option.map_some, if_pos rfl]
  · rw [Function.update_of_ne own]
    refine Option.ext fun other => ?_
    rw [single.finish.statusOf_eq, single.statusOf_eq]
    constructor
    · rintro ⟨present, mem, same, has⟩
      obtain ⟨i, at_⟩ := List.mem_iff_getElem?.mp mem
      rw [listed, Option.map_eq_some_iff] at at_
      obtain ⟨old, before, rfl⟩ := at_
      by_cases here : log = i
      · subst here
        rw [found] at before
        cases before
        rw [if_pos rfl] at same
        exact absurd same.symm own
      · rw [if_neg here] at same has
        exact ⟨old, List.mem_of_getElem? before, same, has⟩
    · rintro ⟨old, mem, same, has⟩
      obtain ⟨i, before⟩ := List.mem_iff_getElem?.mp mem
      have elsewhere : log ≠ i := by
        rintro rfl
        rw [found] at before
        cases before
        exact own same.symm
      exact ⟨old, List.mem_of_getElem? (i := i)
        (by rw [listed, before, Option.map_some, if_neg elsewhere]), same, has⟩

end Logs

def Done (status : Option LogStatus) : Prop := status = some .success ∨ status = some .skipped

structure Advances (logs later : List LogRow) (id : NodeId) (status : LogStatus) : Prop where
  single : Single later
  open_ : ¬ Done (statusOf logs id)
  sets : statusOf later = Function.update (statusOf logs) id (some status)
  rows : ∀ (i : ℕ) (row : LogRow), logs[i]? = some row →
    ∃ new, later[i]? = some new ∧ LogRow.nodeId new = row.nodeId

section Advances

variable {logs later : List LogRow} {id : NodeId} {status : LogStatus}

theorem advances_append {row : LogRow} (single : Single logs)
    (fresh : statusOf logs row.nodeId = none) :
    Advances logs (logs ++ [row]) row.nodeId row.status where
  single := single.append fresh
  open_ := by simp [Done, fresh]
  sets := single.statusOf_append fresh
  rows i row found := ⟨row, by
    rw [List.getElem?_append_left (List.getElem?_eq_some_iff.mp found).1, found], rfl⟩

theorem advances_finish {log : ℕ} {row : LogRow} (now : ℕ) (status : LogStatus)
    (outputData : Option Json) (single : Single logs) (found : logs[log]? = some row)
    (open_ : ¬ Done (statusOf logs row.nodeId)) :
    Advances logs (finishNodeExecution now log status outputData logs) row.nodeId status where
  single := single.finish
  open_ := open_
  sets := single.statusOf_finish found
  rows i old before := by
    rw [finishNodeExecution, List.getElem?_modify, before]
    refine ⟨_, rfl, ?_⟩
    dsimp only
    split <;> rfl

theorem Advances.done (advances : Advances logs later id status) {other : NodeId} {s : LogStatus}
    (before : statusOf logs other = some s) (done : Done (some s)) :
    statusOf later other = some s := by
  have elsewhere : other ≠ id := by
    rintro rfl
    exact advances.open_ (before ▸ done)
  rw [advances.sets, Function.update_of_ne elsewhere, before]

end Advances

end Deeting.SpecAgent
