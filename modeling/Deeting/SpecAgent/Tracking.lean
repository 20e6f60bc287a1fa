import Deeting.SpecAgent.Logs
import Deeting.Transition
import Mathlib.Data.List.Perm.Subperm

/-! What the logs of a plan and the work of its executor owe to each other, in every run:
scheduled nodes have no row, nodes to be skipped are blocked by one they need, and what is
done stays as it is. -/
namespace Deeting.SpecAgent
open Transition

def Blocking (status : Option LogStatus) : Prop := status = some .skipped ∨ status = some .running

def Fits (m : SpecManifest) (logs : List LogRow) : Work → Prop
  | .start node => node ∈ m.nodes ∧ statusOf logs node.id = none ∧
      ∀ dep ∈ node.needs, statusOf logs dep = some .success
  | .carry node log => node ∈ m.nodes ∧
      ∃ row, logs[log]? = some row ∧ row.nodeId = node.id ∧ statusOf logs node.id = some .running
  | .close log => ∃ node ∈ m.nodes, node.kind = .logicGate ∧
      ∃ row, logs[log]? = some row ∧ row.nodeId = node.id ∧ statusOf logs node.id = some .running
  | .report status _ => status = some .completed → ∀ node ∈ m.nodes, Done (statusOf logs node.id)
  | .wrapUp _ => True

def Work.waits : Work → Bool
  | .start _ | .report .. | .wrapUp _ => true
  | .carry .. | .close _ => false

def startIds (work : List Work) : List NodeId :=
  work.filterMap fun
    | .start node => some node.id
    | _ => none

structure Executing (m : SpecManifest) (logs : List LogRow) (e : Executor) : Prop where
  cache : ∀ id, id ∈ e.skippedCache ↔ statusOf logs id = some .skipped
  skips : ∀ id ∈ e.skips, ∃ node ∈ m.nodes, node.id = id ∧
    ∃ dep ∈ node.needs, Blocking (statusOf logs dep)
  fits : ∀ piece ∈ e.work, Fits m logs piece
  starts : (startIds e.work).Nodup
  waits : ∀ piece ∈ e.work.tail, piece.waits = true

/-- The logs of a plan: one row a node, nothing started before its needs have succeeded, and
an action without a check-in successful only when its sub-agent has returned. -/
structure Recorded (m : SpecManifest) (logs : List LogRow) (ran : List NodeId) : Prop where
  single : Single logs
  known : ∀ id status, statusOf logs id = some status → ∃ node ∈ m.nodes, node.id = id ∧
    (status ≠ .skipped → ∀ dep ∈ node.needs, statusOf logs dep = some .success)
  started : ∀ id, statusOf logs id ≠ some .pending
  returned : ∀ node ∈ m.nodes, node.isAction = true → node.checkIn = false →
    statusOf logs node.id = some .success → node.id ∈ ran
  asked : ∀ node ∈ m.nodes, node.checkIn = true → node.id ∉ ran
  waiting : ∀ node ∈ m.nodes, statusOf logs node.id = some .waitingApproval → node.checkIn = true

structure Tracked (m : SpecManifest) (w : World) : Prop where
  recorded : Recorded m w.logs w.ran
  ordered : w.premature = []
  executing : ∀ e, w.executor = some e → Executing m w.logs e

section Schedules

variable {m : SpecManifest} {logs : List LogRow} {ran : List NodeId} {node : SpecNode}

theorem SpecNode.isAction_of_checkIn (checkIn : node.checkIn = true) : node.isAction = true := by
  obtain ⟨id, kind, needs⟩ := node
  cases kind with
  | action outputAs asks => rfl
  | logicGate | replanTrigger => cases checkIn

theorem SpecManifest.eq_of_id {a b : SpecNode} (ha : a ∈ m.nodes) (hb : b ∈ m.nodes)
    (same : a.id = b.id) : a = b :=
  List.inj_on_of_nodup_map m.distinct ha hb same

theorem readiness_executable (single : Single logs)
    (ready : readiness (getLatestNodeLogs logs) node = .executable) :
    (∀ status ∈ statusOf logs node.id, status = .pending ∨ status = .failed) ∧
      ∀ dep ∈ node.needs, statusOf logs dep = some .success := by
  rw [readiness] at ready
  split at ready
  · cases ready
  rename_i open_
  simp only [single.mem_idsWith, not_or] at open_
  obtain ⟨active, unsuccessful, unskipped⟩ := open_
  split at ready
  · rename_i none_
    constructor
    · intro status found
      rw [Option.mem_def] at found
      change latestStatus _ _ ∉ _ at active
      rw [show latestStatus (getLatestNodeLogs logs) node.id = some status from found] at active
      rw [found] at unsuccessful unskipped
      cases status <;> simp_all
    · intro dep need
      have passed := List.find?_eq_none.mp none_ dep need
      simp only [single.mem_idsWith, decide_eq_true_eq, not_or, not_not] at passed
      exact passed.2
  · split at ready
    · cases ready
    · cases ready

theorem readiness_skip (single : Single logs)
    (skip : readiness (getLatestNodeLogs logs) node = .skip) :
    ∃ dep ∈ node.needs, statusOf logs dep = some .skipped := by
  rw [readiness] at skip
  split at skip
  · cases skip
  split at skip
  · cases skip
  · rename_i dep found
    split at skip
    · rename_i skipped
      exact ⟨dep, List.mem_of_find?_eq_some found, single.mem_idsWith.mp skipped⟩
    · cases skip

theorem all_done (recorded : Recorded m logs ran)
    (count : m.nodes.length ≤ (idsWith .success (getLatestNodeLogs logs)).dedup.length +
      (idsWith .skipped (getLatestNodeLogs logs)).dedup.length) :
    ∀ node ∈ m.nodes, Done (statusOf logs node.id) := by
  have single := recorded.single
  let done := (idsWith .success (getLatestNodeLogs logs)).dedup ++
    (idsWith .skipped (getLatestNodeLogs logs)).dedup
  have nodup : done.Nodup := by
    rw [List.nodup_append]
    refine ⟨List.nodup_dedup _, List.nodup_dedup _, ?_⟩
    rintro id successful other skipped rfl
    rw [List.mem_dedup, single.mem_idsWith] at successful skipped
    rw [successful] at skipped
    cases skipped
  have listed : done ⊆ m.nodes.map SpecNode.id := by
    intro id mem
    have found : ∃ status, statusOf logs id = some status := by
      rcases List.mem_append.mp mem with mem | mem
      · exact ⟨_, single.mem_idsWith.mp (List.mem_dedup.mp mem)⟩
      · exact ⟨_, single.mem_idsWith.mp (List.mem_dedup.mp mem)⟩
    obtain ⟨status, found⟩ := found
    obtain ⟨node, present, own, -⟩ := recorded.known id status found
    exact own ▸ List.mem_map_of_mem present
  have same : done.Perm (m.nodes.map SpecNode.id) := by
    refine (List.subperm_of_subset nodup listed).perm_of_length_le ?_
    rw [List.length_map, List.length_append]
    exact count
  intro node present
  have mem : node.id ∈ done := same.mem_iff.mpr (List.mem_map_of_mem present)
  rcases List.mem_append.mp mem with mem | mem
  · exact .inl (single.mem_idsWith.mp (List.mem_dedup.mp mem))
  · exact .inr (single.mem_idsWith.mp (List.mem_dedup.mp mem))

end Schedules

section Advances

variable {m : SpecManifest} {logs later : List LogRow} {ran more : List NodeId} {node : SpecNode}
  {id : NodeId} {status : LogStatus} {e : Executor}

namespace Advances

theorem recorded (advances : Advances logs later id status) (recorded : Recorded m logs ran)
    (present : node ∈ m.nodes) (own : node.id = id)
    (needs : status ≠ .skipped → ∀ dep ∈ node.needs, statusOf logs dep = some .success)
    (begun : status ≠ .pending) (grows : ran ⊆ more)
    (asked : ∀ node ∈ m.nodes, node.checkIn = true → node.id ∉ more)
    (returned : status = .success → node.isAction = true → node.checkIn = false → id ∈ more)
    (waiting : status = .waitingApproval → node.checkIn = true) : Recorded m later more := by
  subst own
  have success : ∀ dep, statusOf logs dep = some .success → statusOf later dep = some .success :=
    fun dep before => advances.done before (.inl rfl)
  refine ⟨advances.single, ?_, ?_, ?_, asked, ?_⟩
  · intro other s found
    by_cases same : other = node.id
    · subst same
      rw [advances.sets, Function.update_self, Option.some.injEq] at found
      subst found
      exact ⟨node, present, rfl, fun other dep need => success dep (needs other dep need)⟩
    · rw [advances.sets, Function.update_of_ne same] at found
      obtain ⟨known, listed, own, met⟩ := recorded.known other s found
      exact ⟨known, listed, own, fun other dep need => success dep (met other dep need)⟩
  · intro other pending
    by_cases same : other = node.id
    · subst same
      rw [advances.sets, Function.update_self, Option.some.injEq] at pending
      exact begun pending
    · rw [advances.sets, Function.update_of_ne same] at pending
      exact recorded.started other pending
  · intro other listed action unasked found
    by_cases same : other.id = node.id
    · rw [SpecManifest.eq_of_id listed present same] at action unasked found ⊢
      rw [advances.sets, Function.update_self, Option.some.injEq] at found
      exact returned found action unasked
    · rw [advances.sets, Function.update_of_ne same] at found
      exact grows (recorded.returned other listed action unasked found)
  · intro other listed found
    by_cases same : other.id = node.id
    · rw [SpecManifest.eq_of_id listed present same] at found ⊢
      rw [advances.sets, Function.update_self, Option.some.injEq] at found
      exact waiting found
    · rw [advances.sets, Function.update_of_ne same] at found
      exact recorded.waiting other listed found

theorem fits (advances : Advances logs later id status) {piece : Work} (fits : Fits m logs piece)
    (waits : piece.waits = true ∨ statusOf logs id ≠ some .running)
    (fresh : ∀ node, piece = .start node → node.id ≠ id) : Fits m later piece := by
  have running : ∀ other, piece.waits = false → statusOf logs other = some .running →
      statusOf later other = some .running := by
    intro other busy found
    have elsewhere : other ≠ id := by
      rintro rfl
      rcases waits with waits | idle
      · rw [busy] at waits
        cases waits
      · exact idle found
    rw [advances.sets, Function.update_of_ne elsewhere, found]
  cases piece with
  | start node =>
    obtain ⟨listed, absent, needs⟩ := fits
    refine ⟨listed, ?_, fun dep need => advances.done (needs dep need) (.inl rfl)⟩
    rw [advances.sets, Function.update_of_ne (fresh node rfl), absent]
  | carry node log =>
    obtain ⟨listed, row, found, own, busy⟩ := fits
    obtain ⟨new, after, same⟩ := advances.rows log row found
    exact ⟨listed, new, after, same.trans own, running _ rfl busy⟩
  | close log =>
    obtain ⟨node, listed, gate, row, found, own, busy⟩ := fits
    obtain ⟨new, after, same⟩ := advances.rows log row found
    exact ⟨node, listed, gate, new, after, same.trans own, running _ rfl busy⟩
  | report status result =>
    intro completed node listed
    rcases fits completed node listed with success | skipped
    · exact .inl (advances.done success (.inl rfl))
    · exact .inr (advances.done skipped (.inr rfl))
  | wrapUp executed => trivial

/-- The executor goes on with its work, where the node that advances was not running, or is
what it was at. -/
theorem executing (advances : Advances logs later id status) (executing : Executing m logs e)
    (unskipped : status ≠ .skipped)
    (quiet : statusOf logs id ≠ some .running ∨
      e.skips = [] ∧ ∀ piece ∈ e.work, piece.waits = true)
    (fresh : ∀ node, .start node ∈ e.work → node.id ≠ id) : Executing m later e := by
  refine ⟨?_, ?_, ?_, executing.starts, executing.waits⟩
  · intro other
    rw [executing.cache, advances.sets]
    by_cases same : other = id
    · subst same
      rw [Function.update_self, Option.some.injEq]
      exact iff_of_false (fun skipped => advances.open_ (.inr skipped)) unskipped
    · rw [Function.update_of_ne same]
  · intro other mem
    rcases quiet with idle | ⟨none, -⟩
    · obtain ⟨node, listed, own, dep, need, blocking⟩ := executing.skips other mem
      refine ⟨node, listed, own, dep, need, ?_⟩
      rcases blocking with skipped | busy
      · exact .inl (advances.done skipped (.inr rfl))
      · refine .inr ?_
        rw [advances.sets, Function.update_of_ne, busy]
        rintro rfl
        exact idle busy
    · rw [none] at mem
      cases mem
  · intro piece mem
    refine advances.fits (executing.fits piece mem) ?_ fun node start => fresh node (start ▸ mem)
    rcases quiet with idle | ⟨-, waits⟩
    · exact .inr idle
    · exact .inl (waits piece mem)

end Advances
end Advances

structure Goes (m : SpecManifest) (w t : World) : Prop where
  tracked : Tracked m t
  logs : t.logs = w.logs ∨ ∃ id status, Advances w.logs t.logs id status

section Steps

variable {m : SpecManifest} {logs : List LogRow} {ran : List NodeId} {e : Executor} {w t : World}
  {a : Action}

theorem mem_children {id child : NodeId} :
    child ∈ m.children id ↔ ∃ node ∈ m.nodes, node.id = child ∧ id ∈ node.needs := by
  simp only [SpecManifest.children, List.mem_flatMap, List.mem_map, List.mem_filter,
    decide_eq_true_eq]
  constructor
  · rintro ⟨node, listed, dep, ⟨need, rfl⟩, rfl⟩
    exact ⟨node, listed, rfl, need⟩
  · rintro ⟨node, listed, rfl, need⟩
    exact ⟨node, listed, id, ⟨need, rfl⟩, rfl⟩

theorem replay_foldl (e : Executor) (latest : List LogRow) :
    let made := latest.foldl (Executor.replay m) e
    made.skips = e.skips ∧ made.work = e.work ∧ ∀ id, id ∈ made.skippedCache ↔
      id ∈ e.skippedCache ∨ ∃ row ∈ latest, row.nodeId = id ∧ row.status = .skipped := by
  induction latest generalizing e with
  | nil => simp
  | cons row rest ih =>
    obtain ⟨skips, work, cache⟩ := ih (e.replay m row)
    have now : (e.replay m row).skips = e.skips ∧ (e.replay m row).work = e.work ∧
        ∀ id, id ∈ (e.replay m row).skippedCache ↔
          id ∈ e.skippedCache ∨ row.nodeId = id ∧ row.status = .skipped := by
      unfold Executor.replay
      split
      · rename_i success _
        simp [success]
      · rename_i skipped
        simp [skipped, or_comm, eq_comm]
      · rename_i other _
        exact ⟨rfl, rfl, fun id => by simp [show row.status ≠ .skipped from other]⟩
    refine ⟨skips.trans now.1, work.trans now.2.1, fun id => ?_⟩
    rw [List.foldl_cons, cache, now.2.2]
    simp only [List.mem_cons, exists_eq_or_imp, or_assoc]

theorem create_idle (m : SpecManifest) (planContext : String → Option Json) (logs : List LogRow) :
    (Executor.create m planContext logs).skips = [] ∧
      (Executor.create m planContext logs).work = [] := by
  obtain ⟨skips, work, -⟩ := replay_foldl (m := m)
    { context := fun name => planContext name <|> m.context name, nodeOutputs := fun _ => none
      skippedCache := [] } (getLatestNodeLogs logs)
  exact ⟨skips, work⟩

theorem executing_create (single : Single logs) (planContext : String → Option Json) :
    Executing m logs (.create m planContext logs) := by
  obtain ⟨skips, work, cache⟩ := replay_foldl (m := m)
    { context := fun name => planContext name <|> m.context name, nodeOutputs := fun _ => none
      skippedCache := [] } (getLatestNodeLogs logs)
  refine ⟨fun id => ?_, ?_, ?_, ?_, ?_⟩
  · rw [single.statusOf_eq]
    refine (cache id).trans ?_
    simp [single.perm_latest.mem_iff]
  · intro id mem
    rw [Executor.create, skips] at mem
    cases mem
  all_goals
    rw [Executor.create, work]
    simp [startIds]

theorem startIds_append (executable : List SpecNode) (executed : ℕ) :
    startIds (executable.map Work.start ++ [.wrapUp executed]) = executable.map SpecNode.id := by
  simp [startIds, List.filterMap_map]

theorem fits_of_ready {node : SpecNode} (recorded : Recorded m logs ran)
    (clean : idsWith .failed (getLatestNodeLogs logs) = []) (listed : node ∈ m.nodes)
    (ready : readiness (getLatestNodeLogs logs) node = .executable) :
    Fits m logs (.start node) := by
  obtain ⟨open_, needs⟩ := readiness_executable recorded.single ready
  refine ⟨listed, ?_, needs⟩
  cases found : statusOf logs node.id with
  | none => rfl
  | some status =>
    rcases open_ status found with rfl | rfl
    · exact absurd found (recorded.started node.id)
    · rw [← recorded.single.mem_idsWith, clean] at found
      cases found

theorem fits_verdict (recorded : Recorded m logs ran) :
    Fits m logs (verdict m (getLatestNodeLogs logs)) := by
  unfold verdict
  split
  · rename_i count
    exact fun _ => all_done recorded count
  · split
    · nofun
    · nofun

theorem startIds_verdict (latest : List LogRow) : startIds [verdict m latest] = [] := by
  unfold verdict
  split
  · rfl
  · split
    · rfl
    · rfl

theorem waits_of_starts {nodes : List SpecNode} {count : ℕ} {piece : Work}
    (mem : piece ∈ nodes.map Work.start ++ [.wrapUp count]) : piece.waits = true := by
  rcases List.mem_append.mp mem with mem | mem
  · obtain ⟨node, -, rfl⟩ := List.mem_map.mp mem
    rfl
  · rw [List.mem_singleton.mp mem]
    rfl

theorem executing_schedule (recorded : Recorded m logs ran) (executing : Executing m logs e)
    (idle : e.skips = [] ∧ e.work = []) : Executing m logs (e.schedule m logs) := by
  unfold Executor.schedule
  simp only
  split
  · refine ⟨executing.cache, by simp [idle.1], ?_, by simp [startIds], by simp⟩
    intro piece mem
    rw [List.mem_singleton] at mem
    subst mem
    nofun
  · rename_i unfailed
    have blocked : ∀ id ∈ (m.nodes.filter fun node =>
        readiness (getLatestNodeLogs logs) node = .skip).map SpecNode.id,
        ∃ node ∈ m.nodes, node.id = id ∧ ∃ dep ∈ node.needs, Blocking (statusOf logs dep) := by
      intro id mem
      obtain ⟨node, listed, rfl⟩ := List.mem_map.mp mem
      obtain ⟨present, skip⟩ := List.mem_filter.mp listed
      obtain ⟨dep, need, skipped⟩ := readiness_skip recorded.single (of_decide_eq_true skip)
      exact ⟨node, present, rfl, dep, need, .inl skipped⟩
    split
    · refine ⟨executing.cache, blocked, ?_, ?_, nofun⟩
      · intro piece mem
        rw [List.mem_singleton] at mem
        subst mem
        exact fits_verdict recorded
      · simp only [startIds_verdict, List.nodup_nil]
    · refine ⟨executing.cache, blocked, ?_, ?_, ?_⟩
      · intro piece mem
        rcases List.mem_append.mp mem with mem | mem
        · obtain ⟨node, listed, rfl⟩ := List.mem_map.mp mem
          obtain ⟨present, ready⟩ := List.mem_filter.mp listed
          exact fits_of_ready recorded (not_not.mp unfailed) present (of_decide_eq_true ready)
        · rw [List.mem_singleton] at mem
          subst mem
          trivial
      · rw [startIds_append]
        exact m.distinct.sublist (List.filter_sublist.map _)
      · intro piece mem
        exact waits_of_starts (List.mem_of_mem_tail mem)

theorem Executing.rest {piece : Work} {rest : List Work} (executing : Executing m logs e)
    (work : e.work = piece :: rest) : Executing m logs { e with work := rest } where
  cache := executing.cache
  skips := executing.skips
  fits other mem := executing.fits other (work ▸ List.mem_cons_of_mem _ mem)
  starts := by
    have nodup := executing.starts
    rw [work, startIds] at nodup
    exact nodup.sublist ((List.sublist_cons_self _ _).filterMap _)
  waits other mem := executing.waits other (by rw [work]; exact List.mem_of_mem_tail mem)

theorem Executing.rest_waits {piece : Work} {rest : List Work} (executing : Executing m logs e)
    (work : e.work = piece :: rest) : ∀ other ∈ rest, other.waits = true :=
  fun other mem => executing.waits other (by rw [work]; exact mem)

theorem Executing.cons (executing : Executing m logs e) (piece : Work) (fits : Fits m logs piece)
    (waits : ∀ other ∈ e.work, other.waits = true) (busy : ∀ node, piece ≠ .start node) :
    Executing m logs { e with work := piece :: e.work } where
  cache := executing.cache
  skips := executing.skips
  fits other mem := by
    rcases List.mem_cons.mp mem with rfl | mem
    · exact fits
    · exact executing.fits other mem
  starts := by
    have same : startIds (piece :: e.work) = startIds e.work := by
      cases piece with
      | start node => exact absurd rfl (busy node)
      | _ => rfl
    rw [same]
    exact executing.starts
  waits := waits

/-- A need of the node to be skipped has not succeeded, so that the node has no row unless it
is skipped already. -/
theorem Executing.skip_fresh (recorded : Recorded m logs ran) (executing : Executing m logs e)
    {id : NodeId} {rest : List NodeId} (skips : e.skips = id :: rest) (uncached : id ∉ e.skippedCache) :
    statusOf logs id = none ∧ ∃ node ∈ m.nodes, node.id = id ∧
      ∃ dep ∈ node.needs, statusOf logs dep ≠ some .success := by
  obtain ⟨node, listed, own, dep, need, blocking⟩ := executing.skips id (skips ▸ List.mem_cons_self)
  have unmet : statusOf logs dep ≠ some .success := by
    rcases blocking with skipped | busy
    · simp [skipped]
    · simp [busy]
  refine ⟨?_, node, listed, own, dep, need, unmet⟩
  cases found : statusOf logs id with
  | none => rfl
  | some status =>
    obtain ⟨known, present, same, met⟩ := recorded.known id status found
    rw [SpecManifest.eq_of_id present listed (same.trans own.symm)] at met
    by_cases skipped : status = .skipped
    · exact absurd ((executing.cache id).mpr (skipped ▸ found)) uncached
    · exact absurd (met skipped dep need) unmet

theorem Goes.of_executor (recorded : Recorded m t.logs t.ran) (ordered : t.premature = [])
    (current : t.executor = some e) (executing : Executing m t.logs e)
    (logs : t.logs = w.logs ∨ ∃ id status, Advances w.logs t.logs id status) : Goes m w t := by
  refine ⟨⟨recorded, ordered, fun other same => ?_⟩, logs⟩
  rw [current] at same
  cases same
  exact executing

theorem goes_skip (tracked : Tracked m w) {id : NodeId} {rest : List NodeId}
    (current : w.executor = some e) (skips : e.skips = id :: rest) :
    Goes m w (w.skip m e id rest) := by
  have executing := tracked.executing e current
  have later : ∀ other ∈ rest, ∃ node ∈ m.nodes, node.id = other ∧
      ∃ dep ∈ node.needs, Blocking (statusOf w.logs dep) :=
    fun other mem => executing.skips other (skips ▸ List.mem_cons_of_mem _ mem)
  unfold World.skip
  split
  · exact .of_executor tracked.recorded tracked.ordered rfl
      ⟨executing.cache, later, executing.fits, executing.starts, executing.waits⟩ (.inl rfl)
  · rename_i uncached
    obtain ⟨fresh, node, listed, own, dep, need, unmet⟩ :=
      executing.skip_fresh tracked.recorded skips uncached
    have advances : Advances w.logs (w.logs ++ [⟨id, .skipped, none, w.now, some w.now⟩]) id
        .skipped :=
      advances_append tracked.recorded.single fresh
    refine .of_executor ?_ tracked.ordered rfl ?_ (.inr ⟨_, _, advances⟩)
    · exact advances.recorded tracked.recorded listed own (absurd rfl) nofun (List.Subset.refl _)
        tracked.recorded.asked nofun nofun
    · refine ⟨?_, ?_, ?_, executing.starts, executing.waits⟩
      · intro other
        change other ∈ id :: e.skippedCache ↔ statusOf _ other = _
        rw [World.addRow, advances.sets, List.mem_cons, executing.cache]
        by_cases same : other = id
        · simp [same]
        · simp [same]
      · intro other mem
        change other ∈ m.children id ++ rest at mem
        change ∃ node ∈ m.nodes, node.id = other ∧ ∃ dep ∈ node.needs,
          Blocking (statusOf (w.logs ++ _) dep)
        rcases List.mem_append.mp mem with mem | mem
        · obtain ⟨child, present, same, need⟩ := mem_children.mp mem
          refine ⟨child, present, same, id, need, .inl ?_⟩
          rw [advances.sets, Function.update_self]
        · obtain ⟨blocked, present, same, dep, need, blocking⟩ := later other mem
          refine ⟨blocked, present, same, dep, need, ?_⟩
          rcases blocking with skipped | busy
          · exact .inl (advances.done skipped (.inr rfl))
          · refine .inr ?_
            rw [advances.sets, Function.update_of_ne, busy]
            rintro rfl
            rw [fresh] at busy
            cases busy
      · intro piece mem
        refine advances.fits (executing.fits piece mem) (.inr (by simp [fresh])) ?_
        rintro started rfl same
        obtain ⟨present, -, met⟩ := executing.fits _ mem
        rw [SpecManifest.eq_of_id present listed (same.trans own.symm)] at met
        exact unmet (met dep need)

theorem goes_start (tracked : Tracked m w) {node : SpecNode} {rest : List Work}
    (current : w.executor = some e) (work : e.work = .start node :: rest) :
    Goes m w { w.addRow node.id .running none with
      executor := some { e with work := .carry node w.logs.length :: rest }
      premature := if w.Met node then w.premature else node.id :: w.premature } := by
  have executing := tracked.executing e current
  obtain ⟨listed, absent, needs⟩ := executing.fits (.start node) (work ▸ List.mem_cons_self)
  have met : w.Met node := fun dep need => by
    rw [show latestStatus (getLatestNodeLogs w.logs) dep = some .success from needs dep need]
    exact List.mem_cons_self
  have advances : Advances w.logs (w.logs ++ [⟨node.id, .running, none, w.now, none⟩]) node.id
      .running :=
    advances_append tracked.recorded.single absent
  have others : ∀ other, Work.start other ∈ rest → other.id ≠ node.id := by
    have nodup := executing.starts
    rw [work] at nodup
    intro other mem same
    have first : node.id ∉ startIds rest := (List.nodup_cons.mp nodup).1
    exact first (List.mem_filterMap.mpr ⟨.start other, mem, congrArg some same⟩)
  have later := advances.executing (executing.rest work) nofun (.inl (by simp [absent])) others
  rw [if_pos met]
  refine .of_executor ?_ tracked.ordered rfl
    (later.cons (.carry node w.logs.length) ?_ (executing.rest_waits work) nofun)
    (.inr ⟨_, _, advances⟩)
  · exact advances.recorded tracked.recorded listed rfl (fun _ => needs) nofun
      (List.Subset.refl _) tracked.recorded.asked nofun nofun
  · refine ⟨listed, _, List.getElem?_concat_length, rfl, ?_⟩
    rw [advances.sets, Function.update_self]

theorem finish_running {node : SpecNode} {row : LogRow} {log : ℕ} {more : List NodeId} (now : ℕ)
    (status : LogStatus) (outputData : Option Json) (recorded : Recorded m logs ran)
    (listed : node ∈ m.nodes) (found : logs[log]? = some row) (own : row.nodeId = node.id)
    (busy : statusOf logs node.id = some .running)
    (begun : status ≠ .pending) (grows : ran ⊆ more)
    (asked : ∀ node ∈ m.nodes, node.checkIn = true → node.id ∉ more)
    (returned : status = .success → node.isAction = true → node.checkIn = false → node.id ∈ more)
    (waiting : status = .waitingApproval → node.checkIn = true) (unskipped : status ≠ .skipped) :
    Recorded m (finishNodeExecution now log status outputData logs) more ∧
      Advances logs (finishNodeExecution now log status outputData logs) node.id status ∧
      ∀ e, Executing m logs e → e.skips = [] → (∀ piece ∈ e.work, piece.waits = true) →
        Executing m (finishNodeExecution now log status outputData logs) e := by
  have advances : Advances logs (finishNodeExecution now log status outputData logs) node.id
      status := by
    have finished := advances_finish now status outputData recorded.single found
      (by simp [own, busy, Done])
    rwa [own] at finished
  have needs : ∀ dep ∈ node.needs, statusOf logs dep = some .success := by
    obtain ⟨known, present, same, met⟩ := recorded.known node.id _ busy
    rw [SpecManifest.eq_of_id present listed same] at met
    exact met (by decide)
  refine ⟨?_, advances, ?_⟩
  · exact advances.recorded recorded listed rfl (fun _ => needs) begun grows asked returned waiting
  · intro e executing skips waits
    refine advances.executing executing unskipped (.inr ⟨skips, waits⟩) ?_
    intro other mem same
    obtain ⟨-, absent, -⟩ := executing.fits _ mem
    rw [same, busy] at absent
    cases absent

theorem Executing.halt {status : PlanStatus} {result : StepResult} (executing : Executing m logs e)
    (unfinished : status ≠ .completed) :
    Executing m logs { e with work := [.report (some status) result] } where
  cache := executing.cache
  skips := executing.skips
  fits piece mem := by
    rw [List.mem_singleton] at mem
    subst mem
    exact fun completed => absurd (Option.some.inj completed) unfinished
  starts := List.nodup_nil
  waits := nofun

theorem goes_carry (tracked : Tracked m w) {node : SpecNode} {log : ℕ} {rest : List Work}
    {outcome : Outcome} (current : w.executor = some e) (skips : e.skips = [])
    (work : e.work = .carry node log :: rest) (taken : w.carry m e node log rest outcome = some t) :
    Goes m w t := by
  have executing := tracked.executing e current
  obtain ⟨listed, row, found, own, busy⟩ := executing.fits (.carry node log)
    (work ▸ List.mem_cons_self)
  have recorded := tracked.recorded
  have ended (status : LogStatus) (plan : PlanStatus) (result : StepResult)
      (begun : status ≠ .pending) (unsuccessful : status ≠ .success) (unskipped : status ≠ .skipped)
      (waiting : status = .waitingApproval → node.checkIn = true) (unfinished : plan ≠ .completed) :
      Recorded m (w.finish log status none).logs w.ran ∧
        Executing m (w.finish log status none).logs
          { e with work := [.report (some plan) result] } ∧
        Advances w.logs (w.finish log status none).logs node.id status := by
    obtain ⟨recorded, advances, goes⟩ := finish_running w.now status none recorded listed
      found own busy begun (List.Subset.refl _) recorded.asked
      (fun success => absurd success unsuccessful) waiting unskipped
    exact ⟨recorded, goes _ (executing.halt unfinished) skips (by simp [Work.waits]), advances⟩
  unfold World.carry at taken
  split at taken
  · rename_i checkIn
    cases taken
    obtain ⟨recorded, executing, advances⟩ := ended .waitingApproval .paused
      (.waitingApproval [node.id]) nofun nofun nofun (fun _ => checkIn) nofun
    exact .of_executor recorded tracked.ordered rfl executing (.inr ⟨_, _, advances⟩)
  rename_i unasked
  obtain ⟨closed, halted, fails⟩ := ended .failed .failed (.failed [node.id]) nofun nofun nofun
    nofun nofun
  split at taken
  · rename_i result kind
    cases taken
    have asked : ∀ other ∈ m.nodes, other.checkIn = true → other.id ∉ node.id :: w.ran := by
      intro other present checkIn mem
      rcases List.mem_cons.mp mem with same | mem
      · rw [SpecManifest.eq_of_id present listed same] at checkIn
        exact unasked checkIn
      · exact recorded.asked other present checkIn mem
    obtain ⟨recorded, advances, goes⟩ := finish_running w.now .success
      (some (wrapResult result)) recorded listed found own busy nofun
      (List.subset_cons_self _ _) asked (fun _ _ _ => List.mem_cons_self) nofun nofun
    have later := goes _ (executing.rest work) skips (executing.rest_waits work)
    exact .of_executor recorded tracked.ordered rfl
      ⟨later.cache, later.skips, later.fits, later.starts, later.waits⟩ (.inr ⟨_, _, advances⟩)
  · rename_i next kind
    cases taken
    have closes := (executing.rest work).cons (.close log)
      ⟨node, listed, kind, row, found, own, busy⟩ (executing.rest_waits work) nofun
    refine .of_executor recorded tracked.ordered rfl
      ⟨closes.cache, ?_, closes.fits, closes.starts, closes.waits⟩ (.inl rfl)
    intro id mem
    obtain ⟨child, present, same, need⟩ := mem_children.mp (List.mem_of_mem_filter mem)
    exact ⟨child, present, same, node.id, need, .inr busy⟩
  · cases taken
    exact .of_executor closed tracked.ordered rfl halted (.inr ⟨_, _, fails⟩)
  · cases taken
    exact .of_executor closed tracked.ordered rfl halted (.inr ⟨_, _, fails⟩)
  · cases taken
    exact .of_executor closed tracked.ordered rfl halted (.inr ⟨_, _, fails⟩)
  · cases taken

theorem goes_close (tracked : Tracked m w) {log : ℕ} {rest : List Work}
    (current : w.executor = some e) (skips : e.skips = []) (work : e.work = .close log :: rest) :
    Goes m w { w.finish log .success none with executor := some { e with work := rest } } := by
  have executing := tracked.executing e current
  obtain ⟨node, listed, gate, row, found, own, busy⟩ := executing.fits (.close log)
    (work ▸ List.mem_cons_self)
  obtain ⟨recorded, advances, goes⟩ := finish_running w.now .success none
    tracked.recorded listed found own busy nofun (List.Subset.refl _)
    tracked.recorded.asked (fun _ action => by simp [SpecNode.isAction, gate] at action) nofun nofun
  exact .of_executor recorded tracked.ordered rfl
    (goes _ (executing.rest work) skips (executing.rest_waits work)) (.inr ⟨_, _, advances⟩)

/-- A waiting node is decided; it is one with a check-in, and nothing that is going on depends
on it. -/
theorem goes_decide (tracked : Tracked m w) {log : ℕ} {row : LogRow} {status : LogStatus}
    {outputData : Option Json} {plan : PlanStatus} (found : w.logs[log]? = some row)
    (waits : row.status = .waitingApproval) (final : status = .success ∨ status = .failed) :
    Goes m w { w.finish log status outputData with planStatus := plan } := by
  have recorded := tracked.recorded
  have waiting : statusOf w.logs row.nodeId = some .waitingApproval :=
    recorded.single.statusOf_eq.mpr ⟨row, List.mem_of_getElem? found, rfl, waits⟩
  obtain ⟨node, listed, own, needs⟩ := recorded.known row.nodeId _ waiting
  have checkIn := recorded.waiting node listed (own ▸ waiting)
  have advances : Advances w.logs (w.finish log status outputData).logs row.nodeId status :=
    advances_finish w.now status outputData recorded.single found (by simp [waiting, Done])
  refine ⟨⟨?_, tracked.ordered, ?_⟩, .inr ⟨_, _, advances⟩⟩
  · refine advances.recorded recorded listed own (fun _ => needs (by decide)) ?_ (List.Subset.refl _)
      recorded.asked ?_ ?_
    · rintro rfl
      simp at final
    · intro _ _ unasked
      rw [checkIn] at unasked
      cases unasked
    · exact fun _ => checkIn
  · intro e current
    refine advances.executing (tracked.executing e current) ?_ (.inl (by simp [waiting])) ?_
    · rintro rfl
      simp at final
    · intro other mem same
      obtain ⟨-, absent, -⟩ := (tracked.executing e current).fits _ mem
      rw [same, waiting] at absent
      cases absent

theorem goes_interact (tracked : Tracked m w) (id : NodeId) (decision : Decision)
    (feedback : Option String) : Goes m w (w.interact id decision feedback) := by
  unfold World.interact
  split
  · exact ⟨tracked, .inl rfl⟩
  rename_i log _
  split
  · rename_i waits
    obtain ⟨row, found, status⟩ := Option.map_eq_some_iff.mp waits
    have decided {status : LogStatus} {outputData : Option Json} {plan : PlanStatus}
        (final : status = .success ∨ status = .failed) :
        Goes m w { w.finish log status outputData with planStatus := plan } :=
      goes_decide tracked found (by assumption) final
    cases decision with
    | approve => exact decided (.inl rfl)
    | modify => exact decided (.inl rfl)
    | reject => exact decided (.inr rfl)
  · exact ⟨tracked, .inl rfl⟩

theorem goes_step (tracked : Tracked m w) (taken : step m w a = some t) : Goes m w t := by
  cases a with
  | execute =>
    cases taken
    exact .of_executor tracked.recorded tracked.ordered rfl
      (executing_create tracked.recorded.single w.planContext) (.inl rfl)
  | runStep =>
    simp only [step] at taken
    split at taken
    · rename_i e current
      split at taken
      · rename_i idle
        cases taken
        exact .of_executor tracked.recorded tracked.ordered rfl
          (executing_schedule tracked.recorded (tracked.executing e current) idle) (.inl rfl)
      · cases taken
    · cases taken
  | perform outcome =>
    simp only [step] at taken
    split at taken
    · rename_i e current
      have executing := tracked.executing e current
      unfold World.perform at taken
      split at taken
      · rename_i skips
        cases taken
        exact goes_skip tracked current skips
      · rename_i work
        cases taken
        exact goes_start tracked current work
      · rename_i skips work
        exact goes_carry tracked current skips work taken
      · rename_i skips work
        cases taken
        exact goes_close tracked current skips work
      · rename_i work
        cases taken
        have rest := executing.rest work
        exact .of_executor tracked.recorded tracked.ordered rfl
          ⟨rest.cache, rest.skips, rest.fits, rest.starts, rest.waits⟩ (.inl rfl)
      · rename_i work
        cases taken
        have rest := executing.rest work
        exact .of_executor tracked.recorded tracked.ordered rfl
          ⟨rest.cache, rest.skips, rest.fits, rest.starts, rest.waits⟩ (.inl rfl)
      · cases taken
    · cases taken
  | interact id decision feedback =>
    cases taken
    exact goes_interact tracked id decision feedback
  | interrupt =>
    cases taken
    exact ⟨⟨tracked.recorded, tracked.ordered, nofun⟩, .inl rfl⟩
  | tick =>
    cases taken
    exact ⟨⟨tracked.recorded, tracked.ordered, tracked.executing⟩, .inl rfl⟩

theorem done_step (tracked : Tracked m w) (taken : step m w a = some t) {id : NodeId}
    {status : LogStatus} (before : statusOf w.logs id = some status) (done : Done (some status)) :
    statusOf t.logs id = some status := by
  rcases (goes_step tracked taken).logs with same | ⟨other, new, advances⟩
  · rw [same, before]
  · exact advances.done before done

end Steps

end Deeting.SpecAgent
