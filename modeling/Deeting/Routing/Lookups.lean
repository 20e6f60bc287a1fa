import Deeting.Routing.Selector

/-! The two ways to load candidates row by row: what each asks of an instance and a model, when
it raises, and what it returns. -/
namespace Deeting.Routing

variable {rt : Runtime} {db : Catalog} {c : Query} {name : String} {i : Instance} {m : Model}

section Rows
variable (rt : Runtime) (db : Catalog) (c : Query)

/-- The instances with their models that `load_candidates` goes through. -/
def rows (name : String) : List (Instance × Model) :=
  if c.candidateUser = none ∧ ¬ c.includePublic ∨
      expandCapabilities rt.lower c.capability = [] then []
  else
    (getAvailableInstances rt db c).flatMap fun i =>
      ((matching rt db c name).filter (·.instanceId = i.id)).map fun m => (i, m)

def served (i : Instance) (m : Model) : Option (List RoutingCandidate) :=
  match usablePreset db c i with
  | none => some []
  | some preset =>
      if credentialEntries db i = [] then some [] else modelCandidates rt db c preset i m

def rowCandidates (row : Instance × Model) : Option (List RoutingCandidate) :=
  if c.user rt = none then served rt db c row.1 row.2
  else
    (locked rt db (c.user rt) row.1.userId row.2).bind fun shut =>
      if shut then some [] else served rt db c row.1 row.2

end Rows

section Loops

theorem instanceCandidates_eq (models : List Model) (i : Instance) :
    instanceCandidates rt db c models i =
      collect (served rt db c i) (models.filter (·.instanceId = i.id)) := by
  simp only [instanceCandidates]
  split
  · rename_i empty
    rw [empty, collect]
  · cases usable : usablePreset db c i with
    | none =>
      have idle : served rt db c i = fun _ => some [] := by
        funext m
        simp only [served, usable]
      rw [idle, collect_nil]
    | some preset =>
      by_cases keyless : credentialEntries db i = []
      · have idle : served rt db c i = fun _ => some [] := by
          funext m
          simp only [served, usable, if_pos keyless]
        simp only [if_pos keyless, idle, collect_nil]
      · have busy : served rt db c i = modelCandidates rt db c preset i := by
          funext m
          simp only [served, usable, if_neg keyless]
        simp only [if_neg keyless, busy]

theorem collect_instanceCandidates (models : List Model) (instances : List Instance) :
    collect (instanceCandidates rt db c models) instances =
      collect (fun row => served rt db c row.1 row.2) (instances.flatMap fun i =>
        (models.filter (·.instanceId = i.id)).map fun m => (i, m)) := by
  rw [collect_flatMap]
  apply collect_congr
  intro i _
  rw [instanceCandidates_eq, collect_map]

theorem parse_candidateUser (user : c.user rt ≠ none) : c.candidateUser ≠ none := by
  cases given : c.userId with
  | none => simp [Query.user, given] at user
  | some text =>
    have filled : text ≠ "" := by
      rintro rfl
      simp [Query.user, given, Uuid.parse_empty] at user
    simp [Query.candidateUser, given, Option.filter, filled]

theorem mem_getAvailableInstances :
    i ∈ getAvailableInstances rt db c ↔ i ∈ db.instances.rows ∧ i.isEnabled ∧
      (c.userId = none → c.includePublic) ∧
      (c.userId ≠ none → visible (c.user rt) c.includePublic i) := by
  simp only [getAvailableInstances]
  cases given : c.userId with
  | none =>
    cases open_ : c.includePublic <;> simp
  | some text => simp [and_comm]

theorem mem_matching :
    m ∈ matching rt db c name ↔ m ∈ db.models.rows ∧ m.AnswersTo name ∧ m.isActive ∧
      capable rt c m ∧ ∃ i, db.instances.find? m.instanceId = some i ∧ i.isEnabled ∧
        (c.candidateUser = none ∨ visible (c.user rt) c.includePublic i) := by
  rw [matching, List.mem_filter]
  simp only [decide_eq_true_eq, Option.any_eq_true, Bool.and_eq_true, Bool.or_eq_true,
    Option.isNone_iff_eq_none]

/-- A model of the query stands among the rows with its instance, when a user is given. -/
theorem mem_rows {row : Instance × Model} :
    row ∈ rows rt db c name ↔
      (c.candidateUser = none → c.includePublic) ∧
      expandCapabilities rt.lower c.capability ≠ [] ∧
      row.1 ∈ getAvailableInstances rt db c ∧ row.2 ∈ matching rt db c name ∧
      row.2.instanceId = row.1.id := by
  obtain ⟨i, m⟩ := row
  rw [rows]
  split
  · rename_i closed
    refine iff_of_false List.not_mem_nil ?_
    rintro ⟨public_, some_, _⟩
    exact closed.elim (fun none_ => none_.2 (public_ none_.1)) some_
  · rename_i open_
    rw [not_or] at open_
    constructor
    · intro mem
      obtain ⟨j, available, mem⟩ := List.mem_flatMap.mp mem
      obtain ⟨n, kept, same⟩ := List.mem_map.mp mem
      obtain ⟨rfl, rfl⟩ := Prod.mk.inj same
      obtain ⟨found, of_⟩ := List.mem_filter.mp kept
      refine ⟨fun none_ => ?_, open_.2, available, found, by simpa using of_⟩
      exact not_not.mp fun closed => open_.1 ⟨none_, closed⟩
    · rintro ⟨_, _, available, found, of_⟩
      refine List.mem_flatMap.mpr ⟨i, available, List.mem_map.mpr ⟨m, ?_, rfl⟩⟩
      exact List.mem_filter.mpr ⟨found, by simpa using of_⟩

theorem find?_of_available (available : i ∈ getAvailableInstances rt db c)
    (of_ : m.instanceId = i.id) : db.instances.find? m.instanceId = some i :=
  Table.find?_eq_some.mpr ⟨(mem_getAvailableInstances.mp available).1, of_.symm⟩

theorem collect_instanceCandidates_nil (instances : List Instance) :
    collect (instanceCandidates rt db c []) instances = some [] := by
  have none_ : instances.flatMap (fun i =>
      (([] : List Model).filter (·.instanceId = i.id)).map fun m => (i, m)) = [] :=
    List.flatMap_eq_nil_iff.mpr fun _ _ => rfl
  rw [collect_instanceCandidates, none_, collect]

theorem owner_of_mem_rows {row : Instance × Model} (mem : row ∈ rows rt db c name) :
    owner db row.2 = row.1.userId := by
  obtain ⟨_, _, available, _, of_⟩ := mem_rows.mp mem
  rw [owner, find?_of_available available of_, Option.bind_some]

theorem exists_mem_rows (user : c.user rt ≠ none)
    (named : expandCapabilities rt.lower c.capability ≠ [])
    (found : m ∈ matching rt db c name) : ∃ i, (i, m) ∈ rows rt db c name := by
  obtain ⟨_, _, _, _, i, at_, enabled, visible_⟩ := mem_matching.mp found
  have given := parse_candidateUser user
  have seen := visible_.resolve_left given
  have user' : c.userId ≠ none := by
    intro none_
    rw [Query.candidateUser, none_] at given
    exact given rfl
  obtain ⟨present, of_⟩ := Table.find?_eq_some.mp at_
  refine ⟨i, mem_rows.mpr ⟨fun none_ => absurd none_ given, named, ?_, found, of_.symm⟩⟩
  exact mem_getAvailableInstances.mpr
    ⟨present, enabled, fun none_ => absurd none_ user', fun _ => seen⟩

/-- With a user the prices of all models of the query are read before the loop; a price that
cannot be read is one of a row. -/
theorem collect_locked (user : c.user rt ≠ none)
    (open_ : ¬ (c.candidateUser = none ∧ ¬ c.includePublic ∨
      expandCapabilities rt.lower c.capability = [])) :
    (collect (fun m => (locked rt db (c.user rt) (owner db m) m).map fun shut =>
      if shut then [] else [m]) (matching rt db c name)).bind (fun models =>
        collect (instanceCandidates rt db c models) (getAvailableInstances rt db c)) =
      collect (rowCandidates rt db c) (rows rt db c name) := by
  by_cases fine : ∀ m ∈ matching rt db c name, locked rt db (c.user rt) (owner db m) m ≠ none
  · have kept : ((getAvailableInstances rt db c).flatMap fun i =>
        (((matching rt db c name).filter fun m => decide (locked rt db (c.user rt) (owner db m) m ≠
          some true)).filter (·.instanceId = i.id)).map fun m => (i, m)) =
        (rows rt db c name).filter fun row =>
          decide (locked rt db (c.user rt) (owner db row.2) row.2 ≠ some true) := by
      rw [rows, if_neg open_, List.filter_flatMap]
      refine List.flatMap_congr fun i _ => ?_
      rw [List.filter_map, List.filter_filter, List.filter_filter]
      congr 2
      funext m
      exact Bool.and_comm _ _
    rw [collect_keep fine, Option.bind_some, collect_instanceCandidates, kept, collect_filter]
    apply collect_congr
    intro row mem
    obtain ⟨_, _, _, found, _⟩ := mem_rows.mp mem
    obtain ⟨shut, read⟩ := Option.ne_none_iff_exists'.mp (fine row.2 found)
    rw [rowCandidates, if_neg user, ← owner_of_mem_rows mem, read]
    cases shut <;> simp
  · simp only [not_forall, not_not] at fine
    obtain ⟨m, found, unread⟩ := fine
    obtain ⟨i, mem⟩ := exists_mem_rows user (fun none_ => open_ (.inr none_)) found
    have raised : collect (fun m => (locked rt db (c.user rt) (owner db m) m).map fun shut =>
        if shut then [] else [m]) (matching rt db c name) = none :=
      collect_eq_none.mpr ⟨m, found, by rw [unread, Option.map_none]⟩
    have raised' : rowCandidates rt db c (i, m) = none := by
      rw [rowCandidates, if_neg user, ← owner_of_mem_rows mem, unread, Option.bind_none]
    rw [raised, Option.bind_none, collect_eq_none.mpr ⟨_, mem, raised'⟩]

theorem loadCandidates_eq :
    loadCandidates rt db c name = collect (rowCandidates rt db c) (rows rt db c name) := by
  simp only [loadCandidates]
  split
  · rename_i none_
    rw [rows]
    split
    · rfl
    · rw [none_, List.flatMap_nil, collect]
  rw [getCandidates]
  split
  · rename_i closed
    rw [rows, if_pos (.inl closed), Option.bind_some, collect_instanceCandidates_nil, collect]
  rename_i private_
  split
  · rename_i nameless
    rw [rows, if_pos (.inr nameless), Option.bind_some, collect_instanceCandidates_nil, collect]
  rename_i named
  have open_ := not_or.mpr ⟨private_, named⟩
  split
  · rename_i nobody
    rw [Option.bind_some, collect_instanceCandidates, rows, if_neg open_]
    apply collect_congr
    intro row _
    rw [rowCandidates, if_pos nobody]
  · rename_i user
    exact collect_locked user open_

end Loops

section Tests
variable (rt : Runtime) (db : Catalog) (c : Query)

def Catalog.Has (i : Instance) (m : Model) : Prop :=
  db.models.find? m.id = some m ∧ db.instances.find? m.instanceId = some i

def nameOwner (i : Instance) : Prop :=
  match c.userId with
  | none => c.includePublic
  | some text => visible (c.user rt) c.includePublic i ∧ (text = "" → c.includePublic)

def TakenByName (name : String) (i : Instance) (m : Model) : Prop :=
  m.AnswersTo name ∧ m.isActive ∧ i.isEnabled ∧ capable rt c m ∧
    expandCapabilities rt.lower c.capability ≠ [] ∧ nameOwner rt c i

def TakenById (i : Instance) (m : Model) : Prop :=
  m.isActive ∧ i.isEnabled ∧ (c.capability = "" ∨ c.capability ∈ m.capabilities) ∧ mayUse rt c i

def Unbuildable (preset : Preset) (i : Instance) (m : Model) (capability : String) : Prop :=
  ∃ config, configured rt preset m capability = some (some config) ∧
    rt.buildEndpoint preset i m capability config = none

def FailsByName (i : Instance) (m : Model) : Prop :=
  credentialEntries db i ≠ [] ∧ ∃ preset, usablePreset db c i = some preset ∧
    (configured rt preset m c.capability = none ∨ Unbuildable rt preset i m c.capability)

def FailsById (i : Instance) (m : Model) : Prop :=
  ∃ preset, usablePreset db c i = some preset ∧
    (configured rt preset m (resolvedCapability c m) = none ∨
      credentialEntries db i ≠ [] ∧ Unbuildable rt preset i m (resolvedCapability c m))

def RaisesByName (i : Instance) (m : Model) : Prop :=
  c.user rt ≠ none ∧ parseUnlockPrice rt m.pricingConfig = none ∨
  locked rt db (c.user rt) i.userId m ≠ some true ∧ FailsByName rt db c i m

def RaisesById (i : Instance) (m : Model) : Prop :=
  c.userId ≠ none ∧ parseUnlockPrice rt m.pricingConfig = none ∨
  locked rt db (c.user rt) i.userId m ≠ some true ∧ FailsById rt db c i m

def offers (capability : String) (i : Instance) (m : Model) : List RoutingCandidate :=
  ((usablePreset db c i).bind fun preset => (configured rt preset m capability).bind fun
    | none => none
    | some config => withCredentials rt db c preset i m capability config).getD []

def Serviceable (capability : String) (i : Instance) (m : Model) : Prop :=
  locked rt db (c.user rt) i.userId m ≠ some true ∧ credentialEntries db i ≠ [] ∧
    ∃ preset config e, usablePreset db c i = some preset ∧
      configured rt preset m capability = some (some config) ∧
      rt.buildEndpoint preset i m capability config = some e

end Tests

section Outcomes

theorem offers_ne_nil {capability : String} :
    offers rt db c capability i m ≠ [] ↔ credentialEntries db i ≠ [] ∧
      ∃ preset config e, usablePreset db c i = some preset ∧
        configured rt preset m capability = some (some config) ∧
        rt.buildEndpoint preset i m capability config = some e := by
  cases usable : usablePreset db c i with
  | none => simp [offers, usable]
  | some preset =>
    rcases set : configured rt preset m capability with _ | _ | config
    · simp [offers, usable, set]
    · simp [offers, usable, set]
    · cases built : rt.buildEndpoint preset i m capability config <;>
        simp [offers, usable, set, withCredentials, built]

theorem exists_of_mem_offers {capability : String} {b : RoutingCandidate}
    (mem : b ∈ offers rt db c capability i m) :
    ∃ preset e entry, usablePreset db c i = some preset ∧ b = candidate c preset i m e entry := by
  cases usable : usablePreset db c i with
  | none => simp [offers, usable] at mem
  | some preset =>
    rcases set : configured rt preset m capability with _ | _ | config
    · simp [offers, usable, set] at mem
    · simp [offers, usable, set] at mem
    · cases built : rt.buildEndpoint preset i m capability config with
      | none => simp [offers, usable, set, withCredentials, built] at mem
      | some e =>
        simp only [offers, usable, Option.bind_some, set, withCredentials, built, Option.map_some,
          Option.getD_some, List.mem_map] at mem
        obtain ⟨entry, _, rfl⟩ := mem
        exact ⟨preset, e, entry, rfl, rfl⟩

theorem providerModelId_of_mem_offers {capability : String} {b : RoutingCandidate}
    (mem : b ∈ offers rt db c capability i m) : b.providerModelId = m.id := by
  obtain ⟨_, _, _, _, rfl⟩ := exists_of_mem_offers mem
  rfl

variable (db m) in
theorem locked_of_nobody (nobody : c.user rt = none) (owner : Option Uuid) :
    locked rt db (c.user rt) owner m ≠ some true := by
  rw [locked, nobody]
  cases parseUnlockPrice rt m.pricingConfig <;> simp [requiresModelPurchase]

theorem locked_eq_none {user owner : Option Uuid} :
    locked rt db user owner m = none ↔ parseUnlockPrice rt m.pricingConfig = none := by
  rw [locked, Option.map_eq_none_iff]

theorem readable_of_locked {user owner : Option Uuid} {shut : Bool}
    (read : locked rt db user owner m = some shut) : parseUnlockPrice rt m.pricingConfig ≠ none := by
  intro unreadable
  rw [locked_eq_none.mpr unreadable] at read
  cases read

def found (rt : Runtime) (db : Catalog) (c : Query) (capability : String) (i : Instance)
    (m : Model) : List RoutingCandidate :=
  if locked rt db (c.user rt) i.userId m = some true then [] else offers rt db c capability i m

variable (rt db c) in
theorem served_cases (i : Instance) (m : Model) :
    FailsByName rt db c i m ∧ served rt db c i m = none ∨
    ¬ FailsByName rt db c i m ∧ served rt db c i m = some (offers rt db c c.capability i m) := by
  cases usable : usablePreset db c i with
  | none => simp [FailsByName, served, offers, usable]
  | some preset =>
    by_cases keyless : credentialEntries db i = []
    · have none_ : offers rt db c c.capability i m = [] := by
        by_contra some_
        exact (offers_ne_nil.mp some_).1 keyless
      exact .inr ⟨fun raised => raised.1 keyless, by simp [served, usable, keyless, none_]⟩
    · rcases set : configured rt preset m c.capability with _ | _ | config
      · simp [FailsByName, served, usable, keyless, modelCandidates, set]
      · simp [FailsByName, Unbuildable, served, usable, keyless, modelCandidates, set, offers]
      · cases built : rt.buildEndpoint preset i m c.capability config <;>
          simp [FailsByName, Unbuildable, served, usable, keyless, modelCandidates, set, offers,
            withCredentials, built]

variable (rt db c) in
theorem rowCandidates_cases (i : Instance) (m : Model) :
    RaisesByName rt db c i m ∧ rowCandidates rt db c (i, m) = none ∨
    ¬ RaisesByName rt db c i m ∧
      rowCandidates rt db c (i, m) = some (found rt db c c.capability i m) := by
  rw [rowCandidates, found, RaisesByName]
  by_cases nobody : c.user rt = none
  · have open_ := locked_of_nobody db m nobody i.userId
    simpa [nobody, nobody ▸ open_] using served_cases rt db c i m
  · rw [if_neg nobody]
    cases shut : locked rt db (c.user rt) i.userId m with
    | none => exact .inl ⟨.inl ⟨nobody, locked_eq_none.mp shut⟩, rfl⟩
    | some shut' =>
      have readable := readable_of_locked shut
      cases shut' with
      | true => simp [readable]
      | false => simpa [readable] using served_cases rt db c i m

def servedById (rt : Runtime) (db : Catalog) (c : Query) (i : Instance) (m : Model) :
    Option (List RoutingCandidate) :=
  match usablePreset db c i with
  | none => some []
  | some preset =>
      (configured rt preset m (resolvedCapability c m)).bind fun
        | none => some []
        | some config =>
            if credentialEntries db i = [] then some []
            else withCredentials rt db c preset i m (resolvedCapability c m) config

def idCandidates (rt : Runtime) (db : Catalog) (c : Query) (i : Instance) (m : Model) :
    Option (List RoutingCandidate) :=
  (shutOut rt db c i m).bind fun shut => if shut then some [] else servedById rt db c i m

theorem loadById_eq (has : db.Has i m) :
    (TakenById rt c i m → loadCandidatesByProviderModelId rt db c m.id = idCandidates rt db c i m) ∧
    (¬ TakenById rt c i m → loadCandidatesByProviderModelId rt db c m.id = some []) := by
  simp only [loadCandidatesByProviderModelId, has.1, has.2]
  constructor
  · rintro ⟨active, enabled, asked, owner⟩
    have asked' : ¬ (c.capability ≠ "" ∧ c.capability ∉ m.capabilities) := by
      rintro ⟨some_, missing⟩
      exact asked.elim some_ missing
    rw [if_neg (not_not.mpr active), if_neg asked', if_neg (not_not.mpr enabled),
      if_neg (not_not.mpr owner)]
    rfl
  · intro refused
    split
    · rfl
    · rename_i active
      split
      · rfl
      · rename_i asked
        split
        · rfl
        · rename_i enabled
          refine if_pos fun owner => refused ⟨not_not.mp active, not_not.mp enabled, ?_, owner⟩
          by_cases empty : c.capability = ""
          · exact .inl empty
          · exact .inr (not_not.mp fun missing => asked ⟨empty, missing⟩)

variable (rt db c) in
theorem servedById_cases (i : Instance) (m : Model) :
    FailsById rt db c i m ∧ servedById rt db c i m = none ∨
    ¬ FailsById rt db c i m ∧
      servedById rt db c i m = some (offers rt db c (resolvedCapability c m) i m) := by
  cases usable : usablePreset db c i with
  | none => simp [FailsById, servedById, offers, usable]
  | some preset =>
    rcases set : configured rt preset m (resolvedCapability c m) with _ | _ | config
    · simp [FailsById, servedById, usable, set]
    · simp [FailsById, Unbuildable, servedById, usable, set, offers]
    · by_cases keyless : credentialEntries db i = []
      · have none_ : offers rt db c (resolvedCapability c m) i m = [] := by
          by_contra some_
          exact (offers_ne_nil.mp some_).1 keyless
        simp [FailsById, servedById, usable, set, keyless, none_]
      · cases built : rt.buildEndpoint preset i m (resolvedCapability c m) config <;>
          simp [FailsById, Unbuildable, servedById, usable, keyless, set, offers, withCredentials,
            built]

variable (rt db c) in
theorem idCandidates_cases (i : Instance) (m : Model) :
    RaisesById rt db c i m ∧ idCandidates rt db c i m = none ∨
    ¬ RaisesById rt db c i m ∧
      idCandidates rt db c i m = some (found rt db c (resolvedCapability c m) i m) := by
  rw [idCandidates, found, RaisesById, shutOut]
  by_cases given : c.userId = none
  · have nobody : c.user rt = none := by rw [Query.user, given, Option.bind_none]
    have open_ := locked_of_nobody db m nobody i.userId
    simpa [given, open_] using servedById_cases rt db c i m
  · rw [if_neg given]
    cases shut : locked rt db (c.user rt) i.userId m with
    | none => exact .inl ⟨.inl ⟨given, locked_eq_none.mp shut⟩, rfl⟩
    | some shut' =>
      have readable := readable_of_locked shut
      cases shut' with
      | true => simp [readable]
      | false => simpa [readable] using servedById_cases rt db c i m

end Outcomes

section Results

theorem has_of_mem_rows {row : Instance × Model} (mem : row ∈ rows rt db c name) :
    db.Has row.1 row.2 := by
  obtain ⟨_, _, available, matched, of_⟩ := mem_rows.mp mem
  exact ⟨Table.find?_eq_some.mpr ⟨(mem_matching.mp matched).1, rfl⟩,
    find?_of_available available of_⟩

theorem mem_rows_iff (has : db.Has i m) :
    (i, m) ∈ rows rt db c name ↔ TakenByName rt c name i m := by
  obtain ⟨found, at_⟩ := has
  have present := (Table.find?_eq_some.mp found).1
  obtain ⟨listed, of_⟩ := Table.find?_eq_some.mp at_
  have matched : m ∈ matching rt db c name ↔ m.AnswersTo name ∧ m.isActive ∧ capable rt c m ∧
      i.isEnabled ∧ (c.candidateUser = none ∨ visible (c.user rt) c.includePublic i) := by
    rw [mem_matching]
    simp [present, at_]
  have owner : nameOwner rt c i ↔ (c.candidateUser = none → c.includePublic) ∧
      (c.userId = none → c.includePublic) ∧
      (c.userId ≠ none → visible (c.user rt) c.includePublic i) := by
    rw [nameOwner]
    cases given : c.userId with
    | none => simp [Query.candidateUser, given]
    | some text =>
      by_cases empty : text = "" <;> simp [Query.candidateUser, given, Option.filter, empty, and_comm]
  have seen : nameOwner rt c i → c.candidateUser = none ∨ visible (c.user rt) c.includePublic i := by
    intro allowed
    by_cases given : c.userId = none
    · exact .inl (by rw [Query.candidateUser, given]; rfl)
    · exact .inr ((owner.mp allowed).2.2 given)
  rw [mem_rows, mem_getAvailableInstances, matched, TakenByName]
  constructor
  · rintro ⟨open_, named, ⟨_, enabled, nobody, somebody⟩, ⟨answers, active, able, _, _⟩, _⟩
    exact ⟨answers, active, enabled, able, named, owner.mpr ⟨open_, nobody, somebody⟩⟩
  · rintro ⟨answers, active, enabled, able, named, allowed⟩
    obtain ⟨open_, nobody, somebody⟩ := owner.mp allowed
    exact ⟨open_, named, ⟨listed, enabled, nobody, somebody⟩,
      ⟨answers, active, able, enabled, seen allowed⟩, of_.symm⟩

theorem nodup_rows : ((rows rt db c name).map fun row => row.2.id).Nodup := by
  rw [rows]
  split
  · exact List.nodup_nil
  · have matched : ((matching rt db c name).map Model.id).Nodup :=
      db.models.unique.sublist (List.filter_sublist.map Model.id)
    have instances : ((getAvailableInstances rt db c).map Instance.id).Nodup := by
      have kept : (getAvailableInstances rt db c).Sublist db.instances.rows := by
        simp only [getAvailableInstances]
        split
        · exact List.filter_sublist.trans List.filter_sublist
        · split
          · exact List.filter_sublist
          · exact List.nil_sublist _
      exact db.instances.unique.sublist (kept.map Instance.id)
    rw [List.map_flatMap, List.nodup_flatMap]
    constructor
    · intro i _
      rw [List.map_map]
      exact matched.sublist (List.filter_sublist.map Model.id)
    · refine (List.pairwise_map.mp instances).imp fun {i j} apart => ?_
      intro id here there
      simp only [List.map_map, List.mem_map, Function.comp_apply, List.mem_filter,
        decide_eq_true_eq] at here there
      obtain ⟨m, ⟨present, of_⟩, rfl⟩ := here
      obtain ⟨n, ⟨present', of_'⟩, same⟩ := there
      have one := List.inj_on_of_nodup_map matched present' present same
      exact apart (of_.symm.trans (one ▸ of_'))

theorem mem_found {capability : String} {b : RoutingCandidate}
    (mem : b ∈ found rt db c capability i m) :
    locked rt db (c.user rt) i.userId m ≠ some true ∧ b ∈ offers rt db c capability i m := by
  rw [found] at mem
  split at mem
  · cases mem
  · exact ⟨‹_›, mem⟩

theorem found_ne_nil {capability : String} :
    found rt db c capability i m ≠ [] ↔ Serviceable rt db c capability i m := by
  rw [found, Serviceable, ← offers_ne_nil]
  split <;> simp_all

theorem Catalog.Has.unique {j : Instance} {n : Model} (has : db.Has i m) (other : db.Has j n)
    (same : n.id = m.id) : j = i ∧ n = m := by
  have model : n = m := by
    have found := other.1
    rw [same, has.1] at found
    exact (Option.some.inj found).symm
  subst model
  have at_ := other.2
  rw [has.2] at at_
  exact ⟨(Option.some.inj at_).symm, rfl⟩

def NameRaises (rt : Runtime) (db : Catalog) (c : Query) (name : String) : Prop :=
  ∃ i m, db.Has i m ∧ TakenByName rt c name i m ∧ RaisesByName rt db c i m

theorem loadCandidates_eq_none : loadCandidates rt db c name = none ↔ NameRaises rt db c name := by
  rw [loadCandidates_eq, collect_eq_none]
  constructor
  · rintro ⟨⟨i, m⟩, mem, raised⟩
    have has := has_of_mem_rows mem
    refine ⟨i, m, has, (mem_rows_iff has).mp mem, ?_⟩
    obtain ⟨raises, _⟩ | ⟨_, fine⟩ := rowCandidates_cases rt db c i m
    · exact raises
    · rw [raised] at fine
      cases fine
  · rintro ⟨i, m, has, taken, raises⟩
    refine ⟨(i, m), (mem_rows_iff has).mpr taken, ?_⟩
    obtain ⟨_, none_⟩ | ⟨fine, _⟩ := rowCandidates_cases rt db c i m
    · exact none_
    · exact absurd raises fine

theorem mem_loadCandidates {results : List RoutingCandidate}
    (loaded : loadCandidates rt db c name = some results) {b : RoutingCandidate} :
    b ∈ results ↔ ∃ i m, db.Has i m ∧ TakenByName rt c name i m ∧
      b ∈ found rt db c c.capability i m := by
  have fine : ∀ i m, (i, m) ∈ rows rt db c name →
      rowCandidates rt db c (i, m) = some (found rt db c c.capability i m) := by
    intro i m mem
    obtain ⟨raises, _⟩ | ⟨_, some_⟩ := rowCandidates_cases rt db c i m
    · have has := has_of_mem_rows mem
      have none_ := loadCandidates_eq_none.mpr ⟨i, m, has, (mem_rows_iff has).mp mem, raises⟩
      rw [loaded] at none_
      cases none_
    · exact some_
  rw [loadCandidates_eq] at loaded
  rw [mem_collect loaded]
  constructor
  · rintro ⟨⟨i, m⟩, mem, results, row, of_⟩
    have has := has_of_mem_rows mem
    rw [fine i m mem, Option.some.injEq] at row
    exact ⟨i, m, has, (mem_rows_iff has).mp mem, row ▸ of_⟩
  · rintro ⟨i, m, has, taken, of_⟩
    have mem := (mem_rows_iff has).mpr taken
    exact ⟨(i, m), mem, _, fine i m mem, of_⟩

theorem exists_of_not_nameRaises (fine : ¬ NameRaises rt db c name) :
    ∃ results, loadCandidates rt db c name = some results := by
  rw [← loadCandidates_eq_none] at fine
  exact Option.ne_none_iff_exists'.mp fine

theorem filter_loadCandidates {results : List RoutingCandidate}
    (loaded : loadCandidates rt db c name = some results) (has : db.Has i m) :
    (TakenByName rt c name i m →
      results.filter (fun b => b.providerModelId = m.id) = found rt db c c.capability i m) ∧
    (¬ TakenByName rt c name i m → results.filter (fun b => b.providerModelId = m.id) = []) := by
  have carried : ∀ row ∈ rows rt db c name, ∀ results, rowCandidates rt db c row = some results →
      ∀ b ∈ results, b.providerModelId = row.2.id := by
    rintro ⟨i, m⟩ _ results row b mem
    obtain ⟨_, none_⟩ | ⟨_, some_⟩ := rowCandidates_cases rt db c i m
    · rw [row] at none_
      cases none_
    · rw [row, Option.some.injEq] at some_
      exact providerModelId_of_mem_offers (mem_found (some_ ▸ mem)).2
  have raising : ¬ NameRaises rt db c name := by
    rw [← loadCandidates_eq_none, loaded]
    simp
  rw [loadCandidates_eq] at loaded
  constructor
  · intro taken
    have mem := (mem_rows_iff has).mpr taken
    have filtered := filter_collect nodup_rows carried loaded mem
    obtain ⟨raises, _⟩ | ⟨_, some_⟩ := rowCandidates_cases rt db c i m
    · exact absurd ⟨i, m, has, taken, raises⟩ raising
    · rw [some_] at filtered
      exact Option.some.inj filtered
  · intro untaken
    apply filter_collect_of_notMem carried loaded
    intro mem
    obtain ⟨⟨j, n⟩, listed, same⟩ := List.mem_map.mp mem
    obtain ⟨rfl, rfl⟩ := has.unique (has_of_mem_rows listed) same
    exact untaken ((mem_rows_iff has).mp listed)

def IdRaises (rt : Runtime) (db : Catalog) (c : Query) (m : Model) : Prop :=
  ∃ i, db.Has i m ∧ TakenById rt c i m ∧ RaisesById rt db c i m

theorem loadById_of_stray (listed : db.models.find? m.id = some m) (stray : ¬ ∃ i, db.Has i m) :
    loadCandidatesByProviderModelId rt db c m.id = some [] := by
  have none_ : db.instances.find? m.instanceId = none := by
    by_contra some_
    obtain ⟨i, at_⟩ := Option.ne_none_iff_exists'.mp some_
    exact stray ⟨i, listed, at_⟩
  simp only [loadCandidatesByProviderModelId, listed, none_]
  split
  · rfl
  · split <;> rfl

variable (rt c) in
theorem loadById_cases (has : db.Has i m) :
    IdRaises rt db c m ∧ loadCandidatesByProviderModelId rt db c m.id = none ∨
    ¬ IdRaises rt db c m ∧ (
      TakenById rt c i m ∧ loadCandidatesByProviderModelId rt db c m.id =
        some (found rt db c (resolvedCapability c m) i m) ∨
      ¬ TakenById rt c i m ∧ loadCandidatesByProviderModelId rt db c m.id = some []) := by
  have only : IdRaises rt db c m ↔ TakenById rt c i m ∧ RaisesById rt db c i m := by
    constructor
    · rintro ⟨j, other, raises⟩
      obtain ⟨rfl, _⟩ := has.unique other rfl
      exact raises
    · intro raises
      exact ⟨i, has, raises⟩
  by_cases taken : TakenById rt c i m
  · rw [(loadById_eq has).1 taken, only]
    obtain ⟨raises, none_⟩ | ⟨fine, some_⟩ := idCandidates_cases rt db c i m
    · exact .inl ⟨⟨taken, raises⟩, none_⟩
    · exact .inr ⟨fun raises => fine raises.2, .inl ⟨taken, some_⟩⟩
  · rw [(loadById_eq has).2 taken, only]
    exact .inr ⟨fun raises => taken raises.1, .inr ⟨taken, rfl⟩⟩

theorem loadById_eq_none (listed : db.models.find? m.id = some m) :
    loadCandidatesByProviderModelId rt db c m.id = none ↔ IdRaises rt db c m := by
  by_cases stray : ∃ i, db.Has i m
  · obtain ⟨i, has⟩ := stray
    obtain ⟨raises, none_⟩ | ⟨fine, ⟨_, some_⟩ | ⟨_, some_⟩⟩ :=
      loadById_cases rt c has
    · exact iff_of_true none_ raises
    · exact iff_of_false (by simp [some_]) fine
    · exact iff_of_false (by simp [some_]) fine
  · refine iff_of_false ?_ ?_
    · simp [loadById_of_stray listed stray]
    · rintro ⟨i, has, _⟩
      exact stray ⟨i, has⟩

end Results

end Deeting.Routing
