import Deeting.Routing.Lookups

/-! The loads by the name and by the id of a model: when they agree and keep to the instances
and the models the caller may use. -/
namespace Deeting.Routing

variable {rt : Runtime} {db : Catalog} {c : Query} {name : String} {i : Instance} {m : Model}

section Claim
variable (rt : Runtime) (db : Catalog) (c : Query)

def Foreign (i : Instance) : Prop :=
  (∃ owner, i.userId = some owner ∧ c.user rt ≠ some owner) ∧ ¬ i.isPublic

def Unbought (i : Instance) (m : Model) : Prop :=
  ∃ user, c.user rt = some user ∧ parseUnlockPrice rt m.pricingConfig = some true ∧
    i.userId ≠ some user ∧ (user, m.id) ∉ db.entitlements

def Rightful (b : RoutingCandidate) : Prop :=
  ∀ i m, db.Has i m → b.providerModelId = m.id → ¬ Foreign rt c i ∧ ¬ Unbought rt db c i m

/-- The loads by the name and by the id of a model agree, and what they return is rightful. -/
structure AgreeAndRespect (name : String) (m : Model) : Prop where
  agree : loadCandidatesByProviderModelId rt db c m.id =
    (loadCandidates rt db c name).map (List.filter fun b => b.providerModelId = m.id)
  byName : ∀ results, loadCandidates rt db c name = some results → ∀ b ∈ results,
    Rightful rt db c b
  byId : ∀ results, loadCandidatesByProviderModelId rt db c m.id = some results → ∀ b ∈ results,
    Rightful rt db c b

/-- The tests of the two loads come to the same where there is something to offer, and a
caller without an id is offered public instances only. -/
structure Consistent (name : String) (m : Model) : Prop where
  raises : NameRaises rt db c name ↔ IdRaises rt db c m
  tests : ¬ IdRaises rt db c m → ∀ i, db.Has i m →
    Serviceable rt db c (resolvedCapability c m) i m →
    (TakenByName rt c name i m ↔ TakenById rt c i m)
  byName : c.userId = none → ¬ NameRaises rt db c name → ∀ i n, db.Has i n →
    TakenByName rt c name i n → Serviceable rt db c c.capability i n → i.Public
  byId : c.user rt = none → ¬ IdRaises rt db c m → ∀ i, db.Has i m → TakenById rt c i m →
    Serviceable rt db c (resolvedCapability c m) i m → i.Public

end Claim

section Claim
variable {capability : String}

theorem not_foreign_of_public (public_ : i.Public) : ¬ Foreign rt c i := by
  rintro ⟨⟨owner, of_, _⟩, private_⟩
  obtain shown | unowned := public_
  · exact private_ shown
  · rw [unowned] at of_
    cases of_

theorem not_foreign_iff_of_nobody (nobody : c.user rt = none) : ¬ Foreign rt c i ↔ i.Public := by
  refine ⟨fun allowed => ?_, not_foreign_of_public⟩
  by_contra private_
  obtain ⟨hidden, owned⟩ := not_or.mp private_
  obtain ⟨owner, of_⟩ := Option.ne_none_iff_exists'.mp owned
  exact allowed ⟨⟨owner, of_, by simp [nobody]⟩, hidden⟩

theorem not_unbought (open_ : locked rt db (c.user rt) i.userId m ≠ some true) :
    ¬ Unbought rt db c i m := by
  rintro ⟨user, given, priced, other, missing⟩
  apply open_
  simp [locked, priced, requiresModelPurchase, given, other, missing]

theorem not_foreign_of_nameOwner (given : c.userId ≠ none) (allowed : nameOwner rt c i) :
    ¬ Foreign rt c i := by
  obtain ⟨text, here⟩ := Option.ne_none_iff_exists'.mp given
  simp only [nameOwner, here] at allowed
  rintro ⟨⟨owner, of_, other⟩, private_⟩
  have seen := allowed.1
  simp only [visible, Instance.Public, of_, decide_eq_true_eq, private_, reduceCtorEq, or_self,
    and_false, or_false, Bool.false_eq_true] at seen
  exact other seen.symm

theorem not_foreign_of_mayUse (somebody : c.user rt ≠ none) (allowed : mayUse rt c i) :
    ¬ Foreign rt c i := by
  obtain ⟨user, here⟩ := Option.ne_none_iff_exists'.mp somebody
  rintro ⟨⟨owner, of_, other⟩, _⟩
  simp only [mayUse, here, of_] at allowed
  rw [here] at other
  split at allowed
  · exact other (allowed.resolve_right (by simp)).symm
  · exact other allowed.symm

theorem rightful_of_found {b : RoutingCandidate} (has : db.Has i m)
    (mem : b ∈ found rt db c capability i m) : Rightful rt db c b ↔ ¬ Foreign rt c i := by
  obtain ⟨open_, of_⟩ := mem_found mem
  have carries := providerModelId_of_mem_offers of_
  constructor
  · intro rightful
    exact (rightful i m has carries).1
  · intro allowed j n other same
    obtain ⟨rfl, rfl⟩ := has.unique other (same.symm.trans carries)
    exact ⟨allowed, not_unbought open_⟩

theorem resolvedCapability_of_takenByName (taken : TakenByName rt c name i m) :
    resolvedCapability c m = c.capability := by
  refine if_neg fun empty => taken.2.2.2.2.1 ?_
  rw [empty, expandCapabilities_empty rt.lower_empty]

theorem agree_iff {results : List RoutingCandidate} (has : db.Has i m)
    (loaded : loadCandidates rt db c name = some results) (fine : ¬ IdRaises rt db c m) :
    loadCandidatesByProviderModelId rt db c m.id =
        some (results.filter fun b => b.providerModelId = m.id) ↔
      (Serviceable rt db c (resolvedCapability c m) i m →
        (TakenByName rt c name i m ↔ TakenById rt c i m)) := by
  obtain ⟨raises, _⟩ | ⟨_, cases_⟩ := loadById_cases rt c has
  · exact absurd raises fine
  obtain ⟨whole, none_⟩ := filter_loadCandidates loaded has
  rw [← found_ne_nil]
  by_cases named : TakenByName rt c name i m
  · rw [whole named, ← resolvedCapability_of_takenByName named]
    obtain ⟨taken, some_⟩ | ⟨untaken, some_⟩ := cases_
    · simp [some_, named, taken]
    · rw [some_, Option.some.injEq]
      simp only [named, untaken, iff_false, not_true, imp_false, not_not, ne_eq]
      exact eq_comm
  · rw [none_ named]
    obtain ⟨taken, some_⟩ | ⟨untaken, some_⟩ := cases_
    · rw [some_, Option.some.injEq]
      simp only [named, taken, false_iff, not_true, imp_false, not_not, ne_eq]
    · simp [some_, named, untaken]

theorem nobody_of_not_given (nobody : c.userId = none) : c.user rt = none := by
  rw [Query.user, nobody, Option.bind_none]

theorem consistent_of_agreeAndRespect (listed : db.models.find? m.id = some m)
    (claimed : AgreeAndRespect rt db c name m) : Consistent rt db c name m := by
  obtain ⟨agree, byName, byId⟩ := claimed
  have raises : NameRaises rt db c name ↔ IdRaises rt db c m := by
    rw [← loadCandidates_eq_none, ← loadById_eq_none listed, agree, Option.map_eq_none_iff]
  refine ⟨raises, ?_, ?_, ?_⟩
  · intro fine i has
    obtain ⟨results, loaded⟩ := exists_of_not_nameRaises (raises.not.mpr fine)
    rw [loaded, Option.map_some] at agree
    exact (agree_iff has loaded fine).mp agree
  · intro nobody fine i n has taken service
    obtain ⟨results, loaded⟩ := exists_of_not_nameRaises fine
    obtain ⟨b, mem⟩ := List.exists_mem_of_ne_nil _ (found_ne_nil.mpr service)
    have offered := (mem_loadCandidates loaded).mpr ⟨i, n, has, taken, mem⟩
    have allowed := (rightful_of_found has mem).mp (byName results loaded b offered)
    exact (not_foreign_iff_of_nobody (nobody_of_not_given nobody)).mp allowed
  · intro nobody fine i has taken service
    obtain ⟨b, mem⟩ := List.exists_mem_of_ne_nil _ (found_ne_nil.mpr service)
    obtain ⟨raises, _⟩ | ⟨_, ⟨_, some_⟩ | ⟨untaken, _⟩⟩ := loadById_cases rt c has
    · exact absurd raises fine
    · have allowed := (rightful_of_found has mem).mp (byId _ some_ b mem)
      exact (not_foreign_iff_of_nobody nobody).mp allowed
    · exact absurd taken untaken

theorem exists_has_of_carries {results : List RoutingCandidate} {b : RoutingCandidate}
    (listed : db.models.find? m.id = some m) (loaded : loadCandidates rt db c name = some results)
    (mem : b ∈ results) (same : b.providerModelId = m.id) : ∃ i, db.Has i m := by
  obtain ⟨i, n, has, _, offered⟩ := (mem_loadCandidates loaded).mp mem
  have carries := providerModelId_of_mem_offers (mem_found offered).2
  have id_ : n.id = m.id := carries.symm.trans same
  have same : n = m := by
    have found := has.1
    rw [id_, listed] at found
    exact (Option.some.inj found).symm
  exact ⟨i, same ▸ has⟩

theorem agree_of_consistent (listed : db.models.find? m.id = some m)
    (consistent : Consistent rt db c name m) :
    loadCandidatesByProviderModelId rt db c m.id =
      (loadCandidates rt db c name).map (List.filter fun b => b.providerModelId = m.id) := by
  by_cases fine : IdRaises rt db c m
  · rw [(loadById_eq_none listed).mpr fine,
      loadCandidates_eq_none.mpr (consistent.raises.mpr fine), Option.map_none]
  obtain ⟨results, loaded⟩ := exists_of_not_nameRaises (consistent.raises.not.mpr fine)
  rw [loaded, Option.map_some]
  by_cases stray : ∃ i, db.Has i m
  · obtain ⟨i, has⟩ := stray
    exact (agree_iff has loaded fine).mpr (consistent.tests fine i has)
  · rw [loadById_of_stray listed stray, Option.some.injEq, eq_comm, List.filter_eq_nil_iff]
    intro b mem same
    exact stray (exists_has_of_carries listed loaded mem (by simpa using same))

theorem rightful_by_name {results : List RoutingCandidate} {b : RoutingCandidate}
    (consistent : Consistent rt db c name m) (loaded : loadCandidates rt db c name = some results)
    (mem : b ∈ results) : Rightful rt db c b := by
  obtain ⟨i, n, has, taken, offered⟩ := (mem_loadCandidates loaded).mp mem
  have fine : ¬ NameRaises rt db c name := by
    rw [← loadCandidates_eq_none, loaded]
    simp
  rw [rightful_of_found has offered]
  by_cases given : c.userId = none
  · have service := found_ne_nil.mp (List.ne_nil_of_mem offered)
    exact not_foreign_of_public (consistent.byName given fine i n has taken service)
  · exact not_foreign_of_nameOwner given taken.2.2.2.2.2

theorem rightful_by_id {results : List RoutingCandidate} {b : RoutingCandidate}
    (listed : db.models.find? m.id = some m) (consistent : Consistent rt db c name m)
    (loaded : loadCandidatesByProviderModelId rt db c m.id = some results) (mem : b ∈ results) :
    Rightful rt db c b := by
  by_cases stray : ∃ i, db.Has i m
  · obtain ⟨i, has⟩ := stray
    obtain ⟨_, none_⟩ | ⟨fine, ⟨taken, some_⟩ | ⟨_, some_⟩⟩ := loadById_cases rt c has
    · rw [loaded] at none_
      cases none_
    · rw [loaded, Option.some.injEq] at some_
      subst some_
      rw [rightful_of_found has mem]
      by_cases nobody : c.user rt = none
      · have service := found_ne_nil.mp (List.ne_nil_of_mem mem)
        exact not_foreign_of_public (consistent.byId nobody fine i has taken service)
      · exact not_foreign_of_mayUse nobody taken.2.2.2
    · rw [loaded, Option.some.injEq] at some_
      rw [some_] at mem
      cases mem
  · rw [loadById_of_stray listed stray, Option.some.injEq] at loaded
    rw [← loaded] at mem
    cases mem

theorem agreeAndRespect_of_consistent (listed : db.models.find? m.id = some m)
    (consistent : Consistent rt db c name m) : AgreeAndRespect rt db c name m := by
  constructor
  · exact agree_of_consistent listed consistent
  · intro results loaded b mem
    exact rightful_by_name consistent loaded mem
  · intro results loaded b mem
    exact rightful_by_id listed consistent loaded mem

/-- The two loads agree and respect owners and purchases exactly where their tests do. -/
theorem agreeAndRespect_iff (rt : Runtime) (db : Catalog) (c : Query) (name : String) (m : Model)
    (listed : db.models.find? m.id = some m) :
    AgreeAndRespect rt db c name m ↔ Consistent rt db c name m :=
  ⟨consistent_of_agreeAndRespect listed, agreeAndRespect_of_consistent listed⟩

end Claim

section Sharing

/-- A provider of one model, on an instance that its owner shares. -/
def sharedModel : Model where
  id := .repeated 5
  instanceId := .repeated 4
  capabilities := ["chat"]
  modelId := "gpt"
  unifiedModelId := none
  pricingConfig := .obj []
  limitConfig := .obj []
  routingConfig := .obj []
  configOverride := .obj []
  weight := 100
  priority := 0
  isActive := true

def sharedCatalog : Catalog where
  presets := ⟨[⟨.repeated 3, "openai", "openai", true,
    .obj [("chat", .obj [("request_template", .str "messages")])]⟩], by decide⟩
  instances := ⟨[⟨.repeated 4, some (.repeated 1), "openai", "db:key", true, true⟩], by decide⟩
  models := ⟨[sharedModel], by decide⟩
  credentials := []
  entitlements := []

/-- What is stored is taken as it is, and one number is read. -/
def plainRuntime : Runtime where
  postgres := true
  lower := id
  lower_empty := rfl
  int16 := fun text => if text = (Uuid.repeated 2).hex then some (Uuid.repeated 2).int else none
  decimal := fun _ => .refused
  resolveProfile := some
  buildEndpoint := fun _ _ _ _ _ => some ⟨"https://upstream", .null, .null, "bearer", .obj [], .null⟩

def otherCaller : Query where
  capability := "chat"
  channel := "internal"
  userId := some (Uuid.repeated 2).hex
  includePublic := true
  allowedProviders := []

theorem agreeAndRespect_iff_shared :
    AgreeAndRespect plainRuntime sharedCatalog otherCaller "gpt" sharedModel ↔
      Consistent plainRuntime sharedCatalog otherCaller "gpt" sharedModel :=
  agreeAndRespect_iff _ _ _ _ _ rfl

/-- The shared instance is found by the name of its model and not by its id. -/
theorem shared_by_name_only :
    sharedModel.AnswersTo "gpt" ∧
      ¬ AgreeAndRespect plainRuntime sharedCatalog otherCaller "gpt" sharedModel := by
  have named : (loadCandidates plainRuntime sharedCatalog otherCaller "gpt").map (fun results =>
      (results.filter fun b => b.providerModelId = sharedModel.id).length) = some 1 := by
    decide +kernel
  have byId : (loadCandidatesByProviderModelId plainRuntime sharedCatalog otherCaller
      sharedModel.id).map List.length = some 0 := by
    decide +kernel
  refine ⟨by decide, fun claimed => ?_⟩
  have counts := congrArg (Option.map List.length) claimed.agree
  rw [byId, Option.map_map] at counts
  exact absurd (counts.trans named) (by decide)

end Sharing
end Deeting.Routing
