import Deeting.Routing.Affinity
import Deeting.Routing.Agreement
import Deeting.Routing.Choice

/-! `RoutingStep` under the scopes of an API key, and the upstreams a request is sent to while
`UpstreamCallStep` is executed, retried and degraded. What the value of a preset or a preset
item names is any reading of a candidate's origin. -/
namespace Deeting.Routing

/-- `_extract_provider_filters`, for one type of scope. -/
def scopeValues (scopes : List String) (scopeType : String) : List String :=
  scopes.filterMap fun scope =>
    let chars := scope.toList
    if ':' ∈ chars ∧ chars.takeWhile (· ≠ ':') = scopeType.toList then
      some (String.ofList ((chars.dropWhile (· ≠ ':')).drop 1))
    else none

structure Origin where
  presetId : Uuid
  presetSlug : String
  instanceId : Uuid
  providerModelId : Uuid
  provider : String

def RoutingCandidate.origin (b : RoutingCandidate) : Origin :=
  ⟨b.presetId, b.presetSlug, b.instanceId, b.providerModelId, b.provider⟩

/-- Which origins the values of `preset` and `preset_item` scopes stand for. -/
structure Reading where
  preset : Origin → String → Prop
  presetItem : Origin → String → Prop

/-- What a request brings to `RoutingStep`. -/
structure Route where
  scopes : List String
  capability : String
  model : String
  providerModelId : Option String
  channel : String
  userId : Option String
  includePublic : Bool

/-- What else decides where it goes: the affinity of its session at the time, whether the
caller is internal and insists on the model, whether `TemplateRenderStep` runs, and the draws. -/
structure Circumstances where
  affinity : Option (ℚ × Option Entry)
  isInternal : Bool
  requireProviderModelId : Bool
  rendered : Bool
  chance : Chance

namespace Route
variable (r : Route)

def query : Query where
  capability := r.capability
  channel := r.channel
  userId := r.userId
  includePublic := r.includePublic
  allowedProviders := scopeValues r.scopes "provider"

def wanted : Option String := r.providerModelId.filter (· ≠ "")

end Route

def lockedItem (k : Circumstances) : Option String :=
  k.affinity.bind fun (now, stored) =>
    let (use, _, item) := (Machine.shouldUseAffinity now stored).1
    if use then truthy item else none

def internalKey (b : RoutingCandidate) : ℤ × ℤ × String × String × String :=
  (b.priority, b.weight, b.credentialAlias, (b.credentialId.map Uuid.text).getD "",
    b.providerModelId.text)

def internalLt (a b : RoutingCandidate) : Bool :=
  let (p, w, s, c, m) := internalKey a
  let (p', w', s', c', m') := internalKey b
  p < p' ∨ p = p' ∧ (w < w' ∨ w = w' ∧ (s < s' ∨ s = s' ∧ (c < c' ∨ c = c' ∧ m < m')))

section Step
variable (rt : Runtime) (db : Catalog) (r : Route)

/-- `_select_by_provider_model_id`; `none` where there is no upstream or it raises. -/
def selectByProviderModelId (k : Circumstances) (text : String) :
    Option (RoutingCandidate × List RoutingCandidate) :=
  (Uuid.parse rt.int16 text).bind fun id =>
    (loadCandidatesByProviderModelId rt db r.query id).bind fun candidates =>
      if k.isInternal ∧ k.requireProviderModelId then
        (bestOf internalLt candidates).map fun primary => (primary, [])
      else choose k.chance candidates

/-- `_select_upstream`; the filters on presets and preset items are not read. -/
def selectUpstream (k : Circumstances) (_allowedPresets _allowedPresetItems : List String) :
    Option (RoutingCandidate × List RoutingCandidate) :=
  (loadCandidates rt db r.query r.model).bind fun candidates =>
    match (lockedItem k).bind fun item =>
        candidates.find? fun b => b.providerModelId.text = item with
    | some primary => some (primary, candidates.filter fun b => ¬ b.Same primary)
    | none => choose k.chance candidates

/-- `RoutingStep.execute`: the candidates it leaves in the context, the selected one first. -/
def route (k : Circumstances) : Option (RoutingCandidate × List RoutingCandidate) :=
  if r.model = "" then none
  else
    match r.wanted with
    | some text => selectByProviderModelId rt db r k text
    | none =>
        selectUpstream rt db r k (scopeValues r.scopes "preset")
          (scopeValues r.scopes "preset_item")

end Step

/-- The context between the calls. The URL is rendered once, from the candidate selected then;
`sent` has for every call the candidate of that URL and the selected one. -/
structure Trip where
  candidates : List RoutingCandidate
  index : ℕ
  selected : RoutingCandidate
  rendered : Option RoutingCandidate
  sent : List (RoutingCandidate × RoutingCandidate)

/-- Executions of `UpstreamCallStep` and calls of its `on_degrade`; some send nothing, as the
URL or the circuit forbids it. -/
inductive Turn where
  | execute (sends : Bool)
  | onDegrade (sends : Bool)

namespace Trip

def depart (primary : RoutingCandidate) (backups : List RoutingCandidate) (rendered : Bool) :
    Trip where
  candidates := primary :: backups
  index := 0
  selected := primary
  rendered := if rendered then some primary else none
  sent := []

/-- `UpstreamCallStep.execute`, as far as the call. -/
def execute (t : Trip) (sends : Bool) : Trip :=
  let target := t.rendered.getD t.selected
  { t with
    rendered := some target
    sent := if sends then t.sent ++ [(target, t.selected)] else t.sent }

def onDegrade (t : Trip) (sends : Bool) : Trip :=
  match t.candidates[t.index + 1]? with
  | some backup => ({ t with index := t.index + 1, selected := backup }).execute sends
  | none => t

def turn (t : Trip) : Turn → Trip
  | .execute sends => t.execute sends
  | .onDegrade sends => t.onDegrade sends

end Trip

def sentTo (rt : Runtime) (db : Catalog) (r : Route) (k : Circumstances) (turns : List Turn) :
    List (RoutingCandidate × RoutingCandidate) :=
  match route rt db r k with
  | none => []
  | some (primary, backups) =>
      (turns.foldl Trip.turn (.depart primary backups k.rendered)).sent

section Claim
variable (rt : Runtime) (db : Catalog) (reading : Reading) (r : Route)

structure PresetAllowed (scopes : List String) (o : Origin) : Prop where
  preset : scopeValues scopes "preset" ≠ [] →
    ∃ value ∈ scopeValues scopes "preset", reading.preset o value
  presetItem : scopeValues scopes "preset_item" ≠ [] →
    ∃ value ∈ scopeValues scopes "preset_item", reading.presetItem o value

structure Allowed (scopes : List String) (o : Origin) : Prop
    extends PresetAllowed reading scopes o where
  provider : scopeValues scopes "provider" ≠ [] → o.provider ∈ scopeValues scopes "provider"

/-- Wherever the request is sent, the URL and the selected candidate are allowed. -/
def Confined : Prop :=
  ∀ k turns, ∀ call ∈ sentTo rt db r k turns,
    Allowed reading r.scopes call.1.origin ∧ Allowed reading r.scopes call.2.origin

def Offered (i : Instance) (m : Model) : Prop :=
  r.model ≠ "" ∧ db.Has i m ∧
    match r.wanted with
    | some text => Uuid.parse rt.int16 text = some m.id ∧ ¬ IdRaises rt db r.query m ∧
        TakenById rt r.query i m ∧
        Serviceable rt db r.query (resolvedCapability r.query m) i m
    | none => ¬ NameRaises rt db r.query r.model ∧ TakenByName rt r.query r.model i m ∧
        Serviceable rt db r.query r.capability i m

/-- Every offered model is of an allowed preset and preset item. -/
def WithinPresets : Prop :=
  ∀ i m, Offered rt db r i m → ∀ preset, usablePreset db r.query i = some preset →
    PresetAllowed reading r.scopes ⟨preset.id, i.presetSlug, i.id, m.id, preset.provider⟩

end Claim

section Runs
variable {P : RoutingCandidate → Prop} {t : Trip}

structure Trip.Within (P : RoutingCandidate → Prop) (t : Trip) : Prop where
  candidates : ∀ b ∈ t.candidates, P b
  selected : P t.selected
  rendered : ∀ b, t.rendered = some b → P b
  sent : ∀ call ∈ t.sent, P call.1 ∧ P call.2

theorem Trip.Within.execute (within : t.Within P) (sends : Bool) : (t.execute sends).Within P := by
  have target : P (t.rendered.getD t.selected) := by
    cases rendered : t.rendered with
    | none => exact within.selected
    | some b => exact within.rendered b rendered
  refine ⟨within.candidates, within.selected, ?_, ?_⟩
  · rintro _ ⟨⟩
    exact target
  · intro call mem
    simp only [Trip.execute] at mem
    split at mem
    · obtain before | last := List.mem_append.mp mem
      · exact within.sent call before
      · obtain rfl := List.mem_singleton.mp last
        exact ⟨target, within.selected⟩
    · exact within.sent call mem

theorem Trip.Within.onDegrade (within : t.Within P) (sends : Bool) :
    (t.onDegrade sends).Within P := by
  rw [Trip.onDegrade]
  split
  · rename_i backup next
    have listed := within.candidates backup (List.mem_of_getElem? next)
    have moved : Trip.Within P { t with index := t.index + 1, selected := backup } :=
      ⟨within.candidates, listed, within.rendered, within.sent⟩
    exact moved.execute sends
  · exact within

theorem Trip.Within.turn (within : t.Within P) (u : Turn) : (t.turn u).Within P := by
  cases u with
  | execute sends => exact within.execute sends
  | onDegrade sends => exact within.onDegrade sends

theorem Trip.Within.turns (within : t.Within P) (turns : List Turn) :
    (turns.foldl Trip.turn t).Within P := by
  induction turns generalizing t with
  | nil => exact within
  | cons u rest ih => exact ih (within.turn u)

theorem Trip.within_depart {primary : RoutingCandidate} {backups : List RoutingCandidate}
    (first : P primary) (others : ∀ b ∈ backups, P b) (rendered : Bool) :
    (Trip.depart primary backups rendered).Within P := by
  refine ⟨List.forall_mem_cons.mpr ⟨first, others⟩, first, ?_, ?_⟩
  · cases rendered
    · exact fun call mem => absurd mem (Option.not_mem_none call)
    · rintro _ ⟨⟩
      exact first
  · exact fun call mem => absurd mem List.not_mem_nil

end Runs

section Loaded
variable {rt : Runtime} {db : Catalog} {reading : Reading} {r : Route} {k : Circumstances}

def Loaded (rt : Runtime) (db : Catalog) (r : Route) (b : RoutingCandidate) : Prop :=
  ∃ i m capability, Offered rt db r i m ∧ b ∈ found rt db r.query capability i m

theorem loaded_by_name {results : List RoutingCandidate} {b : RoutingCandidate}
    (named : r.model ≠ "") (wanted : r.wanted = none)
    (loaded : loadCandidates rt db r.query r.model = some results) (mem : b ∈ results) :
    Loaded rt db r b := by
  obtain ⟨i, m, has, taken, of_⟩ := (mem_loadCandidates loaded).mp mem
  have fine : ¬ NameRaises rt db r.query r.model := by
    rw [← loadCandidates_eq_none, loaded]
    simp
  refine ⟨i, m, r.capability, ⟨named, has, ?_⟩, of_⟩
  simp only [wanted]
  exact ⟨fine, taken, found_ne_nil.mp (List.ne_nil_of_mem of_)⟩

theorem loaded_by_id {text : String} {id : Uuid} {results : List RoutingCandidate}
    {b : RoutingCandidate} (named : r.model ≠ "") (wanted : r.wanted = some text)
    (parsed : Uuid.parse rt.int16 text = some id)
    (loaded : loadCandidatesByProviderModelId rt db r.query id = some results)
    (mem : b ∈ results) : Loaded rt db r b := by
  cases listed : db.models.find? id with
  | none =>
    rw [loadCandidatesByProviderModelId, listed, Option.some.injEq] at loaded
    rw [← loaded] at mem
    cases mem
  | some m =>
    obtain rfl := Table.key_of_find? listed
    by_cases stray : ∃ i, db.Has i m
    · obtain ⟨i, has⟩ := stray
      obtain ⟨_, none_⟩ | ⟨fine, ⟨taken, some_⟩ | ⟨_, none_⟩⟩ :=
        loadById_cases rt r.query has
      · rw [loaded] at none_
        cases none_
      · rw [loaded, Option.some.injEq] at some_
        subst some_
        refine ⟨i, m, resolvedCapability r.query m, ⟨named, has, ?_⟩, mem⟩
        simp only [wanted]
        exact ⟨parsed, fine, taken, found_ne_nil.mp (List.ne_nil_of_mem mem)⟩
      · rw [loaded, Option.some.injEq] at none_
        rw [none_] at mem
        cases mem
    · rw [loadById_of_stray listed stray, Option.some.injEq] at loaded
      rw [← loaded] at mem
      cases mem

/-- Affinity, the draws and the insistence of an internal caller choose among what was
loaded. -/
theorem loaded_of_route {primary : RoutingCandidate} {backups : List RoutingCandidate}
    (routed : route rt db r k = some (primary, backups)) :
    Loaded rt db r primary ∧ ∀ b ∈ backups, Loaded rt db r b := by
  rw [route] at routed
  split at routed
  · cases routed
  rename_i named
  cases wanted : r.wanted with
  | some text =>
    simp only [wanted] at routed
    obtain ⟨id, parsed, routed⟩ := Option.bind_eq_some_iff.mp routed
    obtain ⟨results, loaded, routed⟩ := Option.bind_eq_some_iff.mp routed
    have all : ∀ b ∈ results, Loaded rt db r b := fun b =>
      loaded_by_id named wanted parsed loaded
    split at routed
    · obtain ⟨best, picked, same⟩ := Option.map_eq_some_iff.mp routed
      obtain ⟨rfl, rfl⟩ := Prod.mk.inj same
      exact ⟨all best (mem_of_bestOf picked), by simp⟩
    · obtain ⟨first, others⟩ := mem_of_choose routed
      exact ⟨all primary first, fun b mem => all b (others b mem)⟩
  | none =>
    simp only [wanted] at routed
    obtain ⟨results, loaded, routed⟩ := Option.bind_eq_some_iff.mp routed
    have all : ∀ b ∈ results, Loaded rt db r b := fun b => loaded_by_name named wanted loaded
    split at routed
    · rename_i locked picked
      obtain ⟨rfl, rfl⟩ := Prod.mk.inj (Option.some.inj routed)
      obtain ⟨item, _, picked⟩ := Option.bind_eq_some_iff.mp picked
      exact ⟨all locked (List.mem_of_find?_eq_some picked),
        fun b mem => all b (List.mem_of_mem_filter mem)⟩
    · obtain ⟨first, others⟩ := mem_of_choose routed
      exact ⟨all primary first, fun b mem => all b (others b mem)⟩

theorem loaded_of_sentTo {turns : List Turn} {call : RoutingCandidate × RoutingCandidate}
    (mem : call ∈ sentTo rt db r k turns) : Loaded rt db r call.1 ∧ Loaded rt db r call.2 := by
  rw [sentTo] at mem
  split at mem
  · cases mem
  · rename_i primary backups routed
    obtain ⟨first, others⟩ := loaded_of_route routed
    exact ((Trip.within_depart first others k.rendered).turns turns).sent call mem

/-- A loaded candidate is of an allowed provider; presets and preset items are as offered. -/
theorem allowed_of_loaded (within : WithinPresets rt db reading r) {b : RoutingCandidate}
    (loaded : Loaded rt db r b) : Allowed reading r.scopes b.origin := by
  obtain ⟨i, m, capability, offered, mem⟩ := loaded
  obtain ⟨preset, e, entry, usable, rfl⟩ := exists_of_mem_offers (mem_found mem).2
  refine ⟨within i m offered preset usable, fun present => ?_⟩
  have kept := (Option.filter_eq_some_iff.mp usable).2
  simp only [decide_eq_true_eq] at kept
  exact kept.2.resolve_left present

end Loaded

section Reaching
variable {rt : Runtime} {db : Catalog} {reading : Reading} {r : Route} {i : Instance} {m : Model}

def pinned (m : Model) : Circumstances where
  affinity := some (0, some ⟨⟨.locked, none, some m.id.text, none, 0, 0, 0, 0, none⟩, 1⟩)
  isInternal := true
  requireProviderModelId := true
  rendered := true
  chance := ⟨fun _ => 0, 0, 0, 0, fun _ => none, fun _ => 0⟩

theorem lockedItem_pinned : lockedItem (pinned m) = some m.id.text := by
  have given : truthy (some m.id.text) = some m.id.text := truthy_some m.id.text_ne_empty
  simp [lockedItem, pinned, Machine.shouldUseAffinity, getContext, live, Option.filter,
    Hash.context, given]

theorem route_pinned_by_id {text : String} (named : r.model ≠ "") (wanted : r.wanted = some text)
    (parsed : Uuid.parse rt.int16 text = some m.id) (has : db.Has i m)
    (fine : ¬ IdRaises rt db r.query m) (taken : TakenById rt r.query i m)
    (service : Serviceable rt db r.query (resolvedCapability r.query m) i m) :
    ∃ primary backups, route rt db r (pinned m) = some (primary, backups) ∧
      primary ∈ found rt db r.query (resolvedCapability r.query m) i m := by
  obtain ⟨raises, _⟩ | ⟨_, ⟨_, loaded⟩ | ⟨untaken, _⟩⟩ := loadById_cases rt r.query has
  · exact absurd raises fine
  · obtain ⟨primary, picked⟩ := Option.ne_none_iff_exists'.mp
      (bestOf_ne_none internalLt (found_ne_nil.mpr service))
    refine ⟨primary, [], ?_, mem_of_bestOf picked⟩
    rw [route, if_neg named, wanted]
    simp only [selectByProviderModelId, parsed, Option.bind_some, loaded, picked]
    rfl
  · exact absurd taken untaken

theorem route_pinned_by_name (named : r.model ≠ "") (wanted : r.wanted = none) (has : db.Has i m)
    (fine : ¬ NameRaises rt db r.query r.model) (taken : TakenByName rt r.query r.model i m)
    (service : Serviceable rt db r.query r.capability i m) :
    ∃ primary backups, route rt db r (pinned m) = some (primary, backups) ∧
      primary ∈ found rt db r.query r.capability i m := by
  obtain ⟨results, loaded⟩ := exists_of_not_nameRaises fine
  obtain ⟨b, mem⟩ := List.exists_mem_of_ne_nil _ (found_ne_nil.mpr service)
  have listed := (mem_loadCandidates loaded).mpr ⟨i, m, has, taken, mem⟩
  have carries := providerModelId_of_mem_offers (mem_found mem).2
  obtain ⟨primary, picked⟩ : ∃ primary, results.find? (fun b =>
      decide (b.providerModelId.text = m.id.text)) = some primary := by
    apply Option.isSome_iff_exists.mp
    rw [List.find?_isSome]
    exact ⟨b, listed, by simp [carries]⟩
  obtain ⟨j, n, other, _, of_⟩ := (mem_loadCandidates loaded).mp (List.mem_of_find?_eq_some picked)
  have id_ : primary.providerModelId = m.id :=
    Uuid.text_injective (by simpa using List.find?_some picked)
  have same : n.id = m.id := (providerModelId_of_mem_offers (mem_found of_).2).symm.trans id_
  obtain ⟨rfl, rfl⟩ := has.unique other same
  refine ⟨primary, results.filter fun b => ¬ b.Same primary, ?_, of_⟩
  rw [route, if_neg named, wanted]
  simp only [selectUpstream, loaded, Option.bind_some, lockedItem_pinned, picked]

theorem route_pinned (offered : Offered rt db r i m) :
    ∃ primary backups, route rt db r (pinned m) = some (primary, backups) ∧
      ∃ capability, primary ∈ found rt db r.query capability i m := by
  obtain ⟨named, has, offered⟩ := offered
  cases wanted : r.wanted with
  | some text =>
    simp only [wanted] at offered
    obtain ⟨parsed, fine, taken, service⟩ := offered
    obtain ⟨primary, backups, routed, mem⟩ :=
      route_pinned_by_id named wanted parsed has fine taken service
    exact ⟨primary, backups, routed, _, mem⟩
  | none =>
    simp only [wanted] at offered
    obtain ⟨fine, taken, service⟩ := offered
    obtain ⟨primary, backups, routed, mem⟩ :=
      route_pinned_by_name named wanted has fine taken service
    exact ⟨primary, backups, routed, _, mem⟩

/-- The scopes of a key confine where its requests are sent exactly where the offered models
are within the presets and preset items of the scopes. -/
theorem confined_to_scopes_iff (rt : Runtime) (db : Catalog) (reading : Reading) (r : Route) :
    Confined rt db reading r ↔ WithinPresets rt db reading r := by
  constructor
  · intro confined i m offered preset usable
    obtain ⟨primary, backups, routed, capability, mem⟩ := route_pinned offered
    have sent : (primary, primary) ∈ sentTo rt db r (pinned m) [.execute true] := by
      rw [sentTo, routed]
      exact List.mem_singleton.mpr rfl
    have allowed := (confined _ _ _ sent).1.toPresetAllowed
    obtain ⟨preset', e, entry, usable', rfl⟩ := exists_of_mem_offers (mem_found mem).2
    rw [usable, Option.some.injEq] at usable'
    subst usable'
    exact allowed
  · intro within k turns call mem
    obtain ⟨target, selected⟩ := loaded_of_sentTo mem
    exact ⟨allowed_of_loaded within target, allowed_of_loaded within selected⟩

/-- A preset is named by its slug or its id, a preset item by the id of the model or of the
instance. -/
def namedBy : Reading where
  preset o value := o.presetSlug = value ∨ o.presetId.text = value
  presetItem o value := o.providerModelId.text = value ∨ o.instanceId.text = value

/-- A key for one preset asks for a model of another one. -/
def scopedRoute : Route where
  scopes := ["provider:openai", "preset:azure"]
  capability := "chat"
  model := "gpt"
  providerModelId := none
  channel := "external"
  userId := some (Uuid.repeated 2).hex
  includePublic := true

def ordinary : Circumstances where
  affinity := none
  isInternal := false
  requireProviderModelId := false
  rendered := true
  chance := ⟨fun _ => 0, 0, 0, 0, fun _ => none, fun _ => 0⟩

theorem leaves_its_preset : ¬ Confined plainRuntime sharedCatalog namedBy scopedRoute := by
  intro confined
  have sent : (sentTo plainRuntime sharedCatalog scopedRoute ordinary [.execute true]).map
      (fun call => (call.1.presetSlug, call.1.presetId)) = [("openai", .repeated 3)] := by
    decide +kernel
  have scopes : scopeValues scopedRoute.scopes "preset" = ["azure"] := by decide +kernel
  obtain ⟨call, mem, same⟩ := List.mem_map.mp (sent ▸ List.mem_singleton.mpr rfl)
  obtain ⟨slug, id_⟩ := Prod.mk.inj same
  have asked := (confined ordinary [.execute true] call mem).1.preset
  rw [scopes] at asked
  obtain ⟨value, listed, named⟩ := asked (by simp)
  obtain rfl := List.mem_singleton.mp listed
  simp only [namedBy, RoutingCandidate.origin, slug, id_] at named
  exact absurd named (by decide +kernel)

end Reaching

end Deeting.Routing
