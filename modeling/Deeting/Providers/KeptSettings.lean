import Deeting.Providers.ModelSync

/-! Which calls keep what users have set of the models: a synchronization always does, and adding
models by name does where no stored model would be set anew. -/
namespace Deeting.Providers
open Upserting Transition

/-- Each model is still there, under its id and with its settings, and a manual one as it was. -/
def Kept (before after : List ProviderModel) : Prop :=
  ∀ m ∈ before, ∃ m' ∈ after, m'.identity = m.identity ∧ m'.id = m.id ∧
    m'.toSettings = m.toSettings ∧ (m.source = "manual" → m' = m)

/-- No two models of an instance have one id and one path of the upstream. -/
def Distinct (models : List ProviderModel) : Prop := (models.map ProviderModel.identity).Nodup

theorem Kept.refl (models : List ProviderModel) : Kept models models :=
  fun m mem => ⟨m, mem, rfl, rfl, rfl, fun _ => rfl⟩

theorem Kept.trans {a b c : List ProviderModel} (first : Kept a b) (second : Kept b c) :
    Kept a c := by
  intro m mem
  obtain ⟨m', mem', identity', id', settings', manual'⟩ := first m mem
  obtain ⟨m'', mem'', identity'', id'', settings'', manual''⟩ := second m' mem'
  refine ⟨m'', mem'', identity''.trans identity', id''.trans id', settings''.trans settings', ?_⟩
  intro manual
  obtain rfl := manual' manual
  exact manual'' manual

theorem Distinct.eq {models : List ProviderModel} {m m' : ProviderModel}
    (distinct : Distinct models) (mem : m ∈ models) (mem' : m' ∈ models)
    (same : m.identity = m'.identity) : m = m' :=
  List.inj_on_of_nodup_map distinct mem mem' same

variable {env : Builtins} {models : List ProviderModel} {r : Request} {payloads : List ModelPayload}
  {m : ProviderModel} {p : ModelPayload}

theorem source_of_payloads (built : r.payloads env = some payloads) :
    ∀ p ∈ payloads, p.source = "auto" := by
  have each {models : List Json} {forced : Option String} {now : ℚ}
      (built : buildModelPayloads env models r.inst forced now = some payloads) :
      ∀ p ∈ payloads, p.source = "auto" := by
    intro p mem
    rw [buildModelPayloads] at built
    split at built
    · dsimp only at built
      split at built
      · obtain ⟨m, -, found, here, among⟩ := (mem_collect built).mp mem
        unfold modelPayload at here
        split at here
        · dsimp only at here
          split at here
          · obtain rfl := Option.some.inj here
            cases among
          · obtain rfl := Option.some.inj here
            rw [List.mem_singleton.mp among]
        · cases here
      · cases built
    · cases built
  rw [Request.payloads] at built
  split at built
  · exact each built
  · split at built
    · cases built
    · exact each built

theorem identity_describe {inst : ProviderInstance} (here : m.identity = payloadKey inst p)
    (syncedAt : ℚ) : (m.describe p syncedAt).identity = m.identity := by
  obtain ⟨-, rest⟩ := Prod.mk.inj here
  obtain ⟨modelId, upstreamPath⟩ := Prod.mk.inj rest
  simp only [ProviderModel.identity, ProviderModel.describe, modelId, upstreamPath]

theorem key_rule : r.rule.key m = m.identity := by
  unfold Request.rule
  split <;> rfl

theorem keyOf_rule : r.rule.keyOf p = payloadKey r.inst p := by
  unfold Request.rule
  split <;> rfl

theorem nodup_dedupePayloads (payloads : List ModelPayload) :
    ((dedupePayloads r.inst payloads).map r.rule.keyOf).Nodup := by
  have changes : r.rule.keyOf = payloadKey r.inst := funext fun p => keyOf_rule
  rw [changes]
  exact nodup_firsts payloads

theorem keeps_rule (m : ProviderModel) (p : ModelPayload) (here : r.rule.key m = r.rule.keyOf p) :
    r.rule.key (r.rule.update m p) = r.rule.key m := by
  rw [key_rule, keyOf_rule] at here
  rw [key_rule, key_rule]
  have described := identity_describe here
  unfold Request.rule
  cases r.call with
  | sync models =>
    simp only [fromUpstream, Bool.true_and, decide_eq_true_eq, if_true]
    split
    · rfl
    · exact described p.syncedAt
  | quickAdd modelIds capability => exact described r.outside.now

theorem made_rule (n : ℕ) (p : ModelPayload) : r.rule.key (r.rule.create n p) = r.rule.keyOf p := by
  unfold Request.rule
  split <;> rfl

theorem update_sync {listed : List Json} (called : r.call = .sync listed) :
    (r.rule.update m p).id = m.id ∧ (r.rule.update m p).toSettings = m.toSettings ∧
      (m.source = "manual" → r.rule.update m p = m) := by
  have rule : r.rule = fromUpstream r.inst r.outside true := by rw [Request.rule, called]
  rw [rule]
  by_cases manual : m.source = "manual"
  · have same : (fromUpstream r.inst r.outside true).update m p = m :=
      if_pos (by simpa using manual)
    rw [same]
    exact ⟨rfl, rfl, fun _ => rfl⟩
  · have described : (fromUpstream r.inst r.outside true).update m p = m.describe p p.syncedAt := by
      simp [fromUpstream, manual]
    rw [described]
    exact ⟨rfl, rfl, fun wrong => absurd wrong manual⟩

theorem update_quickAdd {modelIds : List String} {capability : Option String}
    (called : r.call = .quickAdd modelIds capability) :
    (r.rule.update m p).id = m.id ∧ (r.rule.update m p).toSettings = p.settings m ∧
      (r.rule.update m p).source = p.source := by
  have rule : r.rule = forInstance r.inst r.outside := by rw [Request.rule, called]
  rw [rule]
  exact ⟨rfl, rfl, rfl⟩

/-- No model has to be set anew: for each payload that is written by name, a model of its identity
is not manual and has its settings. -/
def Gentle (env : Builtins) (models : List ProviderModel) (r : Request) : Prop :=
  match r.call with
  | .sync _ => True
  | .quickAdd _ _ => r.outside.allowed → r.outside.commits → ∀ payloads ∈ r.payloads env,
      ∀ p ∈ dedupePayloads r.inst payloads, ∀ m ∈ models, m.identity = payloadKey r.inst p →
        m.source ≠ "manual" ∧ p.settings m = m.toSettings

section Written

variable (distinct : Distinct models)
include distinct

/-- The models that are there afterwards: each with the change for it, and those that are made. -/
theorem mem_written (payloads : List ModelPayload) (mem : m ∈ models) :
    r.rule.settle (dedupePayloads r.inst payloads) m ∈ written r.inst r.rule models payloads := by
  have keys : r.rule.key = ProviderModel.identity := funext fun m => key_rule
  have rows : (upsertAll r.rule ⟨models, []⟩ (dedupePayloads r.inst payloads)).rows =
      models.map (r.rule.settle (dedupePayloads r.inst payloads)) :=
    rows_upsertAll keeps_rule (by rwa [keys]) (nodup_dedupePayloads payloads)
  rw [written, rows]
  exact List.mem_append_left _ (List.mem_map_of_mem mem)

theorem distinct_written (payloads : List ModelPayload) :
    Distinct (written r.inst r.rule models payloads) := by
  have keys : r.rule.key = ProviderModel.identity := funext fun m => key_rule
  have start : (models.map r.rule.key).Nodup := by rwa [keys]
  have nodup := nodup_upsertAll keeps_rule made_rule start (nodup_dedupePayloads payloads)
  rwa [keys] at nodup

theorem distinct_step : Distinct (step env models r) := by
  unfold step
  split
  · split
    · exact distinct_written distinct _
    · exact distinct
  · exact distinct

theorem kept_written_iff (payloads : List ModelPayload) :
    Kept models (written r.inst r.rule models payloads) ↔
      ∀ m ∈ models, ∀ p ∈ dedupePayloads r.inst payloads, m.identity = payloadKey r.inst p →
        (r.rule.update m p).id = m.id ∧ (r.rule.update m p).toSettings = m.toSettings ∧
          (m.source = "manual" → r.rule.update m p = m) := by
  constructor
  · intro kept m mem p among here
    have settled : r.rule.settle (dedupePayloads r.inst payloads) m = r.rule.update m p :=
      settle_of_mem (nodup_dedupePayloads payloads) among (by rw [keyOf_rule, key_rule, here])
    have updated := mem_written (r := r) distinct payloads mem
    rw [settled] at updated
    obtain ⟨m', mem', identity, id, settings, manual⟩ := kept m mem
    have same : (r.rule.update m p).identity = m.identity := by
      have keeps := keeps_rule (r := r) m p (by rw [keyOf_rule, key_rule, here])
      rwa [key_rule, key_rule] at keeps
    obtain rfl := (distinct_written distinct payloads).eq mem' updated (identity.trans same.symm)
    exact ⟨id, settings, manual⟩
  · intro each m mem
    refine ⟨_, mem_written distinct payloads mem, ?_⟩
    obtain same | ⟨p, among, here, same⟩ :=
      settle_cases r.rule (dedupePayloads r.inst payloads) m
    · rw [same]
      exact ⟨rfl, rfl, rfl, fun _ => rfl⟩
    · rw [same]
      have keeps := keeps_rule m p here.symm
      rw [key_rule, key_rule] at keeps
      rw [keyOf_rule, key_rule] at here
      exact ⟨keeps, each m mem p among here.symm⟩

theorem kept_step_iff : Kept models (step env models r) ↔ Gentle env models r := by
  unfold step
  by_cases carried : r.outside.allowed && r.outside.commits
  · rw [if_pos carried]
    obtain ⟨allowed, commits⟩ := Bool.and_eq_true_iff.mp carried
    cases built : r.payloads env with
    | none =>
      refine iff_of_true (Kept.refl models) ?_
      unfold Gentle
      split
      · trivial
      · rintro - - payloads among
        rw [built] at among
        cases among
    | some payloads =>
      simp only [kept_written_iff distinct payloads]
      cases called : r.call with
      | sync listed =>
        refine iff_of_true (fun m _ p _ _ => update_sync called) ?_
        simp only [Gentle, called]
      | quickAdd modelIds capability =>
        simp only [Gentle, called, built, Option.mem_some_iff, forall_eq', allowed, commits,
          forall_const]
        constructor
        · intro each p among m mem here
          obtain ⟨-, settings, manual⟩ := each m mem p among here
          obtain ⟨-, given, source⟩ := update_quickAdd (m := m) (p := p) called
          refine ⟨fun isManual => ?_, given.symm.trans settings⟩
          have automatic := source_of_payloads built p (mem_of_mem_firsts among)
          rw [manual isManual, isManual, automatic] at source
          exact absurd source (by decide)
        · intro gentle m mem p among here
          obtain ⟨automatic, same⟩ := gentle p among m mem here
          obtain ⟨id, given, -⟩ := update_quickAdd (m := m) (p := p) called
          exact ⟨id, given.trans same, fun manual => absurd manual automatic⟩
  · rw [if_neg carried]
    refine iff_of_true (Kept.refl models) ?_
    unfold Gentle
    split
    · trivial
    · intro allowed commits
      exact absurd (Bool.and_eq_true_iff.mpr ⟨allowed, commits⟩) carried

end Written

def plain : Builtins where
  lower text := String.ofList (text.toList.map Char.toLower)
  str _ := ""

def openai : ProviderInstance := { id := .repeated 9, presetSlug := "openai", metadata := .null }

def renamed : ProviderModel where
  displayName := .str "Mine"
  weight := 5
  priority := 0
  pricingConfig := .obj []
  limitConfig := .obj []
  tokenizerConfig := .obj []
  routingConfig := .obj []
  configOverride := .obj []
  isActive := true
  id := .repeated 1
  instanceId := openai.id
  capabilities := ["chat"]
  modelId := "gpt-4o"
  unifiedModelId := some "gpt-4o"
  upstreamPath := "chat/completions"
  source := "auto"
  extraMeta := .obj []
  syncedAt := none

def carriedOut (call : Call) : Request :=
  { inst := openai
    call := call
    outside :=
      { allowed := true, builtAt := 0, now := 0, fresh := fun _ => .repeated 2, commits := true } }

/-- In a run from distinct models, all models are kept from any moment on and stay distinct, exactly
where no call by name sets a stored model anew. -/
theorem settings_kept_iff (env : Builtins) (models : List ProviderModel)
    (distinct : Distinct models) (calls : List Request) :
    (∀ first second t u, first ++ second <+: calls → run (total (step env)) models first = some t →
      run (total (step env)) t second = some u → Kept t u ∧ Distinct u) ↔
    Along (total (step env)) (Gentle env) models calls := by
  have stays {s t : List ProviderModel} {r : Request} (held : Distinct s)
      (taken : total (step env) s r = some t) : Distinct t := by
    obtain rfl := Option.some.inj taken
    exact distinct_step held
  have segments : (∀ first second t u, first ++ second <+: calls →
      run (total (step env)) models first = some t → run (total (step env)) t second = some u →
        Kept t u) ↔ Along (total (step env)) (Gentle env) models calls := by
    rw [forall_segment_iff_along Kept.refl Kept.trans]
    constructor
    · intro kept
      refine along_of_invariant (P := Distinct) (fun held _ taken => stays held taken) ?_ distinct
        kept
      exact fun held keeps => (kept_step_iff held).mp (keeps _ rfl)
    · intro gentle
      refine along_of_invariant (P := Distinct) (fun held _ taken => stays held taken) ?_ distinct
        gentle
      rintro s r held ok t taken
      obtain rfl := Option.some.inj taken
      exact (kept_step_iff held).mpr ok
  rw [← segments]
  constructor
  · exact fun both first second t u early reached on => (both first second t u early reached on).1
  · intro kept first second t u early reached on
    exact ⟨kept first second t u early reached on,
      run_preserves stays (run_preserves stays distinct reached) on⟩

/-- The upstream lists the model, and another one is added by name. -/
def twoCalls : List Request :=
  [carriedOut (.sync [.obj [("id", .str "gpt-4o")]]), carriedOut (.quickAdd ["o3"] none)]

theorem renamed_kept : ∃ t, run (total (step plain)) [renamed] twoCalls = some t ∧
    Kept [renamed] t ∧ Distinct t := by
  have gentle : Along (total (step plain)) (Gentle plain) [renamed] twoCalls := by
    refine (along_cons_of_step rfl).mpr ⟨trivial, (along_cons_of_step rfl).mpr ⟨?_, trivial⟩⟩
    rintro - - payloads built p among m mem here
    have keys : ((carriedOut (.quickAdd ["o3"] none)).payloads plain).map (fun payloads =>
        (dedupePayloads openai payloads).map (payloadKey openai)) =
          some [(openai.id, "o3", "chat/completions")] := by decide
    have stored : (step plain [renamed] (carriedOut (.sync [.obj [("id", .str "gpt-4o")]]))).map
        ProviderModel.identity = [renamed.identity] := by decide
    have old : m.identity = renamed.identity :=
      List.mem_singleton.mp (stored ▸ List.mem_map_of_mem mem)
    have new : payloadKey openai p = (openai.id, "o3", "chat/completions") := by
      rw [Option.mem_def.mp built, Option.map_some] at keys
      exact List.mem_singleton.mp (Option.some.inj keys ▸ List.mem_map_of_mem among)
    exact absurd (old.symm.trans (here.trans new)) (by decide)
  exact ⟨_, rfl, (settings_kept_iff plain [renamed] (List.nodup_singleton _) twoCalls).mpr gentle
    [] twoCalls [renamed] _ (List.prefix_refl _) rfl rfl⟩

/-- A model that is added by name again has the name and the weight that the payload gives. -/
theorem renamed_reset : Distinct [renamed] ∧ ∃ t,
    run (total (step plain)) [renamed] [carriedOut (.quickAdd ["gpt-4o"] none)] = some t ∧
      ¬ Kept [renamed] t := by
  refine ⟨List.nodup_singleton _, _, rfl, fun kept => ?_⟩
  obtain ⟨m, mem, -, -, settings, -⟩ := kept renamed List.mem_cons_self
  have weights : ∀ m ∈ step plain [renamed] (carriedOut (.quickAdd ["gpt-4o"] none)),
      m.weight = 100 := by decide
  have weight : m.weight = 5 := congrArg Settings.weight settings
  rw [weights m mem] at weight
  exact absurd weight (by decide)

end Deeting.Providers
