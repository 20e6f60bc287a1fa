import Deeting.Cache.Keys

/-! `CacheInvalidator`: the keys and prefixes that each event deletes, against the keys of the
production writers. -/
namespace Deeting.Cache

inductive Event where
  | presetUpdated (presetId : Option String)
  | pricingUpdated (presetId : String)
  | limitUpdated (presetId : String)
  | apiKeyChanged (key : Uuid) (tenantId : Option String)
  | quotaUpdated (tenantId : String)
  | upstreamTemplateUpdated (providerModelId : String)
  | conversationReset (sessionId : String)
  | conversationSummaryUpdated (sessionId : String)
  | banditUpdated (providerModelId : Option String)
  | secretRotated (provider : String)
  | providerInstanceChanged (userId : Option String)
  | providerModelChanged (instanceId capability modelId : Option String)
  | providerCredentialsChanged (instanceId : Option String)

namespace Event

/-- What the event hands to `_delete_keys`. -/
def keys : Event → List String
  | .presetUpdated presetId =>
    (given presetId).flatMap (fun id =>
      [CacheKeys.pricing id, CacheKeys.limit id, CacheKeys.providerPreset id]) ++
      [CacheKeys.providerPresetActiveList]
  | .pricingUpdated presetId => [CacheKeys.pricing presetId]
  | .limitUpdated presetId => [CacheKeys.limit presetId]
  | .apiKeyChanged key tenantId =>
    [CacheKeys.apiKey key.text, CacheKeys.apiKeyRevoked key.text] ++
      (given tenantId).map CacheKeys.apiKeyList
  | .quotaUpdated tenantId => [CacheKeys.quotaTenant tenantId]
  | .upstreamTemplateUpdated id => [CacheKeys.upstreamTemplate id]
  | .conversationReset sessionId =>
    [CacheKeys.conversationMeta sessionId, CacheKeys.conversationMessages sessionId,
      CacheKeys.conversationSummary sessionId, CacheKeys.conversationLock sessionId,
      CacheKeys.conversationSummaryJob sessionId]
  | .conversationSummaryUpdated sessionId => [CacheKeys.conversationSummary sessionId]
  | .banditUpdated id => (given id).map (CacheKeys.banditState "router:llm")
  | .secretRotated _ => []
  | .providerInstanceChanged _ => []
  | .providerModelChanged instanceId _ _ => (given instanceId).map CacheKeys.providerModelList
  | .providerCredentialsChanged instanceId => (given instanceId).map CacheKeys.providerCredentials

/-- What the event hands to `_clear_prefix`. -/
def prefixes : Event → List String
  | .presetUpdated _ => ["gw:preset:", "gw:routing:"]
  | .apiKeyChanged key _ => ["rl:ak:" ++ key.text ++ ":"]
  | .quotaUpdated tenantId => ["rl:tenant:" ++ tenantId ++ ":"]
  | .conversationReset sessionId => ["conv:" ++ sessionId ++ ":embed"]
  | .banditUpdated id => if given id = [] then ["bandit:"] else []
  | .secretRotated provider => ["upstream_cred:" ++ provider]
  | .providerInstanceChanged _ => ["gw:pi:list:"]
  | .providerModelChanged _ _ _ => ["gw:pm:cand:", "gw:pi:list:"]
  | .providerCredentialsChanged _ => ["gw:pm:cand:"]
  | .pricingUpdated _ | .limitUpdated _ | .upstreamTemplateUpdated _
  | .conversationSummaryUpdated _ => []

/-- The entries that the event is there to delete, of its subject. -/
inductive Concerns : Event → Entry → Prop where
  | preset {id slug} : Concerns (.presetUpdated id) (.preset slug)
  | activePresets {id} : Concerns (.presetUpdated id) .activePresets
  | affinity {id fingerprint} : Concerns (.presetUpdated id) (.affinity fingerprint)
  | affinityState {id session model} : Concerns (.presetUpdated id) (.affinityState session model)
  | principal {key tenant hash} : Concerns (.apiKeyChanged key tenant) (.principal key hash)
  | revoked {key tenant} : Concerns (.apiKeyChanged key tenant) (.revoked key)
  | blacklisted {key tenant} : Concerns (.apiKeyChanged key tenant) (.blacklisted key)
  | keyBudget {key tenant} : Concerns (.apiKeyChanged key tenant) (.keyBudget key)
  | keyRequests {key tenant} : Concerns (.apiKeyChanged key tenant) (.keyRequests key)
  | keyTokens {key tenant} : Concerns (.apiKeyChanged key tenant) (.keyTokens key)
  | quota {tenant} : Concerns (.quotaUpdated tenant) (.quota tenant)
  | quotaHash {tenant} : Concerns (.quotaUpdated tenant) (.quotaHash tenant)
  | tenantTokens {tenant} : Concerns (.quotaUpdated tenant) (.tenantTokens tenant)
  | conversationMeta {session} : Concerns (.conversationReset session) (.conversationMeta session)
  | conversationMessages {session} :
    Concerns (.conversationReset session) (.conversationMessages session)
  | conversationSummary {session} :
    Concerns (.conversationReset session) (.conversationSummary session)
  | summaryLastActive {session} :
    Concerns (.conversationReset session) (.summaryLastActive session)
  | summaryPendingTask {session} :
    Concerns (.conversationReset session) (.summaryPendingTask session)
  | newSummary {session} :
    Concerns (.conversationSummaryUpdated session) (.conversationSummary session)
  | bandit {id scene arm} (own : ∀ item ∈ given id, scene = "router:llm" ∧ arm = item) :
    Concerns (.banditUpdated id) (.bandit scene arm)
  | credential {provider ref} : Concerns (.secretRotated provider) (.credential provider ref)
  | instances {userId user shared} :
    Concerns (.providerInstanceChanged userId) (.instances user shared)
  | models {id capability model instance_} (own : instance_ ∈ given id) :
    Concerns (.providerModelChanged id capability model) (.models instance_)
  | candidates {id capability model capability' model' user shared} :
    Concerns (.providerModelChanged id capability model) (.candidates capability' model' user shared)
  | counts {id capability model user shared} :
    Concerns (.providerModelChanged id capability model) (.instances user shared)
  | credentials {id instance_} (own : instance_ ∈ given id) :
    Concerns (.providerCredentialsChanged id) (.credentials instance_)
  | routes {id capability model user shared} :
    Concerns (.providerCredentialsChanged id) (.candidates capability model user shared)

end Event

/-- A literal for `KEYS`: nothing in it is special in a pattern. -/
def Plain (literal : String) : Prop := ∀ c ∈ literal.toList, c ∉ ['*', '?', '[', '\\']

/-- The command `KEYS`: what of a pattern comes before the first special character is matched
as it stands, and a star matches everything. -/
structure KeysCommand where
  selects : String → String → Bool
  star : ∀ {literal key : String}, Plain literal → literal.toList <+: key.toList →
    selects (literal ++ "*") key = true
  literal : ∀ {literal rest key : String}, Plain literal →
    selects (literal ++ rest) key = true → literal.toList <+: key.toList

instance (literal : String) : Decidable (Plain literal) := List.decidableBAll _ literal.toList

theorem Plain.append {first second : String} (plain : Plain first) (also : Plain second) :
    Plain (first ++ second) := by
  intro c mem
  rw [String.toList_append] at mem
  rcases List.mem_append.mp mem with mem | mem
  · exact plain c mem
  · exact also c mem

theorem plain_cachePrefix : Plain cachePrefix := by decide

def Event.Deletes (event : Event) (command : KeysCommand) (key : String) : Prop :=
  (∃ k ∈ event.keys, key = makeKey k) ∨
    ∃ p ∈ event.prefixes, command.selects (makeKey p ++ "*") key = true

instance (event : Event) (command : KeysCommand) (key : String) :
    Decidable (event.Deletes command key) :=
  inferInstanceAs (Decidable (_ ∨ _))

/-- The handler of an event: its keys are unlinked, and the version is bumped. -/
def Redis.handle (redis : Redis) (command : KeysCommand) (event : Event) : Redis where
  version := redis.version + 1
  keys := redis.keys.filter fun e => ¬ event.Deletes command e.1

/-- The entries that the events leave that are there for them: written on the client of Redis
itself, under the hash of an API key, with a `gw:` that the prefix to clear leaves out, or under
a key of the scripts that no event names. -/
def Entry.Missed : Entry → Prop
  | .principal _ _ | .revoked _ | .blacklisted _ | .keyBudget _ | .keyRequests _ | .keyTokens _
  | .tenantTokens _ | .quotaHash _ | .credential _ _ | .conversationMeta _
  | .conversationMessages _ | .conversationSummary _ | .summaryLastActive _
  | .summaryPendingTask _ => True
  | _ => False

section Coverage

variable {command : KeysCommand} {event : Event} {entry : Entry} {key : String} {redis : Redis}

theorem not_deletes_of_raw (command : KeysCommand) (event : Event)
    (raw : "gw:".toList <+: key.toList) : ¬ event.Deletes command key := by
  obtain ⟨rest, raw⟩ := raw
  rintro (⟨k, -, same⟩ | ⟨p, -, selected⟩)
  · rw [same] at raw
    simp [makeKey, cachePrefix] at raw
  · rw [makeKey, String.append_assoc] at selected
    have leading := command.literal plain_cachePrefix selected
    rw [← raw] at leading
    simp [cachePrefix] at leading

theorem deletes_of_keys (command : KeysCommand) (named : key ∈ event.keys) :
    event.Deletes command (makeKey key) :=
  .inl ⟨key, named, rfl⟩

theorem deletes_of_prefixes (command : KeysCommand) {p : String} (named : p ∈ event.prefixes)
    (plain : Plain p) (under : p.toList <+: key.toList) : event.Deletes command (makeKey key) := by
  refine .inr ⟨p, named, ?_⟩
  apply command.star
  · exact plain_cachePrefix.append plain
  · rw [makeKey, makeKey, String.toList_append, String.toList_append]
    exact (List.prefix_append_right_inj _).mpr under

/-- The events delete the entries that they are there for, but for those that are missed and those
that are read with their version. -/
theorem deletes_of_concerns (command : KeysCommand) (concerns : event.Concerns entry)
    (met : ¬ entry.Missed) (plain : entry.versioned = false) :
    event.Deletes command entry.key := by
  cases concerns with
  | preset =>
    rw [Entry.key]
    apply deletes_of_prefixes command (p := "gw:preset:") List.mem_cons_self (by decide)
    unfold CacheKeys.providerPreset
    simp
  | activePresets =>
    rw [Entry.key]
    apply deletes_of_keys
    exact List.mem_append_right _ List.mem_cons_self
  | affinity =>
    rw [Entry.key]
    apply deletes_of_prefixes command (p := "gw:routing:") (by simp [Event.prefixes]) (by decide)
    unfold CacheKeys.routingAffinity
    simp
  | affinityState =>
    rw [Entry.key]
    apply deletes_of_prefixes command (p := "gw:routing:") (by simp [Event.prefixes]) (by decide)
    unfold CacheKeys.routingAffinityState
    simp
  | instances =>
    rw [Entry.key]
    apply deletes_of_prefixes command (p := "gw:pi:list:") List.mem_cons_self (by decide)
    unfold CacheKeys.providerInstanceList
    simp
  | counts =>
    rw [Entry.key]
    apply deletes_of_prefixes command (p := "gw:pi:list:") (by simp [Event.prefixes]) (by decide)
    unfold CacheKeys.providerInstanceList
    simp
  | candidates | routes =>
    rw [Entry.key]
    apply deletes_of_prefixes command (p := "gw:pm:cand:") List.mem_cons_self (by decide)
    unfold CacheKeys.providerModelCandidates
    simp
  | models own =>
    rw [Entry.key]
    exact deletes_of_keys command (List.mem_map_of_mem own)
  | credentials own =>
    rw [Entry.key]
    exact deletes_of_keys command (List.mem_map_of_mem own)
  | quota | bandit => cases plain
  | _ => exact absurd trivial met

/-- A key that is selected begins like the prefix to clear, up to the first special character. -/
theorem prefix_of_selects (command : KeysCommand) {head rest : String} (plain : Plain head)
    (selected : command.selects (makeKey (head ++ rest) ++ "*") (makeKey key) = true) :
    head.toList <+: key.toList := by
  have leading : makeKey (head ++ rest) ++ "*" = cachePrefix ++ head ++ (rest ++ "*") := by
    simp only [makeKey, String.append_assoc]
  rw [leading] at selected
  have under := command.literal (plain_cachePrefix.append plain) selected
  rw [makeKey, String.toList_append, String.toList_append] at under
  exact (List.prefix_append_right_inj _).mp under

theorem not_deletes_principal (command : KeysCommand) (id : Uuid) (hash : Digest)
    (tenant : Option String) :
    ¬ (Event.apiKeyChanged id tenant).Deletes command (makeKey (CacheKeys.apiKey hash.text)) := by
  have colon : ':' ∉ hash.text.toList := fun mem => by
    simpa using hash.hex _ mem
  have dash : '-' ∉ hash.text.toList := fun mem => by
    simpa using hash.hex _ mem
  rintro (⟨k, named, same⟩ | ⟨p, named, selected⟩)
  · have same : CacheKeys.apiKey hash.text = k := by simpa [makeKey] using same
    rcases List.mem_append.mp named with named | named
    · simp only [List.mem_cons, List.not_mem_nil, or_false] at named
      rcases named with rfl | rfl
      · have same : hash.text = id.text := by simpa [CacheKeys.apiKey] using same
        exact dash (same ▸ id.dashed)
      · have same : hash.text = "revoked:" ++ id.text := by
          unfold CacheKeys.apiKey CacheKeys.apiKeyRevoked at same
          apply String.toList_injective
          simpa using congrArg String.toList same
        exact colon (by simp [same])
    · obtain ⟨t, -, rfl⟩ := List.mem_map.mp named
      have same : hash.text = "list:" ++ t := by
        unfold CacheKeys.apiKey CacheKeys.apiKeyList at same
        apply String.toList_injective
        simpa using congrArg String.toList same
      exact colon (by simp [same])
  · obtain rfl := List.mem_singleton.mp named
    rw [String.append_assoc] at selected
    have under := prefix_of_selects command (by decide) selected
    unfold CacheKeys.apiKey at under
    simp at under

theorem not_deletes_credential (command : KeysCommand) (provider ref : String) :
    ¬ (Event.secretRotated provider).Deletes command
      (makeKey (CacheKeys.upstreamCredential provider ref)) := by
  rintro (⟨k, named, -⟩ | ⟨p, named, selected⟩)
  · cases named
  · obtain rfl := List.mem_singleton.mp named
    have under := prefix_of_selects command (by decide) selected
    unfold CacheKeys.upstreamCredential at under
    simp at under

theorem not_deletes_quotaHash (command : KeysCommand) (tenant : String) :
    ¬ (Event.quotaUpdated tenant).Deletes command (makeKey (CacheKeys.quotaHash tenant)) := by
  rintro (⟨k, named, same⟩ | ⟨p, named, selected⟩)
  · obtain rfl := List.mem_singleton.mp named
    have lengths := congrArg (fun s => s.toList.length) same
    unfold CacheKeys.quotaHash CacheKeys.quotaTenant makeKey at lengths
    simp at lengths
  · obtain rfl := List.mem_singleton.mp named
    rw [String.append_assoc] at selected
    have under := prefix_of_selects command (by decide) selected
    unfold CacheKeys.quotaHash at under
    simp at under

theorem not_deletes_keyBudget (command : KeysCommand) (id : Uuid) (tenant : Option String) :
    ¬ (Event.apiKeyChanged id tenant).Deletes command
      (makeKey (CacheKeys.apikeyBudgetHash id.text)) := by
  rintro (⟨k, named, same⟩ | ⟨p, named, selected⟩)
  · have same : CacheKeys.apikeyBudgetHash id.text = k := by simpa [makeKey] using same
    have same := congrArg String.toList same
    unfold CacheKeys.apikeyBudgetHash at same
    rcases List.mem_append.mp named with named | named
    · simp only [List.mem_cons, List.not_mem_nil, or_false] at named
      rcases named with rfl | rfl
      · unfold CacheKeys.apiKey at same
        simp at same
      · unfold CacheKeys.apiKeyRevoked at same
        simp at same
    · obtain ⟨t, -, rfl⟩ := List.mem_map.mp named
      unfold CacheKeys.apiKeyList at same
      simp at same
  · obtain rfl := List.mem_singleton.mp named
    rw [String.append_assoc] at selected
    have under := prefix_of_selects command (by decide) selected
    unfold CacheKeys.apikeyBudgetHash at under
    simp at under

theorem not_deletes_of_missed (command : KeysCommand) (concerns : event.Concerns entry)
    (missed : entry.Missed) : ¬ event.Deletes command entry.key := by
  cases concerns with
  | principal =>
    rw [Entry.key]
    exact not_deletes_principal command _ _ _
  | credential =>
    rw [Entry.key]
    exact not_deletes_credential command _ _
  | quotaHash =>
    rw [Entry.key]
    exact not_deletes_quotaHash command _
  | keyBudget =>
    rw [Entry.key]
    exact not_deletes_keyBudget command _ _
  | revoked =>
    apply not_deletes_of_raw
    unfold Entry.key CacheKeys.apiKeyRevoked
    simp
  | blacklisted =>
    apply not_deletes_of_raw
    unfold Entry.key CacheKeys.apiKeyBlacklist
    simp
  | keyRequests =>
    apply not_deletes_of_raw
    unfold Entry.key CacheKeys.rateLimitRpm
    simp
  | keyTokens | tenantTokens =>
    apply not_deletes_of_raw
    unfold Entry.key CacheKeys.rateLimitTpm
    simp
  | conversationMeta =>
    apply not_deletes_of_raw
    unfold Entry.key CacheKeys.conversationMeta
    simp
  | conversationMessages =>
    apply not_deletes_of_raw
    unfold Entry.key CacheKeys.conversationMessages
    simp
  | summaryLastActive =>
    apply not_deletes_of_raw
    unfold Entry.key CacheKeys.conversationSummaryLastActive
    simp
  | summaryPendingTask =>
    apply not_deletes_of_raw
    unfold Entry.key CacheKeys.conversationSummaryPendingTask
    simp
  | conversationSummary | newSummary =>
    apply not_deletes_of_raw
    unfold Entry.key CacheKeys.conversationSummary
    simp
  | _ => exact missed.elim

theorem key_ne_of_fourth {k : String} (keyId : String) (other : k.toList[3]? ≠ some 'a') :
    makeKey k ≠ makeKey (CacheKeys.apiKeyBlacklist keyId) := by
  intro same
  apply other
  rw [show k = CacheKeys.apiKeyBlacklist keyId by simpa [makeKey] using same]
  unfold CacheKeys.apiKeyBlacklist
  rw [String.toList_append, List.getElem?_append_left]
  · decide
  · decide

theorem key_ne_of_raw (other : String) (raw : "gw:".toList <+: key.toList) :
    key ≠ makeKey other := by
  rintro rfl
  obtain ⟨rest, same⟩ := raw
  rw [makeKey, String.toList_append] at same
  simp [cachePrefix] at same

/-- Nothing is written where the reader of a blacklisted key looks first. -/
theorem key_ne_blacklist (entry : Entry) (id : Uuid) :
    entry.key ≠ makeKey (CacheKeys.apiKeyBlacklist id.text) := by
  cases entry with
  | principal key hash =>
    intro same
    have same : CacheKeys.apiKey hash.text = CacheKeys.apiKeyBlacklist id.text := by
      simpa [Entry.key, makeKey] using same
    have same := congrArg String.toList same
    unfold CacheKeys.apiKey CacheKeys.apiKeyBlacklist at same
    have same : hash.text.toList = "blacklist:".toList ++ id.text.toList := by simpa using same
    have colon : ':' ∈ hash.text.toList := by
      rw [same]
      exact List.mem_append_left _ (by decide)
    simpa using hash.hex _ colon
  | revoked | blacklisted =>
    apply key_ne_of_raw
    rw [Entry.key]
    first
      | unfold CacheKeys.apiKeyRevoked
      | unfold CacheKeys.apiKeyBlacklist
    simp
  | keyRequests | keyTokens | tenantTokens =>
    apply key_ne_of_raw
    rw [Entry.key]
    first
      | unfold CacheKeys.rateLimitRpm
      | unfold CacheKeys.rateLimitTpm
    simp
  | conversationMeta | conversationMessages | conversationSummary | summaryLastActive
    | summaryPendingTask =>
    apply key_ne_of_raw
    rw [Entry.key]
    first
      | unfold CacheKeys.conversationMeta
      | unfold CacheKeys.conversationMessages
      | unfold CacheKeys.conversationSummary
      | unfold CacheKeys.conversationSummaryLastActive
      | unfold CacheKeys.conversationSummaryPendingTask
    simp
  | _ =>
    apply key_ne_of_fourth
    first
      | unfold CacheKeys.providerPreset
      | unfold CacheKeys.providerPresetActiveList
      | unfold CacheKeys.routingAffinity
      | unfold CacheKeys.routingAffinityState
      | unfold CacheKeys.apikeyBudgetHash
      | unfold CacheKeys.quotaTenant
      | unfold CacheKeys.quotaHash
      | unfold CacheKeys.banditState
      | unfold CacheKeys.upstreamCredential
      | unfold CacheKeys.providerInstanceList
      | unfold CacheKeys.providerModelList
      | unfold CacheKeys.providerModelCandidates
      | unfold CacheKeys.providerCredentials
    simp

/-- A reader that finds an entry under another key than its own is the one of a revoked API key. -/
theorem eq_key_of_kept (concerns : event.Concerns entry) (named : key ∈ entry.readKeys)
    (writer : ∃ other : Entry, key = other.key) (kept : ¬ event.Deletes command key) :
    key = entry.key := by
  cases concerns with
  | blacklisted =>
    rcases List.mem_cons.mp named with rfl | raw
    · obtain ⟨other, same⟩ := writer
      exact absurd same.symm (key_ne_blacklist other _)
    · exact List.mem_singleton.mp raw
  | revoked =>
    rcases List.mem_cons.mp named with rfl | raw
    · exact absurd (deletes_of_keys command (List.mem_cons_of_mem _ List.mem_cons_self)) kept
    · exact List.mem_singleton.mp raw
  | _ => exact List.mem_singleton.mp named

theorem not_versioned_of_missed (missed : entry.Missed) : entry.versioned = false := by
  cases entry <;> first | rfl | exact missed.elim

theorem readable_of_missed (concerns : event.Concerns entry) (held : redis.Holds entry)
    (missed : entry.Missed) : (redis.handle command event).Readable entry := by
  obtain ⟨e, mem, same⟩ := held
  refine ⟨e, List.mem_filter.mpr ⟨mem, ?_⟩, ?_, ?_⟩
  · rw [same]
    exact decide_eq_true (not_deletes_of_missed command concerns missed)
  · rw [same]
    exact key_mem_readKeys entry
  · rw [not_versioned_of_missed missed]
    exact fun absurd_ => by cases absurd_

/-- `KEYS` where everything from the first special character on matches. -/
def literally : KeysCommand where
  selects pattern key :=
    (pattern.toList.takeWhile fun c => c ∉ ['*', '?', '[', '\\']).isPrefixOf key.toList
  star plain under := by
    rw [String.toList_append, List.takeWhile_append_of_pos fun c mem => decide_eq_true (plain c mem)]
    simpa using under
  literal plain selected := by
    rw [String.toList_append, List.takeWhile_append_of_pos fun c mem => decide_eq_true (plain c mem),
      List.isPrefixOf_iff_prefix] at selected
    exact (List.prefix_append _ _).trans selected

end Coverage

end Deeting.Cache
