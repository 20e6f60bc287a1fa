import Deeting.RateLimit.ChatSteps

/-! The limit of a model over runs of requests: `rate_limit` is done before routing has
written `limit_config`, so a key without an rpm of its own is held by the limits of its
address and of the gateway only. -/
namespace Deeting.RateLimit
open Deeting.Orchestrator Deeting.Workflow
open Deeting.Cache.CacheKeys (rateLimitRpm rateLimitTpm)

/-- Requests in the order of their scripts, with distinct ids and no whitelisted key. -/
structure Arrivals (run : List Request) : Prop where
  times : run.Pairwise fun a b => a.now ≤ b.now
  ids : (run.map Request.requestId).Nodup
  checked : ∀ req ∈ run, req.isWhitelist = false

/-- The requests of the key have no rpm of their own, and routing gives each a candidate
with `rpm` and `window` in its `limit_config`. -/
def RoutedWith (key : String) (rpm window : ℕ) (run : List Request) : Prop :=
  ∀ req ∈ run, req.apiKeyId = some key →
    req.keyRpm = none ∧ ∀ attempt, ∃ tpm, req.routed attempt = some ⟨some rpm, tpm, some window⟩

/-- The requests of the key that got past the step in the `seconds` up to a time. -/
def World.passedWithin (w : World) (key : String) (seconds t : ℕ) : List Request :=
  w.passed.filter fun req =>
    req.apiKeyId = some key ∧ t < req.now + seconds * 1000 ∧ req.now ≤ t

/-- How many windows of the settings it takes to cover `seconds`. -/
def Settings.windows (st : Settings) (seconds : ℕ) : ℕ :=
  (seconds + st.windowSeconds - 1) / st.windowSeconds

section Gate
variable {st : Settings} {req : Request} {limits : LimitConfig} {w : World}

theorem rateLimitRpm_injective {subject other route : String}
    (same : rateLimitRpm subject route = rateLimitRpm other route) : subject = other := by
  rw [rateLimitRpm, rateLimitRpm, ← String.toList_inj] at same
  simp only [String.toList_append, List.append_assoc] at same
  have tails := List.append_cancel_left same
  have fronts : subject.toList ++ (":".toList ++ (route.toList ++ ":rpm".toList)) =
      other.toList ++ (":".toList ++ (route.toList ++ ":rpm".toList)) := by
    simpa only [List.append_assoc] using tails
  exact String.toList_inj.mp (List.append_cancel_right fronts)

def globalKey : String := rateLimitRpm "global" "chat"

theorem ak_ne_ip (id ip : String) :
    rateLimitRpm ("ak:" ++ id) "chat" ≠ rateLimitRpm ("ip:" ++ ip) "chat" := by
  intro same
  have subjects := congrArg String.toList (rateLimitRpm_injective same)
  simp [String.toList_append] at subjects

theorem ak_ne_global (id : String) : rateLimitRpm ("ak:" ++ id) "chat" ≠ globalKey := by
  intro same
  have subjects := congrArg String.toList (rateLimitRpm_injective same)
  simp [String.toList_append] at subjects

theorem ip_ne_global (ip : String) : rateLimitRpm ("ip:" ++ ip) "chat" ≠ globalKey := by
  intro same
  have subjects := congrArg String.toList (rateLimitRpm_injective same)
  simp [String.toList_append] at subjects

theorem keySpecs_cases (st : Settings) (req : Request) (limits : LimitConfig) :
    req.keySpecs st limits = [] ∨ ∃ id spec, req.keySpecs st limits = [spec] ∧
      spec.key = rateLimitRpm ("ak:" ++ id) "chat" := by
  rw [Request.keySpecs]
  split
  · exact .inr ⟨_, _, rfl, rfl⟩
  · exact .inl rfl

theorem ipSpecs_cases (st : Settings) (req : Request) (limits : LimitConfig) :
    req.ipSpecs st limits = [] ∨ ∃ ip spec, req.ipSpecs st limits = [spec] ∧
      spec.key = rateLimitRpm ("ip:" ++ ip) "chat" := by
  rw [Request.ipSpecs]
  split
  · exact .inr ⟨_, _, rfl, rfl⟩
  · exact .inl rfl

theorem specs_nodup (st : Settings) (req : Request) (limits : LimitConfig) :
    ((req.buildRateLimitSpecs st limits).map Spec.key).Nodup := by
  have global : req.globalSpecs st limits = [] ∨ ∃ spec, req.globalSpecs st limits = [spec] ∧
      spec.key = globalKey := by
    rw [Request.globalSpecs]
    split
    · exact .inr ⟨_, rfl, rfl⟩
    · exact .inl rfl
  rw [Request.buildRateLimitSpecs]
  rcases keySpecs_cases st req limits with key | ⟨id, first, key, named⟩ <;>
    rcases ipSpecs_cases st req limits with ip | ⟨address, second, ip, addressed⟩ <;>
    rcases global with global | ⟨third, global, shared⟩ <;>
    simp [*, ak_ne_ip, ak_ne_global, ip_ne_global]

theorem find_global (st : Settings) (limits : LimitConfig)
    (positive : 0 < st.defaultRpm req.channel) :
    (req.buildRateLimitSpecs st limits).find? (fun spec => spec.key = globalKey) =
      some ⟨globalKey, st.defaultRpm req.channel, Request.windowOf st limits, "global", none⟩ := by
  have own : (req.keySpecs st limits).find? (fun spec => spec.key = globalKey) = none := by
    rcases keySpecs_cases st req limits with key | ⟨id, spec, key, named⟩
    · rw [key, List.find?_nil]
    · simp [key, named, ak_ne_global]
  have address : (req.ipSpecs st limits).find? (fun spec => spec.key = globalKey) = none := by
    rcases ipSpecs_cases st req limits with ip | ⟨id, spec, ip, named⟩
    · rw [ip, List.find?_nil]
    · simp [ip, named, ip_ne_global]
  rw [Request.buildRateLimitSpecs, List.find?_append, List.find?_append, own, address,
    Request.globalSpecs, if_pos positive]
  simp [globalKey]

def Request.unroutedSpecs (st : Settings) (req : Request) : List Spec :=
  req.buildRateLimitSpecs st {}

def Request.call (st : Settings) (req : Request) : Call String ℕ :=
  ⟨(req.unroutedSpecs st).map Spec.key, req.now, req.requestId⟩

theorem admit_limiter (req : Request) (tpm : Option TpmSpec) (c : LimitContext) :
    (req.accept tpm c).2.limiter = c.limiter := by
  unfold Request.accept
  split
  · rfl
  · split <;> rfl

theorem checkLimits_spec (req : Request) (specs : List Spec) (tpm : Option TpmSpec)
    (c : LimitContext) :
    (req.checkLimits specs tpm c).2.limiter =
        c.limiter.serve (limitsOf specs) ⟨specs.map Spec.key, req.now, req.requestId⟩ ∧
      ∀ r c', req.checkLimits specs tpm c = (.ok r, c') → r.status = .success →
        ∃ remaining reset, ((limitsOf specs).slidingWindow
          ⟨specs.map Spec.key, req.now, req.requestId⟩ c.limiter.db).1 =
            .allowed remaining reset := by
  simp only [Request.checkLimits]
  split
  · refine ⟨rfl, fun r c' refused success => ?_⟩
    cases refused
    cases success
  · rename_i remaining reset answer
    exact ⟨admit_limiter _ _ _, fun _ _ _ _ => ⟨remaining, reset, answer⟩⟩

/-- Before routing the step uses the script with the keys of the request itself, or is cut
short; it lets pass only what the script lets in. -/
theorem gated_spec (w : World) (checked : req.isWhitelist = false)
    (some : req.unroutedSpecs st ≠ []) :
    (w.gated st req = w ∨
      w.gated st req = ⟨w.limiter.serve (limitsOf (req.unroutedSpecs st)) (req.call st), w.passed⟩) ∨
    (w.gated st req =
        ⟨w.limiter.serve (limitsOf (req.unroutedSpecs st)) (req.call st), w.passed ++ [req]⟩ ∧
      ∃ remaining reset, ((limitsOf (req.unroutedSpecs st)).slidingWindow (req.call st)
        w.limiter.db).1 = .allowed remaining reset) := by
  obtain ⟨spec, rest, specs⟩ := List.exists_cons_of_ne_nil some
  obtain ⟨limiter, let_in⟩ := checkLimits_spec req (req.unroutedSpecs st)
    (req.selectStrictTpmSpec st (req.unroutedSpecs st) {}) w.context
  have limited : req.rateLimit st w.context = req.checkLimits (req.unroutedSpecs st)
      (req.selectStrictTpmSpec st (req.unroutedSpecs st) {}) w.context := by
    have built : req.buildRateLimitSpecs st {} = spec :: rest := specs
    have none : w.context.limitConfig.getD {} = {} := rfl
    simp only [Request.rateLimit, checked, none, built, specs]
    rfl
  rw [World.gated, Request.execute]
  cases timeout : req.timeout with
  | none =>
    simp only [limited]
    split <;> rename_i outcome c executed <;> rw [executed] at limiter
    · by_cases success : outcome.status = .success
      · rw [if_pos success, limiter]
        exact .inr ⟨rfl, let_in outcome c executed success⟩
      · rw [if_neg success, limiter]
        exact .inl (.inr rfl)
    · rw [limiter]
      exact .inl (.inr rfl)
  | some cut =>
    cases cut with
    | atStart => exact .inl (.inl rfl)
    | afterScript =>
      simp only [limited, limiter]
      exact .inl (.inr rfl)

theorem gated_let_in (w : World) (quiet : req.timeout = none) (checked : req.isWhitelist = false)
    (free : req.selectStrictTpmSpec st (req.unroutedSpecs st) {} = none)
    (allowed : ∃ remaining reset, ((limitsOf (req.unroutedSpecs st)).slidingWindow (req.call st)
      w.limiter.db).1 = .allowed remaining reset) :
    (w.gated st req).passed = w.passed ++ [req] := by
  obtain ⟨remaining, reset, allowed⟩ := allowed
  have success : ∃ c, req.rateLimit st w.context = (.ok {}, c) := by
    have unlimited : w.context.limitConfig.getD {} = {} := rfl
    simp only [Request.call, Request.unroutedSpecs] at free allowed
    simp only [Request.rateLimit, checked, unlimited, free, Bool.false_eq_true, if_false]
    split
    · exact ⟨_, rfl⟩
    · simp only [Request.checkLimits, World.context, allowed]
      exact ⟨_, rfl⟩
  obtain ⟨c, executed⟩ := success
  rw [World.gated, Request.execute, quiet]
  simp only [executed, if_true]

theorem limitsOf_global (st : Settings) (positive : 0 < st.defaultRpm req.channel) :
    (limitsOf (req.unroutedSpecs st)).window globalKey = st.windowSeconds ∧
      (limitsOf (req.unroutedSpecs st)).limit globalKey = st.defaultRpm req.channel ∧
      globalKey ∈ (req.call st).keys := by
  have found := find_global st {} positive
  simp only [limitsOf, Request.unroutedSpecs, found]
  exact ⟨rfl, rfl, List.mem_map.mpr ⟨_, List.mem_of_find?_eq_some found, rfl⟩⟩

end Gate

/-! The shared key bounds what gets past the step: no other key is there for a request
without limits of its own. -/
section Runs
variable {st : Settings} {run : List Request} {req : Request} {w : World}

def shared (st : Settings) : Limits String :=
  ⟨fun _ => st.windowSeconds, fun _ => max st.externalRpm st.internalRpm⟩

theorem defaultRpm_le (st : Settings) (channel : Channel) :
    st.defaultRpm channel ≤ max st.externalRpm st.internalRpm := by
  cases channel with
  | external => exact le_max_left ..
  | internal => exact le_max_right ..

def Request.stamp (req : Request) : Call String ℕ := ⟨[], req.now, req.requestId⟩

structure Accounted (st : Settings) (run : List Request) (w : World) : Prop where
  tracks : Tracks (shared st) (run.map Request.stamp) globalKey (w.limiter.admitted globalKey)
    (w.limiter.db globalKey)
  passed : w.passed.Sublist run
  admitted : ∀ req ∈ w.passed, (req.now, req.requestId) ∈ w.limiter.admitted globalKey

/-- A request at the shared key: it changes nothing but old entries, or it finds room and
is admitted. -/
theorem gated_global (st : Settings) (w : World) (req : Request) (checked : req.isWhitelist = false)
    (positive : 0 < st.defaultRpm req.channel) :
    ((w.gated st req).passed = w.passed ∧
      (w.gated st req).limiter.admitted globalKey = w.limiter.admitted globalKey ∧
      ((w.gated st req).limiter.db globalKey = w.limiter.db globalKey ∨
        (w.gated st req).limiter.db globalKey =
          (shared st).prune req.now globalKey (w.limiter.db globalKey))) ∨
    (((w.gated st req).passed = w.passed ∨ (w.gated st req).passed = w.passed ++ [req]) ∧
      ((shared st).prune req.now globalKey (w.limiter.db globalKey)).set.card <
        st.defaultRpm req.channel ∧
      (w.gated st req).limiter.admitted globalKey =
        w.limiter.admitted globalKey ++ [(req.now, req.requestId)] ∧
      (w.gated st req).limiter.db globalKey = (shared st).add req.now req.requestId globalKey
        ((shared st).prune req.now globalKey (w.limiter.db globalKey))) := by
  obtain ⟨window, limit, listed⟩ := limitsOf_global st positive
  have specs : req.unroutedSpecs st ≠ [] := by
    intro empty
    simp [Request.call, empty] at listed
  have distinct : (req.call st).keys.Nodup := specs_nodup st req {}
  have prune : (limitsOf (req.unroutedSpecs st)).prune req.now globalKey
      (w.limiter.db globalKey) =
      (shared st).prune req.now globalKey (w.limiter.db globalKey) := by
    simp only [Limits.prune, Limits.windowMs, window, shared]
  have served := serve_cases (limitsOf (req.unroutedSpecs st)) w.limiter distinct globalKey
  have call : (req.call st).now = req.now ∧ (req.call st).requestId = req.requestId := ⟨rfl, rfl⟩
  rw [limit, call.1, call.2, prune] at served
  have add (slot : Slot ℕ) : (limitsOf (req.unroutedSpecs st)).add req.now req.requestId globalKey
      slot = (shared st).add req.now req.requestId globalKey slot := by
    simp only [Limits.add, Limits.windowMs, window, shared]
  rw [add] at served
  rcases gated_spec w checked specs with (same | refused) | ⟨let_in, remaining, reset, allowed⟩
  · rw [same]
    exact .inl ⟨rfl, rfl, .inl rfl⟩
  · rw [refused]
    exact served.imp (fun idle => ⟨rfl, idle⟩) fun counted => ⟨.inl rfl, counted⟩
  · rw [let_in]
    right
    refine ⟨.inr rfl, served.resolve_left fun idle => ?_⟩
    have grown : (w.limiter.serve (limitsOf (req.unroutedSpecs st)) (req.call st)).admitted
        globalKey = w.limiter.admitted globalKey ++ [(req.now, req.requestId)] := by
      rw [Limiter.serve]
      split <;> rename_i answered <;> rw [answered] at allowed
      · cases allowed
      · exact if_pos listed
    rw [grown] at idle
    simpa using idle.1

theorem after_concat (st : Settings) (run : List Request) (req : Request) :
    World.after st (run ++ [req]) = (World.after st run).serve st req := by
  rw [World.after, List.foldl_append]
  rfl

theorem Arrivals.init {req : Request} (arrivals : Arrivals (run ++ [req])) :
    Arrivals run ∧ req.isWhitelist = false ∧ (∀ c ∈ run.map Request.stamp, c.now ≤ req.now) ∧
      ∀ c ∈ run.map Request.stamp, c.requestId ≠ req.requestId := by
  obtain ⟨times, ids, checked⟩ := arrivals
  obtain ⟨earlier, _, order⟩ := List.pairwise_append.mp times
  rw [List.map_append, List.nodup_append] at ids
  refine ⟨⟨earlier, ids.1, fun r mem => checked r (List.mem_append_left _ mem)⟩,
    checked req (by simp), fun c mem => ?_, fun c mem => ?_⟩
  · obtain ⟨r, listed, rfl⟩ := List.mem_map.mp mem
    exact order r listed req (by simp)
  · obtain ⟨r, listed, rfl⟩ := List.mem_map.mp mem
    exact ids.2.2 _ (List.mem_map_of_mem listed) _ (by simp)

theorem accounted_after (positive : ∀ channel, 0 < st.defaultRpm channel)
    (arrivals : Arrivals run) : Accounted st run (World.after st run) := by
  induction run using List.reverseRecOn with
  | nil => exact ⟨tracks_initial _ _, List.Sublist.refl _, by simp [World.after, World.initial]⟩
  | append_singleton run req ih =>
    obtain ⟨earlier, checked, times, fresh⟩ := arrivals.init
    obtain ⟨tracks, passed, admitted⟩ := ih earlier
    obtain ⟨reached, _, served⟩ := serve_eq st (World.after st run) req
    rw [after_concat, served]
    have stamps : (run ++ [req]).map Request.stamp = run.map Request.stamp ++ [req.stamp] := by
      rw [List.map_append, List.map_singleton]
    have idle := passed.trans (List.sublist_append_left run [req])
    cases reached with
    | false => exact ⟨stamps ▸ tracks.idle req.stamp, idle, admitted⟩
    | true =>
      rw [if_pos rfl]
      rcases gated_global st (World.after st run) req checked (positive req.channel) with
        ⟨still, same, slot⟩ | ⟨let_in, room, grown, slot⟩
      · refine ⟨?_, still ▸ idle, by rw [still, same]; exact admitted⟩
        rw [stamps, same]
        rcases slot with kept | pruned
        · rw [kept]
          exact tracks.idle req.stamp
        · rw [pruned]
          exact tracks.prune times
      · refine ⟨?_, ?_, ?_⟩
        · rw [stamps, grown, slot]
          exact tracks.add times fresh
            (room.trans_le (defaultRpm_le st req.channel))
        · rcases let_in with still | added
          · rw [still]
            exact idle
          · rw [added]
            exact passed.append (List.Sublist.refl _)
        · rw [grown]
          intro r mem
          rcases let_in with still | added
          · exact List.mem_append_left _ (admitted r (still ▸ mem))
          · rw [added] at mem
            rcases List.mem_append.mp mem with mem | mem
            · exact List.mem_append_left _ (admitted r mem)
            · rw [List.mem_singleton.mp mem]
              exact List.mem_append_right _ (List.mem_singleton_self _)

theorem Tracks.windows {lim : Limits String} {past : List (Call String ℕ)} {k : String}
    {admitted : List (ℕ × ℕ)} {slot : Slot ℕ} (tracks : Tracks lim past k admitted slot) (n t : ℕ) :
    (admitted.filter fun m => t < m.1 + n * lim.windowMs k ∧ m.1 ≤ t).length ≤
      n * lim.limit k := by
  induction n generalizing t with
  | zero =>
    have none : admitted.filter (fun m => t < m.1 + 0 * lim.windowMs k ∧ m.1 ≤ t) = [] := by
      refine List.filter_eq_nil_iff.mpr fun m _ => ?_
      simp only [decide_eq_true_eq]
      omega
    rw [none, List.length_nil]
    exact Nat.zero_le _
  | succ n ih =>
    rw [List.length_eq_length_filter_add fun m : ℕ × ℕ => t < m.1 + lim.windowMs k,
      List.filter_filter, List.filter_filter, Nat.succ_mul, Nat.succ_mul]
    have last := tracks.windowed t
    have before := ih (t - lim.windowMs k)
    refine (Nat.add_le_add (le_trans ?_ last) (le_trans ?_ before)).trans_eq (Nat.add_comm ..)
    · refine (List.monotone_filter_right _ fun m here => ?_).length_le
      simp only [Bool.and_eq_true, decide_eq_true_eq] at here ⊢
      exact ⟨here.1, here.2.2⟩
    · refine (List.monotone_filter_right _ fun m here => ?_).length_le
      simp only [Bool.and_eq_true, Bool.not_eq_true', decide_eq_true_eq, decide_eq_false_iff_not]
        at here ⊢
      omega

theorem passedWithin_le (positive : ∀ channel, 0 < st.defaultRpm channel)
    (window : 0 < st.windowSeconds) (arrivals : Arrivals run) (key : String) (seconds t : ℕ) :
    ((World.after st run).passedWithin key seconds t).length ≤
      st.windows seconds * max st.externalRpm st.internalRpm := by
  obtain ⟨tracks, passed, admitted⟩ := accounted_after positive arrivals
  refine le_trans ?_ (tracks.windows (st.windows seconds) t)
  have ids : ((World.after st run).passedWithin key seconds t |>.map Request.requestId).Nodup :=
    ((List.filter_sublist.trans passed).map _).nodup arrivals.ids
  have distinct : ((World.after st run).passedWithin key seconds t |>.map fun req =>
      (req.now, req.requestId)).Nodup := by
    refine List.Nodup.of_map Prod.snd ?_
    rwa [List.map_map]
  rw [← List.length_map (f := fun req : Request => (req.now, req.requestId))]
  refine (List.subperm_of_subset distinct fun m mem => ?_).length_le
  obtain ⟨req, listed, rfl⟩ := List.mem_map.mp mem
  obtain ⟨listed, here⟩ := List.mem_filter.mp listed
  simp only [Bool.decide_and, Bool.and_eq_true, decide_eq_true_eq] at here
  refine List.mem_filter.mpr ⟨admitted req listed, ?_⟩
  have covers : seconds ≤ st.windows seconds * st.windowSeconds := by
    rw [Settings.windows]
    have split := Nat.div_add_mod (seconds + st.windowSeconds - 1) st.windowSeconds
    have rest := Nat.mod_lt (seconds + st.windowSeconds - 1) window
    rw [Nat.mul_comm] at split
    omega
  have wide : st.windows seconds * (shared st).windowMs globalKey =
      st.windows seconds * st.windowSeconds * 1000 := (Nat.mul_assoc ..).symm
  simp only [decide_eq_true_eq, wide]
  omega

end Runs

/-! A key that uses up every window of the shared key. -/
section Bursts
variable (st : Settings) (channel : Channel) (key : String) (rpm window : ℕ)

/-- When the `j`-th request comes: as many in a window as the channel allows. -/
def burstTime (j : ℕ) : ℕ := j / st.defaultRpm channel * (st.windowSeconds * 1000)

def burstRequest (j : ℕ) : Request where
  channel := channel
  apiKeyId := some key
  now := burstTime st channel j
  requestId := j
  routed _ := some ⟨some rpm, none, some window⟩

def burst (n : ℕ) : List Request := (List.range n).map (burstRequest st channel key rpm window)

theorem burst_routed (n : ℕ) : RoutedWith key rpm window (burst st channel key rpm window n) := by
  intro req mem _
  obtain ⟨j, _, rfl⟩ := List.mem_map.mp mem
  exact ⟨rfl, fun _ => ⟨none, rfl⟩⟩

theorem burst_arrivals (n : ℕ) : Arrivals (burst st channel key rpm window n) := by
  refine ⟨?_, ?_, ?_⟩
  · refine List.pairwise_map.mpr (List.pairwise_lt_range.imp fun earlier => ?_)
    exact Nat.mul_le_mul_right _ (Nat.div_le_div_right earlier.le)
  · have ids : (burst st channel key rpm window n).map Request.requestId = List.range n := by
      rw [burst, List.map_map]
      exact List.map_id _
    rw [ids]
    exact List.nodup_range
  · intro req mem
    obtain ⟨j, _, rfl⟩ := List.mem_map.mp mem
    rfl

theorem burst_specs (j : ℕ) :
    (burstRequest st channel key rpm window j).unroutedSpecs st =
      if 0 < st.defaultRpm channel then
        [⟨globalKey, st.defaultRpm channel, st.windowSeconds, "global", none⟩]
      else [] := by
  have own : (burstRequest st channel key rpm window j).keySpecs st {} = [] := by
    rw [Request.keySpecs]
    split
    · rename_i set
      cases set
    · rfl
  rw [Request.unroutedSpecs, Request.buildRateLimitSpecs, own]
  rfl

theorem burst_room {j : ℕ} {slot : Slot ℕ} (positive : 0 < st.defaultRpm channel)
    (known : ∀ e ∈ slot.set.entries, ∃ i < j, e =
      (burstTime st channel i, burstTime st channel i, i)) :
    ((shared st).prune (burstTime st channel j) globalKey slot).set.card <
      st.defaultRpm channel := by
  have split := Nat.div_add_mod j (st.defaultRpm channel)
  have rest := Nat.mod_lt j positive
  have distinct := ((shared st).prune (burstTime st channel j) globalKey slot).set.once.of_map _
  have begun : ∀ e ∈ ((shared st).prune (burstTime st channel j) globalKey slot).set.entries,
      e ∈ (List.range' (st.defaultRpm channel * (j / st.defaultRpm channel))
        (j % st.defaultRpm channel)).map fun i =>
        (burstTime st channel i, burstTime st channel i, i) := by
    intro e mem
    obtain ⟨listed, _, recent⟩ := mem_prune.mp mem
    obtain ⟨i, earlier, rfl⟩ := known e listed
    have later : j / st.defaultRpm channel < i / st.defaultRpm channel + 1 := by
      refine Nat.lt_of_mul_lt_mul_right (a := st.windowSeconds * 1000) ?_
      rw [Nat.succ_mul]
      exact recent
    have first := Nat.mul_le_mul_left (st.defaultRpm channel) (Nat.lt_succ_iff.mp later)
    have start := Nat.mul_div_le i (st.defaultRpm channel)
    refine List.mem_map.mpr ⟨i, List.mem_range'_1.mpr ⟨first.trans start, ?_⟩, rfl⟩
    omega
  have count := (List.subperm_of_subset distinct begun).length_le
  rw [List.length_map, List.length_range'] at count
  exact count.trans_lt rest

theorem burst_let_in {w : World} {j : ℕ}
    (room : 0 < st.defaultRpm channel →
      ((shared st).prune (burstTime st channel j) globalKey (w.limiter.db globalKey)).set.card <
        st.defaultRpm channel) :
    (w.gated st (burstRequest st channel key rpm window j)).passed =
      w.passed ++ [burstRequest st channel key rpm window j] := by
  obtain ⟨req, same⟩ : ∃ req, req = burstRequest st channel key rpm window j := ⟨_, rfl⟩
  have specs := burst_specs st channel key rpm window j
  have distinct : (req.call st).keys.Nodup := specs_nodup st req {}
  rw [← same] at specs ⊢
  refine gated_let_in w (by rw [same]; rfl) (by rw [same]; rfl) ?_ ?_
  · rw [specs]
    split <;> rfl
  · rcases slidingWindow_cases (limitsOf (req.unroutedSpecs st)) distinct w.limiter.db with
      ⟨i, k, here, full, _⟩ | ⟨allowed, _⟩
    · rw [Request.call, specs] at here
      by_cases positive : 0 < st.defaultRpm channel
      · rw [if_pos positive] at here
        have named : k = globalKey := List.mem_singleton.mp (List.mem_of_getElem? here)
        have sent : req.channel = channel := same ▸ rfl
        have now : (req.call st).now = burstTime st channel j := same ▸ rfl
        obtain ⟨at_window, at_limit, _⟩ := limitsOf_global st (sent ▸ positive)
        have prune : (limitsOf (req.unroutedSpecs st)).prune (burstTime st channel j) globalKey
            (w.limiter.db globalKey) =
            (shared st).prune (burstTime st channel j) globalKey (w.limiter.db globalKey) := by
          simp only [Limits.prune, Limits.windowMs, at_window, shared]
        rw [named, at_limit, now, prune, sent] at full
        exact absurd (room positive) (Nat.not_lt.mpr full)
      · rw [if_neg positive] at here
        cases here
    · exact allowed

theorem burst_passes (n : ℕ) :
    (World.after st (burst st channel key rpm window n)).passed =
        burst st channel key rpm window n ∧
      (0 < st.defaultRpm channel →
        ∀ e ∈ ((World.after st (burst st channel key rpm window n)).limiter.db
          globalKey).set.entries,
          ∃ i < n, e = (burstTime st channel i, burstTime st channel i, i)) := by
  induction n with
  | zero => exact ⟨rfl, fun _ e mem => absurd mem List.not_mem_nil⟩
  | succ n ih =>
    obtain ⟨passed, known⟩ := ih
    have longer : burst st channel key rpm window (n + 1) =
        burst st channel key rpm window n ++ [burstRequest st channel key rpm window n] := by
      rw [burst, List.range_succ, List.map_append, List.map_singleton, burst]
    have quiet : Quiet (burstRequest st channel key rpm window n) :=
      ⟨rfl, fun _ _ => rfl, fun _ => rfl⟩
    obtain ⟨w, before⟩ : ∃ w, w = World.after st (burst st channel key rpm window n) := ⟨_, rfl⟩
    rw [← before] at passed known
    obtain ⟨reached, always, served⟩ := serve_eq st w (burstRequest st channel key rpm window n)
    rw [always quiet, if_pos rfl] at served
    rw [longer, after_concat, ← before, served]
    refine ⟨?_, fun positive e mem => ?_⟩
    · rw [burst_let_in st channel key rpm window fun positive =>
        burst_room st channel positive (known positive), passed]
    · have older (e : ℕ × ℕ × ℕ) (there : e ∈ (w.limiter.db globalKey).set.entries) :
          ∃ i < n + 1, e = (burstTime st channel i, burstTime st channel i, i) := by
        obtain ⟨i, earlier, rfl⟩ := known positive e there
        exact ⟨i, by omega, rfl⟩
      rcases gated_global st w (burstRequest st channel key rpm window n) rfl positive with
        ⟨_, _, kept | pruned⟩ | ⟨_, _, _, added⟩
      · exact older e (kept ▸ mem)
      · rw [pruned] at mem
        exact older e (mem_prune.mp mem).1
      · rw [added] at mem
        rcases SortedSet.mem_insert.mp mem with rfl | ⟨there, _⟩
        · exact ⟨n, Nat.lt_succ_self n, rfl⟩
        · exact older e (mem_prune.mp there).1

theorem burst_exceeds (t : ℕ) (ends : burstTime st channel rpm ≤ t)
    (fits : t < window * 1000) :
    rpm < ((World.after st (burst st channel key rpm window (rpm + 1))).passedWithin key window
      t).length := by
  rw [World.passedWithin, (burst_passes st channel key rpm window (rpm + 1)).1]
  have all : (burst st channel key rpm window (rpm + 1)).filter (fun req =>
      req.apiKeyId = some key ∧ t < req.now + window * 1000 ∧ req.now ≤ t) =
      burst st channel key rpm window (rpm + 1) := by
    refine List.filter_eq_self.mpr fun req mem => ?_
    obtain ⟨j, listed, rfl⟩ := List.mem_map.mp mem
    have earlier : burstTime st channel j ≤ burstTime st channel rpm := by
      refine Nat.mul_le_mul_right _ (Nat.div_le_div_right ?_)
      have := List.mem_range.mp listed
      omega
    simp only [burstRequest, Bool.decide_and, Bool.and_eq_true, decide_eq_true_eq, true_and]
    omega
  rw [all, burst, List.length_map, List.length_range]
  exact Nat.lt_succ_self rpm

end Bursts

/-- The limit of the model holds in every run if and only if the default limits of both
channels are as strict: they are all that the step finds. -/
theorem model_limit_enforced_iff (st : Settings) (key : String) (rpm window : ℕ) :
    (∀ run, Arrivals run → RoutedWith key rpm window run →
      ∀ t, ((World.after st run).passedWithin key window t).length ≤ rpm) ↔
    window = 0 ∨ 0 < st.windowSeconds ∧ ∀ channel, 0 < st.defaultRpm channel ∧
      st.windows window * st.defaultRpm channel ≤ rpm := by
  constructor
  · intro enforced
    rcases Nat.eq_zero_or_pos window with none | some
    · exact .inl none
    have late (channel : Channel) : window * 1000 ≤ burstTime st channel rpm := by
      by_contra early
      have exceeds := burst_exceeds st channel key rpm window _ le_rfl (Nat.not_le.mp early)
      have bound := enforced _ (burst_arrivals st channel key rpm window (rpm + 1))
        (burst_routed st channel key rpm window (rpm + 1)) (burstTime st channel rpm)
      omega
    have spread (channel : Channel) :
        window ≤ rpm / st.defaultRpm channel * st.windowSeconds := by
      have late := late channel
      rw [burstTime, ← Nat.mul_assoc] at late
      exact Nat.le_of_mul_le_mul_right late (by decide)
    have wide : 0 < st.windowSeconds := by
      refine Nat.pos_of_ne_zero fun zero => ?_
      have spread := spread .external
      rw [zero] at spread
      omega
    refine .inr ⟨wide, fun channel => ?_⟩
    have spread := spread channel
    have positive : 0 < st.defaultRpm channel := by
      refine Nat.pos_of_ne_zero fun zero => ?_
      rw [zero, Nat.div_zero] at spread
      omega
    refine ⟨positive, (Nat.le_div_iff_mul_le positive).mp ?_⟩
    rw [Settings.windows]
    refine Nat.lt_succ_iff.mp ((Nat.div_lt_iff_lt_mul wide).mpr ?_)
    rw [Nat.succ_mul]
    omega
  · rintro (none | ⟨wide, strict⟩) run arrivals _ t
    · have empty : (World.after st run).passedWithin key window t = [] := by
        refine List.filter_eq_nil_iff.mpr fun req _ => ?_
        simp only [none, decide_eq_true_eq]
        omega
      rw [empty]
      exact Nat.zero_le rpm
    · refine (passedWithin_le (fun channel => (strict channel).1) wide arrivals key window t).trans ?_
      rcases max_choice st.externalRpm st.internalRpm with most | most
      · rw [most]
        exact (strict .external).2
      · rw [most]
        exact (strict .internal).2

/-- Under the default settings two requests at once get past a limit of 1 a minute. -/
theorem model_limit_exceeded :
    Arrivals (burst {} .external "ak-1" 1 60 2) ∧
    RoutedWith "ak-1" 1 60 (burst {} .external "ak-1" 1 60 2) ∧
    ((World.after {} (burst {} .external "ak-1" 1 60 2)).passedWithin "ak-1" 60 0).length = 2 :=
  ⟨burst_arrivals .., burst_routed _ _ _ _ _ _, by decide +kernel⟩

end Deeting.RateLimit
