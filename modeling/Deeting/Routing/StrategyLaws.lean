import Deeting.Routing.Strategies
import Mathlib.Data.List.MinMax

/-! What `choose` is for, at any draws: no candidate is lost, the backups are in order, a
candidate shut out by its ratio stays out, and the strategy of the first candidate left is the
one that is run. -/
namespace Deeting.Routing.Strategies

inductive Algorithm where
  | weight
  | epsilonGreedy
  | ucb1
  | thompson

/-- The algorithm that `strategy` names, choice by weight if it names none. -/
def Algorithm.named (config : Json) : Algorithm :=
  match config.get "strategy" with
  | .str "bandit" | .str "epsilon_greedy" => .epsilonGreedy
  | .str "ucb1" => .ucb1
  | .str "thompson" => .thompson
  | _ => .weight

section
variable (st : Setting)

def Algorithm.pick (a : Algorithm) (config : Json) (candidates : List Arm) (d : Draws) :
    Option Arm :=
  match a with
  | .weight => weightedChoice d candidates
  | .epsilonGreedy => Strategies.epsilonGreedy st d config candidates
  | .ucb1 => ucbChoice st candidates
  | .thompson => thompsonChoice d candidates

/-- The candidates that an algorithm can pick, `none` if it can raise. -/
def Algorithm.options (a : Algorithm) (config : Json) (candidates : List Arm) :
    Option (List Arm) :=
  match a with
  | .weight => some (top candidates)
  | .epsilonGreedy =>
      (epsilon st config).bind fun epsilon =>
        if 1 ≤ epsilon then some candidates
        else (maxBy (score st config) candidates).map fun best =>
          if 0 < epsilon then candidates else [best]
  | .ucb1 => (ucbChoice st candidates).map fun c => [c]
  | .thompson => some (if candidates.all Arm.sampled then candidates else top candidates)

def Algorithm.FallsBack (a : Algorithm) (candidates : List Arm) : Prop :=
  match a with
  | .weight => True
  | .thompson => candidates.all Arm.sampled = false
  | _ => False

variable (gray : ℕ → Set.Ico (0 : ℚ) 1) (candidates : List Arm)

/-- What a choice among the candidates that are kept, headed by `first`, has to be. -/
structure Lawful (d : Draws) (first primary : Arm) (backups : List Arm) : Prop where
  complete : (primary :: backups).Perm (kept st gray candidates)
  ordered : backups.Pairwise fun a b => Ahead a.toRoutingCandidate b.toRoutingCandidate
  shut : ∀ c ∈ primary :: backups, ∀ q ≤ 0, c.grayRatio st = .value q →
    selected st gray candidates = []
  byStrategy : (Algorithm.named first.routingConfig).pick st first.routingConfig
    (kept st gray candidates) d = some primary
  topmost : Algorithm.named first.routingConfig = .weight →
    ∀ other ∈ kept st gray candidates, other.priority ≤ primary.priority

def ChoosesLawfully (d : Draws) : Prop :=
  ∃ first primary backups hit, (kept st gray candidates).head? = some first ∧
    choose st gray d candidates = some (primary, backups, hit) ∧
    Lawful st gray candidates d first primary backups

/-- The strategy that `first` is configured with is the one that is run: by the dispatch, because
it comes down to the weights, or because one candidate is all that either can take. -/
def Honoured (first : Arm) (options : List Arm) : Prop :=
  first.routingConfig.get "strategy" = .str "bandit" ∨
    (Algorithm.named first.routingConfig).FallsBack (kept st gray candidates) ∨
    ∃ c, options = [c] ∧ top (kept st gray candidates) = [c]

/-- No ratio overflows, the algorithm cannot raise, what it can pick is equal to no other
candidate, and it is run. -/
def Fits : Prop :=
  (∀ c ∈ candidates, c.grayRatio st ≠ .overflow) ∧
    ∃ first options, (kept st gray candidates).head? = some first ∧
      (Algorithm.named first.routingConfig).options st first.routingConfig
        (kept st gray candidates) = some options ∧
      (∀ c ∈ options, (kept st gray candidates).filter (fun b => b.same c) = [c]) ∧
      Honoured st gray candidates first options

end

section Picks
variable {st : Setting} {a : Algorithm} {config : Json} {candidates options : List Arm}
  {c : Arm} {d : Draws}

theorem top_ne_nil (some_ : candidates ≠ []) : top candidates ≠ [] := by
  obtain ⟨c, best⟩ :=
    Option.ne_none_iff_exists'.mp
      (mt (List.argmax_eq_none (f := fun c : Arm => c.priority)).mp some_)
  apply List.ne_nil_of_mem (a := c)
  apply List.mem_filter.mpr
  refine ⟨List.argmax_mem best, ?_⟩
  simpa using fun other mem => List.le_of_mem_argmax mem best

theorem topmost_of_mem_top (mem : c ∈ top candidates) :
    ∀ other ∈ candidates, other.priority ≤ c.priority := by
  simpa using (List.mem_filter.mp mem).2

theorem exists_weightedChoice_eq (some_ : candidates ≠ []) :
    ∃ c ∈ top candidates, weightedChoice d candidates = some c := by
  have within : weightedIndex ((top candidates).map Arm.share) d.weight < _ :=
    weightedIndex_lt d.weight (by simpa using top_ne_nil some_)
  rw [List.length_map] at within
  exact ⟨_, List.getElem_mem within, List.getElem?_eq_getElem within⟩

theorem weightedChoice_reaches (mem : c ∈ top candidates) :
    ∃ w, ∀ d : Draws, weightedChoice { d with weight := w } candidates = some c := by
  obtain ⟨i, within, rfl⟩ := List.mem_iff_getElem.mp mem
  have positive : ∀ w ∈ (top candidates).map Arm.share, 0 < w := by
    intro w mem
    obtain ⟨c, _, rfl⟩ := List.mem_map.mp mem
    rw [Arm.share]
    split <;> omega
  obtain ⟨draw, bounds, drawn⟩ := exists_weightedIndex_eq positive (i := i) (by simpa using within)
  refine ⟨⟨draw, bounds⟩, fun d => ?_⟩
  simp only [weightedChoice, drawn]
  exact List.getElem?_eq_getElem within

theorem mem_of_ucbChoice (picked : ucbChoice st candidates = some c) : c ∈ candidates := by
  simp only [ucbChoice] at picked
  split at picked
  · rcases Option.or_eq_some_iff.mp picked with first | ⟨_, best⟩
    · exact List.mem_of_find?_eq_some first
    · exact mem_of_maxBy best
  · exact mem_of_maxBy picked

theorem Algorithm.sublist_of_options (offered : a.options st config candidates = some options) :
    options.Sublist candidates := by
  cases a with
  | weight =>
    obtain rfl := Option.some.inj offered
    exact List.filter_sublist
  | epsilonGreedy =>
    obtain ⟨epsilon, _, offered⟩ := Option.bind_eq_some_iff.mp offered
    split at offered
    · obtain rfl := Option.some.inj offered
      exact List.Sublist.refl _
    · obtain ⟨best, top, rfl⟩ := Option.map_eq_some_iff.mp offered
      split
      · exact List.Sublist.refl _
      · exact List.singleton_sublist.mpr (mem_of_maxBy top)
  | ucb1 =>
    obtain ⟨c, picked, rfl⟩ := Option.map_eq_some_iff.mp offered
    exact List.singleton_sublist.mpr (mem_of_ucbChoice picked)
  | thompson =>
    obtain rfl := Option.some.inj offered
    split
    · exact List.Sublist.refl _
    · exact List.filter_sublist

theorem Algorithm.pick_of_fallsBack (falls : a.FallsBack candidates) :
    a.pick st config candidates d = weightedChoice d candidates := by
  cases a with
  | weight => rfl
  | thompson => exact if_neg (by simpa [Algorithm.FallsBack] using falls)
  | epsilonGreedy => cases falls
  | ucb1 => cases falls

theorem Algorithm.pick_reweigh (stands : ¬ a.FallsBack candidates) (w : Set.Ico (0 : ℚ) 1) :
    a.pick st config candidates { d with weight := w } = a.pick st config candidates d := by
  cases a with
  | weight => exact absurd trivial stands
  | epsilonGreedy => rfl
  | ucb1 => rfl
  | thompson =>
    have sampled : candidates.all Arm.sampled = true := by
      simpa only [FallsBack, Bool.not_eq_false] using stands
    simp only [pick, thompsonChoice, if_pos sampled]

theorem Algorithm.exists_pick_eq (offered : a.options st config candidates = some options)
    (some_ : candidates ≠ []) (d : Draws) :
    ∃ c ∈ options, a.pick st config candidates d = some c := by
  cases a with
  | weight =>
    obtain rfl := Option.some.inj offered
    exact exists_weightedChoice_eq some_
  | epsilonGreedy =>
    obtain ⟨rate, read, offered⟩ := Option.bind_eq_some_iff.mp offered
    have within : d.arm % candidates.length < candidates.length :=
      Nat.mod_lt _ (List.length_pos_iff.mpr some_)
    rw [pick, epsilonGreedy_eq read, List.getElem?_eq_getElem within]
    split at offered
    · obtain rfl := Option.some.inj offered
      have explores : (d.explore : ℚ) < rate := d.explore.2.2.trans_le ‹_›
      exact ⟨_, List.getElem_mem within, if_pos explores⟩
    · obtain ⟨best, top, rfl⟩ := Option.map_eq_some_iff.mp offered
      by_cases explores : (d.explore : ℚ) < rate
      · rw [if_pos (d.explore.2.1.trans_lt explores), if_pos explores]
        exact ⟨_, List.getElem_mem within, rfl⟩
      · rw [if_neg explores]
        refine ⟨best, ?_, top⟩
        split
        · exact mem_of_maxBy top
        · exact List.mem_singleton_self best
  | ucb1 =>
    obtain ⟨c, picked, rfl⟩ := Option.map_eq_some_iff.mp offered
    exact ⟨c, List.mem_singleton_self c, picked⟩
  | thompson =>
    obtain rfl := Option.some.inj offered
    simp only [pick, thompsonChoice]
    split
    · have drawn : bestOf (fun p q => decide ((d.sample p.2 : ℚ) < d.sample q.2))
          candidates.zipIdx ≠ none :=
        bestOf_ne_none _ (by simpa using some_)
      obtain ⟨p, best⟩ := Option.ne_none_iff_exists'.mp drawn
      exact ⟨p.1, List.fst_mem_of_mem_zipIdx (mem_of_bestOf best), by rw [best]; rfl⟩
    · exact exists_weightedChoice_eq some_

def Draws.lowest : Draws :=
  ⟨⟨0, by simp⟩, ⟨0, by simp⟩, 0, fun _ => ⟨0, by simp⟩⟩

theorem Algorithm.exists_draws (offered : a.options st config candidates = some options)
    (mem : c ∈ options) : ∃ d, a.pick st config candidates d = some c := by
  cases a with
  | weight =>
    obtain rfl := Option.some.inj offered
    obtain ⟨w, drawn⟩ := weightedChoice_reaches mem
    exact ⟨_, drawn .lowest⟩
  | epsilonGreedy =>
    obtain ⟨rate, read, offered⟩ := Option.bind_eq_some_iff.mp offered
    -- the lowest draw explores at any positive rate
    have explored (positive : 0 < rate) (mem : c ∈ candidates) :
        ∃ d, Algorithm.epsilonGreedy.pick st config candidates d = some c := by
      obtain ⟨i, within, rfl⟩ := List.mem_iff_getElem.mp mem
      refine ⟨{ Draws.lowest with arm := i }, ?_⟩
      rw [pick, epsilonGreedy_eq read]
      change (if (0 : ℚ) < rate then candidates[i % candidates.length]? else _) = _
      rw [if_pos positive, Nat.mod_eq_of_lt within, List.getElem?_eq_getElem within]
    split at offered
    · obtain rfl := Option.some.inj offered
      exact explored (by linarith) mem
    · obtain ⟨best, top, rfl⟩ := Option.map_eq_some_iff.mp offered
      by_cases positive : 0 < rate
      · rw [if_pos positive] at mem
        exact explored positive mem
      · rw [if_neg positive, List.mem_singleton] at mem
        refine ⟨.lowest, ?_⟩
        rw [pick, epsilonGreedy_eq read, mem]
        exact (if_neg positive).trans top
  | ucb1 =>
    obtain ⟨best, picked, rfl⟩ := Option.map_eq_some_iff.mp offered
    obtain rfl := List.mem_singleton.mp mem
    exact ⟨.lowest, picked⟩
  | thompson =>
    obtain rfl := Option.some.inj offered
    by_cases sampled : candidates.all Arm.sampled
    · rw [if_pos sampled] at mem
      obtain ⟨i, within, rfl⟩ := List.mem_iff_getElem.mp mem
      have unit : (1 : ℚ) ∈ Set.Icc (0 : ℚ) 1 := by simp
      refine ⟨{ Draws.lowest with sample := fun j => if j = i then ⟨1, unit⟩ else ⟨0, by simp⟩ }, ?_⟩
      rw [pick, thompsonChoice, if_pos sampled, bestOf_eq (a := (candidates[i], i))]
      · rfl
      · exact List.mk_mem_zipIdx_iff_getElem?.mpr (List.getElem?_eq_getElem within)
      · simp
      · rintro ⟨b, j⟩ place ne
        have other : j ≠ i := by
          rintro rfl
          have here := List.mk_mem_zipIdx_iff_getElem?.mp place
          rw [List.getElem?_eq_getElem within, Option.some.injEq] at here
          exact ne (by rw [here])
        simp [other]
    · rw [if_neg sampled] at mem
      obtain ⟨w, drawn⟩ := weightedChoice_reaches mem
      refine ⟨{ Draws.lowest with weight := w }, ?_⟩
      rw [pick, thompsonChoice, if_neg sampled]
      exact drawn .lowest

theorem Algorithm.exists_raise (refused : a.options st config candidates = none) :
    ∃ d, a.pick st config candidates d = none := by
  cases a with
  | weight => cases refused
  | thompson => cases refused
  | ucb1 => exact ⟨.lowest, Option.map_eq_none_iff.mp refused⟩
  | epsilonGreedy =>
    cases read : epsilon st config with
    | none => exact ⟨.lowest, by rw [pick, Strategies.epsilonGreedy, read, Option.bind_none]⟩
    | some rate =>
      rw [options, read, Option.bind_some] at refused
      split at refused
      · cases refused
      · rename_i below
        have explore : max rate 0 ∈ Set.Ico (0 : ℚ) 1 :=
          ⟨le_max_right _ _, max_lt (not_le.mp below) zero_lt_one⟩
        refine ⟨{ Draws.lowest with explore := ⟨_, explore⟩ }, ?_⟩
        rw [pick, epsilonGreedy_eq read, if_neg (not_lt.mpr (le_max_left rate 0))]
        exact Option.map_eq_none_iff.mp refused

end Picks

section Choices
variable {st : Setting} {gray : ℕ → Set.Ico (0 : ℚ) 1} {d : Draws} {config : Json}
  {candidates backups options : List Arm} {c first primary : Arm} {hit : Bool}

theorem choosePrimary_bandit (strategy : config.get "strategy" = .str "bandit") :
    choosePrimary st d config candidates =
      (Algorithm.named config).pick st config candidates d := by
  rw [choosePrimary_eq strategy]
  simp only [Algorithm.named, strategy, Algorithm.pick]

theorem perm_backupsOf_iff :
    (c :: backupsOf c candidates).Perm candidates ↔
      candidates.filter (fun b => b.same c) = [c] := by
  have sorted : (backupsOf c candidates).Perm (candidates.filter fun b => !b.same c) :=
    (List.perm_insertionSort _ candidates).filter _
  have parts := List.filter_append_perm (fun b : Arm => b.same c) candidates
  constructor
  · intro perm
    have both : ([c] ++ candidates.filter fun b => !b.same c).Perm
        ((candidates.filter fun b => b.same c) ++ candidates.filter fun b => !b.same c) :=
      ((sorted.symm.cons c).trans perm).trans parts.symm
    exact (List.singleton_perm.mp ((List.perm_append_right_iff _).mp both)).symm
  · intro alone
    rw [alone] at parts
    exact (sorted.cons c).trans parts

theorem eq_singleton_of_sublist {part : List Arm} (sub : part.Sublist candidates)
    (alone : candidates.filter (fun b => b.same c) = [c]) (all : ∀ b ∈ part, b = c)
    (some_ : part ≠ []) : part = [c] := by
  have self : c.same c = true := by
    have mem : c ∈ candidates.filter fun b => b.same c := alone ▸ List.mem_singleton_self c
    exact (List.mem_filter.mp mem).2
  have whole : part.filter (fun b => b.same c) = part := by
    apply List.filter_eq_self.mpr
    intro b mem
    rw [all b mem]
    exact self
  have short : part.Sublist [c] := by
    rw [← whole, ← alone]
    exact sub.filter _
  rcases List.sublist_singleton.mp short with empty | eq
  · exact absurd empty some_
  · exact eq

instance : Std.Total fun a b : Arm => Ahead a.toRoutingCandidate b.toRoutingCandidate where
  total a b := by
    simp only [Ahead]
    omega

instance : IsTrans Arm fun a b => Ahead a.toRoutingCandidate b.toRoutingCandidate where
  trans a b c := by
    simp only [Ahead]
    omega

theorem pairwise_backupsOf :
    (backupsOf primary candidates).Pairwise fun a b =>
      Ahead a.toRoutingCandidate b.toRoutingCandidate :=
  (List.pairwise_insertionSort _ candidates).filter _

theorem exists_choose_iff (headed : (kept st gray candidates).head? = some first) :
    (∃ hit, choose st gray d candidates = some (primary, backups, hit)) ↔
      (∀ c ∈ candidates, c.grayRatio st ≠ .overflow) ∧
        choosePrimary st d first.routingConfig (kept st gray candidates) = some primary ∧
        backups = backupsOf primary (kept st gray candidates) := by
  by_cases readable : ∀ c ∈ candidates, c.grayRatio st ≠ .overflow
  · simp only [choose, applyGray_eq readable, Option.bind_some, headed, Option.map_eq_some_iff, Prod.mk.injEq]
    constructor
    · rintro ⟨hit, _, picked, rfl, rfl, _⟩
      exact ⟨readable, picked, rfl⟩
    · rintro ⟨_, picked, rfl⟩
      exact ⟨_, primary, picked, rfl, rfl, rfl⟩
  · constructor
    · rintro ⟨hit, chosen⟩
      push Not at readable
      obtain ⟨c, mem, huge⟩ := readable
      have raised : applyGray st gray candidates = none := by
        apply if_pos
        exact List.any_eq_true.mpr ⟨c, mem, by simp [huge]⟩
      rw [choose, raised] at chosen
      cases chosen
    · rintro ⟨readable', _⟩
      exact absurd readable' readable

theorem not_mem_selected {q : ℚ} (closed : c.grayRatio st = .value q) (low : q ≤ 0) :
    c ∉ selected st gray candidates := by
  intro mem
  obtain ⟨⟨_, place⟩, stays, rfl⟩ := List.mem_map.mp mem
  have open_ := (List.mem_filter.mp stays).2
  simp only [staysGray, closed, decide_eq_true_eq] at open_
  exact absurd open_.1 (not_lt.mpr low)

end Choices

section Laws
variable {st : Setting} {gray : ℕ → Set.Ico (0 : ℚ) 1} {candidates options : List Arm}
  {first : Arm}

theorem honoured_of_agree (some_ : kept st gray candidates ≠ [])
    (offered : (Algorithm.named first.routingConfig).options st first.routingConfig
      (kept st gray candidates) = some options)
    (alone : ∀ c ∈ options, (kept st gray candidates).filter (fun b => b.same c) = [c])
    (agree : ∀ d, choosePrimary st d first.routingConfig (kept st gray candidates) =
      (Algorithm.named first.routingConfig).pick st first.routingConfig
        (kept st gray candidates) d) :
    Honoured st gray candidates first options := by
  by_cases dispatched : first.routingConfig.get "strategy" = .str "bandit"
  · exact .inl dispatched
  by_cases falls : (Algorithm.named first.routingConfig).FallsBack (kept st gray candidates)
  · exact .inr (.inl falls)
  -- what the weights draw and what the algorithm draws are independent, so both are fixed
  have same : ∀ c ∈ options, ∀ b ∈ top (kept st gray candidates), b = c := by
    intro c offer b atop
    obtain ⟨d, picked⟩ := Algorithm.exists_draws offered offer
    obtain ⟨w, drawn⟩ := weightedChoice_reaches atop
    have both := agree { d with weight := w }
    rw [choosePrimary_of_ne dispatched, drawn d, Algorithm.pick_reweigh falls, picked] at both
    exact Option.some.inj both
  obtain ⟨c, offer, _⟩ := Algorithm.exists_pick_eq offered some_ .lowest
  have tops := top_ne_nil some_
  obtain ⟨b, atop⟩ := List.exists_mem_of_ne_nil _ tops
  refine .inr (.inr ⟨c, ?_, ?_⟩)
  · apply eq_singleton_of_sublist (Algorithm.sublist_of_options offered) (alone c offer)
    · intro other mem
      rw [← same other mem b atop, same c offer b atop]
    · exact List.ne_nil_of_mem offer
  · apply eq_singleton_of_sublist List.filter_sublist (alone c offer) (same c offer) tops

theorem agree_of_honoured (some_ : kept st gray candidates ≠ [])
    (offered : (Algorithm.named first.routingConfig).options st first.routingConfig
      (kept st gray candidates) = some options)
    (honoured : Honoured st gray candidates first options) (d : Draws) :
    choosePrimary st d first.routingConfig (kept st gray candidates) =
      (Algorithm.named first.routingConfig).pick st first.routingConfig
        (kept st gray candidates) d := by
  by_cases dispatched : first.routingConfig.get "strategy" = .str "bandit"
  · exact choosePrimary_bandit dispatched
  rw [choosePrimary_of_ne dispatched]
  rcases honoured with dispatched' | falls | ⟨c, rfl, only⟩
  · exact absurd dispatched' dispatched
  · exact (Algorithm.pick_of_fallsBack falls).symm
  · obtain ⟨b, atop, drawn⟩ := exists_weightedChoice_eq (d := d) some_
    obtain ⟨picked, offer, picks⟩ := Algorithm.exists_pick_eq offered some_ d
    rw [only] at atop
    rw [drawn, picks, List.mem_singleton.mp atop, List.mem_singleton.mp offer]

end Laws

section Ignored

/-- A candidate of a model that is configured with `ucb1`. -/
def ucbArm (priority : ℤ) (state : Option ArmState) : Arm where
  presetId := .repeated 0
  presetSlug := "openai"
  instanceId := .repeated 1
  providerModelId := .repeated 2
  provider := "openai"
  channel := "external"
  endpoint := ⟨"https://api.example/v1/chat/completions", .obj [], .obj [], "bearer", .obj [], .obj []⟩
  pricingConfig := .obj []
  limitConfig := .obj []
  routingConfig := .obj [("strategy", .str "ucb1")]
  configOverride := .obj []
  weight := 10
  priority
  credentialId := none
  credentialAlias := "default"
  banditState := state

/-- An arm with ten trials before one that was never tried. -/
def ucbArms : List Arm :=
  [ucbArm 1 (some ⟨⟨10, 9, 1, 5000, none, 0, 0, none⟩, 0, 1, 1⟩), ucbArm 0 none]

def unconfigured : Setting := ⟨fun _ => none, none, 1 / 5, fun _ _ => some 0⟩

end Ignored

end Deeting.Routing.Strategies
