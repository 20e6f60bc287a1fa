import Deeting.Bandit.Feedback
import Deeting.Routing.Choice
import Mathlib.Data.Rat.Defs
import Mathlib.Order.Interval.Set.Defs

/-! `choose` over candidates of any kind, with the states of their arms: the filter, the
strategy that the first candidate left is configured with, the algorithm that is run for it,
and the candidates that are equal to the one chosen. -/
namespace Deeting.Routing.Strategies

/-- A row of `bandit_arm_state` as an object; objects are equal when they are one. -/
structure ArmState extends Bandit.Row where
  object : ℕ
  alpha : ℚ
  beta : ℚ

/-- A candidate with its `bandit_state`. -/
structure Arm extends RoutingCandidate where
  banditState : Option ArmState

/-- How `float(value)` ends; refused is a `TypeError` or a `ValueError`. -/
inductive Reading where
  | value (q : ℚ)
  | refused
  | overflow

def Reading.value? : Reading → Option ℚ
  | .value q => some q
  | _ => none

/-- `float` of a text, one that is not finite read as the number it acts as; the provider the
cache remembers for the messages and its bonus; and `math.sqrt(2 * math.log(total) / trials)`,
`none` where it raises. -/
structure Setting where
  float : String → Option ℚ
  affinity : Option Uuid
  affinityBonus : ℚ
  bonus : ℤ → ℤ → Option ℚ

/-- What the algorithms draw: `random.random` for the exploration and for the weights,
`random.choice`, and the sample of each arm. -/
structure Draws where
  explore : Set.Ico (0 : ℚ) 1
  weight : Set.Ico (0 : ℚ) 1
  arm : ℕ
  sample : ℕ → Set.Icc (0 : ℚ) 1

/-- `==` of the fields in turn. -/
def Arm.same (a b : Arm) : Bool :=
  decide (a.presetId = b.presetId ∧ a.presetSlug = b.presetSlug ∧ a.instanceId = b.instanceId ∧
    a.providerModelId = b.providerModelId ∧ a.provider = b.provider ∧
    a.endpoint.upstreamUrl = b.endpoint.upstreamUrl ∧ a.channel = b.channel ∧
    a.endpoint.authType = b.endpoint.authType ∧ a.weight = b.weight ∧ a.priority = b.priority ∧
    a.credentialId = b.credentialId ∧ a.credentialAlias = b.credentialAlias ∧
    a.banditState.map ArmState.object = b.banditState.map ArmState.object) &&
  a.endpoint.asyncConfig.same b.endpoint.asyncConfig &&
  a.pricingConfig.same b.pricingConfig && a.limitConfig.same b.limitConfig &&
  a.endpoint.authConfig.same b.endpoint.authConfig && a.routingConfig.same b.routingConfig &&
  a.configOverride.same b.configOverride &&
  a.endpoint.protocolProfile.same b.endpoint.protocolProfile &&
  a.endpoint.outputMapping.same b.endpoint.outputMapping

section
variable (st : Setting) (gray : ℕ → Set.Ico (0 : ℚ) 1) (d : Draws)

/-- `float(value)`; half a unit above the largest float is too much. -/
def Setting.toFloat : Json → Reading
  | .int n => if n.natAbs < 2 ^ 1024 - 2 ^ 970 then .value n else .overflow
  | .str text => (st.float text).elim .refused .value
  | value => value.number?.elim .refused .value

def Arm.grayRatio (c : Arm) : Reading := st.toFloat (c.routingConfig.get "gray_ratio")

def staysGray (draw : ℚ) (c : Arm) : Bool :=
  match c.grayRatio st with
  | .value q => 0 < q ∧ (1 ≤ q ∨ draw < q)
  -- a candidate without a ratio is selected like one whose ratio is refused
  | _ => true

def selected (candidates : List Arm) : List Arm :=
  (candidates.zipIdx.filter fun p => staysGray st (gray p.2) p.1).map Prod.fst

def kept (candidates : List Arm) : List Arm :=
  if selected st gray candidates = [] then candidates else selected st gray candidates

/-- `_apply_gray`; the overflow of a ratio is not caught. -/
def applyGray (candidates : List Arm) : Option (List Arm) :=
  if candidates.any fun c => c.grayRatio st matches .overflow then none
  else some (kept st gray candidates)

def top (candidates : List Arm) : List Arm :=
  candidates.filter fun c => candidates.all fun other => other.priority ≤ c.priority

/-- What `_weighted_choice` takes a candidate's weight for. -/
def Arm.share (c : Arm) : ℤ := if c.weight ≤ 0 then 1 else c.weight

def weightedChoice (candidates : List Arm) : Option Arm :=
  (top candidates)[weightedIndex ((top candidates).map Arm.share) d.weight]?

/-- `max(items, key=key)`, `none` where a key raises. -/
def maxBy {α κ : Type} [LT κ] [DecidableLT κ] (key : α → Option κ)
    (items : List α) : Option α :=
  if items.all fun a => (key a).isSome then
    bestOf (fun a b => (key a).any fun x => (key b).any fun y => x < y) items
  else none

/-- The penalty for a latency, measured against `latency_target_ms`. -/
def latencyPenalty (config : Json) (s : ArmState) : Option ℚ :=
  match s.latencyP95Ms with
  | none => some 0
  | some p95 =>
      if p95 = 0 then some 0
      else
        let target := match config.get? "latency_target_ms" with
          | none => some 3000
          | some value => (st.toFloat value).value?
        target.map fun target => min (p95 / max target 1) (3 / 2) * (1 / 5)

/-- `score` of `_bandit_choice`. -/
def score (config : Json) (c : Arm) : Option ℚ :=
  let affinityBonus :=
    if st.affinity = some c.providerModelId ∧ c.banditState.any fun s => 0 ≤ s.totalTrials
    then st.affinityBonus else 0
  let untried : ℚ := (if c.weight = 0 then 1 else c.weight) + affinityBonus
  match c.banditState with
  | none => some untried
  | some s =>
      if 0 < s.totalTrials then
        (latencyPenalty st config s).map fun penalty =>
          s.successes / s.totalTrials - penalty + c.weight * (1 / 10000) + affinityBonus
      else some untried

/-- The rate of exploration, `none` where `float` raises. -/
def epsilon (config : Json) : Option ℚ :=
  match config.get? "epsilon" with
  | none => some (1 / 10)
  | some rate => (st.toFloat rate).value?

/-- The rest of `_bandit_choice`. -/
def epsilonGreedy (config : Json) (candidates : List Arm) : Option Arm :=
  (epsilon st config).bind fun epsilon =>
    if d.explore < epsilon then candidates[d.arm % candidates.length]?
    else maxBy (score st config) candidates

def Arm.tried (c : Arm) : Bool := c.banditState.any fun s => 0 < s.totalTrials

def Arm.untried (c : Arm) : Bool := c.banditState.all fun s => s.totalTrials = 0

def ucbChoice (candidates : List Arm) : Option Arm :=
  let explored := candidates.filter Arm.tried
  let trials := (explored.filterMap Arm.banditState).map fun s => s.totalTrials
  let total := if trials.sum = 0 then 1 else trials.sum
  let score (c : Arm) : Option (WithTop ℚ) :=
    match c.banditState with
    | none => some ⊤
    | some s =>
        if s.totalTrials = 0 then some ⊤
        else (st.bonus total s.totalTrials).map fun bonus =>
          ((s.successes / s.totalTrials + bonus : ℚ) : WithTop ℚ)
  if explored.length < candidates.length then
    (candidates.find? Arm.untried).or (maxBy score candidates)
  else maxBy score candidates

def Arm.sampled (c : Arm) : Bool :=
  c.banditState.any fun s =>
    0 < (if s.alpha = 0 then 1 else s.alpha) + (s.successes : ℚ) ∧
      0 < (if s.beta = 0 then 1 else s.beta) + (s.failures : ℚ)

def thompsonChoice (candidates : List Arm) : Option Arm :=
  if candidates.all Arm.sampled then
    (bestOf (fun p q => (d.sample p.2 : ℚ) < d.sample q.2) candidates.zipIdx).map Prod.fst
  else weightedChoice d candidates

def banditChoice (config : Json) (candidates : List Arm) : Option Arm :=
  match (config.get? "strategy").getD (.str "epsilon_greedy") with
  | .str "ucb1" => ucbChoice st candidates
  | .str "thompson" => thompsonChoice d candidates
  | .str "epsilon_greedy" | .str "bandit" => epsilonGreedy st d config candidates
  -- these are not hashable
  | .arr _ | .obj _ => none
  | _ => weightedChoice d candidates

/-- The primary of `choose`. -/
def choosePrimary (config : Json) (candidates : List Arm) : Option Arm :=
  match (config.get? "strategy").getD (.str "weight") with
  | .str "bandit" => banditChoice st d config candidates
  | _ => weightedChoice d candidates

/-- The backups of `choose`. -/
def backupsOf (primary : Arm) (candidates : List Arm) : List Arm :=
  (candidates.insertionSort fun a b => Ahead a.toRoutingCandidate b.toRoutingCandidate).filter
    fun c => !c.same primary

/-- `choose`: the primary, the backups and whether the affinity was hit; `none` where it
raises. -/
def choose (candidates : List Arm) : Option (Arm × List Arm × Bool) :=
  (applyGray st gray candidates).bind fun candidates =>
    candidates.head?.bind fun first =>
      (choosePrimary st d first.routingConfig candidates).map fun primary =>
        let affinity :=
          match first.routingConfig.get "strategy" with
          | .str "bandit" => st.affinity
          | _ => none
        (primary, backupsOf primary candidates, decide (affinity = some primary.providerModelId))

end

section Reading
variable {st : Setting} {gray : ℕ → Set.Ico (0 : ℚ) 1} {d : Draws} {config : Json}
  {candidates : List Arm} {c : Arm}

theorem applyGray_eq (readable : ∀ c ∈ candidates, c.grayRatio st ≠ .overflow) :
    applyGray st gray candidates = some (kept st gray candidates) := by
  apply if_neg
  intro raises
  obtain ⟨c, mem, huge⟩ := List.any_eq_true.mp raises
  cases ratio : c.grayRatio st with
  | overflow => exact readable c mem ratio
  | value q => simp [ratio] at huge
  | refused => simp [ratio] at huge

theorem mem_top_of_weightedChoice (drawn : weightedChoice d candidates = some c) :
    c ∈ top candidates :=
  List.mem_of_getElem? drawn

section
variable {α κ : Type} [LT κ] [DecidableLT κ] {key : α → Option κ} {items : List α}

theorem mem_of_maxBy {x : α} (best : maxBy key items = some x) : x ∈ items := by
  rw [maxBy] at best
  split at best
  · exact mem_of_bestOf best
  · cases best

end

theorem epsilonGreedy_eq {rate : ℚ} (read : epsilon st config = some rate) :
    epsilonGreedy st d config candidates =
      if d.explore < rate then candidates[d.arm % candidates.length]?
      else maxBy (score st config) candidates := by
  rw [epsilonGreedy, read, Option.bind_some]

theorem get_eq_str_iff {key text : String} :
    config.get key = .str text ↔ config.get? key = some (.str text) := by
  rw [Json.get]
  cases config.get? key <;> simp

theorem choosePrimary_eq (strategy : config.get "strategy" = .str "bandit") :
    choosePrimary st d config candidates = epsilonGreedy st d config candidates := by
  simp only [choosePrimary, banditChoice, get_eq_str_iff.mp strategy, Option.getD_some]

theorem choosePrimary_of_ne (strategy : config.get "strategy" ≠ .str "bandit") :
    choosePrimary st d config candidates = weightedChoice d candidates := by
  rw [choosePrimary]
  split
  · rename_i named
    apply absurd _ strategy
    rw [get_eq_str_iff]
    cases here : config.get? "strategy" with
    | none => simp [here] at named
    | some value => rw [← named, here, Option.getD_some]
  · rfl

end Reading

section Load
variable (st : Setting) (gray : ℕ → Set.Ico (0 : ℚ) 1) (d : Draws) (f : RoutingCandidate → ℚ)

variable {st gray d f} {candidates : List Arm} {a c : Arm} {config value : Json}

end Load

end Deeting.Routing.Strategies
