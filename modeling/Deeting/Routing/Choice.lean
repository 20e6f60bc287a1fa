import Deeting.Routing.Selector
import Mathlib.Algebra.Order.BigOperators.Group.List
import Mathlib.Algebra.Order.Field.Basic
import Mathlib.Data.List.Sort
import Mathlib.Tactic.Linarith

/-! `choose`: the candidate a request goes to first and the ones after it, whatever is drawn. -/
namespace Deeting.Routing

/-- What is drawn for a choice, with `float` of a text, a text that is not finite read as the
ratio it acts as, and the score of an arm. -/
structure Chance where
  gray : ℕ → ℚ
  explore : ℚ
  weight : ℚ
  arm : ℕ
  float : String → Option ℚ
  score : RoutingCandidate → ℚ

section
variable (ch : Chance)

/-- `float(j)`, `none` where it raises. -/
def Chance.toFloat : Json → Option ℚ
  | .str text => ch.float text
  | j => j.number?

def staysGray (draw : ℚ) (b : RoutingCandidate) : Bool :=
  match b.routingConfig.get "gray_ratio" with
  | .null => true
  | ratio =>
      match ch.toFloat ratio with
      | none => true
      | some q => 0 < q ∧ (1 ≤ q ∨ draw < q)

def applyGray (candidates : List RoutingCandidate) : List RoutingCandidate :=
  let selected := (candidates.zipIdx.filter fun p => staysGray ch (ch.gray p.2) p.1).map Prod.fst
  if selected = [] then candidates else selected

def bestOf {α : Type} (lt : α → α → Bool) : List α → Option α
  | [] => none
  | a :: rest => some (rest.foldl (fun best b => if lt best b then b else best) a)

/-- `random.choices` of one element: the first cumulative weight above the draw. -/
def weightedIndex (weights : List ℤ) (draw : ℚ) : ℕ :=
  let sums := (weights.scanl (· + ·) 0).tail
  min (sums.countP fun sum : ℤ => sum ≤ draw * weights.sum) (weights.length - 1)

def weightedChoice (candidates : List RoutingCandidate) : Option RoutingCandidate :=
  let top := candidates.filter fun b => candidates.all fun other => other.priority ≤ b.priority
  top[weightedIndex (top.map fun b => if b.weight ≤ 0 then 1 else b.weight) ch.weight]?

/-- `_bandit_choice` of the strategy it is called for, which explores at the rate `epsilon`. -/
def banditChoice (candidates : List RoutingCandidate) (routingConfig : Json) :
    Option RoutingCandidate :=
  let epsilon := match routingConfig.get? "epsilon" with
    | none => some (1 / 10)
    | some rate => ch.toFloat rate
  epsilon.bind fun epsilon =>
    if ch.explore < epsilon then candidates[ch.arm % candidates.length]?
    else bestOf (fun a b => ch.score a < ch.score b) candidates

def RoutingCandidate.Same (a b : RoutingCandidate) : Prop :=
  a.providerModelId = b.providerModelId ∧ a.credentialId = b.credentialId

instance (a b : RoutingCandidate) : Decidable (a.Same b) := inferInstanceAs (Decidable (_ ∧ _))

def Ahead (a b : RoutingCandidate) : Prop :=
  b.priority < a.priority ∨ b.priority = a.priority ∧ b.weight ≤ a.weight

instance : DecidableRel Ahead := fun _ _ => inferInstanceAs (Decidable (_ ∨ _))

/-- `choose`; `none` where it raises. -/
def choose (candidates : List RoutingCandidate) :
    Option (RoutingCandidate × List RoutingCandidate) :=
  let kept := applyGray ch candidates
  kept.head?.bind fun first =>
    let primary := match first.routingConfig.get "strategy" with
      | .str "bandit" => banditChoice ch kept first.routingConfig
      | _ => weightedChoice ch kept
    primary.map fun primary =>
      (primary, (kept.insertionSort Ahead).filter fun b => ¬ b.Same primary)

end

section Drawing
variable {weights : List ℤ} {i : ℕ}

theorem lt_of_mem_scanl_tail (positive : ∀ w ∈ weights, 0 < w) (start : ℤ) :
    ∀ sum ∈ (weights.scanl (· + ·) start).tail, start < sum := by
  induction weights generalizing start with
  | nil => simp
  | cons w rest ih =>
    obtain ⟨here, later⟩ := List.forall_mem_cons.mp positive
    intro sum mem
    rw [List.scanl_cons, List.tail_cons] at mem
    cases rest with
    | nil =>
      rw [List.scanl_nil, List.mem_singleton] at mem
      omega
    | cons v rest =>
      rw [List.scanl_cons, List.mem_cons] at mem
      rcases mem with rfl | mem
      · omega
      · have := ih later (start + w) sum (by rwa [List.scanl_cons, List.tail_cons])
        omega

/-- The first `i` of positive weights add up to as many of their sums as do not exceed that. -/
theorem countP_scanl_le (positive : ∀ w ∈ weights, 0 < w) (start : ℤ)
    (within : i ≤ weights.length) :
    ((weights.scanl (· + ·) start).tail.countP fun sum => sum ≤ start + (weights.take i).sum) =
      i := by
  induction weights generalizing start i with
  | nil =>
    have : i = 0 := by simpa using within
    simp [this]
  | cons w rest ih =>
    obtain ⟨here, later⟩ := List.forall_mem_cons.mp positive
    cases i with
    | zero =>
      rw [List.countP_eq_zero]
      intro sum mem
      have := lt_of_mem_scanl_tail positive start sum mem
      simpa using this
    | succ i =>
      have sums : ((w :: rest).scanl (· + ·) start).tail =
          (start + w) :: (rest.scanl (· + ·) (start + w)).tail := by
        cases rest <;> simp
      have nonneg : 0 ≤ (rest.take i).sum :=
        List.sum_nonneg fun v mem => (later v (List.mem_of_mem_take mem)).le
      rw [sums, List.take_succ_cons, List.sum_cons, ← add_assoc,
        List.countP_cons_of_pos (by simpa using nonneg), ih later (start + w) (by simpa using within)]

theorem weightedIndex_lt (draw : ℚ) (some_ : weights ≠ []) :
    weightedIndex weights draw < weights.length := by
  have := List.length_pos_iff.mpr some_
  rw [weightedIndex]
  omega

theorem exists_weightedIndex_eq (positive : ∀ w ∈ weights, 0 < w) (within : i < weights.length) :
    ∃ draw : ℚ, (0 ≤ draw ∧ draw < 1) ∧ weightedIndex weights draw = i := by
  have split : (weights.take i).sum + (weights.drop i).sum = weights.sum := by
    rw [← List.sum_append, List.take_append_drop]
  have nonneg : 0 ≤ (weights.take i).sum :=
    List.sum_nonneg fun w mem => (positive w (List.mem_of_mem_take mem)).le
  have rest : 0 < (weights.drop i).sum := by
    apply List.sum_pos
    · intro w mem
      exact positive w (List.mem_of_mem_drop mem)
    · simpa using within
  have total : (0 : ℚ) < weights.sum := by
    exact_mod_cast (by omega : 0 < weights.sum)
  refine ⟨(weights.take i).sum / weights.sum, ⟨?_, ?_⟩, ?_⟩
  · apply div_nonneg
    · exact_mod_cast nonneg
    · exact total.le
  · rw [div_lt_one total]
    exact_mod_cast (by omega : (weights.take i).sum < weights.sum)
  · have count := countP_scanl_le positive 0 within.le
    rw [weightedIndex, div_mul_cancel₀ _ total.ne']
    simp only [Int.cast_le]
    rw [zero_add] at count
    rw [count]
    omega

end Drawing

variable {ch : Chance} {candidates backups : List RoutingCandidate} {b primary : RoutingCandidate}

variable (ch) in
theorem mem_of_mem_applyGray (mem : b ∈ applyGray ch candidates) : b ∈ candidates := by
  simp only [applyGray] at mem
  split at mem
  · exact mem
  · obtain ⟨⟨other, place⟩, kept, rfl⟩ := List.mem_map.mp mem
    exact List.fst_mem_of_mem_zipIdx (List.mem_of_mem_filter kept)

theorem mem_of_bestOf {α : Type} {lt : α → α → Bool} {items : List α} {a : α}
    (best : bestOf lt items = some a) : a ∈ items := by
  cases items with
  | nil => cases best
  | cons first rest =>
    rw [bestOf, Option.some.injEq] at best
    subst best
    induction rest generalizing first with
    | nil => exact List.mem_cons_self
    | cons x rest ih =>
      rw [List.foldl_cons]
      split
      · exact List.mem_cons_of_mem first (ih x)
      · obtain same | later := List.mem_cons.mp (ih first)
        · rw [same]
          exact List.mem_cons_self
        · exact List.mem_cons_of_mem first (List.mem_cons_of_mem x later)

theorem bestOf_eq {α : Type} {lt : α → α → Bool} {items : List α} {a : α} (mem : a ∈ items)
    (least : lt a a = false) (above : ∀ b ∈ items, b ≠ a → lt b a = true ∧ lt a b = false) :
    bestOf lt items = some a := by
  cases items with
  | nil => cases mem
  | cons first rest =>
    rw [bestOf, Option.some.injEq]
    induction rest generalizing first with
    | nil => exact (List.mem_singleton.mp mem).symm
    | cons x rest ih =>
      rw [List.foldl_cons]
      apply ih
      · by_cases here : a ∈ rest
        · exact List.mem_cons_of_mem _ here
        · have early : a = first ∨ a = x := by simpa [here] using mem
          -- `a` stays once it is the best, and takes the place of any other
          have best : (if lt first x then x else first) = a := by
            by_cases leads : first = a
            · subst leads
              by_cases twin : x = first
              · rw [twin, ite_self]
              · rw [if_neg (by simp [(above x (by simp) twin).2])]
            · obtain rfl := early.resolve_left (Ne.symm leads)
              rw [if_pos (above first (by simp) leads).1]
          rw [best]
          exact List.mem_cons_self
      · intro b mem ne
        apply above b _ ne
        rcases List.mem_cons.mp mem with rfl | later
        · split <;> simp
        · simp [later]

theorem bestOf_ne_none {α : Type} (lt : α → α → Bool) {items : List α} (some_ : items ≠ []) :
    bestOf lt items ≠ none := by
  cases items with
  | nil => exact absurd rfl some_
  | cons first rest => simp [bestOf]

theorem mem_of_weightedChoice (drawn : weightedChoice ch candidates = some b) :
    b ∈ candidates :=
  List.mem_of_mem_filter (List.mem_of_getElem? drawn)

theorem mem_of_banditChoice {routingConfig : Json}
    (drawn : banditChoice ch candidates routingConfig = some b) : b ∈ candidates := by
  obtain ⟨epsilon, _, drawn⟩ := Option.bind_eq_some_iff.mp drawn
  split at drawn
  · exact List.mem_of_getElem? drawn
  · exact mem_of_bestOf drawn

theorem mem_of_choose (chosen : choose ch candidates = some (primary, backups)) :
    primary ∈ candidates ∧ ∀ b ∈ backups, b ∈ candidates := by
  simp only [choose] at chosen
  obtain ⟨first, _, chosen⟩ := Option.bind_eq_some_iff.mp chosen
  obtain ⟨drawn, picked, same⟩ := Option.map_eq_some_iff.mp chosen
  obtain ⟨rfl, rfl⟩ := Prod.mk.inj same
  constructor
  · apply mem_of_mem_applyGray ch
    split at picked
    · exact mem_of_banditChoice picked
    · exact mem_of_weightedChoice picked
  · intro b mem
    exact mem_of_mem_applyGray ch ((List.mem_insertionSort _).mp (List.mem_of_mem_filter mem))

end Deeting.Routing
