import Deeting.Digraph
import Deeting.Orchestrator.Engine

/-! `OrchestrationEngine.__init__`: unknown dependencies are refused first, then a
three-colour depth-first search looks for a cycle. What it accepts, Kahn's algorithm
layers completely. The search has the depth of the call stack as a bound, and the number
of steps is enough for it. -/
namespace Deeting.Orchestrator
open Deeting.Digraph

variable {N C : Type} [DecidableEq N]

inductive Color where
  | white
  | gray
  | black
  deriving DecidableEq, Repr

/-- The exceptions of `_validate_dag`, and the end of the call stack. -/
inductive DagError (N : Type) where
  | unknownDependency (name dep : N)
  | cyclicDependency (path : List N)
  | recursionDepth
  deriving DecidableEq, Repr

structure Search (N : Type) where
  color : N → Color
  path : List N

def Search.enter (s : Search N) (node : N) : Search N :=
  { color := Function.update s.color node .gray, path := s.path ++ [node] }

def Search.leave (s : Search N) (node : N) : Search N :=
  { color := Function.update s.color node .black, path := s.path.dropLast }

/-- `self.steps[node].depends_on`. -/
def dependenciesOf (graph : Graph N) (name : N) : List N :=
  ((graph.find? fun node => node.1 = name).map Prod.snd).getD []

def visit (dfs : N → Search N → Except (DagError N) (Search N)) (s : Search N) (dep : N) :
    Except (DagError N) (Search N) :=
  match s.color dep with
  | .gray => .error (.cyclicDependency (s.path.drop (s.path.idxOf dep) ++ [dep]))
  | .white => dfs dep s
  | .black => .ok s

/-- The nested function `dfs`, on a call stack of the given depth. -/
def dfs (graph : Graph N) : ℕ → N → Search N → Except (DagError N) (Search N)
  | 0, _, _ => .error .recursionDepth
  | depth + 1, node, s =>
      match (dependenciesOf graph node).foldlM (visit (dfs graph depth)) (s.enter node) with
      | .ok s => .ok (s.leave node)
      | .error e => .error e

def start (graph : Graph N) (s : Search N) (node : N) : Except (DagError N) (Search N) :=
  if s.color node = .white then dfs graph graph.length node s else .ok s

def unknownDependency (graph : Graph N) : Option (N × N) :=
  (graph.flatMap fun node => node.2.map fun dep => (node.1, dep)).find? fun edge =>
    edge.2 ∉ graph.map Prod.fst

def validateDag (graph : Graph N) : Except (DagError N) Unit :=
  match unknownDependency graph with
  | some (name, dep) => .error (.unknownDependency name dep)
  | none => ((graph.map Prod.fst).foldlM (start graph) ⟨fun _ => .white, []⟩).map fun _ => ()

/-- `OrchestrationEngine.__init__`: the engine is its steps. -/
def init (steps : List (Step N C)) : Except (DagError N) (List (Step N C)) :=
  (validateDag (graphOf steps)).map fun _ => steps

section Search

def DependsOn (graph : Graph N) (a b : N) : Prop := b ∈ dependenciesOf graph a

def Known (graph : Graph N) : Prop :=
  ∀ a b, DependsOn graph a b → b ∈ graph.map Prod.fst

variable {graph : Graph N} {s t : Search N}

theorem dependenciesOf_eq (distinct : (graph.map Prod.fst).Nodup) {node : N × List N}
    (mem : node ∈ graph) : dependenciesOf graph node.1 = node.2 := by
  have found : graph.find? (fun other => other.1 = node.1) = some node := by
    induction graph with
    | nil => cases mem
    | cons head rest ih =>
      obtain ⟨fresh, distinct⟩ := List.nodup_cons.mp distinct
      rcases List.mem_cons.mp mem with rfl | mem
      · simp
      · have other : head.1 ≠ node.1 := by
          intro same
          exact fresh (same ▸ List.mem_map_of_mem mem)
        rw [List.find?_cons_of_neg (by simpa using other), ih distinct mem]
  simp [dependenciesOf, found]

theorem mem_of_dependsOn {a b : N} (edge : DependsOn graph a b) : a ∈ graph.map Prod.fst := by
  rw [DependsOn, dependenciesOf] at edge
  cases found : graph.find? fun node => node.1 = a with
  | none => simp [found] at edge
  | some node =>
    have same : node.1 = a := by simpa using List.find?_some found
    exact same ▸ List.mem_map_of_mem (List.mem_of_find?_eq_some found)

structure Explored (graph : Graph N) (s : Search N) : Prop where
  gray : ∀ a, s.color a = .gray ↔ a ∈ s.path
  distinct : s.path.Nodup
  listed : ∀ a ∈ s.path, a ∈ graph.map Prod.fst
  chain : s.path.IsChain (DependsOn graph)
  closed : ∀ a b, s.color a = .black → DependsOn graph a b → s.color b = .black
  ends : ∀ a, s.color a = .black → Acc (Function.swap (DependsOn graph)) a

def Explores (graph : Graph N) (s : Search N) (blackened : N → Prop) :
    Except (DagError N) (Search N) → Prop
  | .ok t => Explored graph t ∧ t.path = s.path ∧
      (∀ a, s.color a = .black → t.color a = .black) ∧ ∀ a, blackened a → t.color a = .black
  | .error (.cyclicDependency path) => IsCycle (DependsOn graph) path
  | .error _ => False

theorem explored_initial (graph : Graph N) : Explored graph ⟨fun _ => .white, []⟩ := by
  constructor <;> simp

theorem Explored.enter (explored : Explored graph s) {node : N} (fresh : s.color node = .white)
    (listed : node ∈ graph.map Prod.fst) (chain : (s.path ++ [node]).IsChain (DependsOn graph)) :
    Explored graph (s.enter node) := by
  have absent : node ∉ s.path := by
    intro mem
    rw [(explored.gray node).mpr mem] at fresh
    cases fresh
  have old {a : N} (black : (s.enter node).color a = .black) : s.color a = .black := by
    by_cases same : a = node
    · simp [Search.enter, same] at black
    · simpa [Search.enter, Function.update_of_ne same] using black
  constructor
  · intro a
    by_cases same : a = node
    · simp [Search.enter, same]
    · simp [Search.enter, same, explored.gray]
  · simp only [Search.enter, List.nodup_append, explored.distinct, List.nodup_singleton, true_and]
    rintro a mem b single rfl
    exact absent (List.mem_singleton.mp single ▸ mem)
  · intro a mem
    rcases List.mem_append.mp mem with mem | mem
    · exact explored.listed a mem
    · exact List.mem_singleton.mp mem ▸ listed
  · exact chain
  · intro a b black edge
    have target := explored.closed a b (old black) edge
    have other : b ≠ node := by
      rintro rfl
      rw [target] at fresh
      cases fresh
    simpa [Search.enter, Function.update_of_ne other] using target
  · intro a black
    exact explored.ends a (old black)

theorem Explored.leave (explored : Explored graph t) {node : N} {path : List N}
    (trail : t.path = path ++ [node])
    (deps : ∀ b, DependsOn graph node b → t.color b = .black) :
    Explored graph (t.leave node) := by
  have distinct : (path ++ [node]).Nodup := trail ▸ explored.distinct
  have absent : node ∉ path := by
    intro mem
    exact (List.nodup_append.mp distinct).2.2 node mem node (List.mem_singleton_self node) rfl
  have shorter : (t.leave node).path = path := by simp [Search.leave, trail]
  have blackened (b : N) (black : t.color b = .black) : (t.leave node).color b = .black := by
    simp [Search.leave, Function.update_apply, black]
  have old {a : N} (black : (t.leave node).color a = .black) (other : a ≠ node) :
      t.color a = .black := by
    simpa [Search.leave, Function.update_of_ne other] using black
  constructor
  · intro a
    rw [shorter]
    by_cases same : a = node
    · simp [Search.leave, same, absent]
    · simp [Search.leave, explored.gray, trail, same]
  · rw [shorter]
    exact (List.nodup_append.mp distinct).1
  · intro a mem
    rw [shorter] at mem
    exact explored.listed a (trail ▸ List.mem_append_left _ mem)
  · rw [shorter]
    exact (trail ▸ explored.chain).left_of_append
  · intro a b black edge
    by_cases same : a = node
    · exact blackened b (deps b (same ▸ edge))
    · exact blackened b (explored.closed a b (old black same) edge)
  · intro a black
    by_cases same : a = node
    · exact .intro a fun b edge => explored.ends b (deps b (same ▸ edge))
    · exact explored.ends a (old black same)

theorem Explores.raised {first second : N → Prop} {e : DagError N}
    (raised : Explores graph s first (.error e)) : Explores graph t second (.error e) := by
  cases e <;> exact raised

theorem Explores.trans {first second both : N → Prop} {result : Except (DagError N) (Search N)}
    (before : Explores graph s first (.ok t)) (after : Explores graph t second result)
    (union : ∀ a, both a → first a ∨ second a) : Explores graph s both result := by
  obtain ⟨_, path, kept, done⟩ := before
  cases result with
  | error e => exact after.raised
  | ok u =>
    obtain ⟨explored, path', kept', done'⟩ := after
    refine ⟨explored, path'.trans path, fun a black => kept' a (kept a black), fun a mem => ?_⟩
    rcases union a mem with mem | mem
    · exact kept' a (done a mem)
    · exact done' a mem

theorem explores_visit {search : N → Search N → Except (DagError N) (Search N)} {node dep : N}
    (explored : Explored graph s) (last : s.path.getLast? = some node)
    (edge : DependsOn graph node dep)
    (white : s.color dep = .white → (s.path ++ [dep]).IsChain (DependsOn graph) →
      Explores graph s (· = dep) (search dep s)) :
    Explores graph s (· = dep) (visit search s dep) := by
  rw [visit]
  cases color : s.color dep with
  | gray => exact isCycle_of_mem explored.chain last edge ((explored.gray dep).mp color)
  | white =>
    refine white color ?_
    rw [List.isChain_append]
    refine ⟨explored.chain, List.isChain_singleton dep, ?_⟩
    intro a isLast b isFirst
    rw [last] at isLast
    cases isLast
    cases isFirst
    exact edge
  | black => exact ⟨explored, rfl, fun _ black => black, fun a same => same ▸ color⟩

theorem Explored.length_le (explored : Explored graph s) : s.path.length ≤ graph.length := by
  have within := List.Nodup.subperm explored.distinct explored.listed
  simpa using within.length_le

theorem explores_dfs (known : Known graph) (depth : ℕ) {node : N} (explored : Explored graph s)
    (fresh : s.color node = .white) (listed : node ∈ graph.map Prod.fst)
    (chain : (s.path ++ [node]).IsChain (DependsOn graph))
    (deep : graph.length ≤ s.path.length + depth) :
    Explores graph s (· = node) (dfs graph depth node s) := by
  induction depth generalizing s node with
  | zero =>
    have within := (explored.enter fresh listed chain).length_le
    simp only [Search.enter, List.length_append, List.length_singleton] at within
    omega
  | succ depth ih =>
    -- the inner loop stays below `node`, which is the end of the path
    have loop (deps : List N) : ∀ s, Explored graph s → s.path.getLast? = some node →
        graph.length ≤ s.path.length + depth → (∀ dep ∈ deps, DependsOn graph node dep) →
        Explores graph s (· ∈ deps) (deps.foldlM (visit (dfs graph depth)) s) := by
      induction deps with
      | nil =>
        intro s explored _ _ _
        exact ⟨explored, rfl, fun _ black => black, fun a mem => absurd mem List.not_mem_nil⟩
      | cons dep deps others =>
        intro s explored last deep edges
        obtain ⟨edge, edges⟩ := List.forall_mem_cons.mp edges
        have one := explores_visit explored last edge fun color chain =>
          ih explored color (known _ _ edge) chain deep
        rw [List.foldlM_cons]
        cases visited : visit (dfs graph depth) s dep with
        | error e => exact (visited ▸ one).raised
        | ok t =>
          rw [visited] at one
          obtain ⟨explored', path, _, _⟩ := id one
          have rest := others t explored' (path ▸ last) (path ▸ deep) edges
          exact one.trans rest fun a mem => List.mem_cons.mp mem
    have entered := explored.enter fresh listed chain
    have inner := loop (dependenciesOf graph node) (s.enter node) entered
      (by simp [Search.enter]) (by simp [Search.enter]; omega) fun _ mem => mem
    rw [dfs]
    cases result : (dependenciesOf graph node).foldlM (visit (dfs graph depth)) (s.enter node) with
    | error e => exact (result ▸ inner).raised
    | ok t =>
      rw [result] at inner
      obtain ⟨explored', path, kept, done⟩ := inner
      refine ⟨explored'.leave path done, ?_, fun a black => ?_, fun a same => ?_⟩
      · simp [Search.leave, path, Search.enter]
      · have other : a ≠ node := by
          rintro rfl
          rw [black] at fresh
          cases fresh
        have still : t.color a = .black := kept a (by simpa [Search.enter, other] using black)
        simp [Search.leave, Function.update_of_ne other, still]
      · simp [Search.leave, same]

theorem explores_start (known : Known graph) (names : List N)
    (listed : ∀ a ∈ names, a ∈ graph.map Prod.fst) (explored : Explored graph s)
    (outside : s.path = []) : Explores graph s (· ∈ names) (names.foldlM (start graph) s) := by
  induction names generalizing s with
  | nil => exact ⟨explored, rfl, fun _ black => black, fun a mem => absurd mem List.not_mem_nil⟩
  | cons node names ih =>
    obtain ⟨first, listed⟩ := List.forall_mem_cons.mp listed
    have one : Explores graph s (· = node) (start graph s node) := by
      rw [start]
      split
      · rename_i fresh
        exact explores_dfs known _ explored fresh first (by simp [outside]) (by simp [outside])
      · rename_i colored
        refine ⟨explored, rfl, fun _ black => black, ?_⟩
        rintro a rfl
        cases color : s.color a with
        | white => exact absurd color colored
        | gray => simpa [outside] using (explored.gray a).mp color
        | black => rfl
    rw [List.foldlM_cons]
    cases started : start graph s node with
    | error e => exact (started ▸ one).raised
    | ok t =>
      rw [started] at one
      obtain ⟨explored', path, _, _⟩ := id one
      exact one.trans (ih listed explored' (path.trans outside)) fun a mem => List.mem_cons.mp mem

theorem unknownDependency_eq_none (distinct : (graph.map Prod.fst).Nodup) :
    unknownDependency graph = none ↔ Known graph := by
  simp only [unknownDependency, List.find?_eq_none, List.mem_flatMap, List.mem_map,
    decide_eq_true_eq, not_not]
  constructor
  · intro named a b edge
    obtain ⟨node, mem, rfl⟩ := List.mem_map.mp (mem_of_dependsOn edge)
    rw [DependsOn, dependenciesOf_eq distinct mem] at edge
    exact List.mem_map.mpr (named _ ⟨node, mem, b, edge, rfl⟩)
  · rintro known _ ⟨node, mem, dep, edge, rfl⟩
    refine List.mem_map.mp (known node.1 dep ?_)
    rwa [DependsOn, dependenciesOf_eq distinct mem]

theorem validateDag_of_known (distinct : (graph.map Prod.fst).Nodup) (known : Known graph) :
    (validateDag graph = .ok () ∧ Acyclic (DependsOn graph)) ∨
    ∃ path, validateDag graph = .error (.cyclicDependency path) ∧
      IsCycle (DependsOn graph) path := by
  have searched := explores_start known (graph.map Prod.fst) (fun _ mem => mem)
    (explored_initial graph) rfl
  simp only [validateDag, (unknownDependency_eq_none distinct).mpr known]
  cases result : (graph.map Prod.fst).foldlM (start graph) ⟨fun _ => .white, []⟩ with
  | ok t =>
    rw [result] at searched
    obtain ⟨explored, _, _, black⟩ := searched
    refine .inl ⟨rfl, acyclic_of_acc fun a => ?_⟩
    by_cases mem : a ∈ graph.map Prod.fst
    · exact explored.ends a (black a mem)
    · exact .intro a fun b edge => absurd (mem_of_dependsOn edge) mem
  | error e =>
    rw [result] at searched
    cases e with
    | cyclicDependency path => exact .inr ⟨path, rfl, searched⟩
    | unknownDependency name dep => exact searched.elim
    | recursionDepth => exact searched.elim

end Search

section Kahn
variable {graph : Graph N} {queue : List N} {degree : N → ℕ}

theorem dependenciesOf_cons_self (node : N × List N) (rest : Graph N) :
    dependenciesOf (node :: rest) node.1 = node.2 := by
  simp [dependenciesOf]

theorem dependenciesOf_cons_of_ne {node : N × List N} {name : N} (other : node.1 ≠ name)
    (rest : Graph N) : dependenciesOf (node :: rest) name = dependenciesOf rest name := by
  simp [dependenciesOf, other]

theorem dependenciesOf_of_not_mem {name : N} (fresh : name ∉ graph.map Prod.fst) :
    dependenciesOf graph name = [] := by
  by_contra nonempty
  obtain ⟨b, mem⟩ := List.exists_mem_of_ne_nil _ nonempty
  exact fresh (mem_of_dependsOn mem)

theorem count_dependents (distinct : (graph.map Prod.fst).Nodup) (dep name : N) :
    (dependents graph dep).count name = (dependenciesOf graph name).count dep := by
  induction graph with
  | nil => rfl
  | cons node rest ih =>
    obtain ⟨fresh, distinct⟩ := List.nodup_cons.mp distinct
    have head : (((node.2.filter fun d => d = dep).map fun _ => node.1).count name) =
        if node.1 = name then node.2.count dep else 0 := by
      rw [List.map_const', List.count_replicate, ← List.countP_eq_length_filter]
      simp only [beq_iff_eq]
      congr 1
    rw [dependents, List.flatMap_cons, List.count_append, head]
    have tail := ih distinct
    rw [dependents] at tail
    rw [tail]
    by_cases same : node.1 = name
    · subst same
      rw [dependenciesOf_of_not_mem fresh, dependenciesOf_cons_self, if_pos rfl]
      rfl
    · rw [dependenciesOf_cons_of_ne same, if_neg same, Nat.zero_add]

theorem count_released (distinct : (graph.map Prod.fst).Nodup) (once : queue.Nodup) (name : N) :
    (queue.flatMap (dependents graph)).count name =
      (dependenciesOf graph name).countP fun dep => dep ∈ queue := by
  induction queue with
  | nil => simp
  | cons q rest ih =>
    obtain ⟨fresh, once⟩ := List.nodup_cons.mp once
    rw [List.flatMap_cons, List.count_append, count_dependents distinct, ih once]
    induction dependenciesOf graph name with
    | nil => rfl
    | cons dep deps others =>
      simp only [List.count_cons, List.countP_cons, List.mem_cons, decide_eq_true_eq, beq_iff_eq]
      simp only [List.mem_cons] at others
      by_cases first : dep = q
      · simp only [first, if_true, fresh, if_false, true_or]
        omega
      · simp only [first, if_false, false_or]
        omega

/-- The decrements of a round: a name is appended when its last one brings it to zero. -/
theorem releaseOne_foldl (events : List N) (next : List N)
    (enough : ∀ a, events.count a ≤ degree a) :
    (∀ a, (events.foldl releaseOne (next, degree)).2 a = degree a - events.count a) ∧
    ∃ released : List N, (events.foldl releaseOne (next, degree)).1 = next ++ released ∧
      released.Nodup ∧
      ∀ a, a ∈ released ↔ 0 < events.count a ∧ events.count a = degree a := by
  induction events generalizing next degree with
  | nil => exact ⟨fun a => rfl, [], by simp⟩
  | cons e rest ih =>
    have count (a : N) : (e :: rest).count a = rest.count a + if a = e then 1 else 0 := by
      by_cases same : a = e
      · simp [same]
      · simp [same, List.count_cons_of_ne (Ne.symm same)]
    have lowered (a : N) : Function.update degree e (degree e - 1) a =
        degree a - if a = e then 1 else 0 := by
      by_cases same : a = e <;> simp [same]
    have still (a : N) : rest.count a ≤ Function.update degree e (degree e - 1) a := by
      have whole := enough a
      rw [count] at whole
      rw [lowered]
      omega
    rw [List.foldl_cons, releaseOne]
    simp only [Function.update_self]
    obtain ⟨degrees, released, list, once, member⟩ := ih
      (if degree e - 1 = 0 then next ++ [e] else next) still
    refine ⟨fun a => ?_, ?_⟩
    · rw [degrees, lowered, count]
      omega
    · have whole := enough e
      rw [count, if_pos rfl] at whole
      by_cases last : degree e - 1 = 0
      · rw [if_pos last, List.append_assoc, List.singleton_append] at list
        refine ⟨e :: released, by rw [if_pos last]; exact list, ?_, fun a => ?_⟩
        · refine List.nodup_cons.mpr ⟨fun mem => ?_, once⟩
          have positive := (member e).mp mem
          omega
        · rw [List.mem_cons, member, lowered, count]
          by_cases same : a = e
          · subst same
            simp only [if_true, true_or, true_iff]
            omega
          · simp only [same, if_false, false_or, Nat.sub_zero, Nat.add_zero]
      · rw [if_neg last] at list
        refine ⟨released, by rw [if_neg last]; exact list, once, fun a => ?_⟩
        rw [member, lowered, count]
        by_cases same : a = e
        · subst same
          simp only [if_true]
          omega
        · simp only [same, if_false, Nat.sub_zero, Nat.add_zero]

/-- At the beginning of a round: the degree of a name counts its dependencies not taken
yet, and the queue holds the names that wait for none. -/
structure Round (graph : Graph N) (done queue : List N) (degree : N → ℕ) : Prop where
  once : (done ++ queue).Nodup
  listed : ∀ a ∈ done, a ∈ graph.map Prod.fst
  closed : ∀ a ∈ done, ∀ b, DependsOn graph a b → b ∈ done
  degree : ∀ a, degree a = (dependenciesOf graph a).countP fun dep => dep ∉ done
  queue : ∀ a, a ∈ queue ↔ a ∈ graph.map Prod.fst ∧ a ∉ done ∧ ∀ b, DependsOn graph a b → b ∈ done

theorem countP_waiting {done : List N} (apart : ∀ dep ∈ queue, dep ∉ done) (deps : List N) :
    (deps.countP fun dep => dep ∉ done) =
      (deps.countP fun dep => dep ∈ queue) + deps.countP fun dep => dep ∉ done ++ queue := by
  induction deps with
  | nil => rfl
  | cons dep deps ih =>
    simp only [List.countP_cons, decide_eq_true_eq, List.mem_append, not_or] at ih ⊢
    by_cases later : dep ∈ queue
    · simp only [later, apart dep later, not_true, not_false_eq_true, and_false, if_true, if_false]
      omega
    · simp only [later, not_false_eq_true, and_true, if_false]
      omega

theorem Round.next {done : List N} (round : Round graph done queue degree)
    (distinct : (graph.map Prod.fst).Nodup) :
    Round graph (done ++ queue) (releaseLayer graph queue degree).1
      (releaseLayer graph queue degree).2 := by
  obtain ⟨before, queueOnce, apart⟩ := List.nodup_append.mp round.once
  have released (a : N) :
      (queue.flatMap (dependents graph)).count a =
        (dependenciesOf graph a).countP fun dep => dep ∈ queue :=
    count_released distinct queueOnce a
  have split (a : N) : degree a = (dependenciesOf graph a).countP (fun dep => dep ∈ queue) +
      (dependenciesOf graph a).countP fun dep => dep ∉ done ++ queue := by
    rw [round.degree]
    exact countP_waiting (fun dep later earlier => apart dep earlier dep later rfl) _
  have enough (a : N) : (queue.flatMap (dependents graph)).count a ≤ degree a := by
    rw [released, split]
    omega
  obtain ⟨degrees, fresh, list, once, member⟩ := releaseOne_foldl _ [] enough
  have next : (releaseLayer graph queue degree).1 = fresh := by rw [releaseLayer, list]; rfl
  have waiting (a : N) : (∀ b, DependsOn graph a b → b ∈ done ++ queue) ↔
      (dependenciesOf graph a).countP (fun dep => dep ∉ done ++ queue) = 0 := by
    simp only [List.countP_eq_zero, DependsOn, decide_eq_true_eq, not_not]
  have ready (a : N) : a ∈ fresh ↔ a ∈ graph.map Prod.fst ∧ a ∉ done ++ queue ∧
      ∀ b, DependsOn graph a b → b ∈ done ++ queue := by
    rw [member, released, waiting]
    constructor
    · rintro ⟨positive, all⟩
      obtain ⟨b, edge, later⟩ := List.countP_pos_iff.mp positive
      have later : b ∈ queue := by simpa using later
      have late : b ∉ done := fun earlier => apart b earlier b later rfl
      refine ⟨mem_of_dependsOn edge, fun taken => ?_, by have := split a; omega⟩
      rcases List.mem_append.mp taken with taken | taken
      · exact late (round.closed a taken b edge)
      · exact late (((round.queue a).mp taken).2.2 b edge)
    · rintro ⟨mem, left, none⟩
      obtain ⟨notDone, notQueue⟩ := not_or.mp (mt List.mem_append.mpr left)
      have some : degree a ≠ 0 := by
        intro zero
        rw [round.degree, List.countP_eq_zero] at zero
        refine notQueue ((round.queue a).mpr ⟨mem, notDone, fun b edge => ?_⟩)
        simpa using zero b edge
      have := split a
      omega
  constructor
  · rw [next, List.nodup_append]
    refine ⟨round.once, once, ?_⟩
    rintro a taken _ later rfl
    exact ((ready a).mp later).2.1 taken
  · intro a mem
    rcases List.mem_append.mp mem with mem | mem
    · exact round.listed a mem
    · exact ((round.queue a).mp mem).1
  · intro a mem b edge
    rcases List.mem_append.mp mem with mem | mem
    · exact List.mem_append_left _ (round.closed a mem b edge)
    · exact List.mem_append_left _ (((round.queue a).mp mem).2.2 b edge)
  · intro a
    rw [releaseLayer, degrees, released, split]
    omega
  · rw [next]
    exact ready

theorem kahn_layered (distinct : (graph.map Prod.fst).Nodup) (known : Known graph)
    (acyclic : Acyclic (DependsOn graph)) (fuel : ℕ) {done : List N}
    (round : Round graph done queue degree) (enough : graph.length ≤ done.length + fuel) :
    Layered (DependsOn graph) (graph.map Prod.fst) (· ∈ done) (kahn graph fuel queue degree) := by
  induction fuel generalizing done queue degree with
  | zero =>
    have within := (List.nodup_append.mp round.once).1.subperm round.listed
    have all := within.perm_of_length_le (by simpa using enough)
    intro a mem
    exact all.mem_iff.mpr mem
  | succ fuel ih =>
    cases queue with
    | nil =>
      intro a mem
      by_contra left
      obtain ⟨b, listed, undone, ready⟩ :=
        exists_ready acyclic (fun a _ => known a) mem left
      exact List.not_mem_nil ((round.queue b).mpr ⟨listed, undone, ready⟩)
    | cons q rest =>
      have further := ih (round.next distinct)
        (by simp only [List.length_append, List.length_cons]; omega)
      refine ⟨List.cons_ne_nil q rest, (List.nodup_append.mp round.once).2.1, round.queue, ?_⟩
      simp only [List.mem_append] at further
      exact further

theorem inDegree_eq (distinct : (graph.map Prod.fst).Nodup) (name : N) :
    inDegree graph name = (dependenciesOf graph name).length := by
  induction graph with
  | nil => rfl
  | cons node rest ih =>
    obtain ⟨fresh, distinct⟩ := List.nodup_cons.mp distinct
    have tail := ih distinct
    rw [inDegree] at tail
    by_cases same : node.1 = name
    · subst same
      rw [dependenciesOf_of_not_mem fresh] at tail
      simp [inDegree, tail, dependenciesOf_cons_self]
    · simp [inDegree, same, tail, dependenciesOf_cons_of_ne same]

theorem executionLayers_layered (distinct : (graph.map Prod.fst).Nodup) (known : Known graph)
    (acyclic : Acyclic (DependsOn graph)) :
    Layered (DependsOn graph) (graph.map Prod.fst) (fun _ => False) (executionLayers graph) := by
  have round : Round graph []
      ((graph.map Prod.fst).filter fun name => inDegree graph name = 0) (inDegree graph) := by
    constructor
    · exact distinct.filter _
    · simp
    · simp
    · intro a
      simp [inDegree_eq distinct, List.countP_true]
    · intro a
      simp [inDegree_eq distinct, DependsOn, List.eq_nil_iff_forall_not_mem]
  have layered := kahn_layered distinct known acyclic graph.length round (by simp)
  simp only [List.not_mem_nil] at layered
  exact layered

end Kahn

section Init
variable {steps : List (Step N C)}

theorem dependsOn_graphOf (distinct : (steps.map Step.name).Nodup) {a b : N} :
    DependsOn (graphOf steps) a b ↔ ∃ step ∈ steps, step.name = a ∧ b ∈ step.dependsOn := by
  have names : (graphOf steps).map Prod.fst = steps.map Step.name := by simp [graphOf]
  constructor
  · intro edge
    obtain ⟨node, mem, rfl⟩ := List.mem_map.mp (mem_of_dependsOn edge)
    obtain ⟨step, mem', rfl⟩ := List.mem_map.mp mem
    rw [DependsOn, dependenciesOf_eq (names ▸ distinct) mem] at edge
    exact ⟨step, mem', rfl, edge⟩
  · rintro ⟨step, mem, rfl, edge⟩
    have listed : (step.name, step.dependsOn) ∈ graphOf steps := List.mem_map_of_mem mem
    rwa [DependsOn, dependenciesOf_eq (names ▸ distinct) listed]

/-- The engine is built from just the steps whose dependencies are listed and acyclic; a
reported cycle is one; and the layers are a partition that puts every step as early as its
dependencies allow. -/
theorem init_layers (steps : List (Step N C)) (distinct : (steps.map Step.name).Nodup) :
    (init steps = .ok steps ↔
      (∀ step ∈ steps, ∀ dep ∈ step.dependsOn, dep ∈ steps.map Step.name) ∧
      Acyclic fun a b => ∃ step ∈ steps, step.name = a ∧ b ∈ step.dependsOn) ∧
    (∀ path, init steps = .error (.cyclicDependency path) →
      IsCycle (fun a b => ∃ step ∈ steps, step.name = a ∧ b ∈ step.dependsOn) path) ∧
    (init steps = .ok steps →
      (∀ layer ∈ executionLayers (graphOf steps), layer ≠ []) ∧
      (executionLayers (graphOf steps)).flatten.Perm (steps.map Step.name) ∧
      ∀ step ∈ steps,
        (step.dependsOn = [] → layerIndex (executionLayers (graphOf steps)) step.name = 0) ∧
        ∀ top, (step.dependsOn.map (layerIndex (executionLayers (graphOf steps)))).max? = some top →
          layerIndex (executionLayers (graphOf steps)) step.name = top + 1) := by
  have names : (graphOf steps).map Prod.fst = steps.map Step.name := by simp [graphOf]
  have distinct' : ((graphOf steps).map Prod.fst).Nodup := names ▸ distinct
  have edges : (fun a b => ∃ step ∈ steps, step.name = a ∧ b ∈ step.dependsOn) =
      DependsOn (graphOf steps) := by
    funext a b
    rw [dependsOn_graphOf distinct]
  have named : (∀ step ∈ steps, ∀ dep ∈ step.dependsOn, dep ∈ steps.map Step.name) ↔
      Known (graphOf steps) := by
    constructor
    · intro named a b edge
      obtain ⟨step, mem, rfl, dep⟩ := (dependsOn_graphOf distinct).mp edge
      exact names ▸ named step mem b dep
    · intro known step mem dep edge
      exact names ▸ known step.name dep ((dependsOn_graphOf distinct).mpr ⟨step, mem, rfl, edge⟩)
  rw [edges, named]
  by_cases known : Known (graphOf steps)
  · rcases validateDag_of_known distinct' known with ⟨accepted, acyclic⟩ | ⟨path, raised, cycle⟩
    · have built : init steps = .ok steps := by
        rw [init, accepted]
        rfl
      have layered := executionLayers_layered distinct' known acyclic
      refine ⟨by simp [built, known, acyclic], by simp [built], fun _ => ?_⟩
      refine ⟨layered.ne_nil, names ▸ layered.perm distinct', fun step mem => ?_⟩
      have listed : (step.name, step.dependsOn) ∈ graphOf steps := List.mem_map_of_mem mem
      have deps := dependenciesOf_eq distinct' listed
      exact layered.index_max (List.mem_map_of_mem listed) fun b => by rw [DependsOn, deps]
    · have refused : init steps = .error (.cyclicDependency path) := by
        rw [init, raised]
        rfl
      refine ⟨by simp [refused, cycle.not_acyclic], fun other same => ?_, by simp [refused]⟩
      rw [refused] at same
      cases same
      exact cycle
  · have some : ∃ name dep, init steps = .error (.unknownDependency name dep) := by
      rw [init, validateDag]
      cases unknown : unknownDependency (graphOf steps) with
      | none => exact absurd ((unknownDependency_eq_none distinct').mp unknown) known
      | some edge => exact ⟨edge.1, edge.2, rfl⟩
    obtain ⟨name, dep, refused⟩ := some
    simp [refused, known]

/-- Three steps, the last with a repeated dependency on the second. -/
def chainSteps : List (Step ℕ Unit) :=
  [(0, []), (1, [0]), (2, [1, 0, 1])].map fun node =>
    { name := node.1
      dependsOn := node.2
      execute := fun _ c => (.ok {}, c)
      onFailure := fun _ _ _ => .abort
      onDegrade := fun _ c => ({ status := .degraded }, c) }

theorem init_layers_chain :
    (executionLayers (graphOf chainSteps)).flatten.Perm [0, 1, 2] ∧
    layerIndex (executionLayers (graphOf chainSteps)) 2 = 2 := by
  have built : init chainSteps = .ok chainSteps := rfl
  have layers := (init_layers chainSteps (by decide)).2.2 built
  refine ⟨layers.2.1, ?_⟩
  have last : chainSteps[2] ∈ chainSteps := List.getElem_mem _
  exact (layers.2.2 _ last).2 1 (by decide)

end Init

end Deeting.Orchestrator
