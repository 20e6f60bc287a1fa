import Mathlib.Data.List.Chain
import Mathlib.Data.List.MinMax
import Mathlib.Data.List.Perm.Basic
import Mathlib.Order.WellFoundedSet

/-! Finite directed graphs, as a relation `r a b` read "`a` depends on `b`": cycles as
closed walks, acyclicity, and layerings that take in every round just the nodes whose
dependencies have all been taken in the rounds before. -/
namespace Deeting.Digraph
open Relation

variable {N : Type} {r : N → N → Prop}

def Acyclic (r : N → N → Prop) : Prop := ∀ a, ¬ TransGen r a a

/-- A closed walk, its first node written again at the end. -/
structure IsCycle (r : N → N → Prop) (walk : List N) : Prop where
  chain : walk.IsChain r
  closed : walk.head? = walk.getLast?
  long : 2 ≤ walk.length

theorem transGen_of_chain {a b : N} {walk : List N} (chain : (a :: walk).IsChain r)
    (last : (a :: walk).getLast? = some b) (long : walk ≠ []) : TransGen r a b := by
  induction walk generalizing a with
  | nil => exact absurd rfl long
  | cons c rest ih =>
    obtain ⟨first, chain⟩ := List.isChain_cons_cons.mp chain
    cases rest with
    | nil =>
      have same : c = b := by simpa using last
      exact .single (same ▸ first)
    | cons d rest =>
      have last : (c :: d :: rest).getLast? = some b := by
        rwa [List.getLast?_cons_cons] at last
      exact .head first (ih chain last (by simp))

theorem IsCycle.not_acyclic {walk : List N} (cycle : IsCycle r walk) : ¬ Acyclic r := by
  intro acyclic
  obtain ⟨chain, closed, long⟩ := cycle
  cases walk with
  | nil => simp at long
  | cons a rest =>
    have last : (a :: rest).getLast? = some a := by rw [← closed, List.head?_cons]
    have nonempty : rest ≠ [] := by
      rintro rfl
      simp at long
    exact acyclic a (transGen_of_chain chain last nonempty)

/-- A walk that comes back to one of its nodes. -/
theorem isCycle_of_mem [DecidableEq N] {walk : List N} {a b : N} (chain : walk.IsChain r)
    (last : walk.getLast? = some a) (edge : r a b) (mem : b ∈ walk) :
    IsCycle r (walk.drop (walk.idxOf b) ++ [b]) := by
  have before : walk.idxOf b < walk.length := List.idxOf_lt_length_iff.mpr mem
  have first : (walk.drop (walk.idxOf b)).head? = some b := by
    rw [List.head?_drop, List.getElem?_eq_getElem before, List.getElem_idxOf before]
  have end_ : (walk.drop (walk.idxOf b)).getLast? = some a := by
    rw [List.getLast?_drop, if_neg (by omega), last]
  constructor
  · rw [List.isChain_append]
    refine ⟨chain.drop _, List.isChain_singleton b, ?_⟩
    intro x isLast y isFirst
    rw [end_] at isLast
    cases isLast
    cases isFirst
    exact edge
  · rw [List.head?_append, first, List.getLast?_concat]
    rfl
  · rw [List.length_append, List.length_drop, List.length_singleton]
    omega

/-- Where every descent ends, no node is on a cycle. -/
theorem acyclic_of_acc (ends : ∀ a, Acc (Function.swap r) a) : Acyclic r := by
  have irreflexive : ∀ a, Acc (TransGen (Function.swap r)) a → ¬ TransGen r a a := by
    intro a descent
    induction descent with
    | intro a _ ih =>
      intro around
      exact ih a (transGen_swap.mpr around) around
  intro a
  exact irreflexive a (ends a).transGen

/-- What has a rank above all that it depends on is on no cycle. -/
theorem acyclic_of_rank (rank : N → ℕ) (decreases : ∀ a b, r a b → rank b < rank a) :
    Acyclic r := by
  have below {a b : N} (path : TransGen r a b) : rank b < rank a := by
    induction path with
    | single edge => exact decreases _ _ edge
    | tail _ edge ih => exact (decreases _ _ edge).trans ih
  exact fun a cycle => Nat.lt_irrefl _ (below cycle)

/-- Of finitely many nodes that are not done, one has all its dependencies done. -/
theorem exists_ready {nodes : List N} {done : N → Prop} (acyclic : Acyclic r)
    (known : ∀ a ∈ nodes, ∀ b, r a b → b ∈ nodes) {a : N} (mem : a ∈ nodes) (left : ¬ done a) :
    ∃ b ∈ nodes, ¬ done b ∧ ∀ c, r b c → done c := by
  by_contra none
  have strict : IsStrictOrder N (TransGen (Function.swap r)) :=
    { irrefl := fun b around => acyclic b (transGen_swap.mp around)
      trans := fun _ _ _ => TransGen.trans }
  have finite : {b | b ∈ nodes ∧ ¬ done b}.Finite := nodes.finite_toSet.subset fun b mem => mem.1
  refine finite.wellFoundedOn.induction (r := TransGen (Function.swap r)) ⟨mem, left⟩
    (P := fun _ => False) fun b member ih => ?_
  obtain ⟨mem, left⟩ := member
  refine none ⟨b, mem, left, fun c edge => ?_⟩
  by_contra undone
  exact ih c ⟨known b mem c edge, undone⟩ (.single edge)

section Layering

def Layered (r : N → N → Prop) (nodes : List N) : (N → Prop) → List (List N) → Prop
  | done, [] => ∀ a ∈ nodes, done a
  | done, layer :: rest =>
      layer ≠ [] ∧ layer.Nodup ∧
      (∀ a, a ∈ layer ↔ a ∈ nodes ∧ ¬ done a ∧ ∀ b, r a b → done b) ∧
      Layered r nodes (fun a => done a ∨ a ∈ layer) rest

variable {nodes : List N} {done : N → Prop} {layers : List (List N)}

theorem Layered.mem_flatten (layered : Layered r nodes done layers) {a : N} :
    a ∈ layers.flatten ↔ a ∈ nodes ∧ ¬ done a := by
  induction layers generalizing done with
  | nil =>
    simp only [List.flatten_nil, List.not_mem_nil, false_iff, not_and, not_not]
    exact layered a
  | cons layer rest ih =>
    obtain ⟨_, _, ready, others⟩ := layered
    rw [List.flatten_cons, List.mem_append, ih others, ready]
    constructor
    · rintro (⟨mem, left, _⟩ | ⟨mem, left⟩)
      · exact ⟨mem, left⟩
      · exact ⟨mem, fun before => left (.inl before)⟩
    · rintro ⟨mem, left⟩
      by_cases deps : ∀ b, r a b → done b
      · exact .inl ⟨mem, left, deps⟩
      · refine .inr ⟨mem, ?_⟩
        rintro (before | taken)
        · exact left before
        · exact deps taken.2.2

theorem Layered.nodup (layered : Layered r nodes done layers) : layers.flatten.Nodup := by
  induction layers generalizing done with
  | nil => exact .nil
  | cons layer rest ih =>
    obtain ⟨_, distinct, _, others⟩ := layered
    rw [List.flatten_cons, List.nodup_append]
    refine ⟨distinct, ih others, ?_⟩
    rintro a taken _ later rfl
    exact (others.mem_flatten.mp later).2 (.inr taken)

theorem Layered.ne_nil (layered : Layered r nodes done layers) : ∀ layer ∈ layers, layer ≠ [] := by
  induction layers generalizing done with
  | nil => simp
  | cons layer rest ih =>
    obtain ⟨nonempty, _, _, others⟩ := layered
    exact List.forall_mem_cons.mpr ⟨nonempty, ih others⟩

/-- From nothing done, the layers are a partition of the nodes. -/
theorem Layered.perm (layered : Layered r nodes (fun _ => False) layers) (distinct : nodes.Nodup) :
    layers.flatten.Perm nodes := by
  rw [List.perm_ext_iff_of_nodup layered.nodup distinct]
  intro a
  rw [layered.mem_flatten]
  simp

variable [DecidableEq N]

def layerIndex (layers : List (List N)) (a : N) : ℕ := layers.findIdx fun layer => a ∈ layer

theorem layerIndex_of_mem {layer : List N} {rest : List (List N)} {a : N} (mem : a ∈ layer) :
    layerIndex (layer :: rest) a = 0 := by
  simp [layerIndex, List.findIdx_cons, mem]

theorem layerIndex_of_not_mem {layer : List N} {rest : List (List N)} {a : N}
    (other : a ∉ layer) : layerIndex (layer :: rest) a = layerIndex rest a + 1 := by
  simp [layerIndex, List.findIdx_cons, other]

/-- A dependency is done at the start or lies in an earlier layer. -/
theorem Layered.index_lt (layered : Layered r nodes done layers) {a b : N} (mem : a ∈ nodes)
    (left : ¬ done a) (edge : r a b) : done b ∨ layerIndex layers b < layerIndex layers a := by
  induction layers generalizing done with
  | nil => exact absurd (layered a mem) left
  | cons layer rest ih =>
    obtain ⟨_, _, ready, others⟩ := layered
    by_cases taken : a ∈ layer
    · exact .inl (((ready a).mp taken).2.2 b edge)
    · rw [layerIndex_of_not_mem taken]
      have later : ¬ (done a ∨ a ∈ layer) := by simp [left, taken]
      rcases ih others later with (before | first) | lower
      · exact .inl before
      · right
        rw [layerIndex_of_mem first]
        omega
      · by_cases first : b ∈ layer
        · right
          rw [layerIndex_of_mem first]
          omega
        · right
          rw [layerIndex_of_not_mem first]
          omega

/-- A node that is not in the first layer waits for a dependency in the layer just before
its own. -/
theorem Layered.index_eq (layered : Layered r nodes done layers) {a : N} (mem : a ∈ nodes)
    (left : ¬ done a) : layerIndex layers a = 0 ∨
      ∃ b, r a b ∧ ¬ done b ∧ layerIndex layers b + 1 = layerIndex layers a := by
  induction layers generalizing done with
  | nil => exact absurd (layered a mem) left
  | cons layer rest ih =>
    obtain ⟨_, _, ready, others⟩ := layered
    by_cases taken : a ∈ layer
    · exact .inl (layerIndex_of_mem taken)
    · right
      rw [layerIndex_of_not_mem taken]
      have later : ¬ (done a ∨ a ∈ layer) := by simp [left, taken]
      rcases ih others later with first | ⟨b, edge, undone, before⟩
      · have waits : ∃ b, r a b ∧ ¬ done b := by
          by_contra none
          refine taken ((ready a).mpr ⟨mem, left, fun b edge => ?_⟩)
          by_contra undone
          exact none ⟨b, edge, undone⟩
        obtain ⟨b, edge, undone⟩ := waits
        rcases others.index_lt mem later edge with (before | taken) | lower
        · exact absurd before undone
        · exact ⟨b, edge, undone, by rw [layerIndex_of_mem taken, first]⟩
        · omega
      · rw [not_or] at undone
        exact ⟨b, edge, undone.1, by rw [layerIndex_of_not_mem undone.2, before]⟩

/-- One more than the largest index among the dependencies, which are listed. -/
theorem Layered.index_max (layered : Layered r nodes (fun _ => False) layers) {a : N}
    (mem : a ∈ nodes) {deps : List N} (listed : ∀ b, r a b ↔ b ∈ deps) :
    (deps = [] → layerIndex layers a = 0) ∧
    ∀ top, (deps.map (layerIndex layers)).max? = some top → layerIndex layers a = top + 1 := by
  have waits := layered.index_eq mem not_false
  constructor
  · rintro rfl
    refine waits.resolve_right ?_
    rintro ⟨b, edge, _⟩
    exact List.not_mem_nil ((listed b).mp edge)
  · intro top largest
    obtain ⟨attained, bound⟩ := List.max?_eq_some_iff.mp largest
    obtain ⟨b, dep, rfl⟩ := List.mem_map.mp attained
    have lower := (layered.index_lt mem not_false ((listed b).mpr dep)).resolve_left not_false
    rcases waits with first | ⟨c, edge, _, before⟩
    · omega
    · have atMost := bound _ (List.mem_map_of_mem ((listed c).mp edge))
      omega

end Layering

end Deeting.Digraph
