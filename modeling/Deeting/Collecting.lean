import Mathlib.Data.List.Basic
import Mathlib.Data.List.Nodup

/-! Loops that extend a list of results at every element and that an element can end without
any result, by raising. -/
namespace Deeting

variable {α β κ : Type}

/-- `for a in items: results.extend(f(a))`; `none` where a round raises. -/
def collect (f : α → Option (List β)) : List α → Option (List β)
  | [] => some []
  | a :: rest => (f a).bind fun found => (collect f rest).map (found ++ ·)

attribute [local simp] collect

theorem collect_eq_none {f : α → Option (List β)} {items : List α} :
    collect f items = none ↔ ∃ a ∈ items, f a = none := by
  induction items with
  | nil => simp [collect]
  | cons a rest ih => cases raised : f a <;> simp [collect, raised, ih]

/-- Where nothing raises the results stand in the order of the elements. -/
theorem collect_eq_flatMap {f : α → Option (List β)} {items : List α}
    (fine : ∀ a ∈ items, f a ≠ none) :
    collect f items = some (items.flatMap fun a => (f a).getD []) := by
  induction items with
  | nil => rfl
  | cons a rest ih =>
    obtain ⟨found, here⟩ := Option.ne_none_iff_exists'.mp (fine a List.mem_cons_self)
    rw [collect, here, ih fun x mem => fine x (List.mem_cons_of_mem a mem)]
    simp [here]

theorem collect_congr {f g : α → Option (List β)} {items : List α}
    (same : ∀ a ∈ items, f a = g a) : collect f items = collect g items := by
  induction items with
  | nil => rfl
  | cons a rest ih =>
    rw [collect, collect, same a List.mem_cons_self,
      ih fun x mem => same x (List.mem_cons_of_mem a mem)]

theorem collect_append (f : α → Option (List β)) (items others : List α) :
    collect f (items ++ others) =
      (collect f items).bind fun found => (collect f others).map (found ++ ·) := by
  induction items with
  | nil => simp [collect]
  | cons a rest ih =>
    rw [List.cons_append, collect, collect, ih]
    cases f a <;> cases collect f rest <;> cases collect f others <;> simp

theorem collect_map {γ : Type} (f : γ → Option (List β)) (g : α → γ) (items : List α) :
    collect f (items.map g) = collect (fun a => f (g a)) items := by
  induction items with
  | nil => rfl
  | cons a rest ih => rw [List.map_cons, collect, collect, ih]

/-- A loop in a loop is a loop over all that the inner ones run over. -/
theorem collect_flatMap {γ : Type} (f : γ → Option (List β)) (g : α → List γ) (items : List α) :
    collect f (items.flatMap g) = collect (fun a => collect f (g a)) items := by
  induction items with
  | nil => rfl
  | cons a rest ih => rw [List.flatMap_cons, collect_append, collect, ih]

/-- Elements that are passed over do not count. -/
theorem collect_filter (f : α → Option (List β)) (p : α → Bool) (items : List α) :
    collect f (items.filter p) = collect (fun a => if p a then f a else some []) items := by
  induction items with
  | nil => rfl
  | cons a rest ih =>
    rw [List.filter_cons, collect, ← ih]
    cases p a <;> simp [collect]

theorem collect_nil (items : List α) : collect (fun _ => some ([] : List β)) items = some [] := by
  induction items with
  | nil => rfl
  | cons a rest ih => simp [collect, ih]

/-- A loop that keeps an element or drops it. -/
theorem collect_keep {shut : α → Option Bool} {items : List α}
    (fine : ∀ a ∈ items, shut a ≠ none) :
    collect (fun a => (shut a).map fun b => if b then [] else [a]) items =
      some (items.filter fun a => shut a ≠ some true) := by
  induction items with
  | nil => rfl
  | cons a rest ih =>
    obtain ⟨b, here⟩ := Option.ne_none_iff_exists'.mp (fine a List.mem_cons_self)
    rw [collect, here, ih fun x mem => fine x (List.mem_cons_of_mem a mem)]
    cases b <;> simp [here]

theorem mem_collect {f : α → Option (List β)} {items : List α} {results : List β} {b : β}
    (collected : collect f items = some results) :
    b ∈ results ↔ ∃ a ∈ items, ∃ found, f a = some found ∧ b ∈ found := by
  have fine : ∀ a ∈ items, f a ≠ none := by
    intro a mem raised
    rw [collect_eq_none.mpr ⟨a, mem, raised⟩] at collected
    cases collected
  rw [collect_eq_flatMap fine, Option.some.injEq] at collected
  rw [← collected, List.mem_flatMap]
  refine exists_congr fun a => and_congr_right fun mem => ?_
  obtain ⟨found, here⟩ := Option.ne_none_iff_exists'.mp (fine a mem)
  simp [here]

/-- No element has the key, so no result does. -/
theorem filter_collect_of_notMem [DecidableEq κ] {f : α → Option (List β)} {items : List α}
    {key : α → κ} {source : β → κ} {results : List β} {k : κ}
    (carried : ∀ a ∈ items, ∀ found, f a = some found → ∀ b ∈ found, source b = key a)
    (collected : collect f items = some results) (missing : k ∉ items.map key) :
    results.filter (fun b => source b = k) = [] := by
  apply List.filter_eq_nil_iff.mpr
  intro b mem same
  obtain ⟨a, present, found, here, of_⟩ := (mem_collect collected).mp mem
  have key_eq := carried a present found here b of_
  have same : source b = k := by simpa using same
  exact missing (by rw [← same, key_eq]; exact List.mem_map_of_mem present)

/-- Of results that carry the key of their element, those of one key are the results of the
one element that has it. -/
theorem filter_collect [DecidableEq κ] {f : α → Option (List β)} {items : List α} {key : α → κ}
    {source : β → κ} {results : List β} (unique : (items.map key).Nodup)
    (carried : ∀ a ∈ items, ∀ found, f a = some found → ∀ b ∈ found, source b = key a)
    (collected : collect f items = some results) {a : α} (mem : a ∈ items) :
    some (results.filter fun b => source b = key a) = f a := by
  induction items generalizing results with
  | nil => cases mem
  | cons x rest ih =>
    rw [collect] at collected
    obtain ⟨found, here, collected⟩ := Option.bind_eq_some_iff.mp collected
    obtain ⟨others, there, rfl⟩ := Option.map_eq_some_iff.mp collected
    have nodup := List.nodup_cons.mp unique
    have carriedThere : ∀ y ∈ rest, ∀ found, f y = some found → ∀ b ∈ found, source b = key y :=
      fun y later => carried y (List.mem_cons_of_mem x later)
    obtain rfl | later := List.mem_cons.mp mem
    · have kept : found.filter (fun b => source b = key a) = found := by
        apply List.filter_eq_self.mpr
        intro b of_
        simpa using carried a List.mem_cons_self found here b of_
      rw [List.filter_append, kept, filter_collect_of_notMem carriedThere there nodup.1, List.append_nil, here]
    · have dropped : found.filter (fun b => source b = key a) = [] := by
        apply List.filter_eq_nil_iff.mpr
        intro b of_ same
        have key_eq := carried x List.mem_cons_self found here b of_
        have same : source b = key a := by simpa using same
        exact nodup.1 (by rw [← key_eq, same]; exact List.mem_map_of_mem later)
      rw [List.filter_append, dropped, List.nil_append]
      exact ih nodup.2 carriedThere there later

end Deeting
