import Mathlib.Data.List.Nodup

/-! Upserts of a list of changes under a key: a change is for the row of its key, or it makes a new
row, and the rows that are made are not looked at again. -/
namespace Deeting.Upserting

variable {ρ π κ : Type} [DecidableEq κ]

def firsts (key : π → κ) (items : List π) : List π :=
  items.foldl (fun kept a => if key a ∈ kept.map key then kept else kept ++ [a]) []

/-- The first row of the key changed, `none` where there is none. -/
def change (key : ρ → κ) (k : κ) (f : ρ → ρ) : List ρ → Option (List ρ)
  | [] => none
  | r :: rest => if key r = k then some (f r :: rest) else (change key k f rest).map (r :: ·)

structure Batch (ρ : Type) where
  rows : List ρ
  created : List ρ := []

structure Rule (ρ π κ : Type) where
  key : ρ → κ
  keyOf : π → κ
  update : ρ → π → ρ
  create : ℕ → π → ρ

variable (rule : Rule ρ π κ)

def upsert (b : Batch ρ) (p : π) : Batch ρ :=
  match change rule.key (rule.keyOf p) (fun r => rule.update r p) b.rows with
  | some rows => { b with rows := rows }
  | none => { b with created := b.created ++ [rule.create b.created.length p] }

def upsertAll (b : Batch ρ) (changes : List π) : Batch ρ := changes.foldl (upsert rule) b

def Rule.settle (changes : List π) (r : ρ) : ρ :=
  match changes.find? fun p => rule.keyOf p = rule.key r with
  | some p => rule.update r p
  | none => r

variable {rule}

theorem nodup_foldl {key : π → κ} (items : List π) {kept : List π}
    (distinct : (kept.map key).Nodup) : ((items.foldl (fun kept a =>
      if key a ∈ kept.map key then kept else kept ++ [a]) kept).map key).Nodup := by
  induction items generalizing kept with
  | nil => exact distinct
  | cons a rest ih =>
    rw [List.foldl_cons]
    split
    · exact ih distinct
    · rename_i fresh
      apply ih
      rw [List.map_append, List.nodup_append]
      refine ⟨distinct, List.nodup_singleton _, ?_⟩
      intro k mem other new
      rw [List.map_singleton, List.mem_singleton] at new
      subst new
      exact fun same => fresh (same ▸ mem)

theorem nodup_firsts {key : π → κ} (items : List π) : ((firsts key items).map key).Nodup :=
  nodup_foldl items List.nodup_nil

theorem mem_of_mem_foldl {key : π → κ} (items : List π) {kept : List π} {a : π}
    (mem : a ∈ items.foldl (fun kept a =>
      if key a ∈ kept.map key then kept else kept ++ [a]) kept) :
    a ∈ kept ∨ a ∈ items := by
  induction items generalizing kept with
  | nil => exact .inl mem
  | cons b rest ih =>
    rw [List.foldl_cons] at mem
    split at mem
    · exact (ih mem).imp_right (List.mem_cons_of_mem b)
    · obtain before | after := ih mem
      · obtain old | new := List.mem_append.mp before
        · exact .inl old
        · exact .inr (List.mem_singleton.mp new ▸ List.mem_cons_self)
      · exact .inr (List.mem_cons_of_mem b after)

theorem mem_of_mem_firsts {key : π → κ} {items : List π} {a : π} (mem : a ∈ firsts key items) :
    a ∈ items :=
  (mem_of_mem_foldl items mem).resolve_left List.not_mem_nil

section Settle

variable {changes rest : List π} {p : π} {r : ρ}

theorem settle_cons_of_eq (here : rule.keyOf p = rule.key r) :
    rule.settle (p :: rest) r = rule.update r p := by
  simp [Rule.settle, here]

theorem settle_cons_of_ne (other : rule.keyOf p ≠ rule.key r) :
    rule.settle (p :: rest) r = rule.settle rest r := by
  simp [Rule.settle, other]

theorem settle_of_notMem (absent : rule.key r ∉ changes.map rule.keyOf) :
    rule.settle changes r = r := by
  induction changes with
  | nil => rfl
  | cons p rest ih =>
    rw [List.map_cons, List.mem_cons, not_or] at absent
    rw [settle_cons_of_ne (Ne.symm absent.1), ih absent.2]

/-- Where the keys differ, the change for a row is the one of its key. -/
theorem settle_of_mem (apart : (changes.map rule.keyOf).Nodup) (mem : p ∈ changes)
    (here : rule.keyOf p = rule.key r) : rule.settle changes r = rule.update r p := by
  induction changes with
  | nil => cases mem
  | cons q rest ih =>
    obtain ⟨fresh, apart⟩ := List.nodup_cons.mp apart
    obtain rfl | later := List.mem_cons.mp mem
    · exact settle_cons_of_eq here
    · have other : rule.keyOf q ≠ rule.key r :=
        fun same => fresh (same.trans here.symm ▸ List.mem_map_of_mem later)
      rw [settle_cons_of_ne other, ih apart later]

theorem settle_cases (rule : Rule ρ π κ) (changes : List π) (r : ρ) :
    rule.settle changes r = r ∨
      ∃ p ∈ changes, rule.keyOf p = rule.key r ∧ rule.settle changes r = rule.update r p := by
  induction changes with
  | nil => exact .inl rfl
  | cons q rest ih =>
    by_cases here : rule.keyOf q = rule.key r
    · exact .inr ⟨q, List.mem_cons_self, here, settle_cons_of_eq here⟩
    · rw [settle_cons_of_ne here]
      exact ih.imp_right fun ⟨p, mem, same⟩ => ⟨p, List.mem_cons_of_mem q mem, same⟩

end Settle

theorem change_eq_none {key : ρ → κ} {k : κ} {f : ρ → ρ} {rows : List ρ} :
    change key k f rows = none ↔ k ∉ rows.map key := by
  induction rows with
  | nil => simp [change]
  | cons r rest ih =>
    rw [change, List.map_cons, List.mem_cons, not_or]
    split
    · rename_i here
      simp [here]
    · rename_i other
      rw [Option.map_eq_none_iff, ih]
      exact (and_iff_right (Ne.symm other)).symm

/-- Where the keys differ, the change is made in the one place it is for. -/
theorem eq_map_of_change {key : ρ → κ} {k : κ} {f : ρ → ρ} {rows changed : List ρ}
    (distinct : (rows.map key).Nodup) (done : change key k f rows = some changed) :
    changed = rows.map fun r => if key r = k then f r else r := by
  induction rows generalizing changed with
  | nil => cases done
  | cons r rest ih =>
    obtain ⟨fresh, distinct⟩ := List.nodup_cons.mp distinct
    rw [change] at done
    split at done
    · rename_i here
      obtain rfl := Option.some.inj done
      rw [List.map_cons, if_pos here]
      congr 1
      refine (List.map_id _).symm.trans (List.map_congr_left fun q mem => ?_)
      rw [if_neg fun same => fresh (by rw [here, ← same]; exact List.mem_map_of_mem mem)]
      rfl
    · rename_i other
      obtain ⟨later, below, rfl⟩ := Option.map_eq_some_iff.mp done
      rw [List.map_cons, if_neg other, ih distinct below]

section Batches

variable {b : Batch ρ} {changes : List π} {p : π}
  (keeps : ∀ r p, rule.key r = rule.keyOf p → rule.key (rule.update r p) = rule.key r)
include keeps

theorem keys_upsert (distinct : (b.rows.map rule.key).Nodup) :
    (upsert rule b p).rows.map rule.key = b.rows.map rule.key := by
  rw [upsert]
  split
  · rename_i rows done
    rw [eq_map_of_change distinct done, List.map_map]
    apply List.map_congr_left
    intro r _
    rw [Function.comp_apply]
    split
    · rename_i here
      exact keeps r p here
    · rfl
  · rfl

/-- Every row that was there has the change for it made. -/
theorem rows_upsertAll (distinct : (b.rows.map rule.key).Nodup)
    (apart : (changes.map rule.keyOf).Nodup) :
    (upsertAll rule b changes).rows = b.rows.map (rule.settle changes) := by
  induction changes generalizing b with
  | nil => exact (List.map_id _).symm
  | cons p rest ih =>
    obtain ⟨fresh, apart⟩ := List.nodup_cons.mp apart
    rw [upsertAll, List.foldl_cons, ← upsertAll, ih (by rwa [keys_upsert keeps distinct]) apart]
    cases done : change rule.key (rule.keyOf p) (fun r => rule.update r p) b.rows with
    | some rows =>
      simp only [upsert, done]
      rw [eq_map_of_change distinct done, List.map_map]
      apply List.map_congr_left
      intro r _
      rw [Function.comp_apply]
      by_cases here : rule.key r = rule.keyOf p
      · have absent : rule.key (rule.update r p) ∉ rest.map rule.keyOf := by
          rwa [keeps r p here, here]
        rw [if_pos here, settle_of_notMem absent, settle_cons_of_eq here.symm]
      · rw [if_neg here, settle_cons_of_ne (Ne.symm here)]
    | none =>
      simp only [upsert, done]
      apply List.map_congr_left
      intro r mem
      refine (settle_cons_of_ne fun same => change_eq_none.mp done ?_).symm
      rw [same]
      exact List.mem_map_of_mem mem

/-- A row is made for each change whose key no row has. -/
theorem keys_created (made : ∀ n p, rule.key (rule.create n p) = rule.keyOf p)
    (distinct : (b.rows.map rule.key).Nodup) :
    (upsertAll rule b changes).created.map rule.key = b.created.map rule.key ++
      (changes.map rule.keyOf).filter fun k => k ∉ b.rows.map rule.key := by
  induction changes generalizing b with
  | nil => simp [upsertAll]
  | cons p rest ih =>
    rw [upsertAll, List.foldl_cons, ← upsertAll, ih (by rwa [keys_upsert keeps distinct]),
      keys_upsert keeps distinct, List.map_cons, List.filter_cons]
    cases done : change rule.key (rule.keyOf p) (fun r => rule.update r p) b.rows with
    | some rows =>
      have present : rule.keyOf p ∈ b.rows.map rule.key := by
        by_contra absent
        rw [change_eq_none.mpr absent] at done
        cases done
      simp only [upsert, done, present, not_true_eq_false, decide_false, Bool.false_eq_true,
        if_false]
    | none =>
      have absent := change_eq_none.mp done
      simp only [upsert, done, absent, not_false_eq_true, decide_true, if_true, List.map_append,
        List.map_singleton, made, List.append_assoc, List.singleton_append]

/-- No two rows have one key afterwards. -/
theorem nodup_upsertAll {rows : List ρ} (made : ∀ n p, rule.key (rule.create n p) = rule.keyOf p)
    (distinct : (rows.map rule.key).Nodup) (apart : (changes.map rule.keyOf).Nodup) :
    (((upsertAll rule ⟨rows, []⟩ changes).rows ++ (upsertAll rule ⟨rows, []⟩ changes).created).map
      rule.key).Nodup := by
  have keys : (upsertAll rule ⟨rows, []⟩ changes).rows.map rule.key = rows.map rule.key := by
    rw [rows_upsertAll keeps distinct apart, List.map_map]
    apply List.map_congr_left
    intro r _
    obtain same | ⟨p, -, here, same⟩ := settle_cases rule changes r
    · rw [Function.comp_apply, same]
    · rw [Function.comp_apply, same, keeps r p here.symm]
  rw [List.map_append, keys, keys_created keeps made distinct, List.map_nil, List.nil_append,
    List.nodup_append]
  refine ⟨distinct, apart.filter _, ?_⟩
  rintro k mem _ new rfl
  exact of_decide_eq_true (List.mem_filter.mp new).2 mem

end Batches
end Deeting.Upserting
