import Deeting.MergePatch
import Deeting.Routing.Selector

/-! `deep_merge` beside the merge patch its docstring refers to. Both walk over the override
in the same way; they differ in what becomes of an object for which the base has none, and
that is where nulls are left standing. -/
namespace Deeting.Routing
open Json

mutual

def nullsMeetObjects (old : Option Json) : Json → Bool
  | .obj entries =>
      match old with
      | some (.obj base) => entriesMeetObjects base entries
      | _ => noNullsEntries entries
  | _ => true

def entriesMeetObjects (base : List (String × Json)) : List (String × Json) → Bool
  | [] => true
  | (key, value) :: rest =>
      nullsMeetObjects ((Json.obj base).get? key) value && entriesMeetObjects base rest

end

section Merging

variable {base override patch : List (String × Json)} {old : Option Json} {j : Json}

attribute [local simp] mergeValue nullsMeetObjects

theorem mergeEntries_eq_foldl (base patch : List (String × Json)) :
    mergeEntries base patch = patch.foldl (patchEntry mergeValue) base := by
  induction patch generalizing base with
  | nil => rw [mergeEntries, List.foldl_nil]
  | cons entry rest ih =>
    obtain ⟨key, value⟩ := entry
    cases value with
    | null => exact ih _
    | _ => exact ih _

theorem mergeValue_obj : mergeValue (some (.obj base)) (.obj patch) =
    .obj (patch.foldl (patchEntry mergeValue) base) := by
  rw [← mergeEntries_eq_foldl]
  simp only [mergeValue]

theorem mergeValue_bare (bare : ∀ base, old ≠ some (.obj base)) : mergeValue old j = j := by
  cases j with
  | obj patch =>
    cases old with
    | none => simp only [mergeValue]
    | some found =>
      cases found with
      | obj base => exact absurd rfl (bare base)
      | _ => simp only [mergeValue]
  | _ => rfl

theorem mergeValue_other (other : j.isObj = false) : mergeValue old j = j := by
  cases j with
  | obj patch => cases other
  | _ => rfl

theorem entriesMeetObjects_iff : entriesMeetObjects base patch ↔
    ∀ entry ∈ patch, nullsMeetObjects ((Json.obj base).get? entry.1) entry.2 := by
  induction patch with
  | nil => simp [entriesMeetObjects]
  | cons entry rest ih =>
    simp only [entriesMeetObjects, Bool.and_eq_true, ih, List.forall_mem_cons]

theorem nullsMeetObjects_obj : nullsMeetObjects (some (.obj base)) (.obj patch) =
    entriesMeetObjects base patch := by
  simp only [nullsMeetObjects]

theorem nullsMeetObjects_bare (bare : ∀ base, old ≠ some (.obj base)) :
    nullsMeetObjects old j = noNulls j := by
  cases j with
  | obj patch =>
    cases old with
    | none => simp only [nullsMeetObjects, noNulls]
    | some found =>
      cases found with
      | obj base => exact absurd rfl (bare base)
      | _ => simp only [nullsMeetObjects, noNulls]
  | _ => simp only [nullsMeetObjects, noNulls]

theorem members_of_bare (bare : ∀ base, old ≠ some (.obj base)) : members old = [] := by
  unfold members
  split
  · exact absurd rfl (bare _)
  · rfl

theorem obj_or_bare (old : Option Json) :
    (∃ base, old = some (.obj base)) ∨ ∀ base, old ≠ some (.obj base) := by
  by_cases found : ∃ base, old = some (.obj base)
  · exact .inl found
  · exact .inr fun base same => found ⟨base, same⟩

theorem mergeValue_eq_mergePatch (keyed : Keyed j) (meet : nullsMeetObjects old j) :
    mergeValue old j = mergePatch old j := by
  induction j using memberInduction generalizing old with
  | other j other => rw [mergeValue_other other, mergePatch_other other]
  | object patch ih =>
    obtain ⟨distinct, inner⟩ := keyed_obj.mp keyed
    obtain ⟨base, rfl⟩ | bare := obj_or_bare old
    · rw [nullsMeetObjects_obj, entriesMeetObjects_iff] at meet
      rw [mergeValue_obj, mergePatch_obj, members]
      congr 1
      refine foldl_patchEntry_congr distinct fun entry mem => ?_
      exact ih entry mem (inner entry mem) (meet entry mem)
    · rw [nullsMeetObjects_bare bare] at meet
      rw [mergeValue_bare bare, mergePatch_of_noNulls keyed (members_of_bare bare) meet]

theorem null_left (keyed : Keyed j) (missed : nullsMeetObjects old j = false) :
    ∃ path, path ≠ [] ∧ at? path j = some .null ∧ at? path (mergeValue old j) = some .null := by
  induction j using memberInduction generalizing old with
  | other j other =>
    cases j with
    | obj patch => cases other
    | _ => simp [nullsMeetObjects] at missed
  | object patch ih =>
    obtain ⟨distinct, inner⟩ := keyed_obj.mp keyed
    obtain ⟨base, rfl⟩ | bare := obj_or_bare old
    · rw [nullsMeetObjects_obj] at missed
      obtain ⟨⟨key, value⟩, mem, missed⟩ : ∃ entry ∈ patch,
          nullsMeetObjects ((Json.obj base).get? entry.1) entry.2 = false := by
        by_contra all
        push Not at all
        have meet : entriesMeetObjects base patch :=
          entriesMeetObjects_iff.mpr fun entry mem => by simpa using all entry mem
        rw [meet] at missed
        cases missed
      obtain ⟨path, -, given, left⟩ := ih _ mem (inner _ mem) missed
      have some_ : value.isNull = false := by
        cases value with
        | null => simp [nullsMeetObjects] at missed
        | _ => rfl
      refine ⟨key :: path, by simp, ?_, ?_⟩
      · rw [at?, get?_of_mem distinct mem]
        exact given
      · rw [mergeValue_obj, at?, get?_foldl distinct mem, some_]
        exact left
    · rw [nullsMeetObjects_bare bare] at missed
      obtain ⟨path, below, null⟩ := exists_null keyed missed
      exact ⟨path, below, null, by rwa [mergeValue_bare bare]⟩

theorem nullsMeetObjects_mergePatch (keyed : Keyed j) (old : Option Json) :
    nullsMeetObjects (some (mergePatch old j)) j := by
  induction j using memberInduction generalizing old with
  | other j other =>
    cases j with
    | obj patch => cases other
    | _ => simp [nullsMeetObjects]
  | object patch ih =>
    obtain ⟨distinct, inner⟩ := keyed_obj.mp keyed
    rw [mergePatch_obj, nullsMeetObjects_obj, entriesMeetObjects_iff]
    rintro ⟨key, value⟩ mem
    rw [get?_foldl distinct mem]
    split
    · rename_i null
      cases value with
      | null => simp [nullsMeetObjects]
      | _ => cases null
    · exact ih _ mem (inner _ mem) _

end Merging

/-- `deep_merge` is the merge patch, applied twice is applied once, and leaves no null of the
override, exactly where every object of the override with a null inside comes upon an object
of the base. -/
theorem deepMerge_patches_iff (base override : List (String × Json))
    (keyed : Keyed (.obj override)) :
    (deepMerge (.obj base) (.obj override) = mergePatch (some (.obj base)) (.obj override) ∧
      deepMerge (deepMerge (.obj base) (.obj override)) (.obj override) =
        deepMerge (.obj base) (.obj override) ∧
      ∀ path, path ≠ [] → at? path (.obj override) = some .null →
        at? path (deepMerge (.obj base) (.obj override)) = none) ↔
      entriesMeetObjects base override := by
  have merge : ∀ base, deepMerge (.obj base) (.obj override) =
      mergeValue (some (.obj base)) (.obj override) := by
    intro base
    rw [mergeValue_obj, ← mergeEntries_eq_foldl]
    rfl
  rw [merge, ← nullsMeetObjects_obj]
  constructor
  · rintro ⟨-, -, gone⟩
    by_contra missed
    obtain ⟨path, below, given, left⟩ := null_left keyed (Bool.eq_false_iff.mpr missed)
    rw [gone path below given] at left
    cases left
  · intro meet
    have patched := mergeValue_eq_mergePatch keyed meet
    have again := nullsMeetObjects_mergePatch keyed (some (.obj base))
    refine ⟨patched, ?_, ?_⟩
    · obtain ⟨made, same⟩ : ∃ made, mergePatch (some (.obj base)) (.obj override) = .obj made :=
        ⟨_, mergePatch_obj⟩
      rw [patched, same, merge, ← same, mergeValue_eq_mergePatch keyed again,
        mergePatch_idem keyed]
    · intro path below null
      rw [patched]
      exact mergePatch_deletes keyed below null

def headerPatch (value : Json) : List (String × Json) :=
  [("headers", .obj [("x-trace", value)])]

theorem keyed_headerPatch (value : Json) (plain : value.isObj = false) :
    Keyed (.obj (headerPatch value)) := by
  cases value with
  | obj entries => cases plain
  | _ => simp [headerPatch, Keyed, KeyedEntries]

theorem deepMerge_patches_header :
    entriesMeetObjects [] (headerPatch (.str "on")) ∧
      deepMerge (.obj []) (.obj (headerPatch (.str "on"))) =
        mergePatch (some (.obj [])) (.obj (headerPatch (.str "on"))) := by
  have meet : entriesMeetObjects [] (headerPatch (.str "on")) := by
    simp [headerPatch, entriesMeetObjects, nullsMeetObjects, Json.get?, noNullsEntries, isNull,
      noNulls]
  exact ⟨meet, ((deepMerge_patches_iff [] _ (keyed_headerPatch _ rfl)).mpr meet).1⟩

/-- The header that is to be deleted is sent as null. -/
theorem null_header_left :
    deepMerge (.obj []) (.obj (headerPatch .null)) = .obj (headerPatch .null) ∧
      mergePatch (some (.obj [])) (.obj (headerPatch .null)) = .obj [("headers", .obj [])] ∧
      deepMerge (.obj (headerPatch .null)) (.obj (headerPatch .null)) =
        .obj [("headers", .obj [])] ∧
      deepMerge (.obj []) (.obj (headerPatch .null)) ≠
        mergePatch (some (.obj [])) (.obj (headerPatch .null)) := by
  have merged : deepMerge (.obj []) (.obj (headerPatch .null)) = .obj (headerPatch .null) := by
    simp [deepMerge, headerPatch, mergeEntries, mergeValue, Json.get?, setEntry]
  have patched : mergePatch (some (.obj [])) (.obj (headerPatch .null)) =
      .obj [("headers", .obj [])] := by
    simp [headerPatch, mergePatch, patchEntries, Json.get?, setEntry]
  refine ⟨merged, patched, ?_, ?_⟩
  · simp [deepMerge, headerPatch, mergeEntries, mergeValue, Json.get?, setEntry]
  · rw [merged, patched]
    simp [headerPatch]

end Deeting.Routing
