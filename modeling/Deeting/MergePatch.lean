import Deeting.Json
import Mathlib.Data.List.Nodup

/-! JSON Merge Patch: a patch that is an object deletes the members it has as null and merges
the others, whatever it finds there, and any other patch takes the place of its target. The
laws are those of one walk over the members of a patch, with what becomes of a member given. -/
namespace Deeting.Json

/-- What holds of a value when it holds of the members of an object holds of all values. -/
theorem memberInduction {P : Json → Prop} (other : ∀ j, j.isObj = false → P j)
    (object : ∀ entries, (∀ entry ∈ entries, P entry.2) → P (.obj entries)) (j : Json) : P j := by
  match j with
  | .obj entries =>
      apply object
      rintro ⟨key, value⟩ mem
      exact memberInduction other object value
  | .null | .bool _ | .int _ | .float _ | .str _ | .arr _ => exact other _ rfl
termination_by sizeOf j
decreasing_by
  have smaller := List.sizeOf_lt_of_mem mem
  simp only [Prod.mk.sizeOf_spec] at smaller
  simp only [obj.sizeOf_spec]
  omega

def isNull : Json → Bool
  | .null => true
  | _ => false

def patchEntry (f : Option Json → Json → Json) (entries : List (String × Json)) :
    String × Json → List (String × Json)
  | (key, .null) => entries.filter fun entry => entry.1 ≠ key
  | (key, value) => setEntry key (f ((Json.obj entries).get? key) value) entries

mutual

def mergePatch (target : Option Json) : Json → Json
  | .obj patch =>
      match target with
      | some (.obj entries) => .obj (patchEntries entries patch)
      | _ => .obj (patchEntries [] patch)
  | patch => patch

def patchEntries (entries : List (String × Json)) : List (String × Json) → List (String × Json)
  | [] => entries
  | (key, value) :: rest =>
      match value with
      | .null => patchEntries (entries.filter fun entry => entry.1 ≠ key) rest
      | value =>
          patchEntries (setEntry key (mergePatch ((Json.obj entries).get? key) value) entries) rest

end

section Walk

variable {f g : Option Json → Json → Json} {entries patch : List (String × Json)} {key : String}
  {value : Json}

theorem get?_obj_cons {entry : String × Json} : (Json.obj (entry :: entries)).get? key =
    if entry.1 = key then some entry.2 else (Json.obj entries).get? key := by
  simp only [get?, List.find?_cons]
  by_cases same : entry.1 = key <;> simp [same]

theorem get?_patchEntry_null :
    (Json.obj (patchEntry f entries (key, .null))).get? key = none := by
  simp [patchEntry, get?]

theorem get?_patchEntry (some_ : value ≠ .null) :
    (Json.obj (patchEntry f entries (key, value))).get? key =
      some (f ((Json.obj entries).get? key) value) := by
  cases value with
  | null => exact absurd rfl some_
  | _ => exact get?_set

theorem get?_patchEntry_of_ne {entry : String × Json} (ne : entry.1 ≠ key) :
    (Json.obj (patchEntry f entries entry)).get? key = (Json.obj entries).get? key := by
  obtain ⟨other, value⟩ := entry
  cases value with
  | null =>
    simp only [patchEntry, get?, List.find?_filter]
    congr 2
    funext e
    by_cases same : e.1 = key
    · simp [same, Ne.symm ne]
    · simp [same]
  | _ => exact get?_set_of_ne (.obj entries) ne

/-- Keys the patch does not have keep their values. -/
theorem get?_foldl_of_notMem (absent : key ∉ patch.map Prod.fst) :
    (Json.obj (patch.foldl (patchEntry f) entries)).get? key = (Json.obj entries).get? key := by
  induction patch generalizing entries with
  | nil => rfl
  | cons entry rest ih =>
    obtain ⟨ne, absent⟩ := not_or.mp (List.mem_cons.not.mp absent)
    rw [List.foldl_cons, ih absent, get?_patchEntry_of_ne (Ne.symm ne)]

/-- What a patch with distinct keys leaves under one of them. -/
theorem get?_foldl (distinct : (patch.map Prod.fst).Nodup) (mem : (key, value) ∈ patch) :
    (Json.obj (patch.foldl (patchEntry f) entries)).get? key =
      if value.isNull then none else some (f ((Json.obj entries).get? key) value) := by
  induction patch generalizing entries with
  | nil => cases mem
  | cons entry rest ih =>
    obtain ⟨fresh, distinct⟩ := List.nodup_cons.mp distinct
    rw [List.foldl_cons]
    rcases List.mem_cons.mp mem with rfl | mem
    · rw [get?_foldl_of_notMem fresh]
      cases value with
      | null => exact get?_patchEntry_null
      | _ => exact get?_patchEntry (by nofun)
    · have ne : entry.1 ≠ key := fun same => fresh (same ▸ List.mem_map_of_mem mem)
      rw [ih distinct mem, get?_patchEntry_of_ne ne]

/-- Two ways to make members give the same object where they agree on the members. -/
theorem foldl_patchEntry_congr (distinct : (patch.map Prod.fst).Nodup)
    (agree : ∀ entry ∈ patch, f ((Json.obj entries).get? entry.1) entry.2 =
      g ((Json.obj entries).get? entry.1) entry.2) :
    patch.foldl (patchEntry f) entries = patch.foldl (patchEntry g) entries := by
  induction patch generalizing entries with
  | nil => rfl
  | cons entry rest ih =>
    obtain ⟨fresh, distinct⟩ := List.nodup_cons.mp distinct
    have first : patchEntry f entries entry = patchEntry g entries entry := by
      obtain ⟨key, value⟩ := entry
      have same := agree _ List.mem_cons_self
      cases value with
      | null => rfl
      | _ => exact congrArg (setEntry key · entries) same
    rw [List.foldl_cons, List.foldl_cons, first]
    refine ih distinct fun other mem => ?_
    have ne : entry.1 ≠ other.1 := fun same => fresh (same ▸ List.mem_map_of_mem mem)
    rw [get?_patchEntry_of_ne ne]
    exact agree other (List.mem_cons_of_mem _ mem)

theorem patchEntries_eq_foldl (entries patch : List (String × Json)) :
    patchEntries entries patch = patch.foldl (patchEntry mergePatch) entries := by
  induction patch generalizing entries with
  | nil => rw [patchEntries, List.foldl_nil]
  | cons entry rest ih =>
    obtain ⟨key, value⟩ := entry
    cases value with
    | null => exact ih _
    | _ => exact ih _

/-- A member that is there with this value stays as it is. -/
theorem setEntry_self (found : (Json.obj entries).get? key = some value) :
    setEntry key value entries = entries := by
  induction entries with
  | nil => cases found
  | cons entry rest ih =>
    rw [get?_obj_cons] at found
    rw [setEntry]
    split
    · rename_i same
      rw [if_pos same, Option.some.injEq] at found
      rw [← found, ← same]
    · rename_i ne
      rw [if_neg ne] at found
      rw [ih found]

theorem setEntry_fresh (fresh : key ∉ entries.map Prod.fst) :
    setEntry key value entries = entries ++ [(key, value)] := by
  induction entries with
  | nil => rfl
  | cons entry rest ih =>
    obtain ⟨ne, fresh⟩ := not_or.mp (List.mem_cons.not.mp fresh)
    rw [setEntry, if_neg (Ne.symm ne), ih fresh]
    rfl

theorem get?_eq_none : (Json.obj entries).get? key = none ↔ key ∉ entries.map Prod.fst := by
  rw [get?, Option.map_eq_none_iff, List.find?_eq_none]
  constructor
  · intro none_ mem
    obtain ⟨entry, mem, same⟩ := List.mem_map.mp mem
    exact none_ entry mem (decide_eq_true same)
  · intro absent entry mem same
    exact absent (List.mem_map.mpr ⟨entry, mem, of_decide_eq_true same⟩)

theorem get?_of_mem (distinct : (entries.map Prod.fst).Nodup) (mem : (key, value) ∈ entries) :
    (Json.obj entries).get? key = some value := by
  induction entries with
  | nil => cases mem
  | cons entry rest ih =>
    obtain ⟨fresh, distinct⟩ := List.nodup_cons.mp distinct
    rw [get?_obj_cons]
    rcases List.mem_cons.mp mem with rfl | mem
    · exact if_pos rfl
    · rw [if_neg, ih distinct mem]
      exact fun same => fresh (same ▸ List.mem_map_of_mem mem)

theorem mem_of_get? (found : (Json.obj entries).get? key = some value) : (key, value) ∈ entries := by
  obtain ⟨entry, first, rfl⟩ := Option.map_eq_some_iff.mp found
  have same : entry.1 = key := by simpa using List.find?_some first
  exact same ▸ List.mem_of_find?_eq_some first

/-- Members that are made of nothing as they are come one after the other. -/
theorem foldl_patchEntry_fresh (distinct : ((entries ++ patch).map Prod.fst).Nodup)
    (kept : ∀ entry ∈ patch, entry.2.isNull = false ∧ f none entry.2 = entry.2) :
    patch.foldl (patchEntry f) entries = entries ++ patch := by
  induction patch generalizing entries with
  | nil => exact (List.append_nil entries).symm
  | cons entry rest ih =>
    obtain ⟨key, value⟩ := entry
    have fresh : key ∉ entries.map Prod.fst := by
      rw [List.map_append, List.nodup_append] at distinct
      intro mem
      exact distinct.2.2 key mem key (by simp) rfl
    obtain ⟨some_, same⟩ := kept _ List.mem_cons_self
    have first : patchEntry f entries (key, value) = entries ++ [(key, value)] := by
      have made : patchEntry f entries (key, value) =
          setEntry key (f ((Json.obj entries).get? key) value) entries := by
        cases value with
        | null => cases some_
        | _ => rfl
      rw [made, get?_eq_none.mpr fresh, same, setEntry_fresh fresh]
    rw [List.foldl_cons, first, ih (by simpa using distinct) fun entry mem =>
      kept entry (List.mem_cons_of_mem _ mem), List.append_assoc, List.singleton_append]

/-- A patch that finds all its members as it makes them changes nothing. -/
theorem foldl_patchEntry_self
    (kept : ∀ entry ∈ patch, if entry.2.isNull then (Json.obj entries).get? entry.1 = none
      else (Json.obj entries).get? entry.1 =
        some (f ((Json.obj entries).get? entry.1) entry.2)) :
    patch.foldl (patchEntry f) entries = entries := by
  induction patch with
  | nil => rfl
  | cons entry rest ih =>
    have first : patchEntry f entries entry = entries := by
      obtain ⟨key, value⟩ := entry
      have same := kept _ List.mem_cons_self
      cases value with
      | null =>
        have absent := get?_eq_none.mp same
        refine List.filter_eq_self.mpr fun other mem => decide_eq_true ?_
        intro same
        exact absent (List.mem_map.mpr ⟨other, mem, same⟩)
      | _ => exact setEntry_self same
    rw [List.foldl_cons, first]
    exact ih fun entry mem => kept entry (List.mem_cons_of_mem _ mem)

end Walk

section Laws

def members : Option Json → List (String × Json)
  | some (.obj entries) => entries
  | _ => []

variable {target : Option Json} {patch : List (String × Json)} {j : Json}

theorem mergePatch_obj : mergePatch target (.obj patch) =
    .obj (patch.foldl (patchEntry mergePatch) (members target)) := by
  rw [← patchEntries_eq_foldl]
  cases target with
  | none => simp only [mergePatch, members]
  | some j => cases j <;> simp only [mergePatch, members]

theorem mergePatch_other (other : j.isObj = false) : mergePatch target j = j := by
  cases j with
  | obj entries => cases other
  | _ => rfl

mutual

/-- Every object that is reached through objects has each key once. -/
def Keyed : Json → Prop
  | .obj entries => (entries.map Prod.fst).Nodup ∧ KeyedEntries entries
  | _ => True

def KeyedEntries : List (String × Json) → Prop
  | [] => True
  | (_, value) :: rest => Keyed value ∧ KeyedEntries rest

end

theorem keyedEntries_iff : KeyedEntries patch ↔ ∀ entry ∈ patch, Keyed entry.2 := by
  induction patch with
  | nil => simp [KeyedEntries]
  | cons entry rest ih => rw [KeyedEntries, ih, List.forall_mem_cons]

theorem keyed_obj : Keyed (.obj patch) ↔
    (patch.map Prod.fst).Nodup ∧ ∀ entry ∈ patch, Keyed entry.2 := by
  rw [Keyed, keyedEntries_iff]

mutual

def noNulls : Json → Bool
  | .obj entries => noNullsEntries entries
  | _ => true

def noNullsEntries : List (String × Json) → Bool
  | [] => true
  | (_, value) :: rest => !value.isNull && noNulls value && noNullsEntries rest

end

theorem noNulls_obj : noNulls (.obj patch) ↔
    ∀ entry ∈ patch, entry.2.isNull = false ∧ noNulls entry.2 := by
  rw [noNulls]
  induction patch with
  | nil => simp [noNullsEntries]
  | cons entry rest ih =>
    simp only [noNullsEntries, Bool.and_eq_true, Bool.not_eq_true', ih, List.forall_mem_cons]

/-- What is patched into nothing stays as it is, without nulls. -/
theorem mergePatch_of_noNulls (keyed : Keyed j) (bare : members target = []) (none_ : noNulls j) :
    mergePatch target j = j := by
  induction j using memberInduction generalizing target with
  | other j other => exact mergePatch_other other
  | object patch ih =>
    obtain ⟨distinct, inner⟩ := keyed_obj.mp keyed
    rw [mergePatch_obj, bare, foldl_patchEntry_fresh (by simpa using distinct), List.nil_append]
    intro entry mem
    obtain ⟨some_, none_⟩ := noNulls_obj.mp none_ entry mem
    exact ⟨some_, ih entry mem (inner entry mem) rfl none_⟩

/-- To patch once more changes nothing. -/
theorem mergePatch_idem (keyed : Keyed j) (target : Option Json) :
    mergePatch (some (mergePatch target j)) j = mergePatch target j := by
  induction j using memberInduction generalizing target with
  | other j other => rw [mergePatch_other other, mergePatch_other other]
  | object patch ih =>
    obtain ⟨distinct, inner⟩ := keyed_obj.mp keyed
    rw [mergePatch_obj, mergePatch_obj]
    congr 1
    refine foldl_patchEntry_self fun entry mem => ?_
    have found : (Json.obj (patch.foldl (patchEntry mergePatch) (members target))).get? entry.1 =
      _ := get?_foldl distinct mem
    split
    · rename_i null
      rwa [if_pos null] at found
    · rename_i some_
      rw [if_neg some_] at found
      simp only [members] at found ⊢
      rw [found, ih entry mem (inner entry mem)]

def at? : List String → Json → Option Json
  | [], j => some j
  | key :: path, j => (j.get? key).bind (at? path)

theorem exists_null (keyed : Keyed j) (some_ : noNulls j = false) :
    ∃ path, path ≠ [] ∧ at? path j = some .null := by
  induction j using memberInduction with
  | other j other =>
    cases j with
    | obj entries => cases other
    | _ => cases some_
  | object patch ih =>
    obtain ⟨distinct, inner⟩ := keyed_obj.mp keyed
    have found : ∃ entry ∈ patch, entry.2.isNull = false → noNulls entry.2 = false := by
      by_contra all
      push Not at all
      have none_ : noNulls (.obj patch) := noNulls_obj.mpr fun entry mem =>
        ⟨(all entry mem).1, by simpa using (all entry mem).2⟩
      rw [none_] at some_
      cases some_
    obtain ⟨⟨key, value⟩, mem, null⟩ := found
    cases value with
    | null => exact ⟨[key], by simp, by simp [at?, get?_of_mem distinct mem]⟩
    | _ =>
      obtain ⟨path, -, at_⟩ := ih _ mem (inner _ mem) (null rfl)
      exact ⟨key :: path, by simp, by simpa [at?, get?_of_mem distinct mem] using at_⟩

/-- What a patch has as null is not there afterwards. -/
theorem mergePatch_deletes (keyed : Keyed j) {path : List String} (below : path ≠ [])
    (null : at? path j = some .null) : at? path (mergePatch target j) = none := by
  induction j using memberInduction generalizing target path with
  | other j other =>
    obtain ⟨key, path, rfl⟩ := List.exists_cons_of_ne_nil below
    cases j with
    | obj entries => cases other
    | _ => cases null
  | object patch ih =>
    obtain ⟨key, path, rfl⟩ := List.exists_cons_of_ne_nil below
    obtain ⟨distinct, inner⟩ := keyed_obj.mp keyed
    obtain ⟨value, found, null⟩ := Option.bind_eq_some_iff.mp null
    have mem := mem_of_get? found
    rw [mergePatch_obj, at?, get?_foldl distinct mem]
    split
    · rfl
    · rename_i some_
      rw [Option.bind_some]
      refine ih (key, value) mem (inner _ mem) ?_ null
      rintro rfl
      cases null
      exact some_ rfl

end Laws

end Deeting.Json
