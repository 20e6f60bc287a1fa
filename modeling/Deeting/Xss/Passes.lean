import Deeting.Xss.Safety
import Mathlib.Logic.Function.Iterate

/-! Passes of `sanitize_string` over a text and of `sanitize_input` over nested data, one after the
other. -/
namespace Deeting.Xss
open Html Scanning

section Nested

variable (chars : Characters) (table : Names)

mutual

def inside : Json → List String
  | .str text => [text]
  | .arr items => insideItems items
  | .obj entries => insideEntries entries
  | _ => []

def insideItems : List Json → List String
  | [] => []
  | item :: rest => inside item ++ insideItems rest

def insideEntries : List (String × Json) → List String
  | [] => []
  | (key, value) :: rest => key :: (inside value ++ insideEntries rest)

end

mutual

/-- The texts that are given to `sanitize_string`, but for those of a value that a later one of the
same key overwrites. -/
def given : Json → List String
  | .str text => [String.ofList (removeScripts text.toList)]
  | .arr items => givenItems items
  | .obj entries => givenEntries entries
  | _ => []

def givenItems : List Json → List String
  | [] => []
  | item :: rest => given item ++ givenItems rest

def givenEntries : List (String × Json) → List String
  | [] => []
  | (key, value) :: rest =>
    key :: ((if sanitizeString chars table key ∈ (sanitizeEntries chars table rest).map Prod.fst
      then [] else given value) ++ givenEntries rest)

end

variable {chars table} {t : String}

theorem mem_insideEntries {entries : List (String × Json)} :
    t ∈ insideEntries entries ↔ ∃ entry ∈ entries, t = entry.1 ∨ t ∈ inside entry.2 := by
  induction entries with
  | nil => simp [insideEntries]
  | cons entry rest ih => simp [insideEntries, ih, or_assoc]

mutual

/-- What is inside of the result is what `sanitize_string` makes of the texts that it is given. -/
theorem mem_inside_sanitizeInput (x : Json) : t ∈ inside (sanitizeInput chars table x) ↔
    t ∈ (given chars table x).map (sanitizeString chars table) := by
  cases x with
  | str text => simp [sanitizeInput, inside, given]
  | arr items =>
    rw [sanitizeInput, inside, given]
    exact mem_inside_sanitizeItems items
  | obj entries =>
    rw [sanitizeInput, inside, given, ← mem_inside_sanitizeEntries entries, mem_insideEntries]
    refine exists_congr fun entry => and_congr_left fun _ => ?_
    obtain ⟨key, value⟩ := entry
    rw [Dict.mem_foldl_set]
    simp [Table.empty]
  | _ => simp [sanitizeInput, inside, given]

theorem mem_inside_sanitizeItems (items : List Json) :
    t ∈ insideItems (sanitizeItems chars table items) ↔
      t ∈ (givenItems chars table items).map (sanitizeString chars table) := by
  cases items with
  | nil => simp [sanitizeItems, insideItems, givenItems]
  | cons item rest =>
    rw [sanitizeItems, insideItems, givenItems, List.mem_append, List.map_append, List.mem_append,
      mem_inside_sanitizeInput item, mem_inside_sanitizeItems rest]

theorem mem_inside_sanitizeEntries (entries : List (String × Json)) :
    (∃ entry ∈ Dict.settled (sanitizeEntries chars table entries),
        t = entry.1 ∨ t ∈ inside entry.2) ↔
      t ∈ (givenEntries chars table entries).map (sanitizeString chars table) := by
  cases entries with
  | nil => simp [sanitizeEntries, Dict.settled, givenEntries]
  | cons entry rest =>
    obtain ⟨key, value⟩ := entry
    have later := mem_inside_sanitizeEntries rest
    rw [sanitizeEntries, Dict.settled, givenEntries, List.map_cons, List.mem_cons, List.map_append,
      List.mem_append, ← later]
    dsimp only
    split
    · rename_i again
      rw [List.map_nil]
      constructor
      · exact fun there => .inr (.inr there)
      · rintro (rfl | wrong | there)
        · obtain ⟨entry, mem, same⟩ := List.mem_map.mp (Dict.mem_keys_settled.mpr again)
          exact ⟨entry, mem, .inl same.symm⟩
        · cases wrong
        · exact there
    · rw [← mem_inside_sanitizeInput value]
      simp [or_assoc]

end

end Nested

section Passes

variable (chars : Characters) (table : Names)

/-- A text that is given to `sanitize_string` in one of so many passes over a text and over data. -/
def Given (passes : ℕ) (s : String) (x : Json) (text : String) : Prop :=
  ∃ k < passes, text = (sanitizeString chars table)^[k] s ∨
    text ∈ given chars table ((sanitizeInput chars table)^[k] x)

def Made (passes : ℕ) (s : String) (x : Json) (text : String) : Prop :=
  ∃ k < passes, text = (sanitizeString chars table)^[k + 1] s ∨
    text ∈ inside ((sanitizeInput chars table)^[k + 1] x)

variable {chars table} {passes : ℕ} {s text : String} {x : Json}

theorem made_iff : Made chars table passes s x text ↔
    ∃ source, Given chars table passes s x source ∧ text = sanitizeString chars table source := by
  constructor
  · rintro ⟨k, less, same | mem⟩
    · rw [Function.iterate_succ_apply'] at same
      exact ⟨_, ⟨k, less, .inl rfl⟩, same⟩
    · rw [Function.iterate_succ_apply', mem_inside_sanitizeInput] at mem
      obtain ⟨source, among, rfl⟩ := List.mem_map.mp mem
      exact ⟨source, ⟨k, less, .inr among⟩, rfl⟩
  · rintro ⟨source, ⟨k, less, rfl | among⟩, rfl⟩
    · exact ⟨k, less, .inl (Function.iterate_succ_apply' ..).symm⟩
    · refine ⟨k, less, .inr ?_⟩
      rw [Function.iterate_succ_apply', mem_inside_sanitizeInput]
      exact List.mem_map_of_mem among

theorem sanitized_safe (chars : Characters) (table : Names) (passes : ℕ) (s : String) (x : Json) :
    ((∀ text, Given chars table passes s x text → Sound chars table text) →
      ∀ text, Made chars table passes s x text → Safe table text) ∧
    ((∀ text, Given chars table passes s x text → TameText chars table text) →
      (∀ text, Made chars table passes s x text → Safe table text) →
        ∀ text, Given chars table passes s x text → Sound chars table text) := by
  constructor
  · intro sound text made
    obtain ⟨source, here, rfl⟩ := made_iff.mp made
    have first := sound source here
    exact (sanitizeString_safe_iff (tameText_of_sound first)).mpr first
  · intro tame safe text here
    exact (sanitizeString_safe_iff (tame text here)).mp (safe _ (made_iff.mpr ⟨text, here, rfl⟩))

end Passes

theorem eq_slash_of_toLower {c : Char} (lower : c.toLower = '/') : c = '/' := by
  unfold Char.toLower at lower
  split at lower
  · rename_i large
    have value : (c.val + ('a'.val - 'A'.val)).toNat = 47 := congrArg Char.toNat lower
    have sum := UInt32.toNat_add c.val ('a'.val - 'A'.val)
    have : 'A'.val.toNat = 65 := rfl
    have : 'Z'.val.toNat = 90 := rfl
    have : ('a'.val - 'A'.val).toNat = 32 := rfl
    simp only [UInt32.le_iff_toNat_le, ge_iff_le] at large
    omega
  · exact lower

def ascii : Characters where
  isWord c := c.isAlphanum || c = '_'
  lower := List.map Char.toLower
  word_letter c letter := by simp [Char.isAlphanum, letter]
  not_word := by decide
  lower_slash text mem := by
    obtain ⟨c, among, lower⟩ := List.mem_map.mp mem
    exact eq_slash_of_toLower lower ▸ among

def someNames : Names := fun name => if name = "amp;".toList then some ['&'] else none

def page : String := "<a href=\"/x\">y</a>"

theorem keptTags_page : keptTags ascii someNames page =
    [⟨false, ['a'], " href=\"/x\"".toList⟩, ⟨true, ['a'], []⟩] := by
  decide +kernel

theorem sound_page : Sound ascii someNames page := by
  rw [Sound, keptTags_page]
  simp only [List.forall_mem_cons]
  refine ⟨?_, ?_, fun _ mem => nomatch mem⟩
  · have kept : filteredAttrs ascii ⟨false, ['a'], " href=\"/x\"".toList⟩ =
        [⟨"href".toList, some '"', "/x".toList⟩] := by decide +kernel
    have read : (tagOf ascii ⟨false, ['a'], " href=\"/x\"".toList⟩).shown =
        [("href".toList, "/x".toList)] := by decide +kernel
    refine ⟨by rw [kept]; trivial, ?_⟩
    rw [read]
    simp only [List.forall_mem_singleton]
    intro _ masked
    exact absurd masked (by decide +kernel)
  · exact ⟨trivial, fun _ mem => nomatch mem⟩

theorem page_safe : Safe someNames (sanitizeString ascii someNames page) := by
  have data : ∀ k < 2, (sanitizeString ascii someNames)^[k] page = page ∧
      given ascii someNames ((sanitizeInput ascii someNames)^[k] (.obj [(page, .str page)])) =
        [page, page] := by decide +kernel
  refine (sanitized_safe ascii someNames 2 page (.obj [(page, .str page)])).1 ?_ _
    ⟨0, Nat.zero_lt_two, .inl rfl⟩
  rintro text ⟨k, less, same | mem⟩
  · rw [same, (data k less).1]
    exact sound_page
  · rw [(data k less).2] at mem
    have same : text = page := by simpa using mem
    rw [same]
    exact sound_page

theorem link_runs :
    ¬ Safe someNames
      (sanitizeString ascii someNames "<a href=\"java\tscript:alert(1)\">x</a>") ∧
    ¬ Safe someNames
      (sanitizeString ascii someNames "<a href= title=\" onclick=alert(1) \">x</a>") := by
  constructor
  · have read : tags (sanitizeString ascii someNames
        "<a href=\"java\tscript:alert(1)\">x</a>").toList =
          [⟨false, ['a'], [("href".toList, "java\tscript:alert(1)".toList)]⟩, ⟨true, ['a'], []⟩] := by
      decide +kernel
    have scheme : scheme? (decodeValue someNames "java\tscript:alert(1)".toList) =
        some "javascript".toList := by decide +kernel
    intro safe
    rw [Safe, read] at safe
    exact (safe _ List.mem_cons_self).urls ("href".toList, "java\tscript:alert(1)".toList)
      (by decide +kernel) (.inr rfl) ⟨"javascript", by decide, scheme⟩
  · have read : tags (sanitizeString ascii someNames
        "<a href= title=\" onclick=alert(1) \">x</a>").toList =
          [⟨false, ['a'], [("href".toList, "title=\"".toList), ("onclick".toList, "alert(1)".toList),
            (['"'], [])]⟩, ⟨true, ['a'], []⟩] := by
      decide +kernel
    intro safe
    rw [Safe, read] at safe
    obtain ⟨allowed, given, named⟩ := (safe _ List.mem_cons_self).attributes
      ("onclick".toList, "alert(1)".toList) (by decide +kernel)
    obtain rfl : ["href", "title", "target"] = allowed := Option.some.inj given
    exact absurd named (by decide +kernel)

end Deeting.Xss
