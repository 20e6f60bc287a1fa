import Deeting.Html.Schemes
import Deeting.Xss.Reading

/-! What a browser can run of a sanitized text: nothing, but for a URL that it reads otherwise than it
stands, and for a value that runs into the text behind it. -/
namespace Deeting.Xss
open Html Scanning

def scriptSchemes : List String := ["javascript", "vbscript", "data"]

def IsUrl (name : List Char) : Prop := name = "src".toList ∨ name = "href".toList

section Browser

variable (table : Names)

def ScriptUrl (value : List Char) : Prop :=
  ∃ scheme ∈ scriptSchemes, scheme? (decodeValue table value) = some scheme.toList

structure SafeTag (t : Tag) : Prop where
  name : allowedTag t.name
  attributes : ∀ field ∈ t.attributes, ∃ allowed,
    allowedAttributes t.name = some allowed ∧ allowed.any fun name => name.toList = field.1
  urls : ∀ field ∈ t.shown, IsUrl field.1 → ¬ ScriptUrl table field.2

def Safe (text : String) : Prop := ∀ t ∈ tags text.toList, SafeTag table t

end Browser

section Texts

variable (chars : Characters) (table : Names)

def keptTags (text : String) : List TagMatch :=
  shown chars .data (pieces (tagMatches chars) (decoded table text.toList))

/-- No URL is kept that has one of the schemes only as a browser reads it, and no value with white
space in it follows one that was left out. -/
structure SoundTag (m : TagMatch) : Prop where
  fits : Fits (filteredAttrs chars m)
  unmasked : ∀ field ∈ (tagOf chars m).shown, IsUrl field.1 → field.2.any masking →
    ¬ ScriptUrl table field.2

def Sound (text : String) : Prop := ∀ m ∈ keptTags chars table text, SoundTag chars table m

/-- What is behind the white space of such a value has no `=`. -/
def TameText (text : String) : Prop := ∀ m ∈ keptTags chars table text, Tame (filteredAttrs chars m)

variable {chars table} {text : String} {m : TagMatch} {t : Tag}

theorem sanitizeChars_eq (text : List Char) : sanitizeChars chars table text =
    sub (tagMatches chars) (replaceTag chars) (decoded table text) := by
  unfold sanitizeChars stripHtmlTags
  split
  · rename_i empty
    subst empty
    rfl
  · split
    · rename_i none
      rw [none]
      rfl
    · rfl

theorem tameText_of_sound (sound : Sound chars table text) : TameText chars table text :=
  fun m mem => tame_of_fits (sound m mem).fits

theorem tags_sanitizeString (tame : TameText chars table text) :
    List.Forall₂ (ReadAs chars) (keptTags chars table text)
      (tags (sanitizeString chars table text).toList) := by
  rw [sanitizeString, String.toList_ofList, sanitizeChars_eq]
  exact readTags_sub trivial tame

theorem not_scriptUrl {name value : List Char} (url : IsUrl name)
    (plain : value.any masking = false) (safe : isSafeAttrValue name value) :
    ¬ ScriptUrl table value := by
  rintro ⟨scheme, among, read⟩
  have clear : ∀ c ∈ value, masking c = false := by simpa using plain
  rw [decodeValue_plain table clear] at read
  have occurs := occursIn_of_scheme clear read
  have protocol : ∀ scheme ∈ scriptSchemes, ∃ word ∈ protocols,
      word.toList = scheme.toList ++ [':'] := by decide
  obtain ⟨word, known, same⟩ := protocol scheme among
  have found : hasProtocol value :=
    List.any_eq_true.mpr ⟨word, known, by rw [same]; exact occurs⟩
  have checked : name = "src".toList ∨ name = "href".toList ∨ name = "action".toList :=
    url.imp_right .inl
  rw [isSafeAttrValue, if_pos checked, found] at safe
  cases safe

theorem formed_of_keptTags (mem : m ∈ keptTags chars table text) :
    m.Formed ∧ allowedTag (chars.lower m.name) := by
  obtain ⟨among, allowed⟩ := formed_of_shown mem
  have found : m ∈ findAll (tagMatches chars) (decoded table text.toList) :=
    List.mem_filterMap.mpr ⟨_, among, rfl⟩
  have formed := forall_findAll (S := fun _ => True)
    (fun text m rest _ found => ⟨(tagAt_found chars found).2, trivial⟩)
    (fun _ _ _ => trivial) trivial m found
  exact ⟨formed, allowed⟩

theorem safeTag_iff (formed : m.Formed) (allowed : allowedTag (chars.lower m.name)) :
    SafeTag table (tagOf chars m) ↔ ∀ field ∈ (tagOf chars m).shown, IsUrl field.1 →
      field.2.any masking → ¬ ScriptUrl table field.2 := by
  constructor
  · exact fun safe field mem url _ => safe.urls field mem url
  · intro unmasked
    refine ⟨allowed, ?_, ?_⟩
    · intro field mem
      obtain ⟨a, among, named, -⟩ := mem_readBack mem
      rw [← named]
      exact (mem_filteredAttrs chars among).1
    · intro field mem url
      cases plain : field.2.any masking with
      | true => exact unmasked field mem url plain
      | false =>
        have inside : field ∈ readBack (filteredAttrs chars m) := by
          rw [Tag.shown] at mem
          split at mem
          · cases mem
          · exact Upserting.mem_of_mem_firsts mem
        obtain ⟨a, among, named, same | none | ⟨b, other, spelled⟩⟩ := mem_readBack inside
        · have safe := (mem_filteredAttrs chars among).2.1
          rw [named, same] at safe
          exact not_scriptUrl url plain safe
        · rintro ⟨scheme, -, read⟩
          rw [none] at read
          cases read
        · rintro ⟨scheme, -, read⟩
          rw [spelled, scheme?_spell table (filteredAttrs_formed chars formed.attrs b other)] at read
          cases read

theorem safeTag_iff_soundTag (formed : m.Formed) (allowed : allowedTag (chars.lower m.name))
    (read : ReadAs chars m t) : SafeTag table t ↔ SoundTag chars table m := by
  by_cases fits : Fits (filteredAttrs chars m)
  · rw [read.fits fits, safeTag_iff formed allowed]
    exact ⟨fun unmasked => ⟨fits, unmasked⟩, SoundTag.unmasked⟩
  · constructor
    · intro safe
      obtain ⟨field, mem, wrong⟩ := read.spilled fits
      obtain ⟨names, given, named⟩ := safe.attributes field mem
      exact absurd (plain_of_allowedAttribute given named).1 wrong
    · exact fun sound => absurd sound.fits fits

theorem forall_iff_of_forall₂ {α β : Type} {R : α → β → Prop} {P : α → Prop} {Q : β → Prop}
    {l : List α} {r : List β} (related : List.Forall₂ R l r)
    (same : ∀ a ∈ l, ∀ b, R a b → (Q b ↔ P a)) : (∀ b ∈ r, Q b) ↔ ∀ a ∈ l, P a := by
  induction related with
  | nil => simp
  | cons first _ ih =>
    obtain ⟨here, later⟩ := List.forall_mem_cons.mp same
    rw [List.forall_mem_cons, List.forall_mem_cons, here _ first, ih later]

theorem sanitizeString_safe_iff (tame : TameText chars table text) :
    Safe table (sanitizeString chars table text) ↔ Sound chars table text := by
  apply forall_iff_of_forall₂ (tags_sanitizeString tame)
  intro m mem t read
  obtain ⟨formed, allowed⟩ := formed_of_keptTags mem
  exact safeTag_iff_soundTag formed allowed read

end Texts
end Deeting.Xss
