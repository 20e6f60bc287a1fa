import Deeting.Xss.Sanitizer
import Mathlib.Data.List.TakeWhile

/-! What a browser reads of a sanitized text: the tags that were kept, where no comment hides them,
each with the attributes that were kept, as long as no value runs into the text of another. -/
namespace Deeting.Xss
open Html Scanning

section Names

variable {name : List Char}

/-- The tags of the whitelist are written with letters and digits, but for the `br/` that no match
can have. -/
theorem plain_of_allowedTag (allowed : allowedTag name) (solid : '/' ∉ name) :
    Plain name ∧ name.head?.any Char.isAlpha := by
  obtain ⟨tag, mem, same⟩ := List.any_eq_true.mp allowed
  obtain rfl := of_decide_eq_true same
  have each : ∀ tag ∈ htmlWhitelist, tag.toList.contains '/' ∨
      tag.toList.all nameChar ∧ tag.toList.head?.any Char.isAlpha := by decide
  obtain slash | plain := each tag mem
  · exact absurd (List.contains_iff_mem.mp slash) solid
  · exact plain

theorem plain_of_allowedAttribute {tag : List Char} {allowed : List String}
    (given : allowedAttributes tag = some allowed)
    (mem : allowed.any fun field => field.toList = name) : Plain name ∧ name ≠ [] := by
  obtain ⟨entry, here, rfl⟩ := Option.map_eq_some_iff.mp given
  obtain ⟨field, among, same⟩ := List.any_eq_true.mp mem
  obtain rfl := of_decide_eq_true same
  have each : ∀ entry ∈ htmlAttributesWhitelist, ∀ field ∈ entry.2,
      field.toList.all nameChar ∧ field.toList ≠ [] := by decide
  exact each entry (List.mem_of_find?_eq_some here) field among

end Names

section Attributes

variable (chars : Characters) {text rest : List Char} {m : TagMatch}

theorem attrValue_formed (name : List Char) (clear : '>' ∉ text) :
    '>' ∉ (attrValue name text).1.value ∧ '>' ∉ (attrValue name text).2 ∧
      (∀ q ∈ (attrValue name text).1.quote, (q = '"' ∨ q = '\'') ∧
        q ∉ (attrValue name text).1.value) ∧
      ((attrValue name text).1.quote = none → (attrValue name text).1.value = []) := by
  unfold attrValue
  split
  · simp
  · rename_i c body
    rw [List.mem_cons, not_or] at clear
    split
    · rename_i quote
      dsimp only
      split
      · refine ⟨fun mem => clear.2 ((List.takeWhile_sublist _).mem mem),
          fun mem => clear.2 (List.mem_of_mem_drop mem), ?_, fun none => nomatch none⟩
        rintro q ⟨⟩
        refine ⟨quote, fun mem => ?_⟩
        have wrong := List.mem_takeWhile_imp mem
        simp at wrong
      · simp [clear]
    · simp [clear]

theorem attrAt_formed (clear : '>' ∉ text) {a : Attr} (found : attrAt chars text = some (a, rest)) :
    ('>' ∉ a.value ∧ (∀ q ∈ a.quote, (q = '"' ∨ q = '\'') ∧ q ∉ a.value) ∧
      (a.quote = none → a.value = [])) ∧ '>' ∉ rest := by
  unfold attrAt at found
  dsimp only at found
  split at found
  · cases found
  · split at found
    · rename_i more assigned
      have behind : '>' ∉ more.dropWhile Stream.isSpace := by
        intro mem
        have inside : '>' ∈ '=' :: more :=
          List.mem_cons_of_mem _ ((List.dropWhile_sublist _).mem mem)
        rw [← assigned] at inside
        exact clear ((List.dropWhile_sublist _).mem ((List.dropWhile_sublist _).mem inside))
      obtain ⟨value, left, quoted, bare⟩ :=
        attrValue_formed (text.takeWhile chars.isWord) behind
      rw [Option.some.inj found] at value left quoted bare
      exact ⟨⟨value, quoted, bare⟩, left⟩
    · cases found

theorem mem_filteredAttrs {a : Attr} (mem : a ∈ filteredAttrs chars m) :
    (∃ allowed, allowedAttributes (chars.lower m.name) = some allowed ∧
      allowed.any fun name => name.toList = a.name) ∧ isSafeAttrValue a.name a.value ∧
      ∃ b ∈ findAll (attrs chars) m.attrs, a = { b with name := chars.lower b.name } := by
  unfold filteredAttrs at mem
  split at mem
  · rename_i allowed given
    split at mem
    · cases mem
    · obtain ⟨found, among, kept⟩ := List.mem_filterMap.mp mem
      unfold keepAttr at kept
      dsimp only at kept
      split at kept
      · rename_i sound
        obtain rfl := Option.some.inj kept
        obtain ⟨named, safe⟩ := Bool.and_eq_true_iff.mp sound
        exact ⟨⟨allowed, given, named⟩, safe, found, among, rfl⟩
      · cases kept
  · cases mem

theorem filteredAttrs_formed (clear : '>' ∉ m.attrs) :
    ∀ a ∈ filteredAttrs chars m, a.Formed := by
  intro a mem
  obtain ⟨⟨allowed, given, named⟩, -, b, among, rfl⟩ := mem_filteredAttrs chars mem
  have formed := forall_findAll (S := fun text => '>' ∉ text)
    (fun text b rest clear found => attrAt_formed chars clear found)
    (fun a text clear mem => clear (List.mem_cons_of_mem a mem)) clear b among
  exact ⟨plain_of_allowedAttribute given named, formed.1, formed.2.1, formed.2.2⟩

end Attributes

section Matches

variable (chars : Characters) {text rest : List Char} {c : Char} {closing : Bool} {m : TagMatch}

def Unended (text : List Char) : Prop := text.head?.any Char.isAlpha → '>' ∉ text

theorem unended_of_tagBody (none : tagBody chars closing text = none) : Unended text := by
  intro letter mem
  obtain ⟨c, more, rfl⟩ : ∃ c more, text = c :: more := by
    cases text with
    | nil => cases letter
    | cons c more => exact ⟨c, more, rfl⟩
  have word : chars.isWord c := chars.word_letter c (by simpa using letter)
  have named : (c :: more).takeWhile chars.isWord ≠ [] := by simp [word]
  unfold tagBody at none
  dsimp only at none
  split at none
  · rename_i missing
    have behind := missing.resolve_left named
    rw [← List.takeWhile_append_dropWhile (p := chars.isWord) (l := c :: more), List.mem_append]
      at mem
    have wrong := List.mem_takeWhile_imp (mem.resolve_right behind)
    rw [chars.not_word.2] at wrong
    cases wrong
  · cases none

theorem unended_of_tagAt (none : tagAt chars ('<' :: text) = none) :
    Unended text ∧ ∀ more, text = '/' :: more → Unended more := by
  unfold tagAt at none
  split at none
  · rename_i more same
    obtain rfl := (List.cons.inj same).2
    refine ⟨fun letter => (nomatch letter), ?_⟩
    rintro more ⟨⟩
    exact unended_of_tagBody chars none
  · rename_i other same
    obtain rfl := (List.cons.inj same).2
    exact ⟨unended_of_tagBody chars none, fun more slash => absurd slash (other more)⟩
  · rename_i other
    exact absurd rfl (other text)

structure TagMatch.Formed (m : TagMatch) : Prop where
  attrs : '>' ∉ m.attrs
  name : '/' ∉ m.name

theorem tagBody_found (found : tagBody chars closing text = some (m, rest)) :
    '>' ∈ text ∧ m.Formed := by
  unfold tagBody at found
  dsimp only at found
  split at found
  · cases found
  · rename_i there
    obtain ⟨rfl, -⟩ := Prod.mk.inj (Option.some.inj found)
    refine ⟨(List.dropWhile_sublist _).mem (not_not.mp (not_or.mp there).2), ⟨?_, ?_⟩⟩
    · intro mem
      have wrong := List.mem_takeWhile_imp mem
      simp at wrong
    · intro mem
      have wrong := List.mem_takeWhile_imp mem
      rw [chars.not_word.1] at wrong
      cases wrong

theorem tagAt_found (found : tagAt chars text = some (m, rest)) :
    '>' ∈ text ∧ m.Formed := by
  unfold tagAt at found
  split at found
  · obtain ⟨close, spec⟩ := tagBody_found chars found
    exact ⟨List.mem_cons_of_mem _ (List.mem_cons_of_mem _ close), spec⟩
  · obtain ⟨close, spec⟩ := tagBody_found chars found
    exact ⟨List.mem_cons_of_mem _ close, spec⟩
  · cases found

end Matches

section Replaced

variable (chars : Characters) {rest : List Char} {m : TagMatch}

def tagOf (m : TagMatch) : Tag :=
  ⟨m.closing, chars.lower m.name, readBack (filteredAttrs chars m)⟩

theorem spellAll_of_ne_nil {attrs : List Attr} (some : attrs ≠ []) :
    spellAll attrs = ' ' :: List.intercalate [' '] (attrs.map Attr.spell) := by
  induction attrs with
  | nil => exact absurd rfl some
  | cons a more ih =>
    cases more with
    | nil => simp [spellAll, List.intercalate]
    | cons b more =>
      have later := ih (List.cons_ne_nil b more)
      rw [spellAll, List.flatMap_cons, ← spellAll, later]
      simp [List.intercalate]

theorem replaceTag_allowed (allowed : allowedTag (chars.lower m.name)) :
    replaceTag chars m =
      writeTag m.closing (chars.lower m.name) (filteredAttrs chars m) := by
  simp only [replaceTag, allowed, Bool.not_true, Bool.false_eq_true, if_false, writeTag,
    TagMatch.slash]
  split
  · rename_i none
    simp [none, spellAll]
  · rename_i some
    rw [spellAll_of_ne_nil some]

theorem notMem_escape {d : Char} (special : d = '<' ∨ d = '>') (text : List Char) :
    d ∉ escape text := by
  intro mem
  obtain ⟨c, -, here⟩ := List.mem_flatMap.mp mem
  obtain rfl | rfl := special
  all_goals
    repeat' split at here
    all_goals first
      | exact absurd here (by decide)
      | exact absurd (List.mem_singleton.mp here).symm ‹_›

theorem replaceTag_other (other : ¬ allowedTag (chars.lower m.name)) :
    '<' ∉ replaceTag chars m ∧ '>' ∉ replaceTag chars m ∧
      ∃ more, replaceTag chars m = '&' :: more := by
  have escaped : replaceTag chars m = escape m.text := by simp [replaceTag, other]
  rw [escaped]
  exact ⟨notMem_escape (.inl rfl) _, notMem_escape (.inr rfl) _, _, rfl⟩

end Replaced

section Run

variable (chars : Characters) {s : State} {text rest : List Char} {c : Char} {m : TagMatch}

def Ready : State → List Char → Prop
  | .data, _ | .hidden _, _ => True
  | .tagOpen, text => Unended text ∧ ∀ more, text = '/' :: more → Unended more
  | .endTagOpen, text => Unended text
  | _, text => '>' ∉ text

theorem ready_of_inTag (inside : s.inTag) : Ready s text ↔ '>' ∉ text := by
  cases s <;> first | exact Iff.rfl | cases inside

theorem ready_step (none : tagAt chars (c :: text) = none) (ready : Ready s (c :: text)) :
    (step s c).2 = .none ∧ Ready (step s c).1 text := by
  have plain : Ready (fromData c) text := by
    unfold fromData
    split
    · rename_i opening
      subst opening
      exact unended_of_tagAt chars none
    · trivial
  have unended (unended : Unended (c :: text)) (letter : c.isAlpha) : '>' ∉ text :=
    fun mem => unended letter (List.mem_cons_of_mem _ mem)
  by_cases inside : s.inTag
  · rw [ready_of_inTag inside, List.mem_cons, not_or] at ready
    obtain ⟨quiet, still⟩ := step_inTag inside (Ne.symm ready.1)
    exact ⟨quiet, (ready_of_inTag still).mpr ready.2⟩
  · cases s with
    | data => exact ⟨rfl, plain⟩
    | hidden h =>
      obtain ⟨quiet, next | ⟨h', next⟩⟩ := step_hidden h c
      all_goals
        rw [next]
        exact ⟨quiet, trivial⟩
    | tagOpen =>
      refine ⟨rfl, ?_⟩
      simp only [step, fromTagOpen]
      split
      · trivial
      · split
        · rename_i slash
          exact ready.2 text (by rw [slash])
        · split
          · rename_i letter
            exact unended ready.1 letter
          · split
            · trivial
            · exact plain
    | endTagOpen =>
      refine ⟨rfl, ?_⟩
      simp only [step, fromEndTagOpen]
      split
      · rename_i letter
        exact unended ready letter
      · split <;> trivial
    | _ => exact absurd rfl inside

def Quiet (s : State) : Prop := s = .data ∨ ∃ h, s = .hidden h

theorem ready_of_quiet (quiet : Quiet s) : Ready s text := by
  obtain rfl | ⟨h, rfl⟩ := quiet <;> trivial

/-- A tag that can be read is one of the whitelist, in the text. -/
def Reads (s : State) (m : TagMatch) : Prop :=
  (s = .data ∨ s = .tagOpen) ∧ allowedTag (chars.lower m.name)

instance (s : State) (m : TagMatch) : Decidable (Reads chars s m) :=
  inferInstanceAs (Decidable (_ ∧ _))

variable {chars}

theorem lower_formed (formed : m.Formed) (allowed : allowedTag (chars.lower m.name)) :
    Plain (chars.lower m.name) ∧ (chars.lower m.name).head?.any Char.isAlpha :=
  plain_of_allowedTag allowed fun mem => formed.name (chars.lower_slash _ mem)

variable (chars) in
structure ReadAs (m : TagMatch) (t : Tag) : Prop where
  fits : Fits (filteredAttrs chars m) → t = tagOf chars m
  spilled : ¬ Fits (filteredAttrs chars m) → ∃ field ∈ t.attributes, ¬ Plain field.1

theorem read_replaced (formed : m.Formed) (reads : Reads chars s m)
    (tame : Tame (filteredAttrs chars m)) :
    ∃ t, ReadAs chars m t ∧
      readTags s (replaceTag chars m ++ rest) = t :: readTags .data rest := by
  obtain ⟨plain, alpha⟩ := lower_formed formed reads.2
  rw [replaceTag_allowed chars reads.2]
  obtain ⟨fields, read, fits, spilled⟩ :=
    read_writeTag reads.1 plain alpha (filteredAttrs_formed chars formed.attrs) tame
  refine ⟨⟨m.closing, chars.lower m.name, fields⟩, ⟨fun all => ?_, spilled⟩, read⟩
  rw [tagOf, fits all]

theorem hidden_replaced (formed : m.Formed) (h : Hidden) :
    readTags (.hidden h) (replaceTag chars m) = [] ∧
      Quiet (after (.hidden h) (replaceTag chars m)) := by
  by_cases allowed : allowedTag (chars.lower m.name)
  · rw [replaceTag_allowed chars allowed]
    exact read_hidden_writeTag h (lower_formed formed allowed).1
      (filteredAttrs_formed chars formed.attrs)
  · obtain ⟨-, clear, -⟩ := replaceTag_other chars allowed
    obtain ⟨quiet, later⟩ := readTags_hidden h clear
    exact ⟨quiet, .inr later⟩

theorem skip_replaced (formed : m.Formed) (out : s.inTag = false) (other : ¬ Reads chars s m) :
    readTags s (replaceTag chars m) = [] ∧ Quiet (after s (replaceTag chars m)) := by
  have text (reading : s = .data ∨ s = .tagOpen) :
      readTags s (replaceTag chars m) = [] ∧ Quiet (after s (replaceTag chars m)) := by
    obtain ⟨clear, -, more, amp⟩ := replaceTag_other chars fun allowed => other ⟨reading, allowed⟩
    have same : step s '&' = step .data '&' := by
      obtain rfl | rfl := reading <;> rfl
    obtain ⟨quiet, later⟩ := read_data_of_notMem clear
    simp only [amp, readTags, after_cons, same] at quiet later ⊢
    exact ⟨quiet, .inl later⟩
  cases s with
  | data => exact text (.inl rfl)
  | tagOpen => exact text (.inr rfl)
  | hidden h => exact hidden_replaced formed h
  | endTagOpen =>
    -- Whatever comes behind `</` here is no letter, and a comment begins with it.
    obtain ⟨c, more, first, same⟩ : ∃ c more, replaceTag chars m = c :: more ∧
        step .endTagOpen c = step (.hidden .bogus) c := by
      by_cases allowed : allowedTag (chars.lower m.name)
      · exact ⟨'<', _, replaceTag_allowed chars allowed, rfl⟩
      · obtain ⟨-, -, more, amp⟩ := replaceTag_other chars allowed
        exact ⟨'&', more, amp, rfl⟩
    have hidden := @hidden_replaced chars m formed .bogus
    simp only [first, readTags, after_cons, same] at hidden ⊢
    exact hidden
  | _ => cases out

variable (chars) in
def shown : State → List (Piece Char TagMatch) → List TagMatch
  | _, [] => []
  | s, .passed c :: rest => shown (step s c).1 rest
  | s, .found m :: rest =>
    if Reads chars s m then m :: shown .data rest else shown (after s (replaceTag chars m)) rest

theorem readTags_sub (ready : Ready s text)
    (tame : ∀ m ∈ shown chars s (pieces (tagMatches chars) text), Tame (filteredAttrs chars m)) :
    List.Forall₂ (ReadAs chars) (shown chars s (pieces (tagMatches chars) text))
      (readTags s (sub (tagMatches chars) (replaceTag chars) text)) := by
  induction text using @scan_induction _ _ (tagMatches chars) generalizing s with
  | nil => exact .nil
  | found text m rest here ih =>
    obtain ⟨close, formed⟩ := tagAt_found chars here
    have out : s.inTag = false := by
      by_contra inside
      exact (ready_of_inTag (Bool.eq_true_of_not_eq_false inside)).mp ready close
    rw [sub_of_found _ here]
    rw [pieces_of_found here, shown] at tame ⊢
    split at tame
    · rename_i reads
      obtain ⟨first, later⟩ := List.forall_mem_cons.mp tame
      obtain ⟨t, same, read⟩ := read_replaced formed reads first
      rw [if_pos reads, read]
      exact .cons same (ih (ready_of_quiet (.inl rfl)) later)
    · rename_i other
      obtain ⟨quiet, behind⟩ := skip_replaced formed out other
      rw [if_neg other, readTags_append, quiet, List.nil_append]
      exact ih (ready_of_quiet behind) tame
  | passed c text here ih =>
    obtain ⟨quiet, still⟩ := ready_step chars here ready
    rw [sub_of_none _ here, readTags, quiet, Option.toList_none, List.nil_append]
    rw [pieces_of_none here, shown] at tame ⊢
    exact ih still tame

theorem formed_of_shown {pieces : List (Piece Char TagMatch)} (mem : m ∈ shown chars s pieces) :
    .found m ∈ pieces ∧ allowedTag (chars.lower m.name) := by
  induction pieces generalizing s with
  | nil => cases mem
  | cons piece pieces ih =>
    cases piece with
    | passed c =>
      obtain ⟨among, allowed⟩ := ih mem
      exact ⟨List.mem_cons_of_mem _ among, allowed⟩
    | found other =>
      rw [shown] at mem
      split at mem
      · rename_i reads
        obtain rfl | mem := List.mem_cons.mp mem
        · exact ⟨List.mem_cons_self, reads.2⟩
        · obtain ⟨among, allowed⟩ := ih mem
          exact ⟨List.mem_cons_of_mem _ among, allowed⟩
      · obtain ⟨among, allowed⟩ := ih mem
        exact ⟨List.mem_cons_of_mem _ among, allowed⟩

end Run
end Deeting.Xss
