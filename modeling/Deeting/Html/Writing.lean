import Deeting.Html.Reader
import Mathlib.Data.List.TakeWhile

/-! Tags as they are written, with attributes whose values are quoted or left out, and what a browser
reads of them. Where a value is left out, the text of the next attribute is read as the value, up to
its first white space: what is behind that is read as attributes. -/
namespace Deeting.Html

def nameChar (c : Char) : Bool := c.isLower || c.isDigit

def Plain (name : List Char) : Prop := name.all nameChar

structure Attr where
  name : List Char
  quote : Option Char := none
  value : List Char := []
  deriving DecidableEq

/-- `name=value`, with the quote on both sides. -/
def Attr.spell (a : Attr) : List Char :=
  a.name ++ '=' :: (a.quote.toList ++ a.value ++ a.quote.toList)

def spellAll (attrs : List Attr) : List Char := attrs.flatMap fun a => ' ' :: a.spell

def readBack : List Attr → List (List Char × List Char)
  | [] => []
  | ⟨name, some _, value⟩ :: rest => (name, value) :: readBack rest
  | [⟨name, none, _⟩] => [(name, [])]
  | ⟨name, none, _⟩ :: b :: rest => (name, b.spell) :: readBack rest

/-- No value that has white space stands where it is read without its quotes. -/
def Fits : List Attr → Prop
  | [] => True
  | ⟨_, some _, _⟩ :: rest => Fits rest
  | [⟨_, none, _⟩] => True
  | ⟨_, none, _⟩ :: b :: rest => b.value.all (fun c => !isBlank c) ∧ Fits rest

def Tame : List Attr → Prop
  | [] => True
  | ⟨_, some _, _⟩ :: rest => Tame rest
  | [⟨_, none, _⟩] => True
  | ⟨_, none, _⟩ :: b :: rest => '=' ∉ (b.value.dropWhile fun c => !isBlank c) ∧ Tame rest

/-- It can be written: the quote, where there is one, is not in the value, and no `>` is. -/
structure Attr.Formed (a : Attr) : Prop where
  name : Plain a.name ∧ a.name ≠ []
  clear : '>' ∉ a.value
  quoted : ∀ q ∈ a.quote, (q = '"' ∨ q = '\'') ∧ q ∉ a.value
  bare : a.quote = none → a.value = []

section Names

variable {c : Char} {t : Tag} {name word rest : List Char}

theorem ne_of_nameChar {d : Char} (plain : nameChar c) (other : nameChar d = false) : c ≠ d := by
  rintro rfl
  rw [plain] at other
  cases other

theorem notMem_of_plain {d : Char} (plain : Plain name) (other : nameChar d = false) : d ∉ name := by
  intro mem
  have wrong := List.all_eq_true.mp plain d mem
  rw [other] at wrong
  cases wrong

theorem isBlank_nameChar (plain : nameChar c) : isBlank c = false := by
  have space := ne_of_nameChar (d := ' ') plain (by decide)
  have tab := ne_of_nameChar (d := '\t') plain (by decide)
  have feed := ne_of_nameChar (d := '\n') plain (by decide)
  have ret := ne_of_nameChar (d := '\r') plain (by decide)
  have form := ne_of_nameChar (d := '\x0c') plain (by decide)
  simp [isBlank, space, tab, feed, ret, form]

theorem toNat_nameChar (plain : nameChar c) :
    (97 ≤ c.toNat ∧ c.toNat ≤ 122) ∨ (48 ≤ c.toNat ∧ c.toNat ≤ 57) := by
  obtain lower | digit := Bool.or_eq_true_iff.mp plain
  · obtain ⟨low, high⟩ := Bool.and_eq_true_iff.mp lower
    exact .inl ⟨UInt32.le_iff_toNat_le.mp (of_decide_eq_true low),
      UInt32.le_iff_toNat_le.mp (of_decide_eq_true high)⟩
  · obtain ⟨low, high⟩ := Bool.and_eq_true_iff.mp digit
    exact .inr ⟨UInt32.le_iff_toNat_le.mp (of_decide_eq_true low),
      UInt32.le_iff_toNat_le.mp (of_decide_eq_true high)⟩

theorem toLower_nameChar (plain : nameChar c) : c.toLower = c := by
  apply dif_neg
  intro large
  have low : 65 ≤ c.toNat := UInt32.le_iff_toNat_le.mp large.1
  have high : c.toNat ≤ 90 := UInt32.le_iff_toNat_le.mp large.2
  have := toNat_nameChar plain
  omega

theorem nameChar_ends (plain : nameChar c) : isBlank c = false ∧ c ≠ '/' ∧ c ≠ '>' ∧ c ≠ '=' :=
  ⟨isBlank_nameChar plain, ne_of_nameChar plain (by decide), ne_of_nameChar plain (by decide),
    ne_of_nameChar plain (by decide)⟩

theorem read_tagName (plain : Plain word) : readTags (.tagName t) (word ++ rest) =
    readTags (.tagName { t with name := t.name ++ word }) rest := by
  induction word generalizing t with
  | nil => simp
  | cons c word ih =>
    rw [Plain, List.all_cons, Bool.and_eq_true] at plain
    obtain ⟨blank, slash, close, -⟩ := nameChar_ends plain.1
    have here : step (.tagName t) c = (.tagName { t with name := t.name ++ [c] }, none) := by
      simp [step, blank, slash, close, toLower_nameChar plain.1]
    rw [List.cons_append, readTags_of_step here, ih plain.2]
    simp

theorem read_attrName (plain : Plain word) :
    readTags (.attrName t name) (word ++ rest) = readTags (.attrName t (name ++ word)) rest := by
  induction word generalizing name with
  | nil => simp
  | cons c word ih =>
    rw [Plain, List.all_cons, Bool.and_eq_true] at plain
    obtain ⟨blank, slash, close, equals⟩ := nameChar_ends plain.1
    have here : step (.attrName t name) c = (.attrName t (name ++ [c]), none) := by
      simp [step, blank, slash, close, equals, toLower_nameChar plain.1]
    rw [List.cons_append, readTags_of_step here, ih plain.2]
    simp

end Names

section Attributes

variable {s : State} {t : Tag} {name value text rest : List Char} {q : Char} {a b : Attr}

theorem read_quoted (clear : q ∉ text) : readTags (.quoted t name q value) (text ++ q :: rest) =
    readTags (.afterQuoted (t.add name (value ++ text))) rest := by
  induction text generalizing value with
  | nil => simp [readTags, step]
  | cons c text ih =>
    rw [List.mem_cons, not_or] at clear
    have here : step (.quoted t name q value) c = (.quoted t name q (value ++ [c]), none) := by
      simp [step, Ne.symm clear.1]
    rw [List.cons_append, readTags_of_step here, ih clear.2]
    simp

theorem read_unquoted (solid : text.all fun c => !isBlank c) (clear : '>' ∉ text) :
    readTags (.unquoted t name value) (text ++ rest) =
      readTags (.unquoted t name (value ++ text)) rest := by
  induction text generalizing value with
  | nil => simp
  | cons c text ih =>
    rw [List.all_cons, Bool.and_eq_true, Bool.not_eq_true'] at solid
    rw [List.mem_cons, not_or] at clear
    have here : step (.unquoted t name value) c = (.unquoted t name (value ++ [c]), none) := by
      simp [step, solid.1, Ne.symm clear.1]
    rw [List.cons_append, readTags_of_step here, ih solid.2 clear.2]
    simp

theorem read_name (plain : Plain name) (some : name ≠ []) :
    readTags (.beforeName t) (name ++ '=' :: rest) = readTags (.beforeValue t name) rest := by
  obtain ⟨c, word, rfl⟩ := List.exists_cons_of_ne_nil some
  rw [Plain, List.all_cons, Bool.and_eq_true] at plain
  obtain ⟨blank, slash, close, equals⟩ := nameChar_ends plain.1
  have here : step (.beforeName t) c = (.attrName t [c], none) := by
    simp [step, fromBeforeName, blank, slash, close, toLower_nameChar plain.1]
  rw [List.cons_append, readTags_of_step here, read_attrName plain.2]
  rfl

structure Gap (s : State) (t : Tag) : Prop where
  close : step s '>' = (.data, some t)
  next : ∀ c, nameChar c → ∀ rest,
    readTags s (' ' :: c :: rest) = readTags (.beforeName t) (c :: rest)

theorem gap_of_space (close : step s '>' = (.data, some t))
    (space : step s ' ' = (.beforeName t, none)) : Gap s t where
  close := close
  next _ _ _ := readTags_of_step space

theorem gap_tagName (t : Tag) : Gap (.tagName t) t := gap_of_space rfl rfl

theorem gap_afterQuoted (t : Tag) : Gap (.afterQuoted t) t := gap_of_space rfl rfl

theorem gap_unquoted (t : Tag) (name value : List Char) :
    Gap (.unquoted t name value) (t.add name value) := gap_of_space rfl rfl

theorem gap_attrName (t : Tag) (name : List Char) : Gap (.attrName t name) (t.add name []) where
  close := rfl
  next c plain rest := by
    obtain ⟨blank, slash, close, equals⟩ := nameChar_ends plain
    have space : step (.attrName t name) ' ' = (.afterName t name, none) := rfl
    have here : step (.afterName t name) c = step (.beforeName (t.add name [])) c := by
      simp [step, fromBeforeName, blank, slash, close, equals]
    rw [readTags_of_step space, readTags, here, readTags]

theorem Gap.read_name (gap : Gap s t) (plain : Plain name) (some : name ≠ []) :
    readTags s (' ' :: (name ++ '=' :: rest)) = readTags (.beforeValue t name) rest := by
  rw [← Html.read_name plain some]
  obtain ⟨c, word, rfl⟩ := List.exists_cons_of_ne_nil some
  rw [Plain, List.all_cons, Bool.and_eq_true] at plain
  exact gap.next c plain.1 _

theorem Gap.read_spell (gap : Gap s t) (formed : a.Formed) (quoted : a.quote = some q) :
    readTags s (' ' :: (a.spell ++ rest)) =
      readTags (.afterQuoted (t.add a.name a.value)) rest := by
  obtain ⟨sort, clear⟩ := formed.quoted q quoted
  have blank : isBlank q = false := by
    obtain rfl | rfl := sort <;> decide
  have here : step (.beforeValue t a.name) q = (.quoted t a.name q [], none) := by
    simp [step, blank, sort]
  rw [Attr.spell, quoted, List.append_assoc, List.cons_append,
    gap.read_name formed.name.1 formed.name.2]
  simp only [Option.toList_some, List.cons_append, List.nil_append, List.append_assoc]
  rw [readTags_of_step here, read_quoted clear, List.nil_append]

theorem solid_name (plain : Plain name) : name.all fun c => !isBlank c := by
  rw [List.all_eq_true]
  intro c mem
  rw [isBlank_nameChar (List.all_eq_true.mp plain c mem)]
  rfl

theorem solid_spell (formed : a.Formed) (solid : a.value.all fun c => !isBlank c) :
    a.spell.all fun c => !isBlank c := by
  have plain := solid_name formed.name.1
  have quotes : a.quote.toList.all fun c => !isBlank c := by
    cases quoted : a.quote with
    | none => rfl
    | some q =>
      obtain rfl | rfl := (formed.quoted q quoted).1 <;> decide
  simp only [Attr.spell, List.all_append, List.all_cons, plain, quotes, solid, Bool.and_self]
  decide

theorem clear_spell (formed : a.Formed) : '>' ∉ a.spell := by
  have plain : '>' ∉ a.name := notMem_of_plain formed.name.1 (by decide)
  have quotes : '>' ∉ a.quote.toList := by
    intro mem
    obtain wrong | wrong := (formed.quoted '>' (Option.mem_toList.mp mem)).1 <;> cases wrong
  simp [Attr.spell, plain, quotes, formed.clear]

theorem read_bare {c : Char} (head : nameChar c) (solid : text.all fun c => !isBlank c)
    (clear : '>' ∉ text) : readTags (.beforeValue t name) (c :: (text ++ rest)) =
      readTags (.unquoted t name (c :: text)) rest := by
  have here : step (.beforeValue t name) c = (.unquoted t name [c], none) := by
    have double := ne_of_nameChar (d := '"') head (by decide)
    have single := ne_of_nameChar (d := '\'') head (by decide)
    have close := ne_of_nameChar (d := '>') head (by decide)
    simp [step, isBlank_nameChar head, double, single, close]
  rw [readTags_of_step here, read_unquoted solid clear, List.singleton_append]

theorem read_spell_as_value (formed : a.Formed) (solid : a.value.all fun c => !isBlank c) :
    readTags (.beforeValue t name) (a.spell ++ rest) = readTags (.unquoted t name a.spell) rest := by
  have all := solid_spell formed solid
  have clear := clear_spell formed
  obtain ⟨c, word, named⟩ := List.exists_cons_of_ne_nil formed.name.2
  have plain := formed.name.1
  rw [named, Plain, List.all_cons, Bool.and_eq_true] at plain
  obtain ⟨more, spelled⟩ : ∃ more, a.spell = c :: more := ⟨_, by rw [Attr.spell, named]; rfl⟩
  rw [spelled, List.mem_cons, not_or] at clear
  rw [spelled, List.all_cons, Bool.and_eq_true] at all
  rw [spelled, List.cons_append]
  exact read_bare plain.1 all.2 clear.2

end Attributes

section Spilled

variable {s : State} {t t' : Tag} {c q : Char} {name text rest : List Char} {a b : Attr}

def Grown (t t' : Tag) : Prop := ∃ fields, t' = { t with attributes := t.attributes ++ fields }

theorem Grown.refl (t : Tag) : Grown t t := ⟨[], by simp⟩

theorem Grown.trans {t'' : Tag} (first : Grown t t') (second : Grown t' t'') : Grown t t'' := by
  obtain ⟨fields, rfl⟩ := first
  obtain ⟨more, rfl⟩ := second
  exact ⟨fields ++ more, by simp⟩

theorem grown_add (t : Tag) (name value : List Char) : Grown t (t.add name value) := ⟨_, rfl⟩

def Loose (s : State) (t : Tag) : Prop :=
  s = .beforeName t ∨ (∃ name, s = .attrName t name) ∨ (∃ name, s = .afterName t name) ∨
    s = .selfClosing t

theorem loose_fromBeforeName (t : Tag) (close : c ≠ '>') :
    (fromBeforeName t c).2 = none ∧ Loose (fromBeforeName t c).1 t := by
  unfold fromBeforeName
  split
  · exact ⟨rfl, .inl rfl⟩
  · split
    · exact ⟨rfl, .inr (.inr (.inr rfl))⟩
    · exact ⟨rfl, .inr (.inl ⟨_, rfl⟩)⟩

theorem loose_step (loose : Loose s t) (equals : c ≠ '=') (close : c ≠ '>') :
    ∃ t', Grown t t' ∧ (step s c).2 = none ∧ Loose (step s c).1 t' := by
  obtain rfl | ⟨name, rfl⟩ | ⟨name, rfl⟩ | rfl := loose
  · exact ⟨t, .refl t, loose_fromBeforeName t close⟩
  · simp only [step, equals, close, if_false]
    split
    · exact ⟨t, .refl t, rfl, .inr (.inr (.inl ⟨name, rfl⟩))⟩
    · split
      · exact ⟨_, grown_add t name [], rfl, .inr (.inr (.inr rfl))⟩
      · exact ⟨t, .refl t, rfl, .inr (.inl ⟨_, rfl⟩)⟩
  · simp only [step, equals, close, if_false]
    split
    · exact ⟨t, .refl t, rfl, .inr (.inr (.inl ⟨name, rfl⟩))⟩
    · split
      · exact ⟨_, grown_add t name [], rfl, .inr (.inr (.inr rfl))⟩
      · exact ⟨_, grown_add t name [], rfl, .inr (.inl ⟨_, rfl⟩)⟩
  · simp only [step, close, if_false]
    exact ⟨t, .refl t, loose_fromBeforeName t close⟩

theorem read_loose (loose : Loose s t) (equals : '=' ∉ text) (close : '>' ∉ text) :
    ∃ s' t', Grown t t' ∧ Loose s' t' ∧
      ∀ rest, readTags s (text ++ rest) = readTags s' rest := by
  induction text generalizing s t with
  | nil => exact ⟨s, t, .refl t, loose, fun _ => rfl⟩
  | cons c text ih =>
    rw [List.mem_cons, not_or] at equals close
    obtain ⟨t', grown, quiet, next⟩ := loose_step loose (Ne.symm equals.1) (Ne.symm close.1)
    obtain ⟨s'', t'', more, still, same⟩ := ih next equals.2 close.2
    refine ⟨s'', t'', grown.trans more, still, fun rest => ?_⟩
    rw [List.cons_append, readTags, quiet, Option.toList_none, List.nil_append, same]

theorem loose_quote (loose : Loose s t) (quote : q = '"' ∨ q = '\'') :
    ∃ t' name, Grown t t' ∧ step s q = (.attrName t' name, none) ∧ q ∈ name := by
  have plain : isBlank q = false ∧ q ≠ '/' ∧ q ≠ '>' ∧ q ≠ '=' ∧ q.toLower = q := by
    obtain rfl | rfl := quote <;> decide
  obtain ⟨blank, slash, close, equals, lower⟩ := plain
  obtain rfl | ⟨name, rfl⟩ | ⟨name, rfl⟩ | rfl := loose
  · exact ⟨t, [q], .refl t, by simp [step, fromBeforeName, blank, slash, close, lower], by simp⟩
  · exact ⟨t, name ++ [q], .refl t, by simp [step, blank, slash, close, equals, lower], by simp⟩
  · exact ⟨_, [q], grown_add t name [], by simp [step, blank, slash, close, equals, lower],
      by simp⟩
  · exact ⟨t, [q], .refl t, by simp [step, fromBeforeName, blank, slash, close, lower], by simp⟩

theorem not_plain_of_quote (quote : q = '"' ∨ q = '\'') (mem : q ∈ name) : ¬ Plain name := by
  intro plain
  obtain rfl | rfl := quote <;> exact notMem_of_plain plain (by decide) mem

theorem read_spilled (formed : a.Formed) (blank : ¬ a.value.all fun c => !isBlank c)
    (tame : '=' ∉ a.value.dropWhile fun c => !isBlank c) :
    ∃ t' field, Grown t t' ∧ ¬ Plain field ∧
      ∀ rest, readTags (.beforeValue t name) (a.spell ++ rest) =
        readTags (.attrName t' field) rest := by
  obtain ⟨q, quoted⟩ : ∃ q, a.quote = some q := by
    cases none : a.quote with
    | some q => exact ⟨q, rfl⟩
    | none =>
      rw [formed.bare none] at blank
      exact absurd rfl blank
  obtain ⟨quote, -⟩ := formed.quoted q quoted
  obtain ⟨c, word, named⟩ := List.exists_cons_of_ne_nil formed.name.2
  have plain := formed.name.1
  rw [named, Plain, List.all_cons, Bool.and_eq_true] at plain
  obtain ⟨front, d, back, parts, solid, first, behind⟩ : ∃ front d back,
      a.value = front ++ d :: back ∧ (front.all fun c => !isBlank c) ∧ isBlank d ∧
        '=' ∉ d :: back := by
    have parts := List.takeWhile_append_dropWhile (p := fun c => !isBlank c) (l := a.value)
    have stops := List.head?_dropWhile_not (fun c => !isBlank c) a.value
    cases rest : a.value.dropWhile fun c => !isBlank c with
    | nil => exact absurd (List.all_eq_true.mpr (List.dropWhile_eq_nil_iff.mp rest)) blank
    | cons d back =>
      rw [rest] at parts stops tame
      exact ⟨_, d, back, parts.symm, List.all_takeWhile, by simpa using stops, tame⟩
  have clear := formed.clear
  rw [parts, List.mem_append, List.mem_cons, not_or, not_or] at clear
  rw [List.mem_cons, not_or] at behind
  -- Up to the white space the value is read, and behind it attributes are.
  have spelled (rest : List Char) : a.spell ++ rest =
      c :: ((word ++ '=' :: q :: front) ++ d :: (back ++ q :: rest)) := by
    simp [Attr.spell, named, quoted, parts]
  have loose : Loose (.beforeName (t.add name (c :: (word ++ '=' :: q :: front))))
      (t.add name (c :: (word ++ '=' :: q :: front))) := .inl rfl
  obtain ⟨s', t', grown, still, run⟩ := read_loose loose behind.2 clear.2.2
  obtain ⟨t'', field, more, into, inside⟩ := loose_quote still quote
  refine ⟨t'', field, ((grown_add _ _ _).trans grown).trans more,
    not_plain_of_quote quote inside, fun rest => ?_⟩
  have blank : step (.unquoted t name (c :: (word ++ '=' :: q :: front))) d =
      (.beforeName (t.add name (c :: (word ++ '=' :: q :: front))), none) := by
    simp [step, first]
  rw [spelled, read_bare plain.1 ?_ ?_, readTags_of_step blank, run, readTags_of_step into]
  · have other : isBlank q = false := by
      obtain rfl | rfl := quote <;> decide
    have equals : isBlank '=' = false := by decide
    simp [List.all_append, solid_name plain.2, other, equals, solid]
  · have name : '>' ∉ word := notMem_of_plain plain.2 (by decide)
    have other : '>' ≠ q := by
      obtain rfl | rfl := quote <;> decide
    simp [name, other, clear.1]

end Spilled

section Written

variable {s : State} {t : Tag} {rest : List Char} {attrs : List Attr}

/-- The attributes of a tag are read back, up to its end; where one ends too soon, a field is read
that is no attribute. -/
theorem read_spellAll (gap : Gap s t) (formed : ∀ a ∈ attrs, a.Formed) (tame : Tame attrs) :
    ∃ fields, readTags s (spellAll attrs ++ '>' :: rest) =
        { t with attributes := t.attributes ++ fields } :: readTags .data rest ∧
      (Fits attrs → fields = readBack attrs) ∧
      (¬ Fits attrs → ∃ field ∈ fields, ¬ Plain field.1) := by
  induction attrs using readBack.induct generalizing s t with
  | case1 =>
    refine ⟨[], ?_, fun _ => rfl, fun spilled => absurd trivial spilled⟩
    simp [spellAll, readTags, gap.close]
  | case2 name q value more ih =>
    obtain ⟨first, later⟩ := List.forall_mem_cons.mp formed
    obtain ⟨fields, read, fits, spilled⟩ := ih (gap_afterQuoted (t.add name value)) later tame
    refine ⟨(name, value) :: fields, ?_, fun all => congrArg _ (fits all), fun not => ?_⟩
    · rw [spellAll, List.flatMap_cons, ← spellAll, List.cons_append, List.cons_append,
        List.append_assoc, gap.read_spell first rfl, read]
      simp [Tag.add]
    · obtain ⟨field, mem, wrong⟩ := spilled not
      exact ⟨field, List.mem_cons_of_mem _ mem, wrong⟩
  | case3 name value =>
    obtain ⟨first, -⟩ := List.forall_mem_cons.mp formed
    obtain rfl := first.bare rfl
    refine ⟨[(name, [])], ?_, fun _ => rfl, fun spilled => absurd trivial spilled⟩
    have spelled : spellAll [⟨name, none, []⟩] = ' ' :: (name ++ ['=']) := by
      simp [spellAll, Attr.spell]
    rw [spelled, List.cons_append, List.append_assoc, List.singleton_append,
      gap.read_name first.name.1 first.name.2]
    rfl
  | case4 name value b more ih =>
    obtain ⟨first, later⟩ := List.forall_mem_cons.mp formed
    obtain ⟨second, later⟩ := List.forall_mem_cons.mp later
    obtain rfl := first.bare rfl
    have spelled : spellAll (⟨name, none, []⟩ :: b :: more) =
        ' ' :: (name ++ '=' :: ' ' :: (b.spell ++ spellAll more)) := by
      simp [spellAll, Attr.spell]
    have blank : step (.beforeValue t name) ' ' = (.beforeValue t name, none) := rfl
    rw [spelled, List.cons_append, List.append_assoc, List.cons_append,
      gap.read_name first.name.1 first.name.2, List.cons_append, readTags_of_step blank,
      List.append_assoc]
    by_cases solid : b.value.all fun c => !isBlank c
    · obtain ⟨fields, read, fits, spilled⟩ := ih (gap_unquoted t name b.spell) later tame.2
      refine ⟨(name, b.spell) :: fields, ?_, fun all => congrArg _ (fits all.2), fun not => ?_⟩
      · rw [read_spell_as_value second solid, read]
        simp [Tag.add]
      · obtain ⟨field, mem, wrong⟩ := spilled fun all => not ⟨solid, all⟩
        exact ⟨field, List.mem_cons_of_mem _ mem, wrong⟩
    · obtain ⟨t', field, ⟨fields, rfl⟩, wrong, into⟩ := read_spilled second solid tame.1
      obtain ⟨others, read, -⟩ := ih (gap_attrName _ field) later tame.2
      refine ⟨fields ++ (field, []) :: others, ?_, fun all => absurd all.1 solid, fun _ => ?_⟩
      · rw [into, read]
        simp [Tag.add]
      · exact ⟨(field, []), by simp, wrong⟩

theorem tame_of_fits (fits : Fits attrs) : Tame attrs := by
  induction attrs using readBack.induct with
  | case1 => trivial
  | case2 name q value more ih => exact ih fits
  | case3 name value => trivial
  | case4 name value b more ih =>
    have none := List.dropWhile_eq_nil_iff.mpr (List.all_eq_true.mp fits.1)
    exact ⟨by simp [none], ih fits.2⟩

/-- What is read has the name of an attribute, and its value, none, or the text of another. -/
theorem mem_readBack {attrs : List Attr} {field : List Char × List Char}
    (mem : field ∈ readBack attrs) : ∃ a ∈ attrs, a.name = field.1 ∧
      (a.value = field.2 ∨ field.2 = [] ∨ ∃ b ∈ attrs, field.2 = b.spell) := by
  induction attrs using readBack.induct with
  | case1 => cases mem
  | case2 name q value more ih =>
    obtain rfl | mem := List.mem_cons.mp mem
    · exact ⟨_, List.mem_cons_self, rfl, .inl rfl⟩
    · obtain ⟨a, among, named, read⟩ := ih mem
      refine ⟨a, List.mem_cons_of_mem _ among, named, read.imp_right (.imp_right ?_)⟩
      exact fun ⟨b, other, spelled⟩ => ⟨b, List.mem_cons_of_mem _ other, spelled⟩
  | case3 name value =>
    obtain rfl := List.mem_singleton.mp mem
    exact ⟨_, List.mem_cons_self, rfl, .inr (.inl rfl)⟩
  | case4 name value b more ih =>
    obtain rfl | mem := List.mem_cons.mp mem
    · exact ⟨_, List.mem_cons_self, rfl, .inr (.inr ⟨b, by simp, rfl⟩)⟩
    · obtain ⟨a, among, named, read⟩ := ih mem
      have later {c : Attr} (here : c ∈ more) : c ∈ (⟨name, none, value⟩ : Attr) :: b :: more :=
        List.mem_cons_of_mem _ (List.mem_cons_of_mem _ here)
      refine ⟨a, later among, named, read.imp_right (.imp_right ?_)⟩
      exact fun ⟨b, other, spelled⟩ => ⟨b, later other, spelled⟩

end Written

def writeTag (closing : Bool) (name : List Char) (attrs : List Attr) : List Char :=
  '<' :: ((if closing then ['/'] else []) ++ name ++ spellAll attrs ++ ['>'])

section Tags

variable {s : State} {c : Char} {name text rest : List Char} {attrs : List Attr} {closing : Bool}

theorem read_writeTag (reading : s = .data ∨ s = .tagOpen) (plain : Plain name)
    (alpha : name.head?.any Char.isAlpha) (formed : ∀ a ∈ attrs, a.Formed) (tame : Tame attrs) :
    ∃ fields, readTags s (writeTag closing name attrs ++ rest) =
        ⟨closing, name, fields⟩ :: readTags .data rest ∧
      (Fits attrs → fields = readBack attrs) ∧
      (¬ Fits attrs → ∃ field ∈ fields, ¬ Plain field.1) := by
  have opening : step s '<' = (.tagOpen, none) := by
    obtain rfl | rfl := reading <;> rfl
  obtain ⟨c, word, rfl⟩ : ∃ c word, name = c :: word := by
    cases name with
    | nil => cases alpha
    | cons c word => exact ⟨c, word, rfl⟩
  have letter : c.isAlpha := by simpa using alpha
  rw [Plain, List.all_cons, Bool.and_eq_true] at plain
  have bang := ne_of_nameChar (d := '!') plain.1 (by decide)
  have slash := ne_of_nameChar (d := '/') plain.1 (by decide)
  have lower := toLower_nameChar plain.1
  obtain ⟨fields, read, back⟩ := read_spellAll
    (gap_tagName { closing := closing, name := c :: word }) formed tame
  refine ⟨fields, ?_, back⟩
  have body : readTags (.tagName { closing := closing, name := [c] })
      (word ++ (spellAll attrs ++ '>' :: rest)) =
        ⟨closing, c :: word, fields⟩ :: readTags .data rest := by
    rw [read_tagName plain.2]
    exact read
  cases closing with
  | false =>
    have start : step .tagOpen c = (.tagName { closing := false, name := [c] }, none) := by
      simp [step, fromTagOpen, bang, slash, letter, lower]
    simp only [writeTag, Bool.false_eq_true, if_false, List.nil_append, List.cons_append,
      List.append_assoc, readTags, opening, start, Option.toList_none]
    exact body
  | true =>
    have ending : step .tagOpen '/' = (.endTagOpen, none) := rfl
    have start : step .endTagOpen c = (.tagName { closing := true, name := [c] }, none) := by
      simp [step, fromEndTagOpen, letter, lower]
    simp only [writeTag, if_true, List.nil_append, List.cons_append, List.append_assoc, readTags,
      opening, ending, start, Option.toList_none]
    exact body

theorem clear_spellAll (formed : ∀ a ∈ attrs, a.Formed) : '>' ∉ spellAll attrs := by
  intro mem
  obtain ⟨a, among, here⟩ := List.mem_flatMap.mp mem
  obtain wrong | inside := List.mem_cons.mp here
  · exact absurd wrong (by decide)
  · exact clear_spell (formed a among) inside

theorem read_hidden_close (h : Hidden) (clear : '>' ∉ text) :
    readTags (.hidden h) (text ++ ['>']) = [] ∧ (after (.hidden h) (text ++ ['>']) = .data ∨
      ∃ h', after (.hidden h) (text ++ ['>']) = .hidden h') := by
  obtain ⟨none, h', stays⟩ := readTags_hidden h clear
  obtain ⟨quiet, next⟩ := step_hidden h' '>'
  rw [readTags_append, none, after_append, stays]
  refine ⟨?_, next⟩
  simp [readTags, quiet]

theorem read_hidden_writeTag (h : Hidden) (plain : Plain name) (formed : ∀ a ∈ attrs, a.Formed) :
    readTags (.hidden h) (writeTag closing name attrs) = [] ∧
      (after (.hidden h) (writeTag closing name attrs) = .data ∨
        ∃ h', after (.hidden h) (writeTag closing name attrs) = .hidden h') := by
  have named : '>' ∉ name := notMem_of_plain plain (by decide)
  have clear : '>' ∉ '<' :: ((if closing then ['/'] else []) ++ name ++ spellAll attrs) := by
    have attributes := clear_spellAll formed
    cases closing <;> simp [named, attributes]
  exact read_hidden_close h clear

theorem read_data_of_notMem (clear : '<' ∉ text) :
    readTags .data text = [] ∧ after .data text = .data := by
  induction text with
  | nil => exact ⟨rfl, rfl⟩
  | cons c text ih =>
    rw [List.mem_cons, not_or] at clear
    have here : step .data c = (.data, none) := by simp [step, fromData, Ne.symm clear.1]
    simpa [readTags, after, here] using ih clear.2

def State.inTag : State → Bool
  | .data | .tagOpen | .endTagOpen | .hidden _ => false
  | _ => true

theorem step_inTag (inside : s.inTag) (ne : c ≠ '>') :
    (step s c).2 = none ∧ (step s c).1.inTag := by
  cases s <;> cases inside
  all_goals simp only [step, fromBeforeName, ne, if_false]
  all_goals repeat' split
  all_goals exact ⟨rfl, rfl⟩

end Tags
end Deeting.Html
