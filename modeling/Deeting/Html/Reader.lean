import Deeting.Html.References
import Deeting.Upserting

/-! The tags of a text as a browser reads them: a machine over the characters, in which a tag is
there when its `>` is read, and what comments and declarations hide is passed over. -/
namespace Deeting.Html

structure Tag where
  closing : Bool
  name : List Char
  attributes : List (List Char × List Char) := []
  deriving DecidableEq

/-- Inside of what begins with `<!`, `<?` or `</` and is no tag. -/
inductive Hidden where
  | declaration
  | dash
  | bogus
  | commentStart
  | commentStartDash
  | comment
  | commentEndDash
  | commentEnd
  | commentEndBang
  deriving DecidableEq

def Hidden.step (h : Hidden) (c : Char) : Option Hidden :=
  match h with
  | .declaration => if c = '-' then some .dash else if c = '>' then none else some .bogus
  | .dash => if c = '-' then some .commentStart else if c = '>' then none else some .bogus
  | .bogus => if c = '>' then none else some .bogus
  | .commentStart =>
    if c = '-' then some .commentStartDash else if c = '>' then none else some .comment
  | .commentStartDash =>
    if c = '-' then some .commentEnd else if c = '>' then none else some .comment
  | .comment => if c = '-' then some .commentEndDash else some .comment
  | .commentEndDash => if c = '-' then some .commentEnd else some .comment
  | .commentEnd =>
    if c = '>' then none
    else if c = '!' then some .commentEndBang
    else if c = '-' then some .commentEnd else some .comment
  | .commentEndBang =>
    if c = '-' then some .commentEndDash else if c = '>' then none else some .comment

inductive State where
  | data
  | tagOpen
  | endTagOpen
  | hidden (h : Hidden)
  | tagName (t : Tag)
  | beforeName (t : Tag)
  | attrName (t : Tag) (name : List Char)
  | afterName (t : Tag) (name : List Char)
  | beforeValue (t : Tag) (name : List Char)
  | quoted (t : Tag) (name : List Char) (quote : Char) (value : List Char)
  | unquoted (t : Tag) (name value : List Char)
  | afterQuoted (t : Tag)
  | selfClosing (t : Tag)
  deriving DecidableEq

def isBlank (c : Char) : Bool :=
  c = ' ' || c = '\t' || c = '\n' || c = '\r' || c = '\x0c'

namespace Tag

def add (t : Tag) (name value : List Char) : Tag :=
  { t with attributes := t.attributes ++ [(name, value)] }

/-- The attributes that count: the first of each name, and none of an end tag. -/
def shown (t : Tag) : List (List Char × List Char) :=
  if t.closing then [] else Upserting.firsts Prod.fst t.attributes

end Tag

def fromData (c : Char) : State := if c = '<' then .tagOpen else .data

def fromTagOpen (c : Char) : State :=
  if c = '!' then .hidden .declaration
  else if c = '/' then .endTagOpen
  else if c.isAlpha then .tagName { closing := false, name := [c.toLower] }
  else if c = '?' then .hidden .bogus
  else fromData c

def fromEndTagOpen (c : Char) : State :=
  if c.isAlpha then .tagName { closing := true, name := [c.toLower] }
  else if c = '>' then .data
  else .hidden .bogus

abbrev Move := State × Option Tag

def fromBeforeName (t : Tag) (c : Char) : Move :=
  if isBlank c then (.beforeName t, none)
  else if c = '/' then (.selfClosing t, none)
  else if c = '>' then (.data, some t)
  else (.attrName t [c.toLower], none)

def step : State → Char → Move
  | .data, c => (fromData c, none)
  | .tagOpen, c => (fromTagOpen c, none)
  | .endTagOpen, c => (fromEndTagOpen c, none)
  | .hidden h, c =>
    match h.step c with
    | some h => (.hidden h, none)
    | none => (.data, none)
  | .tagName t, c =>
    if isBlank c then (.beforeName t, none)
    else if c = '/' then (.selfClosing t, none)
    else if c = '>' then (.data, some t)
    else (.tagName { t with name := t.name ++ [c.toLower] }, none)
  | .beforeName t, c => fromBeforeName t c
  | .attrName t name, c =>
    if isBlank c then (.afterName t name, none)
    else if c = '/' then (.selfClosing (t.add name []), none)
    else if c = '>' then (.data, some (t.add name []))
    else if c = '=' then (.beforeValue t name, none)
    else (.attrName t (name ++ [c.toLower]), none)
  | .afterName t name, c =>
    if isBlank c then (.afterName t name, none)
    else if c = '/' then (.selfClosing (t.add name []), none)
    else if c = '>' then (.data, some (t.add name []))
    else if c = '=' then (.beforeValue t name, none)
    else (.attrName (t.add name []) [c.toLower], none)
  | .beforeValue t name, c =>
    if isBlank c then (.beforeValue t name, none)
    else if c = '"' ∨ c = '\'' then (.quoted t name c [], none)
    else if c = '>' then (.data, some (t.add name []))
    else (.unquoted t name [c], none)
  | .quoted t name quote value, c =>
    if c = quote then (.afterQuoted (t.add name value), none)
    else (.quoted t name quote (value ++ [c]), none)
  | .unquoted t name value, c =>
    if isBlank c then (.beforeName (t.add name value), none)
    else if c = '>' then (.data, some (t.add name value))
    else (.unquoted t name (value ++ [c]), none)
  | .afterQuoted t, c => fromBeforeName t c
  | .selfClosing t, c => if c = '>' then (.data, some t) else fromBeforeName t c

def readTags : State → List Char → List Tag
  | _, [] => []
  | s, c :: text => (step s c).2.toList ++ readTags (step s c).1 text

def after (s : State) (text : List Char) : State := text.foldl (fun s c => (step s c).1) s

def tags (text : List Char) : List Tag := readTags .data text

def isSchemeChar (c : Char) : Bool := c.isAlphanum || c = '+' || c = '-' || c = '.'

def scheme? (url : List Char) : Option (List Char) :=
  let url := (url.dropWhile fun c => c.toNat ≤ 32).filter fun c =>
    !(c = '\t' || c = '\n' || c = '\r')
  let scheme := url.takeWhile isSchemeChar
  if scheme.head?.any Char.isAlpha ∧ url[scheme.length]? = some ':' then
    some (scheme.map Char.toLower)
  else none

section Reading

variable {s s' : State} {t : Tag} {c : Char} {text front back name value : List Char}

theorem readTags_of_step (here : step s c = (s', none)) :
    readTags s (c :: text) = readTags s' text := by
  rw [readTags, here, Option.toList_none, List.nil_append]

theorem readTags_append :
    readTags s (front ++ back) = readTags s front ++ readTags (after s front) back := by
  induction front generalizing s with
  | nil => rfl
  | cons c front ih =>
    simp only [List.cons_append, readTags, ih, List.append_assoc, after, List.foldl_cons]

theorem after_cons : after s (c :: text) = after (step s c).1 text := rfl

theorem after_append : after s (front ++ back) = after (after s front) back := List.foldl_append ..

theorem Hidden.step_of_ne (h : Hidden) (ne : c ≠ '>') : ∃ h', h.step c = some h' := by
  cases h <;> simp only [Hidden.step, ne, if_false] <;> repeat' split
  all_goals exact ⟨_, rfl⟩

theorem readTags_hidden (h : Hidden) (clear : '>' ∉ text) :
    readTags (.hidden h) text = [] ∧ ∃ h', after (.hidden h) text = .hidden h' := by
  induction text generalizing h with
  | nil => exact ⟨rfl, h, rfl⟩
  | cons c text ih =>
    rw [List.mem_cons, not_or] at clear
    obtain ⟨h', stays⟩ := h.step_of_ne (Ne.symm clear.1)
    simpa [readTags, after, step, stays] using ih h' clear.2

theorem step_hidden (h : Hidden) (c : Char) : (step (.hidden h) c).2 = none ∧
    ((step (.hidden h) c).1 = .data ∨ ∃ h', (step (.hidden h) c).1 = .hidden h') := by
  rw [step]
  split
  · exact ⟨rfl, .inr ⟨_, rfl⟩⟩
  · exact ⟨rfl, .inl rfl⟩

end Reading
end Deeting.Html
