import Deeting.Dict
import Deeting.Html.Writing
import Deeting.IgnoreCase
import Deeting.Stream.Accumulator

/-! `xss_protection`: `sanitize_string` unescapes a text, removes the dangerous protocols and filters
the tags; `sanitize_input` does so to all texts and keys of nested data. -/
namespace Deeting.Xss
open Deeting.Stream (isSpace)
open Html Scanning

/-- What `\w` matches, and `str.lower`. -/
structure Characters where
  isWord : Char → Bool
  lower : List Char → List Char
  word_letter : ∀ c, c.isAlpha → isWord c
  not_word : isWord '/' = false ∧ isWord '>' = false
  lower_slash : ∀ text, '/' ∈ lower text → '/' ∈ text

def htmlWhitelist : List String :=
  ["p", "br", "br/", "strong", "em", "u", "ol", "ul", "li", "h1", "h2", "h3", "h4", "h5", "h6",
    "blockquote", "pre", "code", "hr", "div", "span", "small", "table", "thead", "tbody", "tr", "td",
    "th", "img", "a"]

def htmlAttributesWhitelist : List (String × List String) :=
  [("img", ["src", "alt", "title", "width", "height"]), ("a", ["href", "title", "target"]),
    ("div", ["class", "id"]), ("span", ["class", "id"]), ("p", ["class", "id"]),
    ("h1", ["class", "id"]), ("h2", ["class", "id"]), ("h3", ["class", "id"]),
    ("h4", ["class", "id"]), ("h5", ["class", "id"]), ("h6", ["class", "id"])]

def allowedTag (name : List Char) : Bool := htmlWhitelist.any fun tag => tag.toList = name

/-- The attributes allowed for a tag, `none` where it is not in the dictionary. -/
def allowedAttributes (tag : List Char) : Option (List String) :=
  (htmlAttributesWhitelist.find? fun entry => entry.1.toList = tag).map Prod.snd

def protocols : List String := ["javascript:", "vbscript:", "data:"]

/-- `javascript:|vbscript:|data:` in a text. -/
def hasProtocol (text : List Char) : Bool :=
  protocols.any fun word => IgnoreCase.occursIn word.toList text

def isSafeAttrValue (name value : List Char) : Bool :=
  if name = "src".toList ∨ name = "href".toList ∨ name = "action".toList then !hasProtocol value
  else if "on".toList.isPrefixOf name then false
  else if name = "style".toList then
    -- `url(javascript:` has `javascript:` in it
    !(IgnoreCase.occursIn "expression".toList value ||
      IgnoreCase.occursIn "javascript:".toList value)
  else true

/-- A match of `<(/?)(\w+)([^>]*)>`. -/
structure TagMatch where
  closing : Bool
  name : List Char
  attrs : List Char
  deriving DecidableEq

def TagMatch.slash (m : TagMatch) : List Char := if m.closing then ['/'] else []

def TagMatch.text (m : TagMatch) : List Char := '<' :: (m.slash ++ m.name ++ m.attrs ++ ['>'])

section Patterns

variable (chars : Characters)

/-- The value behind a `=`: it is quoted where the same quote comes again in the line, else empty. -/
def attrValue (name text : List Char) : Attr × List Char :=
  match text with
  | [] => ({ name := name }, [])
  | c :: body =>
    if c = '"' ∨ c = '\'' then
      let value := body.takeWhile fun d => d ≠ c && d ≠ '\n'
      if (body.drop value.length).head? = some c then
        ({ name := name, quote := some c, value := value }, body.drop (value.length + 1))
      else ({ name := name }, text)
    else ({ name := name }, text)

/-- `(\w+)\s*=\s*(['"]?)(.*?)\2`. -/
def attrAt (text : List Char) : Option (Attr × List Char) :=
  let name := text.takeWhile chars.isWord
  if name = [] then none
  else
    match (text.dropWhile chars.isWord).dropWhile isSpace with
    | '=' :: rest => some (attrValue name (rest.dropWhile isSpace))
    | _ => none

/-- The match behind the `<` and the `/`. -/
def tagBody (closing : Bool) (text : List Char) : Option (TagMatch × List Char) :=
  let name := text.takeWhile chars.isWord
  let more := text.dropWhile chars.isWord
  if name = [] ∨ '>' ∉ more then none
  else some (⟨closing, name, more.takeWhile (· ≠ '>')⟩, (more.dropWhile (· ≠ '>')).tail)

def tagAt : List Char → Option (TagMatch × List Char)
  | '<' :: '/' :: text => tagBody chars true text
  | '<' :: text => tagBody chars false text
  | _ => none

def protocolAt (text : List Char) : Option (Unit × List Char) :=
  (protocols.find? fun word => IgnoreCase.startsWith word.toList text).map fun word =>
    ((), text.drop word.length)

/-- What is behind the first `</script>`. -/
def behindScript (text : List Char) : Option (List Char) :=
  (text.tails.find? (IgnoreCase.startsWith "</script>".toList)).map (·.drop 9)

/-- `<script[^>]*>.*?</script>`. -/
def scriptAt (text : List Char) : Option (Unit × List Char) :=
  if IgnoreCase.startsWith "<script".toList text then
    match (text.drop 7).dropWhile (· ≠ '>') with
    | _ :: body => (behindScript body).map fun rest => ((), rest)
    | [] => none
  else none

variable {text rest : List Char}

theorem length_dropWhile_le (p : Char → Bool) (text : List Char) :
    (text.dropWhile p).length ≤ text.length :=
  (List.dropWhile_sublist p).length_le

theorem length_dropWhile_lt {p : Char → Bool} (taken : text.takeWhile p ≠ []) :
    (text.dropWhile p).length < text.length := by
  have whole := congrArg List.length (List.takeWhile_append_dropWhile (p := p) (l := text))
  rw [List.length_append] at whole
  have := List.length_pos_iff.mpr taken
  omega

theorem attrValue_le (text name : List Char) : (attrValue name text).2.length ≤ text.length := by
  unfold attrValue
  split
  · exact le_rfl
  · split
    · dsimp only
      split
      · exact (length_drop_le _ _).trans (Nat.le_succ _)
      · exact le_rfl
    · exact le_rfl

theorem attrAt_lt {a : Attr} (found : attrAt chars text = some (a, rest)) :
    rest.length < text.length := by
  unfold attrAt at found
  dsimp only at found
  split at found
  · cases found
  · rename_i named
    split at found
    · rename_i more assigned
      have value := attrValue_le (more.dropWhile isSpace) (text.takeWhile chars.isWord)
      rw [Option.some.inj found] at value
      dsimp only at value
      have blank := length_dropWhile_le isSpace more
      have before := length_dropWhile_le isSpace (text.dropWhile chars.isWord)
      have word := length_dropWhile_lt named
      rw [assigned, List.length_cons] at before
      omega
    · cases found

theorem tagBody_lt {closing : Bool} {m : TagMatch}
    (found : tagBody chars closing text = some (m, rest)) : rest.length < text.length := by
  unfold tagBody at found
  dsimp only at found
  split at found
  · cases found
  · rename_i there
    obtain ⟨-, rfl⟩ := Prod.mk.inj (Option.some.inj found)
    have word := length_dropWhile_lt (not_or.mp there).1
    have behind := length_dropWhile_le (· ≠ '>') (text.dropWhile chars.isWord)
    exact ((length_tail_le _).trans behind).trans_lt word

theorem tagAt_lt {m : TagMatch} (found : tagAt chars text = some (m, rest)) :
    rest.length < text.length := by
  unfold tagAt at found
  split at found
  · exact (tagBody_lt chars found).trans ((Nat.lt_succ_self _).trans (Nat.lt_succ_self _))
  · exact (tagBody_lt chars found).trans (Nat.lt_succ_self _)
  · cases found

theorem protocolAt_lt {u : Unit} (found : protocolAt text = some (u, rest)) :
    rest.length < text.length := by
  obtain ⟨word, here, same⟩ := Option.map_eq_some_iff.mp found
  obtain ⟨-, rfl⟩ := Prod.mk.inj same
  have starts : IgnoreCase.startsWith word.toList text := by simpa using List.find?_some here
  have long : ∀ word ∈ protocols, 0 < word.length := by decide
  have some := long word (List.mem_of_find?_eq_some here)
  cases text with
  | nil =>
    rw [← String.length_toList] at some
    obtain ⟨c, more, spelled⟩ := List.exists_cons_of_length_pos some
    rw [spelled, IgnoreCase.startsWith] at starts
    cases starts
  | cons c text =>
    rw [List.length_drop, List.length_cons]
    omega

theorem scriptAt_lt {u : Unit} (found : scriptAt text = some (u, rest)) :
    rest.length < text.length := by
  unfold scriptAt at found
  split at found
  · split at found
    · rename_i body opened
      obtain ⟨behind, here, same⟩ := Option.map_eq_some_iff.mp found
      obtain ⟨-, rfl⟩ := Prod.mk.inj same
      obtain ⟨tail, among, rfl⟩ := Option.map_eq_some_iff.mp here
      have suffix := (List.mem_tails _ _).mp (List.mem_of_find?_eq_some among)
      have opening := length_dropWhile_le (· ≠ '>') (text.drop 7)
      rw [opened, List.length_cons, List.length_drop] at opening
      have short := suffix.length_le
      rw [List.length_drop]
      omega
    · cases found
  · cases found

def attrs : Rule Char Attr := ⟨attrAt chars, attrAt_lt chars⟩

def tagMatches : Rule Char TagMatch := ⟨tagAt chars, tagAt_lt chars⟩

def protocolMatches : Rule Char Unit := ⟨protocolAt, protocolAt_lt⟩

def scripts : Rule Char Unit := ⟨scriptAt, scriptAt_lt⟩

end Patterns

section Sanitizing

variable (chars : Characters) (table : Names)

def keepAttr (allowed : List String) (a : Attr) : Option Attr :=
  let attrName := chars.lower a.name
  if (allowed.any fun name => name.toList = attrName) && isSafeAttrValue attrName a.value then
    some { a with name := attrName }
  else none

/-- `filtered_attrs`; none where the tag has no attributes that are allowed. -/
def filteredAttrs (m : TagMatch) : List Attr :=
  match allowedAttributes (chars.lower m.name) with
  | some allowed =>
    if m.attrs = [] then [] else (findAll (attrs chars) m.attrs).filterMap (keepAttr chars allowed)
  | none => []

def replaceTag (m : TagMatch) : List Char :=
  let tagName := chars.lower m.name
  if !allowedTag tagName then escape m.text
  else
    let filtered := filteredAttrs chars m
    if filtered = [] then '<' :: (m.slash ++ tagName ++ ['>'])
    else
      '<' :: (m.slash ++ tagName ++
        ' ' :: List.intercalate [' '] (filtered.map Attr.spell) ++ ['>'])

def removeScripts (text : List Char) : List Char := sub scripts (fun _ => []) text

/-- `strip_html_tags`, for the two whitelists. -/
def stripHtmlTags (removesScripts : Bool) (text : List Char) : List Char :=
  if text = [] then text
  else sub (tagMatches chars) (replaceTag chars) (if removesScripts then removeScripts text else text)

def decoded (text : List Char) : List Char :=
  sub protocolMatches (fun _ => []) (unescape table text)

def sanitizeChars (text : List Char) : List Char :=
  if text = [] then text else stripHtmlTags chars false (decoded table text)

def sanitizeString (text : String) : String := String.ofList (sanitizeChars chars table text.toList)

mutual

def sanitizeInput : Json → Json
  | .str text =>
    .str (sanitizeString chars table (String.ofList (removeScripts text.toList)))
  | .arr items => .arr (sanitizeItems items)
  | .obj entries =>
    .obj ((sanitizeEntries entries).foldl
      (fun dict entry => Dict.set dict entry.1 entry.2) Table.empty).rows
  | other => other

def sanitizeItems : List Json → List Json
  | [] => []
  | item :: rest => sanitizeInput item :: sanitizeItems rest

def sanitizeEntries : List (String × Json) → List (String × Json)
  | [] => []
  | (key, value) :: rest =>
    (sanitizeString chars table key, sanitizeInput value) :: sanitizeEntries rest

end

end Sanitizing
end Deeting.Xss
