import Deeting.Scanning
import Deeting.Texts

/-! Character references of HTML, as `html.unescape` reads them in a text and as a browser reads them
in the value of an attribute. The names are those of a table. -/
namespace Deeting.Html
open Scanning

/-- The named references, with and without their semicolon. -/
abbrev Names := List Char → Option (List Char)

def renumbered : List (ℕ × ℕ) :=
  [(0x00, 0xfffd), (0x0d, 0x0d), (0x80, 0x20ac), (0x81, 0x81), (0x82, 0x201a), (0x83, 0x0192),
    (0x84, 0x201e), (0x85, 0x2026), (0x86, 0x2020), (0x87, 0x2021), (0x88, 0x02c6), (0x89, 0x2030),
    (0x8a, 0x0160), (0x8b, 0x2039), (0x8c, 0x0152), (0x8d, 0x8d), (0x8e, 0x017d), (0x8f, 0x8f),
    (0x90, 0x90), (0x91, 0x2018), (0x92, 0x2019), (0x93, 0x201c), (0x94, 0x201d), (0x95, 0x2022),
    (0x96, 0x2013), (0x97, 0x2014), (0x98, 0x02dc), (0x99, 0x2122), (0x9a, 0x0161), (0x9b, 0x203a),
    (0x9c, 0x0153), (0x9d, 0x9d), (0x9e, 0x017e), (0x9f, 0x0178)]

def excluded (n : ℕ) : Bool :=
  (1 ≤ n ∧ n ≤ 8) ∨ n = 11 ∨ (14 ≤ n ∧ n ≤ 31) ∨ (127 ≤ n ∧ n ≤ 159) ∨
    (0xfdd0 ≤ n ∧ n ≤ 0xfdef) ∨ n % 0x10000 = 0xfffe ∨ n % 0x10000 = 0xffff

/-- What a number stands for; a text drops those that are excluded. -/
def numbered (drops : Bool) (n : ℕ) : List Char :=
  match renumbered.lookup n with
  | some other => [Char.ofNat other]
  | none =>
    if (0xd800 ≤ n ∧ n ≤ 0xdfff) ∨ 0x10ffff < n then ['\ufffd']
    else if drops && excluded n then []
    else [Char.ofNat n]

def number? (base : ℕ) (digit : Char → Option ℕ) (text : List Char) : Option (ℕ × List Char) :=
  let digits := (text.takeWhile fun c => (digit c).isSome).filterMap digit
  if digits = [] then none
  else
    let rest := text.drop digits.length
    some (digits.foldl (fun n d => base * n + d) 0,
      if rest.head? = some ';' then rest.tail else rest)

def decimalDigit (c : Char) : Option ℕ :=
  if c.isDigit then some (c.toNat - '0'.toNat) else none

/-- The number of a reference, behind its `#`. -/
def numeric? : List Char → Option (ℕ × List Char)
  | 'x' :: text => number? 16 Texts.hexValue text
  | 'X' :: text => number? 16 Texts.hexValue text
  | text => number? 10 decimalDigit text

section Named

variable (table : Names)

def longest (least : ℕ) (text : List Char) : Option (List Char × List Char) :=
  ((List.range (text.length + 1)).reverse.takeWhile (least ≤ ·)).findSome? fun n =>
    (table (text.take n)).map fun stands => (stands, text.drop n)

def inName (c : Char) : Bool := c ∉ ['\t', '\n', '\x0c', ' ', '<', '&', '#', ';']

/-- A name as `html.unescape` takes it, and what is behind it. -/
def name? (text : List Char) : Option (List Char × List Char) :=
  let name := (text.takeWhile inName).take 32
  let rest := text.drop name.length
  if name = [] then none
  else if rest.head? = some ';' then some (name ++ [';'], rest.tail)
  else some (name, rest)

/-- What a name stands for: it may begin with one of the table. -/
def named (name : List Char) : List Char :=
  match table name with
  | some stands => stands
  | none =>
    match longest table 2 name with
    | some (stands, rest) => stands ++ rest
    | none => '&' :: name

/-- A reference as `html.unescape` replaces it. -/
def textReference : List Char → Option (List Char × List Char)
  | '&' :: '#' :: text => (numeric? text).map fun (n, rest) => (numbered true n, rest)
  | '&' :: text => (name? text).map fun (name, rest) => (named table name, rest)
  | _ => none

/-- A reference as a browser replaces it in a value: a name without its semicolon is left as it is
where a letter, a digit or a `=` comes next. -/
def valueReference : List Char → Option (List Char × List Char)
  | '&' :: '#' :: text => (numeric? text).map fun (n, rest) => (numbered false n, rest)
  | '&' :: text =>
    (longest table 1 text).map fun (stands, rest) =>
      let name := text.take (text.length - rest.length)
      if name.getLast? ≠ some ';' ∧ rest.head?.any fun c => c = '=' || c.isAlphanum then
        ('&' :: name, rest)
      else (stands, rest)
  | _ => none

theorem length_tail_le (text : List Char) : text.tail.length ≤ text.length := by
  rw [List.length_tail]
  exact Nat.sub_le _ _

theorem length_drop_le (text : List Char) (n : ℕ) : (text.drop n).length ≤ text.length := by
  rw [List.length_drop]
  exact Nat.sub_le _ _

theorem number?_le {base : ℕ} {digit : Char → Option ℕ} {text rest : List Char} {n : ℕ}
    (read : number? base digit text = some (n, rest)) : rest.length ≤ text.length := by
  unfold number? at read
  dsimp only at read
  split at read
  · cases read
  · obtain ⟨-, rfl⟩ := Prod.mk.inj (Option.some.inj read)
    split
    · exact Nat.le_trans (length_tail_le _) (length_drop_le _ _)
    · exact length_drop_le _ _

theorem numeric?_le {text rest : List Char} {n : ℕ} (read : numeric? text = some (n, rest)) :
    rest.length ≤ text.length := by
  unfold numeric? at read
  split at read
  · exact Nat.le_trans (number?_le read) (Nat.le_succ _)
  · exact Nat.le_trans (number?_le read) (Nat.le_succ _)
  · exact number?_le read

theorem longest_le {least : ℕ} {text stands rest : List Char}
    (found : longest table least text = some (stands, rest)) : rest.length ≤ text.length := by
  obtain ⟨n, -, here⟩ := List.exists_of_findSome?_eq_some found
  obtain ⟨stands, -, same⟩ := Option.map_eq_some_iff.mp here
  obtain ⟨-, rfl⟩ := Prod.mk.inj same
  exact length_drop_le _ _

theorem name?_le {text name rest : List Char} (read : name? text = some (name, rest)) :
    rest.length ≤ text.length := by
  unfold name? at read
  dsimp only at read
  split at read
  · cases read
  · split at read
    · obtain ⟨-, rfl⟩ := Prod.mk.inj (Option.some.inj read)
      exact Nat.le_trans (length_tail_le _) (length_drop_le _ _)
    · obtain ⟨-, rfl⟩ := Prod.mk.inj (Option.some.inj read)
      exact length_drop_le _ _

def textReferences : Rule Char (List Char) where
  find := textReference table
  shorter := by
    intro text stands rest found
    unfold textReference at found
    split at found
    · obtain ⟨⟨n, rest⟩, read, same⟩ := Option.map_eq_some_iff.mp found
      obtain ⟨-, rfl⟩ := Prod.mk.inj same
      have := numeric?_le read
      simp only [List.length_cons]
      omega
    · obtain ⟨⟨name, rest⟩, read, same⟩ := Option.map_eq_some_iff.mp found
      obtain ⟨-, rfl⟩ := Prod.mk.inj same
      exact Nat.lt_succ_of_le (name?_le read)
    · cases found

def valueReferences : Rule Char (List Char) where
  find := valueReference table
  shorter := by
    intro text stands rest found
    unfold valueReference at found
    split at found
    · obtain ⟨⟨n, rest⟩, read, same⟩ := Option.map_eq_some_iff.mp found
      obtain ⟨-, rfl⟩ := Prod.mk.inj same
      have := numeric?_le read
      simp only [List.length_cons]
      omega
    · obtain ⟨⟨stands, rest⟩, read, same⟩ := Option.map_eq_some_iff.mp found
      have less := longest_le table read
      dsimp only at same
      split at same <;> obtain ⟨-, rfl⟩ := Prod.mk.inj same <;> exact Nat.lt_succ_of_le less
    · cases found

def unescape (text : List Char) : List Char := sub (textReferences table) id text

def decodeValue (raw : List Char) : List Char :=
  sub (valueReferences table) id (raw.map fun c => if c = '\x00' then '\ufffd' else c)

end Named

def escape (text : List Char) : List Char :=
  text.flatMap fun c =>
    if c = '&' then "&amp;".toList
    else if c = '<' then "&lt;".toList
    else if c = '>' then "&gt;".toList
    else if c = '"' then "&quot;".toList
    else if c = '\'' then "&#x27;".toList
    else [c]

end Deeting.Html
