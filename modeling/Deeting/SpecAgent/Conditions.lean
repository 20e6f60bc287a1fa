import Deeting.Agent.ToolCalls
import Deeting.Searching
import Deeting.SpecAgent.Executor
import Mathlib.Data.Bool.AllAny
import Mathlib.Data.String.Basic
import Mathlib.Data.Rat.Floor

/-! The conditions of a logic gate: a path, an operator and a literal. The operator is searched for
in the whole condition and the root of a path is removed wherever it is, so that what a condition
means depends on the characters of its literal. -/
namespace Deeting.SpecAgent
open Deeting.Stream (strip isSpace)
open Searching

inductive GateOp where
  | ge
  | le
  | gt
  | lt
  | eq
  | ne
  deriving DecidableEq

namespace GateOp

def all : List GateOp := [ge, le, gt, lt, eq, ne]

def text : GateOp → List Char
  | ge => ['>', '=']
  | le => ['<', '=']
  | gt => ['>']
  | lt => ['<']
  | eq => ['=', '=']
  | ne => ['!', '=']

def earlier : GateOp → List GateOp
  | ge => []
  | le => [ge]
  | gt => [ge, le]
  | lt => [ge, le, gt]
  | eq => [ge, le, gt, lt]
  | ne => [ge, le, gt, lt, eq]

def relates {α : Type} [LinearOrder α] : GateOp → α → α → Bool
  | ge, x, y => y ≤ x
  | le, x, y => x ≤ y
  | gt, x, y => y < x
  | lt, x, y => x < y
  | eq, x, y => x = y
  | ne, x, y => x ≠ y

/-- An order of numbers and of texts, `False` where the comparison raises. The second is never a
list. -/
def ordered (op : GateOp) (x y : Json) : Bool :=
  match x.number?, y.number? with
  | some a, some b => op.relates a b
  | _, _ =>
      match x, y with
      | .str s, .str t => op.relates s t
      | _, _ => false

def holds (op : GateOp) (x y : Json) : Bool :=
  match op with
  | eq => x.same y
  | ne => !x.same y
  | op => op.ordered x y

end GateOp

def digits09 : List Char := ['0', '1', '2', '3', '4', '5', '6', '7', '8', '9']

/-- `\d`, and `int` and `float` of the texts that match. -/
structure Numerals where
  isDecimal : Char → Bool
  int : List Char → ℤ
  float : List Char → ℚ

structure Numerals.Lawful (N : Numerals) : Prop where
  digit : ∀ c ∈ digits09, N.isDecimal c = true
  other : ∀ c ∈ ['.', '-', '+', 'e', 'E', Char.ofNat 34, Char.ofNat 39], N.isDecimal c = false

section Code

variable (N : Numerals)

/-- `re.match(r"^-?\d+(\.\d+)?$", value)`, of a text that ends in no line feed. -/
def matchesNumber (value : List Char) : Bool :=
  let unsigned := if value.head? = some '-' then value.drop 1 else value
  let fraction := unsigned.dropWhile N.isDecimal
  unsigned.head?.any N.isDecimal ∧
    (fraction = [] ∨ fraction.head? = some '.' ∧ fraction.drop 1 ≠ [] ∧
      (fraction.drop 1).all N.isDecimal)

def quotes : List Char := [Char.ofNat 34, Char.ofNat 39]

def parseLiteral (value : List Char) : Json :=
  let lowered := value.map Char.toLower
  if lowered = "true".toList then .bool true
  else if lowered = "false".toList then .bool false
  else if lowered = "null".toList then .null
  else if matchesNumber N value then
    if '.' ∈ value then .float (N.float value) else .int (N.int value)
  else if quotes.any fun quote => value.head? = some quote ∧ value.getLast? = some quote then
    .str (String.ofList (value.drop 1).dropLast)
  else .str (String.ofList value)

/-- The value under some keys, `None` where there is none. -/
def extractKeys : Json → List String → Json
  | data, [] => data
  | .obj entries, key :: keys => extractKeys ((Json.obj entries).get key) keys
  | _, _ :: _ => .null

/-- `path.split(".")`. -/
def pathKeys (path : List Char) : List String := (path.splitOn '.').map String.ofList

def extractValue (data : Json) (path : List Char) : Json :=
  if path = [] then data else extractKeys data (pathKeys path)

/-- `condition.replace("$.", "")`. -/
def removeRoots : List Char → List Char
  | [] => []
  | '$' :: '.' :: rest => removeRoots rest
  | c :: rest => c :: removeRoots rest

def readCondition (text : List Char) : Option (List Char × GateOp × Json) :=
  let condition := strip (removeRoots text)
  (GateOp.all.find? fun op => op.text <:+: condition).bind fun op =>
    (splitFirst op.text condition).map fun (left, right) =>
      (strip left, op, parseLiteral N (strip right))

def conditionHolds (text : List Char) (data : Json) : Bool :=
  match readCondition N text with
  | none => false
  | some (path, op, expected) => op.holds (extractValue data path) expected

structure LogicRule where
  condition : List Char
  nextNode : NodeId

def evaluateLogicGate (rules : List LogicRule) (default : NodeId) (data : Json) : NodeId :=
  match rules.find? fun rule => conditionHolds N rule.condition data with
  | some rule => rule.nextNode
  | none => default

end Code

section Roots

variable {text : List Char} {c : Char}

theorem removeRoots_cons (other : ¬ ['$', '.'] <+: c :: text) :
    removeRoots (c :: text) = c :: removeRoots text := by
  rw [removeRoots]
  rintro rest rfl rfl
  exact other ⟨rest, rfl⟩

theorem removeRoots_root : removeRoots ('$' :: '.' :: text) = removeRoots text := by
  rw [removeRoots]

theorem removeRoots_sublist : (removeRoots text).Sublist text := by
  fun_induction removeRoots text with
  | case1 => exact .slnil
  | case2 rest ih => exact (ih.cons _).cons _
  | case3 c rest other ih => exact ih.cons_cons c

end Roots

section Meaning

structure NumberText where
  negative : Bool
  whole : List Char
  fraction : Option (List Char)
  exponent : Option (Char × Option Char × List Char)

namespace NumberText

def text (n : NumberText) : List Char :=
  (if n.negative then ['-'] else []) ++ n.whole ++
    (n.fraction.elim [] fun digits => '.' :: digits) ++
    n.exponent.elim [] fun (mark, sign, digits) => mark :: (sign.toList ++ digits)

structure WellFormed (n : NumberText) : Prop where
  whole : n.whole ≠ [] ∧ ∀ c ∈ n.whole, c ∈ digits09
  fraction : ∀ digits ∈ n.fraction, digits ≠ [] ∧ ∀ c ∈ digits, c ∈ digits09
  exponent : ∀ mark sign digits, (mark, sign, digits) ∈ n.exponent → mark ∈ ['e', 'E'] ∧
    (∀ c ∈ sign, c ∈ ['+', '-']) ∧ digits ≠ [] ∧ ∀ c ∈ digits, c ∈ digits09

end NumberText

inductive GateLiteral where
  | number (n : NumberText)
  | bool (value : Bool)
  | null
  | quoted (quote : Char) (content : List Char)

namespace GateLiteral

def text : GateLiteral → List Char
  | number n => n.text
  | bool value => if value then "true".toList else "false".toList
  | null => "null".toList
  | quoted quote content => quote :: (content ++ [quote])

def value (N : Numerals) : GateLiteral → Json
  | number n =>
      if n.fraction = none ∧ n.exponent = none then .int (N.int n.text) else .float (N.float n.text)
  | bool value => .bool value
  | null => .null
  | quoted _ content => .str (String.ofList content)

def WellFormed : GateLiteral → Prop
  | number n => n.WellFormed
  | bool _ | null => True
  | quoted quote _ => quote ∈ quotes

end GateLiteral

/-- A path, an operator and a literal, with spaces around them. -/
structure GateCondition where
  rooted : Bool
  path : List Char
  op : GateOp
  literal : GateLiteral
  before : List Char := []
  left : List Char := [' ']
  right : List Char := [' ']
  after : List Char := []

namespace GateCondition

def text (c : GateCondition) : List Char :=
  c.before ++ ((if c.rooted then ['$', '.'] else []) ++ c.path) ++
    (c.left ++ c.op.text ++ c.right) ++ c.literal.text ++ c.after

def holds (N : Numerals) (c : GateCondition) (data : Json) : Bool :=
  c.op.holds (extractKeys data (pathKeys c.path)) (c.literal.value N)

/-- The form of a condition: a path has no character of an operator, and no spaces around it. -/
structure WellFormed (c : GateCondition) : Prop where
  some_ : c.path ≠ []
  plain : ∀ char ∈ c.path, char ∉ ['<', '>', '=', '!']
  first : ∀ char ∈ c.path.head?, isSpace char = false
  last : ∀ char ∈ c.path.getLast?, isSpace char = false
  root : c.rooted = false → ¬ ['$', '.'] <+: c.path
  literal : c.literal.WellFormed
  spaces : ∀ char ∈ c.before ++ c.left ++ c.right ++ c.after, isSpace char = true

/-- No value is in the relation: an order to `null`, or one less than the empty text. -/
def Never (c : GateCondition) : Prop :=
  c.op ∉ [.eq, .ne] ∧ c.literal = .null ∨ c.op = .lt ∧ ∃ quote, c.literal = .quoted quote []

/-- Neither the path nor the literal has the characters of a root, the literal has no operator
that is searched for earlier, and a number has no exponent; or no value is in the relation. -/
def Readable (c : GateCondition) : Prop :=
  c.Never ∨ ¬ ['$', '.'] <:+: c.path ∧ ¬ ['$', '.'] <:+: c.literal.text ∧
    (∀ op ∈ c.op.earlier, ¬ op.text <:+: c.literal.text) ∧
    ∀ n, c.literal = .number n → n.exponent = none

end GateCondition

def chosen (N : Numerals) (rules : List (GateCondition × NodeId)) (default : NodeId) (data : Json) :
    NodeId :=
  match rules.find? fun rule => rule.1.holds N data with
  | some rule => rule.2
  | none => default

end Meaning

end Deeting.SpecAgent
