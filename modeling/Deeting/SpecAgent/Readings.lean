import Deeting.Fields
import Deeting.SpecAgent.Conditions

/-! How `_evaluate_logic_gate` reads a condition, against what it means: exactly the conditions
that are readable hold of every value as they should. -/
namespace Deeting.SpecAgent
open Deeting.Stream (strip isSpace strip_of_plain strip_of_solid strip_append_solid
  dropWhile_append_solid count_dropWhile count_strip mem_strip)
open Searching

section Roots

variable {text front back : List Char} {c : Char}

theorem removeRoots_of_clean (clean : ¬ ['$', '.'] <:+: text) : removeRoots text = text := by
  induction text with
  | nil => rfl
  | cons c rest ih =>
    obtain ⟨first, later⟩ := not_or.mp (List.infix_cons_iff.not.mp clean)
    rw [removeRoots_cons first, ih later]

theorem removeRoots_of_plain (plain : '$' ∉ text) : removeRoots text = text :=
  removeRoots_of_clean fun inside => plain (inside.subset (by decide))

theorem removeRoots_append_cons (ne : c ≠ '.') :
    removeRoots (front ++ c :: back) = removeRoots front ++ removeRoots (c :: back) := by
  fun_induction removeRoots front with
  | case1 => rfl
  | case2 rest ih => rw [List.cons_append, List.cons_append, removeRoots_root, ih]
  | case3 d rest other ih =>
    have single : ¬ ['$', '.'] <+: d :: (rest ++ c :: back) := by
      rintro ⟨tail, same⟩
      obtain ⟨dollar, next⟩ := List.cons.inj same
      cases rest with
      | nil => exact ne (List.cons.inj next).1.symm
      | cons e rest => exact other rest dollar.symm (by rw [(List.cons.inj next).1])
    rw [List.cons_append, removeRoots_cons single, ih, List.cons_append]

theorem removeRoots_append (dot : ∀ c ∈ back.head?, c ≠ '.') :
    removeRoots (front ++ back) = removeRoots front ++ removeRoots back := by
  cases back with
  | nil => simp [removeRoots]
  | cons c back => exact removeRoots_append_cons (dot c rfl)

theorem removeRoots_plain_append (plain : '$' ∉ front) :
    removeRoots (front ++ back) = front ++ removeRoots back := by
  induction front with
  | nil => rfl
  | cons c front ih =>
    obtain ⟨ne, plain⟩ := not_or.mp (List.mem_cons.not.mp plain)
    have other : ¬ ['$', '.'] <+: c :: (front ++ back) := by
      rintro ⟨tail, same⟩
      exact ne (List.cons.inj same).1
    rw [List.cons_append, removeRoots_cons other, ih plain, List.cons_append]

theorem count_removeRoots (roots : ['$', '.'] <:+: text) :
    (removeRoots text).count '$' < text.count '$' := by
  fun_induction removeRoots text with
  | case1 => simp at roots
  | case2 rest ih =>
    have fewer : (removeRoots rest).count '$' ≤ rest.count '$' := removeRoots_sublist.count_le '$'
    simp only [List.count_cons_self]
    rw [List.count_cons_of_ne (by decide)]
    omega
  | case3 c rest other ih =>
    have later : ['$', '.'] <:+: rest := by
      refine (List.infix_cons_iff.mp roots).resolve_left ?_
      rintro ⟨tail, same⟩
      obtain ⟨dollar, next⟩ := List.cons.inj same
      exact other tail dollar.symm next.symm
    rw [List.count_cons, List.count_cons]
    have fewer := ih later
    omega

end Roots

section Literals

structure Solid (text : List Char) : Prop where
  some_ : text ≠ []
  first : ∀ c ∈ text.head?, isSpace c = false ∧ c ∉ ['<', '>', '=', '!']
  last : ∀ c ∈ text.getLast?, isSpace c = false

theorem solid_of_plain {text : List Char} (some_ : text ≠ [])
    (plain : ∀ c ∈ text, isSpace c = false ∧ c ∉ ['<', '>', '=', '!']) : Solid text where
  some_ := some_
  first c mem := plain c (List.mem_of_mem_head? mem)
  last c mem := (plain c (List.mem_of_mem_getLast? mem)).1

theorem NumberText.WellFormed.chars {n : NumberText} (formed : n.WellFormed) :
    ∀ c ∈ n.text, c ∈ digits09 ++ ['-', '.', '+', 'e', 'E'] := by
  have digit {c : Char} (mem : c ∈ digits09) : c ∈ digits09 ++ ['-', '.', '+', 'e', 'E'] :=
    List.mem_append_left _ mem
  have marks : ∀ c ∈ ['e', 'E'], c ∈ digits09 ++ ['-', '.', '+', 'e', 'E'] :=
    List.all_iff_forall_prop.mp (by decide)
  have signs : ∀ c ∈ ['+', '-'], c ∈ digits09 ++ ['-', '.', '+', 'e', 'E'] :=
    List.all_iff_forall_prop.mp (by decide)
  obtain ⟨⟨-, whole⟩, fraction, exponent⟩ := formed
  intro c mem
  simp only [NumberText.text, List.mem_append] at mem
  rcases mem with ((sign | mem) | mem) | mem
  · split at sign
    · rw [List.mem_singleton.mp sign]
      decide
    · cases sign
  · exact digit (whole c mem)
  · cases written : n.fraction with
    | none => simp [written] at mem
    | some digits =>
      simp only [written, Option.elim_some] at mem
      rcases List.mem_cons.mp mem with rfl | mem
      · decide
      · exact digit ((fraction digits written).2 c mem)
  · cases written : n.exponent with
    | none => simp [written] at mem
    | some parts =>
      obtain ⟨mark, sign, digits⟩ := parts
      obtain ⟨marked, signed, -, scaled⟩ := exponent mark sign digits written
      simp only [written, Option.elim_some, List.mem_cons, List.mem_append,
        Option.mem_toList] at mem
      rcases mem with rfl | mem | mem
      · exact marks c marked
      · exact signs c (signed c mem)
      · exact digit (scaled c mem)

theorem NumberText.WellFormed.plain {n : NumberText} (formed : n.WellFormed) :
    ∀ c ∈ n.text, (isSpace c = false ∧ c ∉ ['<', '>', '=', '!']) ∧ c ≠ '$' := by
  have every : ∀ c ∈ digits09 ++ ['-', '.', '+', 'e', 'E'],
      (isSpace c = false ∧ c ∉ ['<', '>', '=', '!']) ∧ c ≠ '$' :=
    List.all_iff_forall_prop.mp (by decide)
  exact fun c mem => every c (formed.chars c mem)

theorem NumberText.WellFormed.some_ {n : NumberText} (formed : n.WellFormed) : n.text ≠ [] := by
  simp [NumberText.text, formed.whole.1]

theorem solid_quoted {quote : Char} (mark : quote ∈ quotes) (content : List Char) :
    Solid (quote :: (content ++ [quote])) := by
  have plain : ∀ quote ∈ quotes, isSpace quote = false ∧ quote ∉ ['<', '>', '=', '!'] :=
    List.all_iff_forall_prop.mp (by decide)
  refine ⟨List.cons_ne_nil _ _, fun c mem => ?_, fun c mem => ?_⟩
  · cases mem
    exact plain quote mark
  · rw [← List.cons_append, List.getLast?_append] at mem
    cases mem
    exact (plain quote mark).1

theorem removeRoots_quoted {quote : Char} (mark : quote ∈ quotes) (content : List Char) :
    removeRoots (quote :: (content ++ [quote])) = quote :: (removeRoots content ++ [quote]) := by
  have plain : ∀ quote ∈ quotes, quote ≠ '$' ∧ quote ≠ '.' :=
    List.all_iff_forall_prop.mp (by decide)
  obtain ⟨noRoot, noDot⟩ := plain quote mark
  have other (text : List Char) : ¬ ['$', '.'] <+: quote :: text := by
    rintro ⟨tail, same⟩
    exact noRoot (List.cons.inj same).1.symm
  rw [removeRoots_cons (other _), removeRoots_append_cons noDot, removeRoots_cons (other _)]
  rfl

theorem GateLiteral.WellFormed.solid {literal : GateLiteral} (formed : literal.WellFormed) :
    Solid (removeRoots literal.text) := by
  cases literal with
  | number n =>
    have formed : n.WellFormed := formed
    have plain := formed.plain
    rw [GateLiteral.text, removeRoots_of_plain fun mem => (plain _ mem).2 rfl]
    exact solid_of_plain formed.some_ fun c mem => (plain c mem).1
  | bool value =>
    cases value with
    | true => exact solid_of_plain (by decide) (List.all_iff_forall_prop.mp (by decide))
    | false => exact solid_of_plain (by decide) (List.all_iff_forall_prop.mp (by decide))
  | null => exact solid_of_plain (by decide) (List.all_iff_forall_prop.mp (by decide))
  | quoted quote content =>
    rw [GateLiteral.text, removeRoots_quoted formed]
    exact solid_quoted formed _

end Literals

section Parsing

variable {N : Numerals} {n : NumberText}

theorem NumberText.WellFormed.lowered_ne (formed : n.WellFormed) {letter : Char}
    (word : letter ∈ ['t', 'f', 'n']) {rest : List Char} : n.text.map Char.toLower ≠ letter :: rest := by
  have differs : ∀ c ∈ digits09 ++ ['-', '.', '+', 'e', 'E'], c.toLower ∉ ['t', 'f', 'n'] :=
    List.all_iff_forall_prop.mp (by decide)
  intro same
  obtain ⟨c, mem, lower⟩ := List.mem_map.mp (same ▸ List.mem_cons_self : letter ∈ _)
  exact differs c (formed.chars c mem) (lower ▸ word)

theorem parseLiteral_of_ne {value : List Char}
    (words : ∀ letter ∈ ['t', 'f', 'n'], ∀ rest, value.map Char.toLower ≠ letter :: rest) :
    parseLiteral N value =
      if matchesNumber N value then
        if '.' ∈ value then .float (N.float value) else .int (N.int value)
      else if quotes.any fun quote => value.head? = some quote ∧ value.getLast? = some quote then
        .str (String.ofList (value.drop 1).dropLast)
      else .str (String.ofList value) := by
  have yes : value.map Char.toLower ≠ "true".toList := words 't' (by decide) _
  have no : value.map Char.toLower ≠ "false".toList := words 'f' (by decide) _
  have none : value.map Char.toLower ≠ "null".toList := words 'n' (by decide) _
  simp only [parseLiteral, if_neg yes, if_neg no, if_neg none]

theorem parse_bool (value : Bool) : parseLiteral N (GateLiteral.bool value).text = .bool value := by
  cases value <;> rfl

theorem parse_null : parseLiteral N GateLiteral.null.text = .null := rfl

theorem parse_quoted (lawful : N.Lawful) {quote : Char} (mark : quote ∈ quotes) (content : List Char) :
    parseLiteral N (quote :: (content ++ [quote])) = .str (String.ofList content) := by
  have plain : ∀ quote ∈ quotes, quote.toLower ∉ ['t', 'f', 'n'] ∧ quote ≠ '-' ∧
      quote ∈ ['.', '-', '+', 'e', 'E', Char.ofNat 34, Char.ofNat 39] :=
    List.all_iff_forall_prop.mp (by decide)
  obtain ⟨lower, minus, other⟩ := plain quote mark
  have noNumber : matchesNumber N (quote :: (content ++ [quote])) = false := by
    simp [matchesNumber, minus, lawful.other quote other]
  have marked : quotes.any fun mark => (quote :: (content ++ [quote])).head? = some mark ∧
      (quote :: (content ++ [quote])).getLast? = some mark := by
    refine List.any_eq_true.mpr ⟨quote, mark, decide_eq_true ⟨rfl, ?_⟩⟩
    rw [← List.cons_append, List.getLast?_append]
    rfl
  rw [parseLiteral_of_ne, if_neg (by simp [noNumber]), if_pos marked]
  · simp
  · intro letter word rest same
    rw [List.map_cons] at same
    exact lower ((List.cons.inj same).1 ▸ word)

theorem NumberText.head_whole (formed : n.WellFormed) : ∃ c rest, n.whole = c :: rest ∧ c ≠ '-' := by
  have digit : ∀ c ∈ digits09, c ≠ '-' := List.all_iff_forall_prop.mp (by decide)
  obtain ⟨some_, digits⟩ := formed.whole
  obtain ⟨c, rest, whole⟩ := List.exists_cons_of_ne_nil some_
  exact ⟨c, rest, whole, digit c (digits c (by simp [whole]))⟩

def NumberText.tail (n : NumberText) : List Char :=
  (n.fraction.elim [] fun digits => '.' :: digits) ++
    n.exponent.elim [] fun (mark, sign, digits) => mark :: (sign.toList ++ digits)

theorem NumberText.tail_head (lawful : N.Lawful) (formed : n.WellFormed) :
    ∀ c ∈ n.tail.head?, N.isDecimal c = false := by
  have marks : ∀ c ∈ ['e', 'E'],
      c ∈ ['.', '-', '+', 'e', 'E', Char.ofNat 34, Char.ofNat 39] :=
    List.all_iff_forall_prop.mp (by decide)
  intro c mem
  refine lawful.other c ?_
  cases fraction : n.fraction with
  | some digits =>
    simp only [tail, fraction, Option.elim_some, List.cons_append, List.head?_cons,
      Option.mem_some] at mem
    rw [← mem]
    decide
  | none =>
    cases exponent : n.exponent with
    | none => simp [tail, fraction, exponent] at mem
    | some parts =>
      obtain ⟨mark, sign, digits⟩ := parts
      simp only [tail, fraction, exponent, Option.elim_some, Option.elim_none, List.nil_append,
        List.head?_cons, Option.mem_some] at mem
      exact mem ▸ marks mark (formed.exponent mark sign digits exponent).1

theorem matchesNumber_number (lawful : N.Lawful) (formed : n.WellFormed) :
    matchesNumber N n.text = decide (n.tail = [] ∨ n.tail.head? = some '.' ∧ n.tail.drop 1 ≠ [] ∧
      (n.tail.drop 1).all N.isDecimal) := by
  obtain ⟨c, rest, whole, minus⟩ := n.head_whole formed
  have text : n.text = (if n.negative then ['-'] else []) ++ (n.whole ++ n.tail) := by
    simp only [NumberText.text, NumberText.tail, List.append_assoc]
  have unsigned : (if n.text.head? = some '-' then n.text.drop 1 else n.text) =
      n.whole ++ n.tail := by
    rw [text]
    cases n.negative <;> simp [whole, minus]
  have digits : ∀ c ∈ n.whole, N.isDecimal c = true := fun c mem =>
    lawful.digit c (formed.whole.2 c mem)
  have fraction : (n.whole ++ n.tail).dropWhile N.isDecimal = n.tail := by
    rw [List.dropWhile_append_of_pos digits]
    cases tail : n.tail with
    | nil => rfl
    | cons mark rest =>
      have other := NumberText.tail_head lawful formed mark (by simp [tail])
      exact List.dropWhile_cons_of_neg (by simp [other])
  have first : (n.whole ++ n.tail).head?.any N.isDecimal = true := by
    simp [whole, digits c (by simp [whole])]
  simp only [matchesNumber, unsigned, fraction, first, true_and]

theorem NumberText.WellFormed.matches (lawful : N.Lawful) (formed : n.WellFormed) :
    matchesNumber N n.text = decide (n.exponent = none) := by
  rw [matchesNumber_number lawful formed]
  refine decide_eq_decide.mpr ?_
  cases exponent : n.exponent with
  | none =>
    cases fraction : n.fraction with
    | none => simp [NumberText.tail, fraction, exponent]
    | some digits =>
      obtain ⟨some_, each⟩ := formed.fraction digits fraction
      have decimal : ∀ c ∈ digits, N.isDecimal c = true := fun c mem => lawful.digit c (each c mem)
      simpa [NumberText.tail, fraction, exponent, some_] using decimal
  | some parts =>
    obtain ⟨mark, sign, digits⟩ := parts
    have marks : ∀ c ∈ ['e', 'E'], c ≠ '.' ∧
        c ∈ ['.', '-', '+', 'e', 'E', Char.ofNat 34, Char.ofNat 39] :=
    List.all_iff_forall_prop.mp (by decide)
    obtain ⟨point, other⟩ := marks mark (formed.exponent mark sign digits exponent).1
    cases fraction : n.fraction with
    | none => simp [NumberText.tail, fraction, exponent, point]
    | some places => simp [NumberText.tail, fraction, exponent, lawful.other mark other]

theorem NumberText.WellFormed.point (formed : n.WellFormed) (exponent : n.exponent = none) :
    '.' ∈ n.text ↔ n.fraction ≠ none := by
  have digit : ∀ c ∈ digits09, c ≠ '.' := List.all_iff_forall_prop.mp (by decide)
  cases fraction : n.fraction with
  | none =>
    have absent : '.' ∉ n.whole := fun mem => digit '.' (formed.whole.2 '.' mem) rfl
    cases negative : n.negative <;> simp [NumberText.text, fraction, exponent, absent, negative]
  | some digits => simp [NumberText.text, fraction, exponent]

theorem NumberText.WellFormed.unquoted (formed : n.WellFormed) :
    ¬ quotes.any fun quote => n.text.head? = some quote ∧ n.text.getLast? = some quote := by
  have plain : ∀ c ∈ digits09 ++ ['-', '.', '+', 'e', 'E'], c ∉ quotes :=
    List.all_iff_forall_prop.mp (by decide)
  intro marked
  obtain ⟨quote, mark, both⟩ := List.any_eq_true.mp marked
  have first : n.text.head? = some quote := (of_decide_eq_true both).1
  exact plain quote (formed.chars quote (List.mem_of_mem_head? first)) mark

theorem parse_number (lawful : N.Lawful) (formed : n.WellFormed) : parseLiteral N n.text =
    if n.exponent = none then (GateLiteral.number n).value N else .str (String.ofList n.text) := by
  rw [parseLiteral_of_ne fun letter word rest => formed.lowered_ne word,
    formed.matches lawful]
  by_cases exponent : n.exponent = none
  · rw [if_pos (decide_eq_true exponent), if_pos exponent, GateLiteral.value]
    by_cases fraction : n.fraction = none
    · rw [if_neg fun mem => (formed.point exponent).mp mem fraction, if_pos ⟨fraction, exponent⟩]
    · rw [if_pos ((formed.point exponent).mpr fraction), if_neg fun both => fraction both.1]
  · rw [if_neg (by simp [exponent]), if_neg exponent, if_neg formed.unquoted]

theorem GateLiteral.WellFormed.parse (lawful : N.Lawful) {literal : GateLiteral}
    (formed : literal.WellFormed) (simple : ∀ n, literal = .number n → n.exponent = none) :
    parseLiteral N literal.text = literal.value N := by
  cases literal with
  | number n => exact (parse_number lawful formed).trans (if_pos (simple n rfl))
  | bool value => exact parse_bool value
  | null => exact parse_null
  | quoted quote content => exact parse_quoted lawful formed content

theorem GateLiteral.WellFormed.quoted_of_root {literal : GateLiteral} (formed : literal.WellFormed)
    (root : ['$', '.'] <:+: literal.text) : ∃ quote content, literal = .quoted quote content := by
  have dollar : '$' ∈ literal.text := root.subset (by decide)
  cases literal with
  | number n => exact absurd rfl (NumberText.WellFormed.plain formed '$' dollar).2
  | bool value => cases value <;> exact absurd dollar (by decide)
  | null => exact absurd dollar (by decide)
  | quoted quote content => exact ⟨quote, content, rfl⟩

theorem scalar_parseLiteral {value : List Char} : (parseLiteral N value).isScalar := by
  simp only [parseLiteral]
  split_ifs <;> rfl

end Parsing

section Search

theorem GateOp.chars (op : GateOp) : ∀ c ∈ op.text, c ∈ ['<', '>', '=', '!'] := by
  cases op <;> exact List.all_iff_forall_prop.mp (by decide)

theorem GateOp.solid {c : Char} (operator : c ∈ ['<', '>', '=', '!']) :
    isSpace c = false ∧ c ≠ '$' ∧ c ≠ '.' := by
  have every : ∀ c ∈ ['<', '>', '=', '!'], isSpace c = false ∧ c ≠ '$' ∧ c ≠ '.' :=
    List.all_iff_forall_prop.mp (by decide)
  exact every c operator

theorem GateOp.text_cons (op : GateOp) : ∃ c rest, op.text = c :: rest := by
  cases op <;> exact ⟨_, _, rfl⟩

theorem GateOp.not_infix_of_earlier {op other : GateOp} (before : other ∈ op.earlier) :
    ¬ other.text <:+: op.text := by
  revert before
  cases op <;> cases other <;> decide

theorem GateOp.all_eq (op : GateOp) : ∃ later, GateOp.all = op.earlier ++ op :: later := by
  cases op <;> exact ⟨_, rfl⟩

section Find

variable {p : GateOp → Bool} {op : GateOp}

theorem find?_all (found : p op = true) (first : ∀ other ∈ op.earlier, p other = false) :
    GateOp.all.find? p = some op := by
  obtain ⟨later, all⟩ := op.all_eq
  have none : op.earlier.find? p = none :=
    List.find?_eq_none.mpr fun other mem => by simp [first other mem]
  rw [all, List.find?_append, none, Option.none_or, List.find?_cons_of_pos found]

theorem find?_all_of_earlier {other : GateOp} (found : p other = true) (mem : other ∈ op.earlier) :
    ∃ first ∈ op.earlier, GateOp.all.find? p = some first := by
  obtain ⟨later, all⟩ := op.all_eq
  obtain ⟨first, there⟩ := Option.isSome_iff_exists.mp (List.find?_isSome.mpr ⟨other, mem, found⟩)
  refine ⟨first, List.mem_of_find?_eq_some there, ?_⟩
  rw [all, List.find?_append, there, Option.some_or]

end Find

theorem infix_of_infix_between {op other : GateOp} {front back : List Char}
    (before : ∀ c ∈ front, c ∉ ['<', '>', '=', '!']) (after : ∀ c ∈ back, c ∉ ['<', '>', '=', '!'])
    (inside : other.text <:+: front ++ op.text ++ back) : other.text <:+: op.text := by
  have kept := inside.filter fun c => c ∈ ['<', '>', '=', '!']
  have none {text : List Char} (plain : ∀ c ∈ text, c ∉ ['<', '>', '=', '!']) :
      text.filter (fun c => c ∈ ['<', '>', '=', '!']) = [] :=
    List.filter_eq_nil_iff.mpr fun c mem => by simpa using plain c mem
  have whole (op : GateOp) : op.text.filter (fun c => c ∈ ['<', '>', '=', '!']) = op.text :=
    List.filter_eq_self.mpr fun c mem => decide_eq_true (op.chars c mem)
  rw [List.filter_append, List.filter_append, none before, none after, whole, whole,
    List.nil_append, List.append_nil] at kept
  exact kept

end Search

namespace GateCondition

variable {N : Numerals} {c : GateCondition} (formed : c.WellFormed)

def lead (c : GateCondition) : List Char :=
  (c.before ++ removeRoots c.path ++ c.left).dropWhile isSpace

section Text
include formed

theorem WellFormed.space {char : Char} (mem : char ∈ c.before ++ c.left ++ c.right ++ c.after) :
    char ≠ '$' ∧ char ≠ '.' ∧ char ∉ ['<', '>', '=', '!'] := by
  have space := formed.spaces char mem
  refine ⟨?_, ?_, fun operator => ?_⟩
  · rintro rfl
    revert space
    decide
  · rintro rfl
    revert space
    decide
  · rw [(GateOp.solid operator).1] at space
    cases space

theorem WellFormed.lead_plain : ∀ char ∈ c.lead, char ∉ ['<', '>', '=', '!'] := by
  intro char mem
  have mem := (List.dropWhile_sublist _).subset mem
  simp only [List.mem_append] at mem
  rcases mem with (mem | mem) | mem
  · exact (formed.space (by simp [mem])).2.2
  · exact formed.plain char (removeRoots_sublist.subset mem)
  · exact (formed.space (by simp [mem])).2.2

theorem WellFormed.removed : removeRoots c.text =
    (c.before ++ removeRoots c.path ++ c.left) ++
      (c.op.text ++ c.right ++ removeRoots c.literal.text) ++ c.after := by
  have mid {char : Char} (mem : char ∈ c.left ++ c.op.text ++ c.right) : char ≠ '$' ∧ char ≠ '.' := by
    rcases List.mem_append.mp mem with mem | mem
    · rcases List.mem_append.mp mem with mem | mem
      · exact (formed.space (by simp [mem])).imp_right And.left
      · exact (GateOp.solid (c.op.chars char mem)).2
    · exact (formed.space (by simp [mem])).imp_right And.left
  obtain ⟨first, rest, operator⟩ := c.op.text_cons
  have some_ : c.left ++ c.op.text ++ c.right ≠ [] := by simp [operator]
  have dot : ∀ char ∈ ((c.left ++ c.op.text ++ c.right) ++ (c.literal.text ++ c.after)).head?,
      char ≠ '.' := by
    intro char mem
    rw [List.head?_append_of_ne_nil _ some_] at mem
    exact (mid (List.mem_of_mem_head? mem)).2
  have path : removeRoots ((if c.rooted then ['$', '.'] else []) ++ c.path) =
      removeRoots c.path := by
    split
    · exact removeRoots_root
    · rfl
  have literal : removeRoots (c.literal.text ++ c.after) =
      removeRoots c.literal.text ++ c.after := by
    have dot : ∀ char ∈ c.after.head?, char ≠ '.' :=
      fun char mem => (formed.space (by simp [List.mem_of_mem_head? mem])).2.1
    have same : removeRoots c.after = c.after :=
      removeRoots_of_plain fun mem => (formed.space (by simp [mem])).1 rfl
    rw [removeRoots_append dot, same]
  have assoc : c.text = c.before ++ (((if c.rooted then ['$', '.'] else []) ++ c.path) ++
      ((c.left ++ c.op.text ++ c.right) ++ (c.literal.text ++ c.after))) := by
    simp only [text, List.append_assoc]
  rw [assoc, removeRoots_plain_append fun mem => (formed.space (by simp [mem])).1 rfl,
    removeRoots_append dot, path, removeRoots_plain_append fun mem => (mid mem).1 rfl, literal]
  simp only [List.append_assoc]

theorem WellFormed.condition : strip (removeRoots c.text) =
    c.lead ++ c.op.text ++ c.right ++ removeRoots c.literal.text := by
  have solid := formed.literal.solid
  obtain ⟨first, rest, operator⟩ := c.op.text_cons
  have mark := c.op.chars first (by simp [operator])
  rw [formed.removed, strip_append_solid]
  · simp only [lead, List.append_assoc]
  · intro char mem
    simp only [operator, List.cons_append, List.head?_cons, Option.mem_some] at mem
    exact mem ▸ (GateOp.solid mark).1
  · intro char mem
    rw [List.getLast?_append_of_ne_nil _ solid.some_] at mem
    exact solid.last char mem
  · simp [operator]
  · exact fun char mem => formed.spaces char (by simp [mem])

theorem WellFormed.right_plain : ∀ char ∈ c.right, char ∉ ['<', '>', '=', '!'] :=
  fun _ mem => (formed.space (by simp [mem])).2.2

theorem WellFormed.not_infix_front {other : GateOp} (differs : ¬ other.text <:+: c.op.text) :
    ¬ other.text <:+: c.lead ++ c.op.text ++ c.right :=
  fun inside => differs (infix_of_infix_between formed.lead_plain formed.right_plain inside)

theorem WellFormed.infix_condition {other : GateOp} (differs : ¬ other.text <:+: c.op.text) :
    other.text <:+: strip (removeRoots c.text) ↔ other.text <:+: removeRoots c.literal.text := by
  obtain ⟨some_, first, -⟩ := formed.literal.solid
  obtain ⟨mark, rest, literal⟩ := List.exists_cons_of_ne_nil some_
  rw [formed.condition, literal, infix_around other.chars (first mark (by rw [literal]; rfl)).2,
    or_iff_right (formed.not_infix_front differs)]

/-- Without an operator in the literal that is searched for earlier, the condition is divided where
it should be. -/
theorem WellFormed.read (clear : ∀ op ∈ c.op.earlier, ¬ op.text <:+: removeRoots c.literal.text) :
    readCondition N c.text =
      some (strip c.lead, c.op, parseLiteral N (removeRoots c.literal.text)) := by
  have condition := formed.condition
  have solid := formed.literal.solid
  have found : c.op.text <:+: strip (removeRoots c.text) := by
    rw [condition, List.append_assoc]
    exact ⟨c.lead, _, rfl⟩
  have first : GateOp.all.find? (fun op => op.text <:+: strip (removeRoots c.text)) = some c.op := by
    refine find?_all (decide_eq_true found) fun other earlier => decide_eq_false ?_
    rw [formed.infix_condition (GateOp.not_infix_of_earlier earlier)]
    exact clear other earlier
  obtain ⟨mark, rest, operator⟩ := c.op.text_cons
  have absent : mark ∉ c.lead := fun mem =>
    formed.lead_plain mark mem (c.op.chars mark (by simp [operator]))
  have divided : splitFirst c.op.text (strip (removeRoots c.text)) =
      some (c.lead, c.right ++ removeRoots c.literal.text) := by
    rw [condition, List.append_assoc, operator]
    exact splitFirst_append absent
  have spaces : c.right.dropWhile isSpace = [] :=
    List.dropWhile_eq_nil_iff.mpr fun char mem => formed.spaces char (by simp [mem])
  have literal : strip (c.right ++ removeRoots c.literal.text) = removeRoots c.literal.text := by
    have kept := @strip_append_solid c.right (removeRoots c.literal.text) []
      (fun char mem => (solid.first char mem).1) solid.last solid.some_ (by simp)
    simpa [spaces] using kept
  simp only [readCondition, first, Option.bind_some, divided, Option.map_some, literal]

theorem WellFormed.misread {op : GateOp} (earlier : op ∈ c.op.earlier)
    (inside : op.text <:+: removeRoots c.literal.text) : ∃ path other value,
      readCondition N c.text = some (path, other, parseLiteral N value) ∧
        ∃ char ∈ path, char ∈ ['<', '>', '=', '!'] := by
  have there : op.text <:+: strip (removeRoots c.text) :=
    (formed.infix_condition (GateOp.not_infix_of_earlier earlier)).mpr inside
  obtain ⟨other, before, first⟩ : ∃ other ∈ c.op.earlier,
      GateOp.all.find? (fun op => op.text <:+: strip (removeRoots c.text)) = some other :=
    find?_all_of_earlier (decide_eq_true there) earlier
  have found : other.text <:+: strip (removeRoots c.text) := by
    simpa using List.find?_some first
  obtain ⟨⟨left, right⟩, divided⟩ :=
    Option.ne_none_iff_exists'.mp (mt splitFirst_eq_none.mp (not_not.mpr found))
  refine ⟨strip left, other, strip right, ?_, ?_⟩
  · simp only [readCondition, first, Option.bind_some, divided, Option.map_some]
  · obtain ⟨some_, solid, -⟩ := formed.literal.solid
    obtain ⟨start, rest, literal⟩ := List.exists_cons_of_ne_nil some_
    have same := (eq_of_splitFirst divided).symm.trans formed.condition
    rw [literal] at same
    obtain ⟨between, rfl, -⟩ :=
      (split_around other.chars (solid start (by rw [literal]; rfl)).2 same).resolve_left
        (formed.not_infix_front (GateOp.not_infix_of_earlier before))
    obtain ⟨mark, rest, operator⟩ := c.op.text_cons
    have kind := c.op.chars mark (by simp [operator])
    refine ⟨mark, (mem_strip (GateOp.solid kind).1).mpr ?_, kind⟩
    simp [operator]

theorem WellFormed.strip_lead (clean : ¬ ['$', '.'] <:+: c.path) : strip c.lead = c.path := by
  have spaces : c.before.dropWhile isSpace = [] :=
    List.dropWhile_eq_nil_iff.mpr fun char mem => formed.spaces char (by simp [mem])
  have kept := @strip_append_solid [] c.path c.left formed.first formed.last formed.some_
    fun char mem => formed.spaces char (by simp [mem])
  have first : ∀ char ∈ (c.path ++ c.left).head?, isSpace char = false := by
    intro char mem
    rw [List.head?_append_of_ne_nil _ formed.some_] at mem
    exact formed.first char mem
  have lead : c.lead = c.path ++ c.left := by
    rw [GateCondition.lead, removeRoots_of_clean clean, List.append_assoc,
      dropWhile_append_solid first (by simp [formed.some_]), spaces, List.nil_append]
  rw [lead]
  simpa using kept

theorem WellFormed.strip_lead_ne (roots : ['$', '.'] <:+: c.path) : strip c.lead ≠ c.path := by
  intro same
  have solid : isSpace '$' = false := by decide
  have fewer := count_removeRoots roots
  have before : c.before.count '$' = 0 :=
    List.count_eq_zero.mpr fun mem => (formed.space (by simp [mem])).1 rfl
  have left : c.left.count '$' = 0 :=
    List.count_eq_zero.mpr fun mem => (formed.space (by simp [mem])).1 rfl
  have count := congrArg (List.count '$') same
  rw [count_strip solid, lead, count_dropWhile solid, List.count_append, List.count_append,
    before, left] at count
  omega

end Text

end GateCondition

end Deeting.SpecAgent
