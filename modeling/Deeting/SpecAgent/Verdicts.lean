import Deeting.SpecAgent.Readings

/-! The gates of which every condition is read as it is meant. Where a condition is read as
another, there is a value that only one of the two holds of. -/
namespace Deeting.SpecAgent
open Deeting.Stream (strip)

namespace GateOp

section Relations

variable {α : Type} [LinearOrder α] {op : GateOp} {a b : α}

theorem exists_relates (op : GateOp) (up : ∃ x, b < x) (down : op = .lt → ∃ x, x < b) :
    ∃ x, op.relates x b = true := by
  obtain ⟨above, greater⟩ := up
  cases op with
  | ge => exact ⟨b, decide_eq_true le_rfl⟩
  | le => exact ⟨b, decide_eq_true le_rfl⟩
  | gt => exact ⟨above, decide_eq_true greater⟩
  | lt =>
    obtain ⟨below, less⟩ := down rfl
    exact ⟨below, decide_eq_true less⟩
  | eq => exact ⟨b, decide_eq_true rfl⟩
  | ne => exact ⟨above, decide_eq_true greater.ne'⟩

theorem relates_ne (op : GateOp) (ne : a ≠ b) : ∃ x, op.relates x a ≠ op.relates x b := by
  rcases lt_or_gt_of_ne ne with less | less
  · cases op with
    | ge => exact ⟨a, by simp [relates, less]⟩
    | le => exact ⟨b, by simp [relates, less]⟩
    | gt => exact ⟨b, by simp [relates, less]⟩
    | lt => exact ⟨a, by simp [relates, less]⟩
    | eq => exact ⟨a, by simp [relates, ne]⟩
    | ne => exact ⟨a, by simp [relates, ne]⟩
  · cases op with
    | ge => exact ⟨b, by simp [relates, less]⟩
    | le => exact ⟨a, by simp [relates, less]⟩
    | gt => exact ⟨a, by simp [relates, less]⟩
    | lt => exact ⟨b, by simp [relates, less]⟩
    | eq => exact ⟨a, by simp [relates, ne]⟩
    | ne => exact ⟨a, by simp [relates, ne]⟩

end Relations

section Values

variable {op : GateOp} {s t : String} {q r : ℚ} {x y : Json}

theorem holds_str : op.holds (.str s) (.str t) = op.relates s t := by
  cases op <;> simp [holds, ordered, relates, Json.same, Json.number?, beq_eq_decide]

theorem same_number (first : x.number? = some q) (second : y.number? = some r) :
    x.same y = decide (q = r) := by
  have same : x.same y = (x.number?.isSome && x.number? == y.number?) := by
    cases x with
    | bool a => cases y <;> rfl
    | int a => cases y <;> rfl
    | float a => cases y <;> rfl
    | _ => cases first
  rw [same, first, second]
  simp [beq_eq_decide]

theorem holds_number (first : x.number? = some q) (second : y.number? = some r) :
    op.holds x y = op.relates q r := by
  cases op <;> simp [holds, ordered, relates, first, second, same_number first second]

theorem ordered_of_apart (numbers : x.number? = none ∨ y.number? = none)
    (texts : x.string? = none ∨ y.string? = none) : op.ordered x y = false := by
  unfold ordered
  split
  · rename_i a b first second
    rcases numbers with none | none
    · simp [none] at first
    · simp [none] at second
  · split
    · rcases texts with none | none <;> cases none
    · rfl

theorem holds_of_apart (differs : x.same y = false) (numbers : x.number? = none ∨ y.number? = none)
    (texts : x.string? = none ∨ y.string? = none) : op.holds x y = decide (op = .ne) := by
  cases op <;> simp [holds, differs, ordered_of_apart numbers texts]

theorem same_self (scalar : x.isScalar) : x.same x = true := by
  cases x with
  | null => rfl
  | str s => simp [Json.same]
  | bool a => exact (same_number rfl rfl).trans (decide_eq_true rfl)
  | int a => exact (same_number rfl rfl).trans (decide_eq_true rfl)
  | float a => exact (same_number rfl rfl).trans (decide_eq_true rfl)
  | arr items => cases scalar
  | obj entries => cases scalar

theorem scalar_cases (scalar : x.isScalar) :
    x = .null ∨ (∃ s, x = .str s) ∨ ∃ q, x.number? = some q := by
  cases x with
  | null => exact .inl rfl
  | str s => exact .inr (.inl ⟨s, rfl⟩)
  | bool a => exact .inr (.inr ⟨_, rfl⟩)
  | int a => exact .inr (.inr ⟨_, rfl⟩)
  | float a => exact .inr (.inr ⟨_, rfl⟩)
  | arr items => cases scalar
  | obj entries => cases scalar

theorem exists_apart (scalar : y.isScalar) :
    ∃ x, x.isScalar ∧ ∀ op : GateOp, op.holds x y = decide (op = .ne) := by
  rcases scalar_cases scalar with rfl | ⟨s, rfl⟩ | ⟨q, number⟩
  · exact ⟨.bool true, rfl, fun op => holds_of_apart rfl (.inr rfl) (.inl rfl)⟩
  · exact ⟨.null, rfl, fun op => holds_of_apart rfl (.inl rfl) (.inl rfl)⟩
  · refine ⟨.null, rfl, fun op => holds_of_apart ?_ (.inl rfl) (.inl rfl)⟩
    cases y with
    | null => cases number
    | _ => rfl

theorem exists_not_holds (op : GateOp) (scalar : y.isScalar) :
    ∃ x, x.isScalar ∧ op.holds x y = false := by
  by_cases differs : op = .ne
  · refine ⟨y, scalar, ?_⟩
    rw [differs, holds, same_self scalar]
    rfl
  · obtain ⟨x, plain, verdict⟩ := exists_apart scalar
    exact ⟨x, plain, (verdict op).trans (decide_eq_false differs)⟩

theorem exists_holds (scalar : y.isScalar) (null : op ∉ [.eq, .ne] → y ≠ .null)
    (empty : op = .lt → y ≠ .str "") : ∃ x, x.isScalar ∧ op.holds x y = true := by
  rcases scalar_cases scalar with rfl | ⟨s, rfl⟩ | ⟨q, number⟩
  · have kind : op ∈ [.eq, .ne] := by_contra fun other => null other rfl
    rcases List.mem_pair.mp kind with rfl | rfl
    · exact ⟨.null, rfl, rfl⟩
    · exact ⟨.bool true, rfl, rfl⟩
  · have up : s < String.ofList (s.toList ++ ['a']) := by
      rw [String.lt_iff_toList_lt, String.toList_ofList]
      simpa using List.append_left_lt (List.nil_lt_cons 'a' [])
    have down (less : op = .lt) : ∃ x, x < s := by
      refine ⟨"", String.lt_iff_toList_lt.mpr ?_⟩
      obtain ⟨c, rest, text⟩ : ∃ c rest, s.toList = c :: rest :=
        List.exists_cons_of_ne_nil fun none => empty less (by rw [String.toList_eq_nil_iff.mp none])
      rw [text]
      exact List.nil_lt_cons c rest
    obtain ⟨x, related⟩ := op.exists_relates ⟨_, up⟩ down
    exact ⟨.str x, rfl, holds_str.trans related⟩
  · obtain ⟨x, related⟩ := op.exists_relates ⟨q + 1, lt_add_one q⟩ fun _ => ⟨q - 1, sub_one_lt q⟩
    exact ⟨.float x, rfl, (holds_number rfl number).trans related⟩

theorem holds_ne_of_str (op : GateOp) (ne : s ≠ t) :
    ∃ x : Json, op.holds x (.str s) ≠ op.holds x (.str t) := by
  obtain ⟨x, differs⟩ := op.relates_ne ne
  exact ⟨.str x, by rwa [holds_str, holds_str]⟩

theorem holds_ne_of_number (op : GateOp) (number : y.number? = some q) :
    ∃ x : Json, op.holds x y ≠ op.holds x (.str s) := by
  by_cases kind : op = .ne
  · refine ⟨.float q, ?_⟩
    rw [holds_number rfl number, holds_of_apart rfl (.inr rfl) (.inl rfl), kind]
    simp [relates]
  · obtain ⟨x, related⟩ := op.exists_relates ⟨q + 1, lt_add_one q⟩ fun _ => ⟨q - 1, sub_one_lt q⟩
    refine ⟨.float x, ?_⟩
    rw [holds_number rfl number, related, holds_of_apart rfl (.inr rfl) (.inl rfl),
      decide_eq_false kind]
    exact Bool.true_eq_false.mp

end Values
end GateOp

section Paths

variable {keys others : List String} {v expected : Json} {op : GateOp}

def nest : List String → Json → Json
  | [], v => v
  | key :: keys, v => .obj [(key, nest keys v)]

theorem get_nest {key other : String} : (nest (key :: keys) v).get other =
    if key = other then nest keys v else .null := by
  split <;> simp [nest, Json.get, Json.get?, *]

theorem extractKeys_nest : extractKeys (nest keys v) keys = v := by
  induction keys with
  | nil => rfl
  | cons key keys ih =>
    have there : (nest (key :: keys) v).get key = nest keys v := get_nest.trans (if_pos rfl)
    rw [nest, extractKeys, ← nest, there, ih]

theorem extractKeys_null : extractKeys .null keys = .null := by
  cases keys <;> rfl

theorem extractKeys_scalar (scalar : v.isScalar) (some_ : keys ≠ []) : extractKeys v keys = .null := by
  obtain ⟨key, rest, rfl⟩ := List.exists_cons_of_ne_nil some_
  cases v with
  | obj entries => cases scalar
  | _ => rfl

theorem holds_elsewhere (op : GateOp) (ne : others ≠ keys) (scalar : expected.isScalar) :
    ∃ verdict, ∀ v, v.isScalar → op.holds (extractKeys (nest keys v) others) expected = verdict := by
  induction keys generalizing others with
  | nil => exact ⟨_, fun v plain => by rw [nest, extractKeys_scalar plain ne]⟩
  | cons key keys ih =>
    cases others with
    | nil =>
      refine ⟨decide (op = .ne), fun v plain => GateOp.holds_of_apart ?_ (.inl rfl) (.inl rfl)⟩
      cases expected with
      | obj entries => cases scalar
      | _ => rfl
    | cons other others =>
      have next (v : Json) : extractKeys (nest (key :: keys) v) (other :: others) =
          extractKeys (if key = other then nest keys v else .null) others := by
        rw [nest, extractKeys, ← nest, get_nest]
      by_cases same : key = other
      · subst same
        obtain ⟨verdict, every⟩ := @ih others fun same => ne (by rw [same])
        exact ⟨verdict, fun v plain => by rw [next, if_pos rfl, every v plain]⟩
      · exact ⟨_, fun v plain => by rw [next, if_neg same, extractKeys_null]⟩

theorem pathKeys_injective : Function.Injective pathKeys := by
  intro path other same
  have parts := List.map_injective_iff.mpr (fun a b same => String.ofList_inj.mp same) same
  simpa using congrArg (List.intercalate ['.']) parts

theorem extractValue_eq {path other : List Char} (ne : other ≠ path) :
    ∃ keys, keys ≠ pathKeys path ∧ ∀ data, extractValue data other = extractKeys data keys := by
  by_cases empty : other = []
  · have some_ : pathKeys path ≠ [] := mt List.map_eq_nil_iff.mp (List.splitOn_ne_nil '.' path)
    exact ⟨[], some_.symm, fun data => if_pos empty⟩
  · exact ⟨pathKeys other, pathKeys_injective.ne ne, fun data => if_neg empty⟩

end Paths

namespace GateLiteral

variable {N : Numerals} {literal : GateLiteral}

theorem scalar_value : (literal.value N).isScalar := by
  cases literal with
  | number n =>
    rw [value]
    split <;> rfl
  | _ => rfl

theorem value_eq_null (null : literal.value N = .null) : literal = .null := by
  cases literal with
  | number n =>
    rw [value] at null
    split at null <;> cases null
  | null => rfl
  | _ => cases null

theorem value_eq_empty (empty : literal.value N = .str "") : ∃ quote, literal = .quoted quote [] := by
  cases literal with
  | number n =>
    rw [value] at empty
    split at empty <;> cases empty
  | quoted quote content =>
    have none : content = [] := String.ofList_inj.mp (Json.str.inj empty)
    exact ⟨quote, by rw [none]⟩
  | _ => cases empty

end GateLiteral

namespace GateCondition

variable {N : Numerals} {c : GateCondition}

theorem exists_value (possible : ¬ c.Never) (verdict : Bool) :
    ∃ v, v.isScalar ∧ c.op.holds v (c.literal.value N) = verdict := by
  cases verdict with
  | true =>
    obtain ⟨null, empty⟩ := not_or.mp possible
    exact GateOp.exists_holds GateLiteral.scalar_value
      (fun order same => null ⟨order, GateLiteral.value_eq_null same⟩)
      fun less same => empty ⟨less, GateLiteral.value_eq_empty same⟩
  | false => exact GateOp.exists_not_holds c.op GateLiteral.scalar_value

theorem holds_nest {v : Json} :
    c.holds N (nest (pathKeys c.path) v) = c.op.holds v (c.literal.value N) := by
  rw [holds, extractKeys_nest]

theorem exists_ne_of_path {path : List Char} {op : GateOp} {expected : Json} (possible : ¬ c.Never)
    (read : readCondition N c.text = some (path, op, expected)) (ne : path ≠ c.path)
    (scalar : expected.isScalar) : ∃ data, conditionHolds N c.text data ≠ c.holds N data := by
  obtain ⟨keys, elsewhere, extracted⟩ := extractValue_eq ne
  obtain ⟨verdict, every⟩ := holds_elsewhere op elsewhere scalar
  obtain ⟨v, plain, value⟩ := exists_value possible (!verdict)
  refine ⟨nest (pathKeys c.path) v, ?_⟩
  rw [conditionHolds, read, holds_nest, value]
  show op.holds _ _ ≠ _
  rw [extracted, every v plain]
  simp

theorem exists_ne_of_literal {expected : Json}
    (read : readCondition N c.text = some (c.path, c.op, expected)) (formed : c.WellFormed)
    (differs : ∃ v, c.op.holds v (c.literal.value N) ≠ c.op.holds v expected) :
    ∃ data, conditionHolds N c.text data ≠ c.holds N data := by
  obtain ⟨v, differs⟩ := differs
  refine ⟨nest (pathKeys c.path) v, ?_⟩
  rw [conditionHolds, read, holds_nest]
  show c.op.holds _ _ ≠ _
  rw [extractValue, if_neg formed.some_, extractKeys_nest]
  exact differs.symm

theorem Never.clear (never : c.Never) (formed : c.WellFormed) :
    ∀ op ∈ c.op.earlier, ¬ op.text <:+: removeRoots c.literal.text := by
  rcases never with ⟨-, null⟩ | ⟨less, quote, empty⟩
  · have clear : ∀ op : GateOp, ¬ op.text <:+: removeRoots GateLiteral.null.text := by
      intro op
      cases op <;> decide
    rw [null]
    exact fun op _ => clear op
  · have clear : ∀ quote ∈ quotes, ∀ op ∈ GateOp.lt.earlier,
        ¬ op.text <:+: removeRoots (GateLiteral.quoted quote []).text :=
      List.all_iff_forall_prop.mp (by decide)
    have mark : quote ∈ quotes := by simpa [empty, GateLiteral.WellFormed] using formed.literal
    rw [less, empty]
    exact clear quote mark

theorem Never.not_holds (never : c.Never) (v : Json) : c.op.holds v (c.literal.value N) = false := by
  rcases never with ⟨order, null⟩ | ⟨less, quote, empty⟩
  · have unordered : c.op.ordered v .null = false := GateOp.ordered_of_apart (.inr rfl) (.inr rfl)
    rw [null]
    revert order unordered
    cases c.op with
    | eq => exact fun order => absurd (by decide) order
    | ne => exact fun order => absurd (by decide) order
    | _ => exact fun _ unordered => unordered
  · have apart (v : Json) (none : v.string? = .none) : GateOp.lt.ordered v (.str "") = false :=
      GateOp.ordered_of_apart (.inr rfl) (.inl none)
    rw [less, empty]
    cases text : v.string? with
    | none => exact apart v text
    | some s =>
      have same : v = .str s := by cases v <;> simp_all [Json.string?]
      rw [same]
      refine GateOp.holds_str.trans (decide_eq_false fun small => ?_)
      exact List.not_lt_nil _ (String.lt_iff_toList_lt.mp small)

theorem WellFormed.holds_of_readable (lawful : N.Lawful) (formed : c.WellFormed)
    (readable : c.Readable) (data : Json) : conditionHolds N c.text data = c.holds N data := by
  rcases readable with never | ⟨path, literal, clear, simple⟩
  · have expected : parseLiteral N (removeRoots c.literal.text) = c.literal.value N := by
      have clean : removeRoots c.literal.text = c.literal.text := by
        rcases never with ⟨-, null⟩ | ⟨-, quote, empty⟩
        · rw [null]
          rfl
        · have mark : quote ∈ quotes := by
            simpa [empty, GateLiteral.WellFormed] using formed.literal
          rw [empty, GateLiteral.text, removeRoots_quoted mark]
          rfl
      have simple : ∀ n, c.literal = .number n → n.exponent = none := by
        rcases never with ⟨-, null⟩ | ⟨-, quote, empty⟩
        · simp [null]
        · simp [empty]
      rw [clean, formed.literal.parse lawful simple]
    rw [conditionHolds, formed.read (never.clear formed), holds, never.not_holds, expected]
    exact never.not_holds _
  · have clean : removeRoots c.literal.text = c.literal.text := removeRoots_of_clean literal
    rw [conditionHolds, formed.read (by rwa [clean]), formed.strip_lead path, clean,
      formed.literal.parse lawful simple, holds]
    show c.op.holds (extractValue data c.path) _ = _
    rw [extractValue, if_neg formed.some_]

theorem WellFormed.exists_ne (lawful : N.Lawful) (formed : c.WellFormed) (unreadable : ¬ c.Readable) :
    ∃ data, conditionHolds N c.text data ≠ c.holds N data := by
  obtain ⟨possible, unclean⟩ := not_or.mp unreadable
  by_cases earlier : ∃ op ∈ c.op.earlier, op.text <:+: removeRoots c.literal.text
  · obtain ⟨op, before, inside⟩ := earlier
    obtain ⟨path, other, value, read, char, mem, operator⟩ := formed.misread before inside
    exact exists_ne_of_path possible read (fun same => formed.plain char (same ▸ mem) operator)
      scalar_parseLiteral
  have clear : ∀ op ∈ c.op.earlier, ¬ op.text <:+: removeRoots c.literal.text :=
    fun op before inside => earlier ⟨op, before, inside⟩
  by_cases path : ['$', '.'] <:+: c.path
  · exact exists_ne_of_path possible (formed.read clear) (formed.strip_lead_ne path)
      scalar_parseLiteral
  have read : readCondition N c.text =
      some (c.path, c.op, parseLiteral N (removeRoots c.literal.text)) := by
    rw [formed.read clear, formed.strip_lead path]
  by_cases literal : ['$', '.'] <:+: c.literal.text
  · obtain ⟨quote, content, quoted⟩ := formed.literal.quoted_of_root literal
    have mark : quote ∈ quotes := by simpa [quoted, GateLiteral.WellFormed] using formed.literal
    have fewer := count_removeRoots literal
    rw [quoted, GateLiteral.text, removeRoots_quoted mark] at fewer read
    rw [parse_quoted lawful mark] at read
    refine exists_ne_of_literal read formed ?_
    rw [quoted]
    exact GateOp.holds_ne_of_str c.op fun same => by simp [← String.ofList_inj.mp same] at fewer
  · rw [removeRoots_of_clean literal] at clear read
    have exponent : ¬ ∀ n, c.literal = .number n → n.exponent = none :=
      fun simple => unclean ⟨path, literal, clear, simple⟩
    obtain ⟨n, exponent⟩ := not_forall.mp exponent
    obtain ⟨number, scaled⟩ := Classical.not_imp.mp exponent
    have plain : n.WellFormed := by simpa [number, GateLiteral.WellFormed] using formed.literal
    rw [number, GateLiteral.text, parse_number lawful plain, if_neg scaled] at read
    refine exists_ne_of_literal read formed ?_
    have value : (c.literal.value N).number? = some (N.float n.text) := by
      rw [number, GateLiteral.value, if_neg fun both => scaled both.2]
      rfl
    exact GateOp.holds_ne_of_number c.op value

theorem WellFormed.holds_iff (lawful : N.Lawful) (formed : c.WellFormed) :
    (∀ data, conditionHolds N c.text data = c.holds N data) ↔ c.Readable := by
  refine ⟨fun every => ?_, fun readable => formed.holds_of_readable lawful readable⟩
  by_contra unreadable
  obtain ⟨data, differs⟩ := formed.exists_ne lawful unreadable
  exact differs (every data)

end GateCondition

section Gates

variable {N : Numerals} {rules : List (GateCondition × NodeId)} {default : NodeId} {data : Json}

def ruleOf (rule : GateCondition × NodeId) : LogicRule := ⟨rule.1.text, rule.2⟩

theorem evaluate_of_holds
    (same : ∀ rule ∈ rules, conditionHolds N rule.1.text data = rule.1.holds N data) :
    evaluateLogicGate N (rules.map ruleOf) default data = chosen N rules default data := by
  induction rules with
  | nil => rfl
  | cons rule rest ih =>
    have first := same rule List.mem_cons_self
    have later := ih fun rule mem => same rule (List.mem_cons_of_mem _ mem)
    simp only [evaluateLogicGate, chosen] at later ⊢
    rw [List.map_cons, List.find?_cons, List.find?_cons, ruleOf, first]
    cases rule.1.holds N data with
    | true => rfl
    | false => exact later

theorem evaluate_single {c : GateCondition} {next : NodeId} (ne : next ≠ default)
    (same : evaluateLogicGate N [ruleOf (c, next)] default data = chosen N [(c, next)] default data) :
    conditionHolds N c.text data = c.holds N data := by
  simp only [evaluateLogicGate, chosen, ruleOf, List.find?_cons, List.find?_nil] at same
  cases first : conditionHolds N c.text data <;> cases second : c.holds N data <;>
    simp_all [ne.symm]

/-- The digits as a number, in this and in no other script. -/
def asciiNumerals : Numerals where
  isDecimal c := c ∈ digits09
  int text :=
    let value := (text.filter (· ∈ digits09)).foldl (fun n c => 10 * n + (c.toNat - '0'.toNat)) 0
    if text.head? = some '-' then -(value : ℤ) else value
  float text :=
    let value := (text.filter (· ∈ digits09)).foldl (fun n c => 10 * n + (c.toNat - '0'.toNat)) 0
    let places := (text.dropWhile (· ≠ '.')).length - 1
    mkRat (if text.head? = some '-' then -(value : ℤ) else value) (10 ^ places)

theorem asciiNumerals_lawful : asciiNumerals.Lawful where
  digit := List.all_iff_forall_prop.mp (by decide)
  other := List.all_iff_forall_prop.mp (by decide)

def dear : GateCondition where
  rooted := true
  path := "item.price".toList
  op := .ge
  literal := .number ⟨false, ['1', '0', '0'], none, none⟩

def comparison : GateCondition where
  rooted := false
  path := "sign".toList
  op := .eq
  literal := .quoted (Char.ofNat 39) ['>', '=']

theorem dear_wellFormed : dear.WellFormed where
  some_ := by decide
  plain := List.all_iff_forall_prop.mp (by decide)
  first := by rintro _ ⟨⟩; decide
  last := by rintro _ ⟨⟩; decide
  root := by decide
  literal := ⟨⟨by decide, List.all_iff_forall_prop.mp (by decide)⟩, by simp, by simp⟩
  spaces := List.all_iff_forall_prop.mp (by decide)

theorem dear_readable : dear.Readable := by
  refine .inr ⟨by decide, by decide, by decide, fun n same => ?_⟩
  cases same
  rfl

theorem comparison_wellFormed : comparison.WellFormed where
  some_ := by decide
  plain := List.all_iff_forall_prop.mp (by decide)
  first := by rintro _ ⟨⟩; decide
  last := by rintro _ ⟨⟩; decide
  root := by decide
  literal := (by decide : Char.ofNat 39 ∈ quotes)
  spaces := List.all_iff_forall_prop.mp (by decide)

/-- The gates of some conditions go where they should for every value exactly if each of the
conditions is readable. -/
theorem gates_iff (lawful : N.Lawful) (conditions : List GateCondition)
    (formed : ∀ c ∈ conditions, c.WellFormed) :
    (∀ rules : List (GateCondition × NodeId), (∀ rule ∈ rules, rule.1 ∈ conditions) →
      ∀ default data, evaluateLogicGate N (rules.map ruleOf) default data =
        chosen N rules default data) ↔ ∀ c ∈ conditions, c.Readable := by
  constructor
  · intro every c mem
    refine ((formed c mem).holds_iff lawful).mp fun data => ?_
    have differ : "next" ≠ "default" := by decide
    exact evaluate_single differ (every [(c, "next")] (by simpa using mem) "default" data)
  · intro readable rules drawn default data
    exact evaluate_of_holds fun rule mem =>
      have known := drawn rule mem
      (formed rule.1 known).holds_of_readable lawful (readable rule.1 known) data

/-- `$.item.price >= 100`, of a price of 120. -/
theorem dear_gates :
    evaluateLogicGate asciiNumerals ([(dear, "ask")].map ruleOf) "buy"
      (.obj [("item", .obj [("price", .int 120)])]) = "ask" := by
  have meant := (gates_iff asciiNumerals_lawful [dear]
    (fun _ mem => List.mem_singleton.mp mem ▸ dear_wellFormed)).mpr
    (fun _ mem => List.mem_singleton.mp mem ▸ dear_readable) [(dear, "ask")] (by simp) "buy"
    (.obj [("item", .obj [("price", .int 120)])])
  rw [meant]
  decide

/-- `sign == '>='` is read as an order of what is at `sign == '`. -/
theorem comparison_missed :
    comparison.WellFormed ∧
    evaluateLogicGate asciiNumerals ([(comparison, "send")].map ruleOf) "stop"
      (.obj [("sign", .str ">=")]) = "stop" ∧
    chosen asciiNumerals [(comparison, "send")] "stop" (.obj [("sign", .str ">=")]) = "send" :=
  ⟨comparison_wellFormed, by decide, by decide⟩

end Gates

end Deeting.SpecAgent
