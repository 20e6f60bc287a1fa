import Deeting.Monitor.Tasks
import Deeting.Protocols.Spelling

/-! The parser of `monitor_cron` and the language of a cron field: parts between commas, each a
`*`, a number or a range, with a step or without. Numbers are whatever `int` reads. -/
namespace Deeting.Monitor.Cron
open Deeting.Protocols (Digits)
open Deeting.Stream (strip isSpace)

section Reading
variable (D : Digits)

def readDigits (text : List Char) : Option ℤ :=
  if (text.all fun c => D.isdigit c || c = '_') ∧ [] ∉ text.splitOn '_' then
    D.int (String.ofList (text.filter (· ≠ '_')))
  else none

/-- `int(text)`, `none` where it raises. -/
def readInt (text : List Char) : Option ℤ :=
  match strip text with
  | '-' :: rest => (readDigits D rest).map Neg.neg
  | '+' :: rest => readDigits D rest
  | rest => readDigits D rest

end Reading

/-- `text.split(mark, 1)`, if the mark is there. -/
def splitFirst (mark : Char) : List Char → Option (List Char × List Char)
  | [] => none
  | c :: rest =>
    if c = mark then some ([], rest) else (splitFirst mark rest).map fun (l, r) => (c :: l, r)

inductive Field where
  | minute
  | hour
  | day
  | month
  | weekday
  deriving DecidableEq, Repr

namespace Field

def name : Field → String
  | .minute => "minute"
  | .hour => "hour"
  | .day => "day"
  | .month => "month"
  | .weekday => "weekday"

def minValue : Field → ℕ
  | .minute | .hour | .weekday => 0
  | .day | .month => 1

def maxValue : Field → ℕ
  | .minute => 59
  | .hour => 23
  | .day => 31
  | .month => 12
  | .weekday => 7

theorem minValue_le_maxValue (field : Field) : field.minValue ≤ field.maxValue := by
  cases field <;> decide

end Field

section Parsing
variable (D : Digits) (field : Field)

/-- The text of a `CronExpressionError` about a token. -/
def complaint (reason : String) (token : List Char) : String :=
  field.name ++ " 字段" ++ reason ++ ": " ++ String.ofList token

def parseStep (token : List Char) : Except String (List Char × ℤ) :=
  match splitFirst '/' token with
  | none => .ok (token, 1)
  | some (base, stepPart) =>
    match readInt D stepPart with
    | none => .error (complaint field "步长非法" token)
    | some step =>
      if step ≤ 0 then .error (complaint field "步长必须大于 0" token) else .ok (base, step)

def parseBase (token base : List Char) : Except String (ℤ × ℤ) :=
  if base = ['*'] then .ok (field.minValue, field.maxValue)
  else match splitFirst '-' base with
    | some (left, right) =>
      match readInt D left, readInt D right with
      | some start, some stop => .ok (start, stop)
      | _, _ => .error (complaint field "范围非法" token)
    | none =>
      match readInt D base with
      | some value => .ok (value, value)
      | none => .error (complaint field "取值非法" token)

/-- `range(start, stop + 1, step)`, of a range that is not empty. -/
def valuesOf (start stop step : ℤ) : List ℕ :=
  List.range' start.toNat ((stop - start).toNat / step.toNat + 1) step.toNat

def parseToken (token : List Char) : Except String (List ℕ) :=
  let token := strip token
  if token = [] then .error (field.name ++ " 字段为空")
  else if token = ['*'] then .ok (valuesOf field.minValue field.maxValue 1)
  else do
    let (base, step) ← parseStep D field token
    let (start, stop) ← parseBase D field token base
    if start < field.minValue ∨ field.maxValue < stop ∨ stop < start then
      .error (complaint field "越界" token)
    else .ok (valuesOf start stop step)

def parseParts : List (List Char) → Except String (List ℕ)
  | [] => .ok []
  | part :: parts => do
    let values ← parseToken D field part
    let more ← parseParts parts
    .ok (values ++ more)

def parseField (raw : List Char) : Except String (List ℕ) :=
  parseParts D field (raw.splitOn ',')

end Parsing

def normalizeWeekday (value : ℕ) : ℕ :=
  if value = 0 ∨ value = 7 then 6 else value - 1

/-- `expr.strip().split()`. -/
def words (expr : String) : List (List Char) :=
  ((strip expr.toList).splitOnP isSpace).filter fun word => !word.isEmpty

/-- `parse_cron_expr`, with the text of its error. -/
def parseCronExpr (D : Digits) (expr : String) : Except String CronSpec :=
  match words expr with
  | [minuteRaw, hourRaw, dayRaw, monthRaw, weekdayRaw] => do
    let weekdays ← parseField D .weekday weekdayRaw
    let minutes ← parseField D .minute minuteRaw
    let hours ← parseField D .hour hourRaw
    let days ← parseField D .day dayRaw
    let months ← parseField D .month monthRaw
    .ok ⟨minutes, hours, days, months, weekdays.map normalizeWeekday⟩
  | _ => .error "Cron 表达式必须是 5 段"

def validateCronExpr (D : Digits) (expr : String) : Bool × Option String :=
  match parseCronExpr D expr with
  | .ok _ => (true, none)
  | .error text => (false, some text)

section Language
variable (D : Digits) (field : Field)

/-- `*`, a number or a range of numbers, with the values it begins and ends with. Only the number
after the hyphen may have one of its own. -/
inductive BaseSpelled : List Char → ℤ → ℤ → Prop where
  | star : BaseSpelled ['*'] field.minValue field.maxValue
  | value {text n} : readInt D text = some n → '-' ∉ text → BaseSpelled text n n
  | range {left right a b} : readInt D left = some a → readInt D right = some b → '-' ∉ left →
      BaseSpelled (left ++ '-' :: right) a b

/-- A base, optionally with `/` and a step. -/
inductive ItemSpelled : List Char → ℤ → ℤ → ℤ → Prop where
  | plain {text a b} : BaseSpelled D field text a b → ItemSpelled text a b 1
  | stepped {text stepPart a b step} : BaseSpelled D field text a b →
      readInt D stepPart = some step → ItemSpelled (text ++ '/' :: stepPart) a b step

structure Item (text : List Char) (a b step : ℤ) : Prop where
  spelled : ItemSpelled D field (strip text) a b step
  low : field.minValue ≤ a
  high : b ≤ field.maxValue
  ordered : a ≤ b
  step_pos : 1 ≤ step

def FieldSpelled (raw : List Char) : Prop :=
  ∀ part ∈ raw.splitOn ',', ∃ a b step, Item D field part a b step

/-- The values of a comma list: those of its items, from the first value on in steps. -/
def Denotes (raw : List Char) (v : ℕ) : Prop :=
  ∃ part ∈ raw.splitOn ',', ∃ a b step, Item D field part a b step ∧ a ≤ v ∧ v ≤ b ∧ step ∣ v - a

end Language

section Splitting
variable {mark : Char} {text left right : List Char}

theorem splitFirst_eq_none : splitFirst mark text = none ↔ mark ∉ text := by
  induction text with
  | nil => simp [splitFirst]
  | cons c rest ih =>
    rw [splitFirst, List.mem_cons, not_or]
    split
    · rename_i same
      simp [same]
    · rename_i other
      simp [ih, Ne.symm other]

theorem splitFirst_eq_some :
    splitFirst mark text = some (left, right) ↔ text = left ++ mark :: right ∧ mark ∉ left := by
  induction text generalizing left with
  | nil => simp [splitFirst]
  | cons c rest ih =>
    rw [splitFirst]
    split
    · rename_i same
      subst same
      cases left with
      | nil => simp
      | cons d left =>
        simp only [Option.some.injEq, Prod.mk.injEq, reduceCtorEq, false_and, List.cons_append,
          List.cons.injEq, List.mem_cons, not_or, false_iff, not_and, not_not]
        rintro ⟨rfl, -⟩
        simp
    · rename_i other
      simp only [Option.map_eq_some_iff, Prod.exists, Prod.mk.injEq]
      constructor
      · rintro ⟨l, r, found, rfl, rfl⟩
        obtain ⟨rfl, clean⟩ := ih.mp found
        exact ⟨rfl, by simp [clean, Ne.symm other]⟩
      · rintro ⟨same, clean⟩
        cases left with
        | nil => simp only [List.nil_append, List.cons.injEq] at same; exact absurd same.1 other
        | cons d left =>
          simp only [List.cons_append, List.cons.injEq, List.mem_cons, not_or] at same clean
          obtain ⟨rfl, rfl⟩ := same
          exact ⟨left, right, ih.mpr ⟨rfl, clean.2⟩, rfl, rfl⟩

end Splitting

section Numbers
variable {D : Digits} {text : List Char} {n : ℤ} {c : Char}

theorem readDigits_chars (read : readDigits D text = some n) (inside : c ∈ text) :
    D.isdigit c = true ∨ c = '_' := by
  unfold readDigits at read
  split at read
  · rename_i spelled
    simpa using List.all_eq_true.mp spelled.1 c inside
  · simp at read

theorem readInt_chars (read : readInt D text = some n) (inside : c ∈ text) :
    isSpace c = true ∨ D.isdigit c = true ∨ c ∈ ['-', '+', '_'] := by
  by_contra other
  simp only [not_or, Bool.not_eq_true] at other
  have kept := (Stream.mem_strip other.1).mpr inside
  unfold readInt at read
  split at read
  · rename_i rest shape
    obtain ⟨m, read, -⟩ := Option.map_eq_some_iff.mp read
    rw [shape, List.mem_cons] at kept
    rcases kept with rfl | kept
    · simp at other
    · rcases readDigits_chars read kept with digit | rfl <;> simp_all
  · rename_i rest shape
    rw [shape, List.mem_cons] at kept
    rcases kept with rfl | kept
    · simp at other
    · rcases readDigits_chars read kept with digit | rfl <;> simp_all
  · rcases readDigits_chars read kept with digit | rfl <;> simp_all

theorem notMem_of_readInt (read : readInt D text = some n) (mark : Char)
    (ascii : mark.toNat < 128) (other : isSpace mark = false ∧ mark.isDigit = false ∧
      mark ∉ ['-', '+', '_']) : mark ∉ text := by
  intro inside
  rcases readInt_chars read inside with blank | digit | sign
  · simp [other.1] at blank
  · rw [D.isdigit_ascii mark ascii] at digit
    simp [other.2.1] at digit
  · exact other.2.2 sign

theorem slash_notMem (read : readInt D text = some n) : '/' ∉ text :=
  notMem_of_readInt read '/' (by decide) (by decide)

theorem star_notMem (read : readInt D text = some n) : '*' ∉ text :=
  notMem_of_readInt read '*' (by decide) (by decide)

theorem readInt_nil : readInt D [] = none := rfl

end Numbers

section Items
variable {D : Digits} {field : Field} {token base : List Char} {a b step : ℤ}

theorem BaseSpelled.slash_notMem (spelled : BaseSpelled D field base a b) : '/' ∉ base := by
  cases spelled with
  | star => decide
  | value read => exact Cron.slash_notMem read
  | range one two => simp [Cron.slash_notMem one, Cron.slash_notMem two]

theorem parseBase_eq_ok :
    parseBase D field token base = .ok (a, b) ↔ BaseSpelled D field base a b := by
  constructor
  · intro parsed
    unfold parseBase at parsed
    split at parsed
    · rename_i star
      obtain ⟨rfl, rfl⟩ := Prod.mk.inj (Except.ok.inj parsed)
      rw [star]
      exact .star
    split at parsed
    · rename_i left right found
      obtain ⟨rfl, clean⟩ := splitFirst_eq_some.mp found
      split at parsed
      · rename_i start stop one two
        obtain ⟨rfl, rfl⟩ := Prod.mk.inj (Except.ok.inj parsed)
        exact .range one two clean
      · cases parsed
    · rename_i whole
      split at parsed
      · rename_i value read
        obtain ⟨rfl, rfl⟩ := Prod.mk.inj (Except.ok.inj parsed)
        exact .value read (splitFirst_eq_none.mp whole)
      · cases parsed
  · intro spelled
    unfold parseBase
    cases spelled with
    | star => rw [if_pos rfl]
    | value read clean =>
      have number : base ≠ ['*'] := fun star => star_notMem read (by simp [star])
      rw [if_neg number, splitFirst_eq_none.mpr clean]
      simp only [read]
    | @range left right _ _ one two clean =>
      have number : left ++ '-' :: right ≠ ['*'] := by
        intro star
        have hyphen : '-' ∈ ['*'] := by simp [← star]
        simp at hyphen
      rw [if_neg number, splitFirst_eq_some.mpr ⟨rfl, clean⟩]
      simp only [one, two]

theorem parseStep_eq_ok :
    parseStep D field token = .ok (base, step) ↔
      ('/' ∉ token ∧ base = token ∧ step = 1) ∨
      (∃ stepPart, token = base ++ '/' :: stepPart ∧ '/' ∉ base ∧ readInt D stepPart = some step ∧
        1 ≤ step) := by
  unfold parseStep
  cases found : splitFirst '/' token with
  | none =>
    have clean := splitFirst_eq_none.mp found
    simp only [Except.ok.injEq, Prod.mk.injEq, clean, not_false_eq_true, true_and]
    constructor
    · rintro ⟨rfl, rfl⟩
      exact .inl ⟨rfl, rfl⟩
    · rintro (⟨rfl, rfl⟩ | ⟨stepPart, rfl, -⟩)
      · exact ⟨rfl, rfl⟩
      · simp at clean
  | some parts =>
    obtain ⟨left, right⟩ := parts
    obtain ⟨rfl, clean⟩ := splitFirst_eq_some.mp found
    have slash : '/' ∈ left ++ '/' :: right := by simp
    simp only [slash, not_true_eq_false, false_and, false_or]
    have unique {stepPart : List Char} (same : left ++ '/' :: right = base ++ '/' :: stepPart)
        (clean' : '/' ∉ base) : left = base ∧ right = stepPart := by
      have again := splitFirst_eq_some.mpr ⟨same, clean'⟩
      rw [found] at again
      exact Prod.mk.inj (Option.some.inj again)
    constructor
    · intro parsed
      split at parsed
      · cases parsed
      · rename_i n read
        split at parsed
        · cases parsed
        · rename_i positive
          obtain ⟨rfl, rfl⟩ := Prod.mk.inj (Except.ok.inj parsed)
          exact ⟨right, rfl, clean, read, by omega⟩
    · rintro ⟨stepPart, same, clean', read, positive⟩
      obtain ⟨rfl, rfl⟩ := unique same clean'
      simp only [read]
      rw [if_neg (by omega)]

theorem itemSpelled_iff :
    ItemSpelled D field token a b step ∧ 1 ≤ step ↔
      ∃ base, parseStep D field token = .ok (base, step) ∧
        parseBase D field token base = .ok (a, b) := by
  constructor
  · rintro ⟨spelled, positive⟩
    cases spelled with
    | plain spelled =>
      exact ⟨token, parseStep_eq_ok.mpr (.inl ⟨spelled.slash_notMem, rfl, rfl⟩),
        parseBase_eq_ok.mpr spelled⟩
    | @stepped text stepPart _ _ _ spelled read =>
      exact ⟨text, parseStep_eq_ok.mpr (.inr ⟨stepPart, rfl, spelled.slash_notMem, read, positive⟩),
        parseBase_eq_ok.mpr spelled⟩
  · rintro ⟨base, one, two⟩
    have spelled := parseBase_eq_ok.mp two
    rcases parseStep_eq_ok.mp one with ⟨-, rfl, rfl⟩ | ⟨stepPart, rfl, -, read, positive⟩
    · exact ⟨.plain spelled, le_rfl⟩
    · exact ⟨.stepped spelled read, positive⟩

theorem ItemSpelled.ne_nil (spelled : ItemSpelled D field token a b step) : token ≠ [] := by
  cases spelled with
  | plain spelled =>
    cases spelled with
    | star => simp
    | value read =>
      rintro rfl
      rw [readInt_nil] at read
      cases read
    | range => simp
  | stepped => simp

theorem parseStep_star : parseStep D field ['*'] = .ok (['*'], 1) :=
  parseStep_eq_ok.mpr (.inl ⟨by decide, rfl, rfl⟩)

theorem parseToken_eq_ok {values : List ℕ} :
    parseToken D field token = .ok values ↔
      ∃ a b step, Item D field token a b step ∧ values = valuesOf a b step := by
  have ordered : (field.minValue : ℤ) ≤ field.maxValue := by
    exact_mod_cast field.minValue_le_maxValue
  have range_ok : ∀ base step a b, parseStep D field (strip token) = .ok (base, step) →
      parseBase D field (strip token) base = .ok (a, b) →
      (((if a < field.minValue ∨ field.maxValue < b ∨ b < a then
        .error (complaint field "越界" (strip token)) else .ok (valuesOf a b step) :
          Except String (List ℕ)) = .ok values) ↔
        ∃ a b step, Item D field token a b step ∧ values = valuesOf a b step) := by
    intro base step a b one two
    have spelled := itemSpelled_iff.mpr ⟨base, one, two⟩
    constructor
    · intro accepted
      split at accepted
      · cases accepted
      · rename_i inside
        exact ⟨a, b, step, ⟨spelled.1, by omega, by omega, by omega, spelled.2⟩,
          (Except.ok.inj accepted).symm⟩
    · rintro ⟨a', b', step', item, rfl⟩
      obtain ⟨base', one', two'⟩ := itemSpelled_iff.mp ⟨item.spelled, item.step_pos⟩
      obtain ⟨rfl, rfl⟩ := Prod.mk.inj (Except.ok.inj (one.symm.trans one'))
      obtain ⟨rfl, rfl⟩ := Prod.mk.inj (Except.ok.inj (two.symm.trans two'))
      have := item.low
      have := item.high
      have := item.ordered
      rw [if_neg (by omega)]
  unfold parseToken
  simp only
  split
  · rename_i empty
    simp only [reduceCtorEq, false_iff]
    rintro ⟨a, b, step, item, -⟩
    exact item.spelled.ne_nil empty
  split
  · rename_i star
    have one : parseStep D field (strip token) = .ok (['*'], 1) := by rw [star, parseStep_star]
    have two : parseBase D field (strip token) ['*'] = .ok (↑field.minValue, ↑field.maxValue) :=
      parseBase_eq_ok.mpr .star
    rw [← range_ok _ _ _ _ one two, if_neg (by omega)]
  · cases one : parseStep D field (strip token) with
    | error text =>
      simp only [bind, Except.bind, reduceCtorEq, false_iff]
      rintro ⟨a, b, step, item, -⟩
      obtain ⟨base, one', -⟩ := itemSpelled_iff.mp ⟨item.spelled, item.step_pos⟩
      rw [one] at one'
      cases one'
    | ok parts =>
      obtain ⟨base, step⟩ := parts
      cases two : parseBase D field (strip token) base with
      | error text =>
        simp only [bind, Except.bind, two, reduceCtorEq, false_iff]
        rintro ⟨a, b, step', item, -⟩
        obtain ⟨base', one', two'⟩ := itemSpelled_iff.mp ⟨item.spelled, item.step_pos⟩
        obtain ⟨rfl, rfl⟩ := Prod.mk.inj (Except.ok.inj (one.symm.trans one'))
        rw [two] at two'
        cases two'
      | ok bounds =>
        obtain ⟨a, b⟩ := bounds
        simp only [bind, Except.bind, two]
        exact range_ok base step a b one two

end Items

section Fields
variable {D : Digits} {field : Field} {raw : List Char} {a b step : ℤ} {v : ℕ}

theorem Item.mem_valuesOf {text : List Char} (item : Item D field text a b step) :
    v ∈ valuesOf a b step ↔ a ≤ v ∧ v ≤ b ∧ step ∣ v - a := by
  have low := item.low
  have ordered := item.ordered
  have positive := item.step_pos
  lift a to ℕ using by omega
  lift b to ℕ using by omega
  lift step to ℕ using by omega
  have apart : ((b : ℤ) - a).toNat = b - a := by omega
  simp only [valuesOf, List.mem_range', Int.toNat_natCast, apart, Nat.lt_succ_iff, Int.ofNat_le]
  constructor
  · rintro ⟨i, bound, rfl⟩
    have inside : step * i ≤ b - a := by
      rw [mul_comm]
      exact (Nat.le_div_iff_mul_le (by omega)).mp bound
    refine ⟨by omega, by omega, ⟨i, ?_⟩⟩
    push_cast
    exact add_sub_cancel_left _ _
  · rintro ⟨above, below, k, steps⟩
    have nonneg : 0 ≤ k := by
      by_contra negative
      have : (step : ℤ) * k < 0 := Int.mul_neg_of_pos_of_neg (by omega) (by omega)
      omega
    lift k to ℕ using nonneg
    have distance : v - a = step * k := by
      have product : (step : ℤ) * k = ((step * k : ℕ) : ℤ) := by push_cast; rfl
      omega
    refine ⟨k, (Nat.le_div_iff_mul_le (by omega)).mpr ?_, by omega⟩
    rw [mul_comm]
    omega

theorem parseParts_eq_ok {parts : List (List Char)} {values : List ℕ}
    (parsed : parseParts D field parts = .ok values) :
    (∀ part ∈ parts, ∃ a b step, Item D field part a b step) ∧
      ∀ v, v ∈ values ↔
        ∃ part ∈ parts, ∃ a b step, Item D field part a b step ∧ a ≤ v ∧ v ≤ b ∧ step ∣ v - a := by
  induction parts generalizing values with
  | nil =>
    obtain rfl := Except.ok.inj parsed
    simp
  | cons part parts ih =>
    rw [parseParts] at parsed
    cases first : parseToken D field part with
    | error => simp [first, bind, Except.bind] at parsed
    | ok here =>
      cases rest : parseParts D field parts with
      | error => simp [first, rest, bind, Except.bind] at parsed
      | ok more =>
        have same : here ++ more = values := by
          simpa [first, rest, bind, Except.bind] using parsed
        obtain ⟨spelled, denoted⟩ := ih rest
        obtain ⟨a, b, step, item, rfl⟩ := parseToken_eq_ok.mp first
        refine ⟨List.forall_mem_cons.mpr ⟨⟨a, b, step, item⟩, spelled⟩, fun v => ?_⟩
        rw [← same, List.mem_append, item.mem_valuesOf, denoted, List.exists_mem_cons_iff]
        refine or_congr_left ⟨fun inside => ⟨a, b, step, item, inside⟩, ?_⟩
        rintro ⟨a', b', step', item', inside⟩
        have again := first.symm.trans (parseToken_eq_ok.mpr ⟨a', b', step', item', rfl⟩)
        rw [← item.mem_valuesOf, Except.ok.inj again, item'.mem_valuesOf]
        exact inside

theorem exists_parseParts {parts : List (List Char)}
    (spelled : ∀ part ∈ parts, ∃ a b step, Item D field part a b step) :
    ∃ values, parseParts D field parts = .ok values := by
  induction parts with
  | nil => exact ⟨[], rfl⟩
  | cons part parts ih =>
    obtain ⟨⟨a, b, step, item⟩, rest⟩ := List.forall_mem_cons.mp spelled
    obtain ⟨more, parsed⟩ := ih rest
    refine ⟨valuesOf a b step ++ more, ?_⟩
    rw [parseParts, parseToken_eq_ok.mpr ⟨a, b, step, item, rfl⟩, parsed]
    rfl

theorem parseField_isOk_iff :
    (∃ values, parseField D field raw = .ok values) ↔ FieldSpelled D field raw :=
  ⟨fun ⟨_, parsed⟩ => (parseParts_eq_ok parsed).1, exists_parseParts⟩

theorem mem_parseField {values : List ℕ} (parsed : parseField D field raw = .ok values) :
    v ∈ values ↔ Denotes D field raw v :=
  (parseParts_eq_ok parsed).2 v

end Fields

end Deeting.Monitor.Cron
