import Deeting.Agent.ToolCalls
import Deeting.MergePatch

/-! How `RuntimeRequestRenderer` reads a value from the spelling of the text that a template was
rendered to, and which values are read back from their own texts. -/
namespace Deeting.Protocols
open Deeting.Agent (stripText stripText_of_plain)

section Reading

def maxStrDigits : ℕ := 4300

/-- Characters for which `str.isdigit` holds, and the values `int` reads some of them as. -/
structure Digits where
  isdigit : Char → Bool
  value : Char → Option ℕ
  isdigit_ascii : ∀ c : Char, c.toNat < 128 → isdigit c = c.isDigit
  value_ascii : ∀ c : Char, c.isDigit = true → value c = some (c.toNat - '0'.toNat)

namespace Digits
variable (D : Digits)

/-- `text.isdigit()`. -/
def allDigits (text : String) : Bool := text ≠ "" ∧ text.toList.all D.isdigit

/-- `int(text)` of a text of digits, `none` where it raises. -/
def int (text : String) : Option ℤ :=
  if text.length ≤ maxStrDigits then
    (text.toList.mapM D.value).map fun digits => (digits.foldl (fun n d => 10 * n + d) 0 : ℕ)
  else none

/-- What the renderer reads from the text of an expression, `none` where it raises. -/
def decode (rendered : String) : Option Json :=
  let normalized := stripText rendered
  if normalized ∈ ["true", "false"] then some (.bool (normalized = "true"))
  else if normalized ∈ ["null", "none", ""] then
    some (if normalized ≠ "" then .null else .str rendered)
  else if D.allDigits normalized then (D.int normalized).map .int
  else some (.str rendered)

end Digits

/-- `str` of a value, `none` where it raises; `repr` is for floats, lists and objects. -/
def strOf (repr : Json → Option String) : Json → Option String
  | .str text => some text
  | .null => some "None"
  | .bool value => some (if value then "True" else "False")
  | .int n => if (Nat.repr n.natAbs).length ≤ maxStrDigits then some n.repr else none
  | value => repr value

/-- The values that are read back from their texts: texts that are not spelled like another
value, and ints from 0 on that have a text. -/
def ReadsBack (D : Digits) : Json → Prop
  | .str text => stripText text ∉ ["true", "false", "null", "none"] ∧
      D.allDigits (stripText text) = false
  | .int n => 0 ≤ n ∧ (Nat.repr n.natAbs).length ≤ maxStrDigits
  | _ => False

end Reading

section Spelling
variable {D : Digits} {repr : Json → Option String} {text : String} {value : Json} {n : ℤ}

theorem decode_empty : D.decode "" = some (.str "") := by
  have empty : stripText "" = "" := by decide
  simp [Digits.decode, empty]

/-- Whatever is read is a truth value, null, an int or the text, if it is not spelled like null. -/
theorem decode_cases (read : D.decode text = some value) :
    (∃ b, value = .bool b) ∨ value = .null ∧ stripText text ∈ ["null", "none"] ∨
      (∃ n, value = .int n ∧ D.allDigits (stripText text) = true) ∨
        value = .str text ∧ ReadsBack D (.str text) := by
  simp only [Digits.decode] at read
  split at read
  · exact .inl ⟨_, (Option.some.inj read).symm⟩
  · rename_i truth
    split at read
    · rename_i nullish
      by_cases empty : stripText text = ""
      · refine .inr (.inr (.inr ⟨?_, ?_⟩))
        · simpa [empty] using read.symm
        · simp [ReadsBack, empty, Digits.allDigits]
      · refine .inr (.inl ⟨?_, ?_⟩)
        · simpa [empty] using read.symm
        · simpa [empty] using nullish
    · rename_i other
      split at read
      · rename_i digits
        obtain ⟨n, _, rfl⟩ := Option.map_eq_some_iff.mp read
        exact .inr (.inr (.inl ⟨n, rfl, digits⟩))
      · rename_i digits
        refine .inr (.inr (.inr ⟨(Option.some.inj read).symm, ?_, by simpa using digits⟩))
        simp only [List.mem_cons, List.not_mem_nil, or_false, not_or] at truth other ⊢
        exact ⟨truth.1, truth.2, other.1, other.2.1⟩

theorem decode_str_iff : D.decode text = some (.str text) ↔ ReadsBack D (.str text) := by
  refine ⟨fun read => ?_, fun ⟨unlike, digits⟩ => ?_⟩
  · obtain ⟨b, eq⟩ | ⟨eq, _⟩ | ⟨n, eq, _⟩ | ⟨_, fits⟩ := decode_cases read
    · simp at eq
    · simp at eq
    · simp at eq
    · exact fits
  · simp only [List.mem_cons, List.not_mem_nil, or_false, not_or] at unlike
    obtain ⟨notTrue, notFalse, notNull, notNone⟩ := unlike
    by_cases empty : stripText text = ""
    · simp [Digits.decode, empty]
    · simp [Digits.decode, notTrue, notFalse, notNull, notNone, empty, digits]

theorem allDigits_of_mem {c : Char} (mem : c ∈ text.toList) (ascii : c.toNat < 128)
    (other : c.isDigit = false) : D.allDigits text = false := by
  rw [Digits.allDigits, decide_eq_false_iff_not]
  rintro ⟨_, all⟩
  have digit := List.all_eq_true.mp all c mem
  rw [D.isdigit_ascii c ascii, other] at digit
  contradiction

theorem decode_digits (plain : stripText text = text) (digits : D.allDigits text = true) :
    D.decode text = (D.int text).map .int := by
  have unlike (c : Char) (ascii : c.toNat < 128) (other : c.isDigit = false) : c ∉ text.toList := by
    intro mem
    rw [allDigits_of_mem mem ascii other] at digits
    contradiction
  have notTrue : text ≠ "true" := by
    rintro rfl
    exact unlike 't' (by decide) (by decide) (by decide)
  have notFalse : text ≠ "false" := by
    rintro rfl
    exact unlike 'f' (by decide) (by decide) (by decide)
  have notNull : text ≠ "null" := by
    rintro rfl
    exact unlike 'n' (by decide) (by decide) (by decide)
  have notNone : text ≠ "none" := by
    rintro rfl
    exact unlike 'n' (by decide) (by decide) (by decide)
  have nonempty : text ≠ "" := by
    rintro rfl
    simp [Digits.allDigits] at digits
  simp [Digits.decode, plain, notTrue, notFalse, notNull, notNone, nonempty, digits]

theorem mapM_value {digits : List Char} (all : ∀ c ∈ digits, c.isDigit = true) :
    digits.mapM D.value = some (digits.map fun c => c.toNat - '0'.toNat) := by
  induction digits with
  | nil => rfl
  | cons c rest ih =>
    rw [List.forall_mem_cons] at all
    rw [List.mapM_cons, D.value_ascii c all.1, ih all.2]
    rfl

theorem isDigit_of_mem_repr {n : ℕ} {c : Char} (mem : c ∈ n.repr.toList) : c.isDigit = true := by
  rw [Nat.toList_repr] at mem
  exact Nat.isDigit_of_mem_toDigits (by decide) (by decide) mem

theorem allDigits_repr (n : ℕ) : D.allDigits n.repr = true := by
  have nonempty : n.repr ≠ "" := by
    intro eq
    have none : Nat.toDigits 10 n = [] := by rw [← Nat.toList_repr, eq, String.toList_empty]
    exact Nat.toDigits_ne_nil none
  have all : n.repr.toList.all D.isdigit = true := by
    rw [List.all_eq_true]
    intro c mem
    have digit := isDigit_of_mem_repr mem
    have bounds := Char.isDigit_iff_toNat.mp digit
    rw [D.isdigit_ascii c (lt_of_le_of_lt bounds.2 (by decide)), digit]
  rw [Digits.allDigits, decide_eq_true_eq]
  exact ⟨nonempty, all⟩

theorem isSpace_of_mem_repr {n : ℕ} {c : Char} (mem : c ∈ n.repr.toList) :
    Stream.isSpace c = false := by
  obtain ⟨low, high⟩ := Char.isDigit_iff_toNat.mp (isDigit_of_mem_repr mem)
  simp only [Char.reduceToNat] at low high
  simp only [Stream.isSpace, List.mem_cons, List.not_mem_nil, or_false, decide_eq_false_iff_not]
  omega

/-- The text of a natural number is read as that number, if it is short enough to be. -/
theorem decode_repr (n : ℕ) (short : n.repr.length ≤ maxStrDigits) :
    D.decode n.repr = some (.int n) := by
  have plain : stripText n.repr = n.repr :=
    stripText_of_plain fun c mem => isSpace_of_mem_repr mem
  have folded := Nat.ofDigitChars_ten_toDigits (n := n)
  rw [Nat.ofDigitChars_eq_foldl, ← Nat.toList_repr] at folded
  rw [decode_digits plain (allDigits_repr n), Digits.int, if_pos short,
    mapM_value fun c mem => isDigit_of_mem_repr mem]
  simp only [Option.map_some, List.foldl_map, folded]

theorem toList_repr_neg (n : ℕ) : (Int.negSucc n).repr.toList = '-' :: (n + 1).repr.toList := by
  have text : (Int.negSucc n).repr = "-" ++ (n + 1).repr := rfl
  rw [text, String.toList_append]
  rfl

theorem stripText_repr_neg (n : ℕ) : stripText (Int.negSucc n).repr = (Int.negSucc n).repr := by
  have plain : ∀ c ∈ (Int.negSucc n).repr.toList, Stream.isSpace c = false := by
    rw [toList_repr_neg, List.forall_mem_cons]
    exact ⟨by decide, fun c mem => isSpace_of_mem_repr mem⟩
  exact stripText_of_plain plain

theorem decode_neg (n : ℕ) :
    D.decode (Int.negSucc n).repr = some (.str (Int.negSucc n).repr) := by
  rw [decode_str_iff, ReadsBack, stripText_repr_neg]
  refine ⟨?_, allDigits_of_mem (c := '-') (by simp [toList_repr_neg]) (by decide) (by decide)⟩
  have sign (text : String) (other : text.toList.head? ≠ some '-') :
      (Int.negSucc n).repr ≠ text := by
    intro eq
    rw [← eq, toList_repr_neg] at other
    exact other rfl
  simp only [List.mem_cons, List.not_mem_nil, or_false, not_or]
  exact ⟨sign _ (by decide), sign _ (by decide), sign _ (by decide), sign _ (by decide)⟩

theorem decode_capital (capital : text ∈ ["None", "True", "False"]) :
    D.decode text = some (.str text) := by
  rw [decode_str_iff, ReadsBack]
  simp only [List.mem_cons, List.not_mem_nil, or_false] at capital
  obtain rfl | rfl | rfl := capital
  · have plain : stripText "None" = "None" := by decide
    rw [plain]
    exact ⟨by decide, allDigits_of_mem (c := 'N') (by decide) (by decide) (by decide)⟩
  · have plain : stripText "True" = "True" := by decide
    rw [plain]
    exact ⟨by decide, allDigits_of_mem (c := 'T') (by decide) (by decide) (by decide)⟩
  · have plain : stripText "False" = "False" := by decide
    rw [plain]
    exact ⟨by decide, allDigits_of_mem (c := 'F') (by decide) (by decide) (by decide)⟩

theorem decode_int_iff (short : (Nat.repr n.natAbs).length ≤ maxStrDigits) :
    D.decode n.repr = some (.int n) ↔ 0 ≤ n := by
  cases n with
  | ofNat n =>
    rw [Int.ofNat_eq_natCast, Int.natAbs_natCast] at short
    exact iff_of_true (decode_repr n short) (Int.natCast_nonneg n)
  | negSucc n =>
    rw [decode_neg]
    exact iff_of_false (by simp) (Int.negSucc_not_nonneg n).mp

theorem read_str_iff : (strOf repr value).bind D.decode = some value ↔
    ReadsBack D value := by
  cases value with
  | str text =>
    rw [strOf, Option.bind_some]
    exact decode_str_iff
  | null => simp [strOf, decode_capital, ReadsBack]
  | bool b => cases b <;> simp [strOf, decode_capital, ReadsBack]
  | int n =>
    rw [strOf, ReadsBack]
    split
    · rename_i short
      rw [Option.bind_some, decode_int_iff short]
      exact ⟨fun nonneg => ⟨nonneg, short⟩, And.left⟩
    · rename_i long
      simp only [Option.bind_none, reduceCtorEq, false_iff]
      exact fun fits => long fits.2
  | float _ | arr _ | obj _ =>
    simp only [strOf, ReadsBack, iff_false]
    intro read
    obtain ⟨text, _, read⟩ := Option.bind_eq_some_iff.mp read
    obtain ⟨b, eq⟩ | ⟨eq, _⟩ | ⟨n, eq, _⟩ | ⟨eq, _⟩ := decode_cases read <;> simp at eq

def unread : Json → Bool
  | .bool _ | .int _ => false
  | .str text => stripText text ∈ ["null", "none"]
  | _ => true

theorem unread_of_decode (read : D.decode text = some value) (lost : unread value = true) :
    value = .null := by
  obtain ⟨b, rfl⟩ | ⟨eq, _⟩ | ⟨n, rfl, _⟩ | ⟨rfl, fits⟩ := decode_cases read
  · simp [unread] at lost
  · exact eq
  · simp [unread] at lost
  · simp only [unread, decide_eq_true_eq, List.mem_cons, List.not_mem_nil, or_false] at lost
    simp only [ReadsBack, List.mem_cons, List.not_mem_nil, or_false, not_or] at fits
    obtain spelled | spelled := lost
    · exact absurd spelled fits.1.2.2.1
    · exact absurd spelled fits.1.2.2.2

theorem unread_of_read_null (read : (strOf repr value).bind D.decode = some .null) :
    unread value = true ∧ value.isNull = false := by
  cases value with
  | null => simp [strOf, decode_capital] at read
  | bool b => cases b <;> simp [strOf, decode_capital] at read
  | int n =>
    rw [strOf] at read
    split at read
    · rename_i short
      rw [Option.bind_some] at read
      cases n with
      | ofNat n =>
        rw [Int.ofNat_eq_natCast, Int.natAbs_natCast] at short
        have number : D.decode (Int.ofNat n).repr = some (.int n) := decode_repr n short
        rw [number] at read
        simp at read
      | negSucc n =>
        rw [decode_neg] at read
        simp at read
    · contradiction
  | str text =>
    rw [strOf, Option.bind_some] at read
    obtain ⟨b, eq⟩ | ⟨_, spelled⟩ | ⟨n, eq, _⟩ | ⟨eq, _⟩ := decode_cases read
    · simp at eq
    · simp only [unread, decide_eq_true_eq]
      exact ⟨spelled, rfl⟩
    · simp at eq
    · simp at eq
  | float _ | arr _ | obj _ => exact ⟨rfl, rfl⟩

end Spelling

end Deeting.Protocols
