import Mathlib.Data.Int.Notation
import Mathlib.Data.List.Basic
import Mathlib.Data.List.Induction
import Mathlib.Data.String.Basic

/-! UUIDs by their hexadecimal digits, with the two ways of writing them. -/
namespace Deeting

structure Uuid where
  digits : List (Fin 16)
  length : digits.length = 32
  deriving DecidableEq

namespace Uuid

def hexDigit (d : Fin 16) : Char := "0123456789abcdef".toList.getD d '0'

def hexDigits (u : Uuid) : List Char := u.digits.map hexDigit

def hex (u : Uuid) : String := String.ofList u.hexDigits

def int (u : Uuid) : ℕ := u.digits.foldl (fun value d => 16 * value + d) 0

def dashed : List ℕ → List Char → List Char
  | [], digits => digits
  | size :: sizes, digits => digits.take size ++ '-' :: dashed sizes (digits.drop size)

/-- `str(uuid)`. -/
def text (u : Uuid) : String := String.ofList (dashed [8, 4, 4, 4] u.hexDigits)

def repeated (d : ℕ) : Uuid := ⟨List.replicate 32 (Fin.ofNat 16 d), List.length_replicate⟩

def ofNat (n : ℕ) : Uuid :=
  ⟨(List.range 32).reverse.map fun place => Fin.ofNat 16 (n / 16 ^ place), by simp⟩

/-- `replace(word, "")`, after some characters that were part of a word. -/
def without (word : List Char) : ℕ → List Char → List Char
  | _, [] => []
  | skip + 1, _ :: rest => without word skip rest
  | 0, c :: rest =>
      if word.isPrefixOf (c :: rest) then without word (word.length - 1) rest
      else c :: without word 0 rest

/-- `uuid.UUID(text)` over `int(text, 16)`; `none` where it raises. -/
def parse (int16 : String → Option ℤ) (text : String) : Option Uuid :=
  let plain := without "uuid:".toList 0 (without "urn:".toList 0 text.toList)
  let brace := fun c : Char => c = '{' ∨ c = '}'
  let digits := ((plain.dropWhile brace).reverse.dropWhile brace).reverse.filter (· ≠ '-')
  if digits.length = 32 then
    (int16 (String.ofList digits)).bind fun n =>
      if 0 ≤ n ∧ n.toNat < 2 ^ 128 then some (ofNat n.toNat) else none
  else none

theorem parse_empty (int16 : String → Option ℤ) : parse int16 "" = none := rfl

theorem hexDigit_injective : Function.Injective hexDigit := by
  unfold Function.Injective
  decide

theorem hexDigit_ne_dash : ∀ d, hexDigit d ≠ '-' := by decide

theorem hexDigits_injective : Function.Injective hexDigits := by
  intro u v same
  obtain ⟨digits, _⟩ := u
  obtain ⟨others, _⟩ := v
  have digits_eq : digits = others := hexDigit_injective.list_map same
  subst digits_eq
  rfl

/-- The dashes are all that the groups add. -/
theorem filter_dashed (sizes : List ℕ) (digits : List Char) :
    (dashed sizes digits).filter (· ≠ '-') = digits.filter (· ≠ '-') := by
  induction sizes generalizing digits with
  | nil => rfl
  | cons size sizes ih =>
    rw [dashed, List.filter_append, List.filter_cons_of_neg (by simp), ih, ← List.filter_append,
      List.take_append_drop]

theorem filter_hexDigits (u : Uuid) : u.hexDigits.filter (· ≠ '-') = u.hexDigits := by
  apply List.filter_eq_self.mpr
  intro c mem
  obtain ⟨d, -, rfl⟩ := List.mem_map.mp mem
  simpa using hexDigit_ne_dash d

theorem text_injective : Function.Injective text := by
  intro u v same
  have dashes := String.ofList_injective same
  have digits := congrArg (List.filter (· ≠ '-')) dashes
  rw [filter_dashed, filter_dashed, filter_hexDigits, filter_hexDigits] at digits
  exact hexDigits_injective digits

theorem text_ne_empty (u : Uuid) : u.text ≠ "" := by
  intro empty
  have dashes : dashed [8, 4, 4, 4] u.hexDigits = [] := by
    rw [← String.toList_ofList (l := dashed [8, 4, 4, 4] u.hexDigits)]
    exact congrArg String.toList empty
  have digits := filter_dashed [8, 4, 4, 4] u.hexDigits
  rw [dashes, filter_hexDigits] at digits
  have length := congrArg List.length digits
  rw [hexDigits, List.length_map, u.length] at length
  cases length

theorem without_of_notMem {c : Char} {word text : List Char} (absent : c ∉ text) :
    without (c :: word) 0 text = text := by
  induction text with
  | nil => rfl
  | cons first rest ih =>
    obtain ⟨ne, absent⟩ := not_or.mp (List.mem_cons.not.mp absent)
    rw [without, if_neg (by simp [ne]), ih absent]

/-- So many digits of a number, the last one at the end. -/
theorem digits_succ (count n : ℕ) :
    (List.range (count + 1)).reverse.map (fun place => Fin.ofNat 16 (n / 16 ^ place)) =
      (List.range count).reverse.map (fun place => Fin.ofNat 16 (n / 16 / 16 ^ place)) ++
        [Fin.ofNat 16 n] := by
  rw [List.range_succ_eq_map, List.reverse_cons, List.map_append, ← List.map_reverse, List.map_map]
  congr 1
  · refine List.map_congr_left fun place _ => ?_
    rw [Function.comp_apply, Nat.pow_succ', Nat.div_div_eq_div_mul]
  · simp

/-- Digits are those of the number they make, which is as small as they are many. -/
theorem digits_value (digits : List (Fin 16)) :
    let n := digits.foldl (fun value d => 16 * value + d.val) 0
    n < 16 ^ digits.length ∧ (List.range digits.length).reverse.map
      (fun place => Fin.ofNat 16 (n / 16 ^ place)) = digits := by
  induction digits using List.reverseRecOn with
  | nil => exact ⟨Nat.one_pos, rfl⟩
  | append_singleton digits d ih =>
    obtain ⟨small, same⟩ := ih
    have below := d.isLt
    simp only [List.foldl_append, List.foldl_cons, List.foldl_nil, List.length_append,
      List.length_singleton]
    generalize digits.foldl (fun value d => 16 * value + d.val) 0 = n at small same
    refine ⟨by rw [Nat.pow_succ]; omega, ?_⟩
    have front : (16 * n + d.val) / 16 = n := by omega
    have last : Fin.ofNat 16 (16 * n + d.val) = d := Fin.ext (by simp)
    rw [digits_succ, front, same, last]

theorem int_eq (u : Uuid) : u.int = u.digits.foldl (fun value d => 16 * value + d.val) 0 := by
  have values : (u.digits >>= fun a => pure (a : ℕ)) = u.digits.map Fin.val := by
    rw [List.map_eq_flatMap]
    rfl
  rw [int, values, List.foldl_map]

theorem ofNat_int (u : Uuid) : ofNat u.int = u := by
  obtain ⟨digits, length⟩ := u
  have same := (digits_value digits).2
  rw [length] at same
  have made : ofNat (int ⟨digits, length⟩) =
      ofNat (digits.foldl (fun value d => 16 * value + d.val) 0) := by
    rw [int_eq]
  rw [made]
  simp only [ofNat, same]

theorem int_lt (u : Uuid) : u.int < 2 ^ 128 := by
  have small := (digits_value u.digits).1
  rw [u.length, ← int_eq] at small
  exact small

theorem notMem_text {u : Uuid} {c : Char} (ne : c ≠ '-') (other : ∀ d, hexDigit d ≠ c) :
    c ∉ dashed [8, 4, 4, 4] u.hexDigits := by
  intro mem
  have kept : c ∈ u.hexDigits := by
    rw [← filter_hexDigits, ← filter_dashed [8, 4, 4, 4], List.mem_filter]
    exact ⟨mem, by simpa using ne⟩
  obtain ⟨d, -, same⟩ := List.mem_map.mp kept
  exact other d same

theorem dropWhile_of_forall {p : Char → Prop} [DecidablePred p] {text : List Char}
    (none : ∀ c ∈ text, ¬ p c) : text.dropWhile (fun c => p c) = text := by
  cases text with
  | nil => rfl
  | cons first rest => exact List.dropWhile_cons_of_neg (by simpa using none first List.mem_cons_self)

/-- A UUID is read from its text. -/
theorem parse_text {int16 : String → Option ℤ} (u : Uuid) (reads : int16 u.hex = some (u.int : ℤ)) :
    parse int16 u.text = some u := by
  have plain : ∀ c ∈ dashed [8, 4, 4, 4] u.hexDigits, ¬ (c = '{' ∨ c = '}') := by
    rintro c mem (rfl | rfl)
    · exact notMem_text (by decide) (by decide) mem
    · exact notMem_text (by decide) (by decide) mem
  have front := dropWhile_of_forall plain
  have back := dropWhile_of_forall fun c mem => plain c (List.mem_reverse.mp mem)
  have length : u.hexDigits.length = 32 := by rw [hexDigits, List.length_map, u.length]
  have small : 0 ≤ (u.int : ℤ) ∧ (u.int : ℤ).toNat < 2 ^ 128 := ⟨Int.natCast_nonneg _, int_lt u⟩
  have urn : without "urn:".toList 0 (dashed [8, 4, 4, 4] u.hexDigits) =
      dashed [8, 4, 4, 4] u.hexDigits :=
    without_of_notMem (notMem_text (by decide) (by decide))
  have uuid : without "uuid:".toList 0 (dashed [8, 4, 4, 4] u.hexDigits) =
      dashed [8, 4, 4, 4] u.hexDigits :=
    without_of_notMem (notMem_text (by decide) (by decide))
  simp only [parse, text, String.toList_ofList, urn, uuid, front, back, List.reverse_reverse,
    filter_dashed, filter_hexDigits, length, if_true]
  rw [← hex, reads, Option.bind_some, if_pos small, Int.toNat_natCast, ofNat_int]

end Uuid
end Deeting
