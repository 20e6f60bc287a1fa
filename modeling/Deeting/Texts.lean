import Mathlib.Data.Int.Order.Basic
import Mathlib.Data.List.Basic

/-! Texts as they stand in links and in what is signed: bytes quoted as `%XX`, and lines that
end in a decimal numeral. Both can be read back. -/
namespace Deeting.Texts

def decimal? (text : List Char) : Option ℕ :=
  if text ≠ [] ∧ text.all Char.isDigit then
    some (text.foldl (fun n c => 10 * n + (c.toNat - '0'.toNat)) 0)
  else none

section Quoting

def hexDigit (n : ℕ) : Char := Char.ofNat (if n < 10 then 48 + n else 55 + n)

def hexValue (c : Char) : Option ℕ :=
  let n := c.toNat
  if 48 ≤ n ∧ n < 58 then some (n - 48)
  else if 65 ≤ n ∧ n < 71 then some (n - 55)
  else if 97 ≤ n ∧ n < 103 then some (n - 87)
  else none

/-- The bytes that are not kept are written as `%` and two digits. -/
def quoteByte (keep : UInt8 → Bool) (b : UInt8) : List Char :=
  if keep b then [Char.ofNat b.toNat]
  else ['%', hexDigit (b.toNat / 16), hexDigit (b.toNat % 16)]

def quote (keep : UInt8 → Bool) (text : String) : String :=
  String.ofList (text.toByteArray.data.toList.flatMap (quoteByte keep))

/-- A `%` without two digits after it stands for itself. -/
def unquoteBytes : List Char → List UInt8
  | [] => []
  | c :: rest =>
      match c, rest with
      | '%', a :: d :: after =>
          match hexValue a, hexValue d with
          | some high, some low => UInt8.ofNat (16 * high + low) :: unquoteBytes after
          | _, _ => 37 :: unquoteBytes (a :: d :: after)
      | c, rest => String.utf8EncodeChar c ++ unquoteBytes rest

/-- `none` where the bytes are no UTF-8. -/
def unquote (text : String) : Option String :=
  String.fromUTF8? ⟨(unquoteBytes text.toList).toArray⟩

theorem hexValue_hexDigit : ∀ n < 16, hexValue (hexDigit n) = some n := by decide

/-- Bytes that are kept stand for themselves: they are ASCII, and none is the `%`. -/
def Plain (keep : UInt8 → Bool) : Prop := ∀ b, keep b → b.toNat < 128 ∧ b.toNat ≠ 37

theorem utf8EncodeChar_ofNat : ∀ n < 128, String.utf8EncodeChar (Char.ofNat n) = [UInt8.ofNat n] := by
  decide

variable {keep : UInt8 → Bool}

theorem unquoteBytes_quoteByte (plain : Plain keep) (b : UInt8) (rest : List Char) :
    unquoteBytes (quoteByte keep b ++ rest) = b :: unquoteBytes rest := by
  rw [quoteByte]
  split
  · rename_i kept
    obtain ⟨ascii, other⟩ := plain b kept
    have read : String.utf8EncodeChar (Char.ofNat b.toNat) = [b] := by
      rw [utf8EncodeChar_ofNat b.toNat ascii, UInt8.ofNat_toNat]
    have unlike : Char.ofNat b.toNat ≠ '%' := by
      intro same
      rw [same] at read
      exact other (congrArg UInt8.toNat (List.cons.inj read).1).symm
    rw [List.singleton_append, unquoteBytes, read]
    · rfl
    · intro a d after same
      exact absurd same unlike
  · have high : b.toNat / 16 < 16 := by
      have := b.toNat_lt
      omega
    have low : b.toNat % 16 < 16 := by omega
    simp only [List.cons_append, List.nil_append, unquoteBytes, hexValue_hexDigit _ high,
      hexValue_hexDigit _ low, Nat.div_add_mod, UInt8.ofNat_toNat]

theorem unquoteBytes_quote (plain : Plain keep) (bytes : List UInt8) :
    unquoteBytes (bytes.flatMap (quoteByte keep)) = bytes := by
  induction bytes with
  | nil => rfl
  | cons b rest ih => rw [List.flatMap_cons, unquoteBytes_quoteByte plain, ih]

theorem unquote_quote (plain : Plain keep) (text : String) :
    unquote (quote keep text) = some text := by
  rw [unquote, quote, String.toList_ofList, unquoteBytes_quote plain, Array.toArray_toList]
  rw [String.fromUTF8?, dif_pos text.isValidUTF8]
  rfl

end Quoting

section Numerals

theorem digitChar_injective {m n : ℕ} (small : m < 10) (small' : n < 10)
    (same : m.digitChar = n.digitChar) : m = n := by
  rw [← Nat.toNat_digitChar_sub_48_of_lt_ten small, same,
    Nat.toNat_digitChar_sub_48_of_lt_ten small']

theorem toDigits_injective {m n : ℕ} (same : Nat.toDigits 10 m = Nat.toDigits 10 n) : m = n := by
  induction m using Nat.strongRecOn generalizing n with
  | _ m ih =>
    have long : ∀ k, 0 < (Nat.toDigits 10 k).length := fun k => Nat.length_toDigits_pos
    rw [Nat.toDigits_eq_if (by decide), Nat.toDigits_eq_if (n := n) (by decide)] at same
    split at same <;> split at same
    · rename_i small small'
      exact digitChar_injective small small' (List.singleton_inj.mp same)
    · have length := congrArg List.length same
      simp only [List.length_append, List.length_singleton] at length
      have := long (n / 10)
      omega
    · have length := congrArg List.length same
      simp only [List.length_append, List.length_singleton] at length
      have := long (m / 10)
      omega
    · obtain ⟨front, last⟩ := List.append_inj' same rfl
      have tens := ih (m / 10) (by omega) front
      have units := digitChar_injective (Nat.mod_lt m (by decide)) (Nat.mod_lt n (by decide))
        (List.singleton_inj.mp last)
      omega

theorem repr_injective {m n : ℤ} (same : m.repr = n.repr) : m = n := by
  have unsigned : ∀ {k : ℕ} {rest : List Char}, Nat.toDigits 10 k ≠ '-' :: rest := by
    intro k rest minus
    have digit := Nat.isDigit_of_mem_toDigits (b := 10) (n := k) (c := '-') (by decide)
      (by decide) (minus ▸ List.mem_cons_self)
    exact absurd digit (by decide)
  have same := congrArg String.toList same
  cases m with
  | ofNat m =>
    cases n with
    | ofNat n =>
      rw [Int.repr, Int.repr, Nat.toList_repr, Nat.toList_repr] at same
      rw [toDigits_injective same]
    | negSucc n =>
      rw [Int.repr, Int.repr, String.toList_append, Nat.toList_repr] at same
      exact absurd same unsigned
  | negSucc m =>
    cases n with
    | ofNat n =>
      rw [Int.repr, Int.repr, String.toList_append, Nat.toList_repr, Nat.toList_repr] at same
      exact absurd same.symm unsigned
    | negSucc n =>
      rw [Int.repr, Int.repr, String.toList_append, String.toList_append, Nat.toList_repr,
        Nat.toList_repr] at same
      rw [Nat.succ.inj (toDigits_injective (List.append_cancel_left same))]

theorem newline_notMem_repr (n : ℤ) : '\n' ∉ n.repr.toList := by
  have digits : ∀ k, '\n' ∉ Nat.toDigits 10 k := by
    intro k mem
    exact absurd (Nat.isDigit_of_mem_toDigits (by decide) (by decide) mem) (by decide)
  cases n with
  | ofNat n =>
    rw [Int.repr, Nat.toList_repr]
    exact digits n
  | negSucc n =>
    rw [Int.repr, String.toList_append, Nat.toList_repr]
    simpa using digits (n + 1)

/-- What follows the last newline is read back, whatever stands before it. -/
theorem lastLine_injective {front front' last last' : List Char} (one : '\n' ∉ last)
    (one' : '\n' ∉ last') (same : front ++ '\n' :: last = front' ++ '\n' :: last') :
    front = front' ∧ last = last' := by
  have taken : ∀ {f l : List Char}, '\n' ∉ l →
      (f ++ '\n' :: l).reverse.takeWhile (fun c => c ≠ '\n') = l.reverse := by
    intro f l none
    have others : ∀ c ∈ l.reverse, decide (c ≠ '\n') = true := by
      intro c mem
      refine decide_eq_true fun newline => none ?_
      rw [← newline]
      exact List.mem_reverse.mp mem
    rw [List.reverse_append, List.reverse_cons, List.append_assoc,
      List.takeWhile_append_of_pos others]
    simp
  have tail : last = last' := by
    rw [← List.reverse_inj, ← taken one (f := front), ← taken one' (f := front'), same]
  rw [tail] at same
  exact ⟨List.append_cancel_right same, tail⟩

/-- A text and a numeral on the line after it are both told by the whole. -/
theorem text_repr_injective {text text' : String} {n n' : ℤ}
    (same : text ++ "\n" ++ n.repr = text' ++ "\n" ++ n'.repr) : text = text' ∧ n = n' := by
  have lists := congrArg String.toList same
  simp only [String.toList_append, List.append_assoc] at lists
  obtain ⟨front, last⟩ := lastLine_injective (newline_notMem_repr n) (newline_notMem_repr n') lists
  exact ⟨String.toList_inj.mp front, repr_injective (String.toList_inj.mp last)⟩

end Numerals

end Deeting.Texts
