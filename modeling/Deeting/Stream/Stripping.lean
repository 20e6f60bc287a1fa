import Deeting.Stream.Accumulator
import Mathlib.Data.List.DropRight

/-! What `strip` leaves of a line. -/
namespace Deeting.Stream

theorem length_strip_le (line : List Char) : (strip line).length ≤ line.length := by
  rw [strip, List.length_reverse]
  refine (List.dropWhile_suffix isSpace).length_le.trans ?_
  rw [List.length_reverse]
  exact (List.dropWhile_suffix isSpace).length_le

theorem getLast?_strip {line : List Char} {c : Char} (last : c ∈ (strip line).getLast?) :
    isSpace c = false := by
  rw [strip, List.getLast?_reverse] at last
  have kept := List.head?_dropWhile_not isSpace (line.dropWhile isSpace).reverse
  rw [Option.mem_def.mp last] at kept
  simpa using kept

theorem strip_strip (text : List Char) : strip (strip text) = strip text := by
  have shape (text : List Char) : strip text = (text.dropWhile isSpace).rdropWhile isSpace := rfl
  have kept : (strip text).dropWhile isSpace = strip text := by
    rw [List.dropWhile_eq_self_iff]
    intro pos
    -- what is left begins as the text without its first spaces does
    have start : strip text <+: text.dropWhile isSpace := List.rdropWhile_prefix _ _
    rw [start.getElem pos]
    exact List.dropWhile_get_zero_not _ _ _
  rw [shape (strip text), kept, shape text, List.rdropWhile_idempotent]

section Solid

variable {text : List Char} {c : Char} (solid : isSpace c = false)
include solid

theorem count_dropWhile : (text.dropWhile isSpace).count c = text.count c := by
  have blank : (text.takeWhile isSpace).count c = 0 :=
    List.count_eq_zero.mpr fun mem => by simp [List.mem_takeWhile_imp mem] at solid
  rw [← List.takeWhile_append_dropWhile (p := isSpace) (l := text), List.count_append, blank,
    Nat.zero_add]
  simp

theorem count_strip : (strip text).count c = text.count c := by
  rw [strip, List.count_reverse, count_dropWhile solid, List.count_reverse, count_dropWhile solid]

theorem mem_strip : c ∈ strip text ↔ c ∈ text := by
  rw [← List.count_pos_iff, count_strip solid, List.count_pos_iff]

end Solid

theorem dropWhile_append_solid {front text : List Char}
    (solid : ∀ c ∈ text.head?, isSpace c = false) (some_ : text ≠ []) :
    (front ++ text).dropWhile isSpace = front.dropWhile isSpace ++ text := by
  induction front with
  | nil =>
    obtain ⟨c, rest, rfl⟩ := List.exists_cons_of_ne_nil some_
    exact List.dropWhile_cons_of_neg (by simp [solid c rfl])
  | cons c front ih =>
    cases space : isSpace c with
    | true =>
      rw [List.cons_append, List.dropWhile_cons_of_pos space, ih, List.dropWhile_cons_of_pos space]
    | false =>
      rw [List.cons_append, List.dropWhile_cons_of_neg (by simp [space]),
        List.dropWhile_cons_of_neg (by simp [space]), List.cons_append]

/-- What is left begins before the first element that is no space, and ends with the last. -/
theorem strip_append_solid {front text back : List Char}
    (first : ∀ c ∈ text.head?, isSpace c = false)
    (last : ∀ c ∈ text.getLast?, isSpace c = false) (some_ : text ≠ [])
    (spaces : ∀ c ∈ back, isSpace c = true) :
    strip (front ++ text ++ back) = front.dropWhile isSpace ++ text := by
  have tail : back.reverse.dropWhile isSpace = [] :=
    List.dropWhile_eq_nil_iff.mpr fun c mem => spaces c (List.mem_reverse.mp mem)
  have ends : ∀ c ∈ (text.reverse ++ (front.dropWhile isSpace).reverse).head?,
      isSpace c = false := by
    intro c mem
    rw [List.head?_append_of_ne_nil _ (by simpa using some_), List.head?_reverse] at mem
    exact last c mem
  rw [strip, List.append_assoc, dropWhile_append_solid, List.reverse_append, List.reverse_append,
    List.append_assoc, dropWhile_append_solid ends, tail]
  · simp
  · simp [some_]
  · intro c mem
    rw [List.head?_append_of_ne_nil _ some_] at mem
    exact first c mem
  · simp [some_]

theorem strip_of_solid {text : List Char} (first : ∀ c ∈ text.head?, isSpace c = false)
    (last : ∀ c ∈ text.getLast?, isSpace c = false) (some_ : text ≠ []) :
    strip text = text := by
  simpa using @strip_append_solid [] text [] first last some_ (by simp)

theorem strip_of_plain {text : List Char} (plain : ∀ c ∈ text, isSpace c = false) :
    strip text = text := by
  cases text with
  | nil => rfl
  | cons c rest =>
    apply strip_of_solid
    · exact fun d first => plain d (List.mem_of_mem_head? first)
    · exact fun d last => plain d (List.mem_of_getLast? last)
    · exact List.cons_ne_nil c rest

end Deeting.Stream
