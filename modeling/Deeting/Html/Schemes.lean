import Deeting.Html.Writing
import Deeting.IgnoreCase
import Mathlib.Data.List.TakeWhile

/-! The schemes of URLs in the values of attributes. A value that a browser reads as it stands names
its scheme in so many letters. -/
namespace Deeting.Html
open Scanning

def masking (c : Char) : Bool := c = '&' || c = '\x00' || c = '\t' || c = '\n' || c = '\r'

section Values

variable (table : Names) {front back : List Char}

theorem valueReference_of_ne {c : Char} (text : List Char) (ne : c ≠ '&') :
    valueReference table (c :: text) = none := by
  unfold valueReference
  split
  · rename_i same
    exact absurd (List.cons.inj same).1 ne
  · rename_i same
    exact absurd (List.cons.inj same).1 ne
  · rfl

theorem decodeValue_append (plain : ∀ c ∈ front, masking c = false) :
    decodeValue table (front ++ back) = front ++ decodeValue table back := by
  induction front with
  | nil => rfl
  | cons c front ih =>
    obtain ⟨first, later⟩ := List.forall_mem_cons.mp plain
    simp only [masking, Bool.or_eq_false_iff, decide_eq_false_iff_not] at first
    obtain ⟨⟨⟨⟨amp, null⟩, -⟩, -⟩, -⟩ := first
    have none := valueReference_of_ne table
      ((front ++ back).map fun c => if c = '\x00' then '\ufffd' else c) amp
    rw [List.cons_append, List.cons_append, ← ih later, decodeValue, List.map_cons, if_neg null]
    exact sub_of_none id none

theorem decodeValue_plain (plain : ∀ c ∈ front, masking c = false) :
    decodeValue table front = front := by
  have whole := @decodeValue_append table front [] plain
  rw [List.append_nil] at whole
  rw [whole]
  exact List.append_nil front

end Values

section Schemes

variable {url scheme : List Char} {a : Attr}

theorem occursIn_of_scheme (plain : ∀ c ∈ url, masking c = false) (read : scheme? url = some scheme) :
    IgnoreCase.occursIn (scheme ++ [':']) url := by
  have kept : ((url.dropWhile fun c => c.toNat ≤ 32).filter fun c =>
      !(c = '\t' || c = '\n' || c = '\r')) = url.dropWhile fun c => c.toNat ≤ 32 := by
    apply List.filter_eq_self.mpr
    intro c mem
    have clear := plain c ((List.dropWhile_sublist _).mem mem)
    simp only [masking, Bool.or_eq_false_iff] at clear
    simp [clear]
  unfold scheme? at read
  rw [kept] at read
  have suffix := List.dropWhile_suffix (fun c : Char => decide (c.toNat ≤ 32)) (l := url)
  generalize url.dropWhile (fun c => decide (c.toNat ≤ 32)) = tail at read suffix
  dsimp only at read
  split at read
  · rename_i found
    obtain rfl := Option.some.inj read
    have parts := List.takeWhile_append_dropWhile (p := isSchemeChar) (l := tail)
    have colon := found.2
    nth_rewrite 1 [← parts] at colon
    rw [List.getElem?_append_right le_rfl, Nat.sub_self] at colon
    obtain ⟨more, behind⟩ : ∃ more, tail.dropWhile isSchemeChar = ':' :: more := by
      cases rest : tail.dropWhile isSchemeChar with
      | nil =>
        rw [rest] at colon
        cases colon
      | cons d more =>
        rw [rest] at colon
        obtain rfl := Option.some.inj colon
        exact ⟨more, rfl⟩
    have starts := IgnoreCase.startsWith_lower (tail.takeWhile isSchemeChar ++ [':']) more
    rw [List.append_assoc, List.singleton_append, ← behind, parts, List.map_append] at starts
    exact IgnoreCase.occursIn_of_suffix suffix starts
  · cases read

theorem masking_nameChar {c : Char} (name : nameChar c) : masking c = false := by
  have amp := ne_of_nameChar (d := '&') name (by decide)
  have null := ne_of_nameChar (d := '\x00') name (by decide)
  have tab := ne_of_nameChar (d := '\t') name (by decide)
  have feed := ne_of_nameChar (d := '\n') name (by decide)
  have ret := ne_of_nameChar (d := '\r') name (by decide)
  simp [masking, amp, null, tab, feed, ret]

theorem scheme?_name {name rest : List Char} (plain : Plain name) (some : name ≠ []) :
    scheme? (name ++ '=' :: rest) = none := by
  have each : ∀ c ∈ name, nameChar c := List.all_eq_true.mp plain
  have schemed : ∀ c ∈ name, isSchemeChar c := by
    intro c mem
    have word : c.isAlphanum := by
      obtain lower | digit := Bool.or_eq_true_iff.mp (each c mem)
      · exact Bool.or_eq_true_iff.mpr (.inl (Bool.or_eq_true_iff.mpr (.inr lower)))
      · exact Bool.or_eq_true_iff.mpr (.inr digit)
    simp [isSchemeChar, word]
  have drop : (name ++ '=' :: rest).dropWhile (fun c => c.toNat ≤ 32) = name ++ '=' :: rest := by
    obtain ⟨c, word, rfl⟩ := List.exists_cons_of_ne_nil some
    have large := toNat_nameChar (each c List.mem_cons_self)
    apply List.dropWhile_cons_of_neg
    simp only [decide_eq_true_eq]
    omega
  have keep : name.filter (fun c => !(c = '\t' || c = '\n' || c = '\r')) = name := by
    apply List.filter_eq_self.mpr
    intro c mem
    have clear := masking_nameChar (each c mem)
    simp only [masking, Bool.or_eq_false_iff] at clear
    simp [clear]
  have equals : isSchemeChar '=' = false := by decide
  unfold scheme?
  rw [drop, List.filter_append, keep]
  simp [List.takeWhile_append_of_pos schemed, equals]

theorem scheme?_spell (table : Names) (formed : a.Formed) :
    scheme? (decodeValue table a.spell) = none := by
  have front : ∀ c ∈ a.name ++ ['='], masking c = false := by
    intro c mem
    obtain named | equals := List.mem_append.mp mem
    · exact masking_nameChar (List.all_eq_true.mp formed.name.1 c named)
    · obtain rfl := List.mem_singleton.mp equals
      rfl
  have spelled : a.spell = a.name ++ ['='] ++ (a.quote.toList ++ a.value ++ a.quote.toList) := by
    simp [Attr.spell]
  rw [spelled, decodeValue_append table front, List.append_assoc]
  exact scheme?_name formed.name.1 formed.name.2

end Schemes
end Deeting.Html
