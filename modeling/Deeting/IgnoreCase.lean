import Mathlib.Data.List.Infix

/-! Words in texts where the case of letters is ignored, as with `re.IGNORECASE`: four characters
beyond ASCII stand for a letter, too. -/
namespace Deeting.IgnoreCase

def like (letter c : Char) : Bool :=
  c = letter || c.toLower = letter || (letter = 'i' && (c = 'İ' || c = 'ı')) ||
    (letter = 's' && c = 'ſ') || (letter = 'k' && c = '\u212a')

def startsWith : List Char → List Char → Bool
  | [], _ => true
  | _ :: _, [] => false
  | letter :: word, c :: text => like letter c && startsWith word text

def occursIn (word text : List Char) : Bool := text.tails.any (startsWith word)

/-- A text begins with the word that its letters are, made small. -/
theorem startsWith_lower (word rest : List Char) :
    startsWith (word.map Char.toLower) (word ++ rest) := by
  induction word with
  | nil => rfl
  | cons c word ih => simpa [startsWith, like] using ih

theorem occursIn_of_suffix {word tail text : List Char} (suffix : tail <:+ text)
    (starts : startsWith word tail) : occursIn word text :=
  List.any_eq_true.mpr ⟨tail, (List.mem_tails _ _).mpr suffix, starts⟩

end Deeting.IgnoreCase
