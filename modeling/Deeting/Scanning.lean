import Mathlib.Data.List.Basic
import Mathlib.Data.Nat.Notation

/-! Scans of a text from left to right. Where a rule finds a match, the scan goes on behind it; else
an element is passed. -/
namespace Deeting.Scanning

variable {α β : Type}

structure Rule (α β : Type) where
  find : List α → Option (β × List α)
  shorter : ∀ {text : List α} {b : β} {rest : List α}, find text = some (b, rest) →
    rest.length < text.length

inductive Piece (α β : Type) where
  | passed (a : α)
  | found (b : β)

variable (rule : Rule α β)

def piecesWithin : ℕ → List α → List (Piece α β)
  | 0, _ => []
  | _ + 1, [] => []
  | fuel + 1, a :: text =>
    match rule.find (a :: text) with
    | some (b, rest) => .found b :: piecesWithin fuel rest
    | none => .passed a :: piecesWithin fuel text

def pieces (text : List α) : List (Piece α β) := piecesWithin rule text.length text

def sub (replace : β → List α) (text : List α) : List α :=
  (pieces rule text).flatMap fun
    | .passed a => [a]
    | .found b => replace b

def findAll (text : List α) : List β :=
  (pieces rule text).filterMap fun
    | .passed _ => none
    | .found b => some b

variable {rule} {text rest : List α} {a : α} {b : β}

/-- As much fuel as there is text is enough. -/
theorem piecesWithin_eq {fuel : ℕ} (enough : text.length ≤ fuel) :
    piecesWithin rule fuel text = pieces rule text := by
  induction fuel using Nat.strongRecOn generalizing text with
  | ind fuel ih =>
    cases fuel with
    | zero =>
      obtain rfl := List.length_eq_zero_iff.mp (Nat.le_zero.mp enough)
      rfl
    | succ fuel =>
      cases text with
      | nil => rfl
      | cons a text =>
        have enough : text.length ≤ fuel := Nat.le_of_succ_le_succ enough
        have same {rest : List α} (less : rest.length ≤ text.length) :
            piecesWithin rule fuel rest = piecesWithin rule text.length rest := by
          rw [ih fuel (Nat.lt_succ_self fuel) (Nat.le_trans less enough)]
          exact (ih text.length (Nat.lt_succ_of_le enough) less).symm
        rw [pieces, List.length_cons, piecesWithin, piecesWithin]
        cases found : rule.find (a :: text) with
        | none => exact congrArg _ (same (Nat.le_refl _))
        | some hit => exact congrArg _ (same (Nat.le_of_lt_succ (rule.shorter found)))

theorem pieces_nil : pieces rule [] = [] := rfl

theorem pieces_of_found (found : rule.find text = some (b, rest)) :
    pieces rule text = .found b :: pieces rule rest := by
  cases text with
  | nil => exact absurd (rule.shorter found) (Nat.not_lt_zero _)
  | cons a text =>
    have enough : rest.length ≤ text.length := Nat.le_of_lt_succ (rule.shorter found)
    rw [pieces, List.length_cons, piecesWithin]
    simp only [found, piecesWithin_eq enough]

theorem pieces_of_none (none : rule.find (a :: text) = none) :
    pieces rule (a :: text) = .passed a :: pieces rule text := by
  rw [pieces, List.length_cons, piecesWithin]
  simp only [none]
  rfl

/-- Induction along a scan. -/
theorem scan_induction {P : List α → Prop} (nil : P [])
    (found : ∀ text b rest, rule.find text = some (b, rest) → P rest → P text)
    (passed : ∀ a text, rule.find (a :: text) = none → P text → P (a :: text)) (text : List α) :
    P text := by
  induction length : text.length using Nat.strongRecOn generalizing text with
  | ind n ih =>
    cases text with
    | nil => exact nil
    | cons a text =>
      cases hit : rule.find (a :: text) with
      | none => exact passed a text hit (ih _ (by rw [← length]; exact Nat.lt_succ_self _) _ rfl)
      | some pair =>
        have less := rule.shorter hit
        exact found _ pair.1 pair.2 hit (ih _ (by rw [← length]; exact less) _ rfl)

/-- What every match has in texts of a kind, where what is left of such a text is of this kind. -/
theorem forall_findAll {S : List α → Prop} {P : β → Prop}
    (step : ∀ text b rest, S text → rule.find text = some (b, rest) → P b ∧ S rest)
    (tail : ∀ a text, S (a :: text) → S text) (start : S text) : ∀ b ∈ findAll rule text, P b := by
  induction text using @scan_induction _ _ rule with
  | nil => simp [findAll, pieces_nil]
  | found text b rest here ih =>
    obtain ⟨first, left⟩ := step text b rest start here
    simpa [findAll, pieces_of_found here, first] using ih left
  | passed a text here ih =>
    simpa [findAll, pieces_of_none here] using ih (tail a text start)

theorem sub_of_found (replace : β → List α) (found : rule.find text = some (b, rest)) :
    sub rule replace text = replace b ++ sub rule replace rest := by
  simp [sub, pieces_of_found found]

theorem sub_of_none (replace : β → List α) (none : rule.find (a :: text) = none) :
    sub rule replace (a :: text) = a :: sub rule replace text := by
  simp [sub, pieces_of_none none]

end Deeting.Scanning
