import Mathlib.Algebra.BigOperators.Group.List.Basic
import Mathlib.Algebra.Order.Field.Basic
import Mathlib.Tactic.Linarith
import Mathlib.Tactic.Ring

/-! Spending from a level that is refilled at a rate up to a burst. Whatever is refilled,
dropped and spent in whatever order, what is spent in a window is at most the burst and what
the rate gives in its length. -/
namespace Deeting.Metering

variable {α : Type} [Field α] [LinearOrder α]

/-- What was spent between two times, of a history of times with amounts. -/
def spent (s t : α) (history : List (α × α)) : α :=
  ((history.filter fun e => s ≤ e.1 ∧ e.1 ≤ t).map Prod.snd).sum

theorem spent_cons (s t : α) (e : α × α) (history : List (α × α)) :
    spent s t (e :: history) = (if s ≤ e.1 ∧ e.1 ≤ t then e.2 else 0) + spent s t history := by
  simp only [spent, List.filter_cons]
  by_cases within : s ≤ e.1 ∧ e.1 ≤ t
  · simp [within]
  · simp [within]

/-- What comes before the window adds nothing. -/
theorem spent_of_past {s t now : α} {history : List (α × α)} (past : ∀ e ∈ history, e.1 ≤ now)
    (after : now < s) : spent s t history = 0 := by
  have none : history.filter (fun e => s ≤ e.1 ∧ e.1 ≤ t) = [] := by
    rw [List.filter_eq_nil_iff]
    intro e mem within
    have early := past e mem
    have late := (of_decide_eq_true within).1
    exact absurd (lt_of_lt_of_le after late) (not_lt.mpr early)
  rw [spent, none]
  rfl

/-- Past the last time a window may as well end there. -/
theorem spent_of_le {s t now : α} {history : List (α × α)} (past : ∀ e ∈ history, e.1 ≤ now)
    (within : now ≤ t) : spent s t history = spent s now history := by
  have same : history.filter (fun e => s ≤ e.1 ∧ e.1 ≤ t) =
      history.filter fun e => s ≤ e.1 ∧ e.1 ≤ now := by
    apply List.filter_congr
    intro e mem
    have early := past e mem
    simp [early, early.trans within]
  rw [spent, spent, same]

structure Metered (burst rate now level : α) (history : List (α × α)) : Prop where
  past : ∀ e ∈ history, e.1 ≤ now
  since : ∀ s ≤ now, spent s now history + level ≤ burst + rate * (now - s)
  windows : ∀ s t, s ≤ t → spent s t history ≤ burst + rate * (t - s)

variable [IsStrictOrderedRing α] {burst rate now later level cost : α} {history : List (α × α)}

theorem metered_nil (now : α) (burst_nonneg : 0 ≤ burst) (rate_nonneg : 0 ≤ rate) :
    Metered burst rate now 0 [] := by
  have bound {s t : α} (order : s ≤ t) : 0 ≤ burst + rate * (t - s) :=
    add_nonneg burst_nonneg (mul_nonneg rate_nonneg (sub_nonneg.mpr order))
  constructor
  · simp
  · intro s order
    simpa [spent] using bound order
  · intro s t order
    simpa [spent] using bound order

/-- Time passes, and the level rises by no more than the rate gives and to no more than the
burst. -/
theorem Metered.refill {raised : α} (metered : Metered burst rate now level history)
    (rate_nonneg : 0 ≤ rate) (forward : now ≤ later)
    (flow : raised ≤ level + rate * (later - now)) (full : raised ≤ burst) :
    Metered burst rate later raised history := by
  obtain ⟨past, since, windows⟩ := metered
  constructor
  · intro e mem
    exact (past e mem).trans forward
  · intro s order
    rcases le_or_gt s now with early | late
    · have bound := since s early
      rw [spent_of_le past forward]
      have split : rate * (later - s) = rate * (later - now) + rate * (now - s) := by ring
      linarith
    · rw [spent_of_past past late]
      have gain : 0 ≤ rate * (later - s) := mul_nonneg rate_nonneg (sub_nonneg.mpr order)
      linarith
  · exact windows

theorem Metered.spend (metered : Metered burst rate now level history) (rate_nonneg : 0 ≤ rate)
    (enough : cost ≤ level) : Metered burst rate now (level - cost) ((now, cost) :: history) := by
  obtain ⟨past, since, windows⟩ := metered
  constructor
  · intro e mem
    rcases List.mem_cons.mp mem with rfl | mem
    · exact le_rfl
    · exact past e mem
  · intro s order
    rw [spent_cons, if_pos ⟨order, le_rfl⟩]
    linarith [since s order]
  · intro s t order
    rw [spent_cons]
    by_cases within : s ≤ now ∧ now ≤ t
    · rw [if_pos within, spent_of_le past within.2]
      have gain : rate * (now - s) ≤ rate * (t - s) :=
        mul_le_mul_of_nonneg_left (sub_le_sub_right within.2 s) rate_nonneg
      linarith [since s within.1]
    · rw [if_neg within, zero_add]
      exact windows s t order

end Deeting.Metering
