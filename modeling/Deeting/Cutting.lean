import Mathlib.Data.List.Infix

/-! A stream that arrives in pieces, and a consumer of pieces: when what is observed at the end
does not depend on where the stream was cut. -/
namespace Deeting.Cutting

variable {S α O : Type}

def Observed (feed : S → List α → S) (observe : S → O) : Prop :=
  ∀ s t piece, observe s = observe t → observe (feed s piece) = observe (feed t piece)

/-- Cut in any way, the stream gives what it gives in one piece. -/
def Insensitive (feed : S → List α → S) (observe : S → O) (start : S) (stream : List α) : Prop :=
  ∀ pieces : List (List α), pieces.flatten = stream →
    observe (pieces.foldl feed start) = observe (feed start stream)

def Silent (feed : S → List α → S) (observe : S → O) (start : S) (piece : List α) : Prop :=
  observe (feed start piece) = observe start

def singly (stream : List α) : List (List α) := stream.map fun a => [a]

@[simp] theorem flatten_singly (stream : List α) : (singly stream).flatten = stream := by
  induction stream with
  | nil => rfl
  | cons a rest ih => simpa [singly] using ih

section Consumer

variable {feed : S → List α → S} {observe : S → O} {start s : S} {stream : List α}
  {pieces : List (List α)}

/-- Silent pieces leave nothing to observe. -/
theorem observe_foldl_of_silent (observed : Observed feed observe)
    (silent : ∀ piece ∈ pieces, Silent feed observe start piece) (idle : observe s = observe start) :
    observe (pieces.foldl feed s) = observe start := by
  induction pieces generalizing s with
  | nil => exact idle
  | cons piece rest ih =>
    obtain ⟨head, tail⟩ := List.forall_mem_cons.mp silent
    exact ih tail ((observed s start piece idle).trans head)

variable (single : ∀ s a, observe (feed s [a]) = observe s)

include single in
/-- One element at a time, nothing is ever observed. -/
theorem observe_foldl_singly (stream : List α) (s : S) :
    observe ((singly stream).foldl feed s) = observe s := by
  induction stream generalizing s with
  | nil => rfl
  | cons a rest ih => exact (ih (feed s [a])).trans (single s a)

include single in
/-- Where single elements show nothing, a stream is insensitive to cuts exactly when none of
its pieces shows anything. -/
theorem insensitive_iff (observed : Observed feed observe) :
    Insensitive feed observe start stream ↔
      ∀ piece, piece <:+: stream → Silent feed observe start piece := by
  constructor
  · rintro insensitive piece ⟨before, after, rfl⟩
    have whole := insensitive _ (flatten_singly (before ++ piece ++ after))
    rw [observe_foldl_singly single] at whole
    have cut := insensitive (singly before ++ piece :: singly after) (by simp)
    rw [List.foldl_append, List.foldl_cons, observe_foldl_singly single, ← whole] at cut
    exact (observed _ _ piece (observe_foldl_singly single before start)).symm.trans cut
  · rintro silent pieces rfl
    rw [silent pieces.flatten (List.infix_refl _)]
    refine observe_foldl_of_silent observed (fun piece mem => silent piece ?_) rfl
    exact List.infix_of_mem_flatten mem

end Consumer

end Deeting.Cutting
