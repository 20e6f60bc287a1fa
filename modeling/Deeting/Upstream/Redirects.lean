import Mathlib.Data.List.Basic

/-! The loop of `_request_with_redirects` and of `_stream_with_redirects`: every answer that
redirects is followed by hand, after the URL check, and at most `MAX_UPSTREAM_REDIRECTS` times. -/
namespace Deeting.Upstream

def maxUpstreamRedirects : ℕ := 3

/-- What a request raises. `status` is an answer that `raise_for_status` refuses. -/
inductive RequestError where
  | timeout (text : String)
  | network (text : String)
  | status (text : String)
  | security (text : String)
  | other (text : String)
  deriving DecidableEq

namespace RequestError

def text : RequestError → String
  | timeout text | network text | status text | security text | other text => text

def retried : RequestError → Bool
  | timeout _ | network _ => true
  | _ => false

end RequestError

def rounds (ends : ℕ → Option RequestError) : (left i : ℕ) → ℕ
  | 0, _ => 1
  | left + 1, i => if (ends i).any (·.retried) then rounds ends left (i + 1) + 1 else 1

/-- What comes back for one request: a redirect with its `Location`, another answer, or none. -/
inductive Answer (α : Type) where
  | redirect (location : Option String)
  | final (answer : α)
  | failed (error : RequestError)

def Answer.map {α β : Type} (f : α → β) : Answer α → Answer β
  | redirect location => redirect location
  | final answer => final (f answer)
  | failed error => failed error

/-- The URL check and `urljoin`, `none` where they raise. -/
structure Checks where
  safe : String → Option Bool
  urljoin : String → String → Option String

section Rounds

variable {ends : ℕ → Option RequestError} {left i : ℕ}

theorem rounds_pos : 0 < rounds ends left i := by
  cases left with
  | zero => exact Nat.one_pos
  | succ left =>
    rw [rounds]
    split <;> omega

end Rounds

section Follow

variable {α β : Type} (checks : Checks)

def nextUrl (current : String) (location : Option String) : Except RequestError String :=
  match location.filter (· ≠ "") with
  | none => .error (.security "Upstream redirect missing location")
  | some location =>
    match checks.urljoin current location with
    | none => .error (.other "Invalid IPv6 URL")
    | some next =>
      if next = "" then .error (.security "Upstream redirect missing location")
      else
        match checks.safe next with
        | none => .error (.other "Port could not be cast to integer value")
        | some false => .error (.security "Upstream redirect blocked by security policy")
        | some true => .ok next

/-- The URLs requested, and what comes of it; `left` redirects may still be followed. -/
def followRedirects : (left : ℕ) → (answers : ℕ → Answer α) → (current : String) →
    List String × Except RequestError α
  | left, answers, current =>
    match answers 0 with
    | .failed error => ([current], .error error)
    | .final answer => ([current], .ok answer)
    | .redirect location =>
      match left with
      | 0 => ([current], .error (.security "Upstream redirect exceeds limit"))
      | left + 1 =>
        match nextUrl checks current location with
        | .error error => ([current], .error error)
        | .ok next =>
          let later := followRedirects left (fun n => answers (n + 1)) next
          (current :: later.1, later.2)

variable {checks} {answers : ℕ → Answer α} {current next : String} {location : Option String}
  {left : ℕ}

theorem nextUrl_safe (follows : nextUrl checks current location = .ok next) :
    checks.safe next = some true := by
  unfold nextUrl at follows
  grind

theorem followRedirects_requested :
    ∃ later, (followRedirects checks left answers current).1 = current :: later ∧
      later.length ≤ left ∧ ∀ url ∈ later, checks.safe url = some true := by
  induction left generalizing answers current with
  | zero =>
    refine ⟨[], ?_, Nat.le_refl 0, by simp⟩
    rw [followRedirects]
    split <;> rfl
  | succ left ih =>
    rw [followRedirects]
    split
    · exact ⟨[], rfl, by simp, by simp⟩
    · exact ⟨[], rfl, by simp, by simp⟩
    dsimp only
    split
    · exact ⟨[], rfl, by simp, by simp⟩
    · rename_i next follows
      obtain ⟨later, requested, few, checked⟩ :=
        @ih (fun n => answers (n + 1)) next
      refine ⟨next :: later, congrArg _ requested, Nat.succ_le_succ few, ?_⟩
      exact List.forall_mem_cons.mpr ⟨nextUrl_safe follows, checked⟩

theorem followRedirects_map (f : α → β) :
    (followRedirects checks left (fun n => (answers n).map f) current).2 =
      (followRedirects checks left answers current).2.map f := by
  induction left generalizing answers current with
  | zero =>
    rw [followRedirects, followRedirects]
    cases answers 0 <;> rfl
  | succ left ih =>
    rw [followRedirects, followRedirects]
    cases answers 0 with
    | failed error => rfl
    | final answer => rfl
    | redirect location =>
      dsimp only [Answer.map]
      split
      · rfl
      · rename_i next _
        exact @ih (fun n => answers (n + 1)) next

end Follow

end Deeting.Upstream
