import Deeting.Stream.Usage
import Deeting.Upstream.Redirects
import Mathlib.Algebra.GroupWithZero.Nat

/-! `_call_upstream_stream`: a stream is requested through one proxy after another. What the
attempts hand out goes to the client and to the accumulator as it arrives, so an attempt that
breaks off leaves its part behind. -/
namespace Deeting.Upstream

open Deeting.Stream (Chunk Loads StreamTokenAccumulator encode)

/-- A response read as a stream: its body, the chunks of it that arrive, and what then breaks
the reading off. -/
structure StreamedResponse where
  body : List UInt8
  chunks : List Chunk
  failure : Option RequestError
  start : chunks.flatten <+: body
  whole : failure = none → chunks.flatten = body

/-- What comes of one attempt: a response that is read, or an error before it. -/
abbrev Attempt := Except RequestError StreamedResponse

def handed : Attempt → List Chunk
  | .ok r => r.chunks
  | .error _ => []

def ending : Attempt → Option RequestError
  | .ok r => r.failure
  | .error error => some error

def spoken (a : Attempt) : ℕ := (handed a).flatten.length

def modelAllowed (allowedModels : List String) (model : Option String) : Bool :=
  allowedModels.isEmpty || model.any fun model => model ≠ "" && allowedModels.contains model

structure StreamCall where
  allowedModels : List String
  model : Option String
  url : String
  checks : Checks
  /-- `UPSTREAM_PROXY_MAX_RETRIES`. -/
  proxyMaxRetries : ℤ

structure Streamed where
  yielded : List Chunk
  raised : Option RequestError
  accumulator : StreamTokenAccumulator

namespace StreamCall

def allowed (c : StreamCall) : Bool := modelAllowed c.allowedModels c.model

def proxyAttempts (c : StreamCall) : ℕ := (max 1 (c.proxyMaxRetries + 1)).toNat

variable (answers : ℕ → ℕ → Answer StreamedResponse)

/-- `_stream_with_redirects` for the `i`-th attempt. -/
def attempt (c : StreamCall) (i : ℕ) : Attempt :=
  (followRedirects c.checks maxUpstreamRedirects (answers i) c.url).2

end StreamCall

section Attempts

variable (loads : Loads) (attempt : ℕ → Attempt)

/-- The loop over the attempts, of which `left` are left after the one that is made. -/
def tryProxies : (left i : ℕ) → StreamTokenAccumulator → Streamed
  | left, i, acc =>
    let chunks := handed (attempt i)
    let acc := chunks.foldl (·.parseSseChunk loads ·) acc
    match ending (attempt i) with
    | none => { yielded := chunks, raised := none, accumulator := acc }
    | some error =>
      let given : Streamed :=
        { yielded := chunks
          raised := some error
          accumulator := { acc with error := some (.upstream error.text) } }
      if error.retried then
        match left with
        | 0 => given
        | left + 1 =>
          let later := tryProxies left (i + 1) acc
          { later with yielded := chunks ++ later.yielded }
      else given

end Attempts

namespace StreamCall

variable (loads : Loads) (c : StreamCall) (answers : ℕ → ℕ → Answer StreamedResponse)

/-- `_call_upstream_stream`, with a new accumulator; a model that is not allowed ends it. -/
def callUpstreamStream : Streamed :=
  if c.allowed then tryProxies loads (c.attempt answers) (c.proxyAttempts - 1) 0 {}
  else { yielded := [], raised := none, accumulator := {} }

def made : ℕ := rounds (fun i => ending (c.attempt answers i)) (c.proxyAttempts - 1) 0

/-- `r` is a response that was read. -/
def Received (r : StreamedResponse) : Prop :=
  c.allowed ∧ ∃ i < c.made answers, c.attempt answers i = .ok r

end StreamCall

def counted (acc : StreamTokenAccumulator) : Json × Json × List String × List Json :=
  (acc.inputTokens, acc.outputTokens, acc.assistantContent, acc.toolCallNames)

/-- The client gets a part of one response, all of it when no exception ends the stream, and the
accumulator has counted what the client got. -/
structure Faithful (loads : Loads) (c : StreamCall) (answers : ℕ → ℕ → Answer StreamedResponse) :
    Prop where
  single : (c.callUpstreamStream loads answers).yielded.flatten = [] ∨
    ∃ r, c.Received answers r ∧ (c.callUpstreamStream loads answers).yielded.flatten <+: r.body
  whole : (c.callUpstreamStream loads answers).raised = none →
    ∃ r, c.Received answers r ∧ (c.callUpstreamStream loads answers).yielded.flatten = r.body
  exact : counted (c.callUpstreamStream loads answers).accumulator =
    counted ((c.callUpstreamStream loads answers).yielded.foldl (·.parseSseChunk loads ·) {})

def shape (r : StreamedResponse) : ℕ × List ℕ × Option RequestError :=
  (r.body.length, r.chunks.map List.length, r.failure)

/-- The same errors at the same positions, with other bytes perhaps. -/
def SamePattern (answers other : ℕ → ℕ → Answer StreamedResponse) : Prop :=
  ∀ i n, (answers i n).map shape = (other i n).map shape

/-- One attempt at most hands out anything, and when the last one ends well, all of its body. -/
structure HandedOnce (c : StreamCall) (answers : ℕ → ℕ → Answer StreamedResponse) : Prop where
  allowed : c.allowed
  once : ∀ i j, i < j → j < c.made answers →
    spoken (c.attempt answers i) = 0 ∨ spoken (c.attempt answers j) = 0
  complete : ending (c.attempt answers (c.made answers - 1)) = none →
    ∀ i < c.made answers, ∀ r, c.attempt answers i = .ok r →
      spoken (.ok r) = 0 ∨ spoken (.ok r) = r.body.length

section Loop

variable {loads : Loads} {attempt : ℕ → Attempt} {left i : ℕ} {acc : StreamTokenAccumulator}

def Last (attempt : ℕ → Attempt) (left i : ℕ) : Prop :=
  left = 0 ∨ ¬ (ending (attempt i)).any (·.retried)

theorem last_or_retried (attempt : ℕ → Attempt) (left i : ℕ) :
    Last attempt left i ∨ ∃ more, left = more + 1 ∧ (ending (attempt i)).any (·.retried) := by
  cases left with
  | zero => exact .inl (.inl rfl)
  | succ more =>
    cases retried : (ending (attempt i)).any (·.retried) with
    | false => exact .inl (.inr (by simp [retried]))
    | true => exact .inr ⟨more, rfl, rfl⟩

/-- The attempts made from the `i`-th on. -/
abbrev madeFrom (attempt : ℕ → Attempt) : (left i : ℕ) → ℕ := rounds fun j => ending (attempt j)

theorem madeFrom_of_last (last : Last attempt left i) : madeFrom attempt left i = 1 := by
  cases left with
  | zero => rfl
  | succ more => exact if_neg (last.resolve_left (Nat.succ_ne_zero more))

theorem madeFrom_of_retried (retried : (ending (attempt i)).any (·.retried)) :
    madeFrom attempt (left + 1) i = madeFrom attempt left (i + 1) + 1 :=
  if_pos retried

theorem tryProxies_of_last (last : Last attempt left i) :
    (tryProxies loads attempt left i acc).yielded = handed (attempt i) ∧
      (tryProxies loads attempt left i acc).raised = ending (attempt i) ∧
      counted (tryProxies loads attempt left i acc).accumulator =
        counted ((handed (attempt i)).foldl (·.parseSseChunk loads ·) acc) := by
  unfold tryProxies
  unfold Last at last
  cases ended : ending (attempt i) with
  | none => exact ⟨rfl, rfl, rfl⟩
  | some error =>
    rw [ended, Option.any_some] at last
    cases retried : error.retried with
    | false => simp [retried, counted]
    | true =>
      obtain rfl := last.resolve_right (not_not_intro retried)
      simp [retried, counted]

theorem tryProxies_of_retried (retried : (ending (attempt i)).any (·.retried)) :
    tryProxies loads attempt (left + 1) i acc =
      let later := tryProxies loads attempt left (i + 1)
        ((handed (attempt i)).foldl (·.parseSseChunk loads ·) acc)
      { later with yielded := handed (attempt i) ++ later.yielded } := by
  obtain ⟨error, ended, retried⟩ := Option.any_eq_true _ _ |>.mp retried
  conv_lhs => unfold tryProxies
  simp [ended, retried]

theorem tryProxies_yielded :
    (tryProxies loads attempt left i acc).yielded =
      (List.range' i (madeFrom attempt left i)).flatMap fun j => handed (attempt j) := by
  induction left generalizing i acc with
  | zero =>
    have last : Last attempt 0 i := .inl rfl
    simp [tryProxies_of_last last, madeFrom_of_last last]
  | succ left ih =>
    obtain last | ⟨_, _, retried⟩ := last_or_retried attempt (left + 1) i
    · simp [tryProxies_of_last last, madeFrom_of_last last]
    · simp [tryProxies_of_retried retried, madeFrom_of_retried retried, ih, List.range'_succ]

theorem tryProxies_raised :
    (tryProxies loads attempt left i acc).raised =
      ending (attempt (i + madeFrom attempt left i - 1)) := by
  induction left generalizing i acc with
  | zero =>
    have last : Last attempt 0 i := .inl rfl
    simp [tryProxies_of_last last, madeFrom_of_last last]
  | succ left ih =>
    obtain last | ⟨_, _, retried⟩ := last_or_retried attempt (left + 1) i
    · simp [tryProxies_of_last last, madeFrom_of_last last]
    · have same : i + (madeFrom attempt left (i + 1) + 1) - 1 =
          i + 1 + madeFrom attempt left (i + 1) - 1 := by omega
      simp [tryProxies_of_retried retried, madeFrom_of_retried retried, ih, same]

theorem tryProxies_counted :
    counted (tryProxies loads attempt left i acc).accumulator =
      counted ((tryProxies loads attempt left i acc).yielded.foldl (·.parseSseChunk loads ·) acc) := by
  induction left generalizing i acc with
  | zero =>
    have last : Last attempt 0 i := .inl rfl
    simp [tryProxies_of_last last]
  | succ left ih =>
    obtain last | ⟨_, _, retried⟩ := last_or_retried attempt (left + 1) i
    · simp [tryProxies_of_last last]
    · simp [tryProxies_of_retried retried, ih, List.foldl_append]

end Loop

section Patterns

variable {a b : Attempt} {r : StreamedResponse}

theorem spoken_eq_sum : spoken (.ok r) = (r.chunks.map List.length).sum := by
  rw [spoken, handed, List.length_flatten]

theorem ending_eq_of_shape (same : a.map shape = b.map shape) : ending a = ending b := by
  cases a <;> cases b <;> simp_all [Except.map, shape, ending]

theorem spoken_eq_of_shape (same : a.map shape = b.map shape) : spoken a = spoken b := by
  cases a with
  | error _ => cases b with
    | error _ => rfl
    | ok _ => simp [Except.map] at same
  | ok r => cases b with
    | error _ => simp [Except.map] at same
    | ok t =>
      obtain ⟨_, chunks, _⟩ : _ ∧ _ ∧ _ := by simpa [Except.map, shape] using same
      rw [spoken_eq_sum, spoken_eq_sum, chunks]

theorem madeFrom_eq_of_shape {attempt other : ℕ → Attempt}
    (same : ∀ i, (attempt i).map shape = (other i).map shape) (left i : ℕ) :
    madeFrom attempt left i = madeFrom other left i :=
  congrArg (rounds · left i) (funext fun j => ending_eq_of_shape (same j))

theorem flatten_replicate (chunks : List Chunk) (colour : UInt8) :
    (chunks.map fun chunk => List.replicate chunk.length colour).flatten =
      List.replicate chunks.flatten.length colour := by
  induction chunks with
  | nil => rfl
  | cons chunk rest ih => simp [ih, List.replicate_append_replicate]

def paint (colour : UInt8) (r : StreamedResponse) : StreamedResponse where
  body := List.replicate r.body.length colour
  chunks := r.chunks.map fun chunk => List.replicate chunk.length colour
  failure := r.failure
  start := by
    rw [flatten_replicate]
    refine List.prefix_replicate_iff.mpr ⟨by simpa using r.start.length_le, ?_⟩
    rw [List.length_replicate]
  whole := by
    intro complete
    rw [flatten_replicate, r.whole complete]

theorem shape_paint (colour : UInt8) (r : StreamedResponse) : shape (paint colour r) = shape r := by
  have sizes : (List.length ∘ fun chunk : Chunk => List.replicate chunk.length colour) =
      List.length := funext fun chunk => List.length_replicate
  simp [shape, paint, sizes]

end Patterns

section Law

variable {loads : Loads} {c : StreamCall} {answers other : ℕ → ℕ → Answer StreamedResponse}

theorem attempt_shape (same : SamePattern answers other) (i : ℕ) :
    (c.attempt answers i).map shape = (c.attempt other i).map shape := by
  rw [StreamCall.attempt, StreamCall.attempt, ← followRedirects_map, ← followRedirects_map,
    funext (same i)]

theorem made_eq (same : SamePattern answers other) : c.made answers = c.made other :=
  madeFrom_eq_of_shape (attempt_shape same) _ _

theorem handedOnce_of_pattern (same : SamePattern answers other) (once : HandedOnce c answers) :
    HandedOnce c other := by
  have spoken_same (i : ℕ) := spoken_eq_of_shape (attempt_shape (c := c) same i)
  refine ⟨once.allowed, fun i j before made => ?_, fun ended i made r received => ?_⟩
  · rw [← spoken_same, ← spoken_same]
    exact once.once i j before (made_eq same ▸ made)
  · rw [← made_eq same] at made ended
    rw [← ending_eq_of_shape (attempt_shape same _)] at ended
    have like := attempt_shape (c := c) same i
    cases before : c.attempt answers i with
    | error _ => simp [before, received, Except.map] at like
    | ok t =>
      obtain ⟨lengths, -, -⟩ : t.body.length = r.body.length ∧ _ ∧ t.failure = r.failure := by
        simpa [before, received, Except.map, shape] using like
      have said := spoken_same i
      rw [before, received] at said
      rw [← said, ← lengths]
      exact once.complete ended i made t before

/-- The bytes handed out by the `i`-th attempt. -/
def bytesOf (c : StreamCall) (answers : ℕ → ℕ → Answer StreamedResponse) (i : ℕ) : List UInt8 :=
  (handed (c.attempt answers i)).flatten

theorem yielded_flatten (allowed : c.allowed) :
    (c.callUpstreamStream loads answers).yielded.flatten =
      (List.range (c.made answers)).flatMap (bytesOf c answers) := by
  rw [StreamCall.callUpstreamStream, if_pos allowed, tryProxies_yielded, List.range_eq_range']
  rw [List.flatMap_def, List.flatten_flatten, List.map_map]
  rfl

theorem flatMap_range_of_single {f : ℕ → List UInt8} {n i : ℕ} (here : i < n)
    (others : ∀ j < n, j ≠ i → f j = []) : (List.range n).flatMap f = f i := by
  induction n with
  | zero => exact absurd here (Nat.not_lt_zero i)
  | succ n ih =>
    rw [List.range_succ, List.flatMap_append, List.flatMap_singleton]
    rcases Nat.lt_succ_iff_lt_or_eq.mp here with before | rfl
    · rw [ih before fun j lt => others j (Nat.lt_succ_of_lt lt),
        others n (Nat.lt_succ_self n) (Nat.ne_of_gt before), List.append_nil]
    · rw [List.flatMap_eq_nil_iff.mpr fun j mem => ?_, List.nil_append]
      have lt := List.mem_range.mp mem
      exact others j (Nat.lt_succ_of_lt lt) (Nat.ne_of_lt lt)

theorem yielded_of_once (loads : Loads) (once : HandedOnce c answers) :
    (∀ i < c.made answers, bytesOf c answers i = []) ∧
        (c.callUpstreamStream loads answers).yielded.flatten = [] ∨
      ∃ i r, i < c.made answers ∧ c.attempt answers i = .ok r ∧ spoken (.ok r) ≠ 0 ∧
        (c.callUpstreamStream loads answers).yielded.flatten = r.chunks.flatten := by
  rw [yielded_flatten once.allowed]
  by_cases quiet : ∀ i < c.made answers, bytesOf c answers i = []
  · left
    exact ⟨quiet, List.flatMap_eq_nil_iff.mpr fun j mem => quiet j (List.mem_range.mp mem)⟩
  · right
    push Not at quiet
    obtain ⟨i, made, speaks⟩ := quiet
    have said : spoken (c.attempt answers i) ≠ 0 := fun none => speaks (List.length_eq_zero_iff.mp none)
    have others (j : ℕ) (lt : j < c.made answers) (ne : j ≠ i) : bytesOf c answers j = [] := by
      refine List.length_eq_zero_iff.mp ?_
      rcases Nat.lt_or_gt_of_ne ne with before | after
      · exact (once.once j i before made).resolve_right said
      · exact (once.once i j after lt).resolve_left said
    rw [flatMap_range_of_single made others]
    cases received : c.attempt answers i with
    | error _ => exact absurd (by rw [received]; rfl) said
    | ok r =>
      rw [received] at said
      exact ⟨i, r, made, received, said, by rw [bytesOf, received, handed]⟩

theorem faithful_of_once (once : HandedOnce c answers) : Faithful loads c answers := by
  have call : c.callUpstreamStream loads answers =
      tryProxies loads (c.attempt answers) (c.proxyAttempts - 1) 0 {} := if_pos once.allowed
  refine ⟨?_, fun ended => ?_, ?_⟩
  · obtain ⟨_, quiet⟩ | ⟨i, r, made, received, _, gets⟩ := yielded_of_once loads once
    · exact .inl quiet
    · exact .inr ⟨r, ⟨once.allowed, i, made, received⟩, gets ▸ r.start⟩
  · rw [call, tryProxies_raised, Nat.zero_add] at ended
    obtain ⟨silent, quiet⟩ | ⟨i, r, made, received, said, gets⟩ := yielded_of_once loads once
    · have last : c.made answers - 1 < c.made answers := Nat.sub_lt rounds_pos Nat.one_pos
      cases received : c.attempt answers (c.made answers - 1) with
      | error error =>
        have raised : some error = none := (congrArg ending received.symm).trans ended
        cases raised
      | ok r =>
        have nothing := silent _ last
        rw [bytesOf, received] at nothing
        have complete : r.failure = none := (congrArg ending received.symm).trans ended
        refine ⟨r, ⟨once.allowed, _, last, received⟩, ?_⟩
        rw [quiet, ← r.whole complete]
        exact nothing.symm
    · have all := (once.complete ended i made r received).resolve_left said
      exact ⟨r, ⟨once.allowed, i, made, received⟩, gets ▸ r.start.eq_of_length all⟩
  · rw [call]
    exact tryProxies_counted

def painted (answers : ℕ → ℕ → Answer StreamedResponse) (i : ℕ) :
    ℕ → ℕ → Answer StreamedResponse :=
  fun j n => (answers j n).map (paint (if j = i then 0 else 1))

theorem samePattern_painted (i : ℕ) : SamePattern answers (painted answers i) := by
  intro j n
  rw [painted]
  cases answers j n with
  | final r => exact congrArg Answer.final (shape_paint _ r).symm
  | _ => rfl

theorem attempt_painted (i j : ℕ) :
    c.attempt (painted answers i) j =
      (c.attempt answers j).map (paint (if j = i then 0 else 1)) := by
  rw [StreamCall.attempt, StreamCall.attempt, ← followRedirects_map]
  rfl

theorem bytesOf_painted (i j : ℕ) :
    bytesOf c (painted answers i) j =
      List.replicate (spoken (c.attempt answers j)) (if j = i then 0 else 1) := by
  rw [bytesOf, attempt_painted]
  cases c.attempt answers j with
  | error _ => rfl
  | ok r => exact flatten_replicate r.chunks _

theorem received_painted {i : ℕ} {r : StreamedResponse} (received : c.Received (painted answers i) r) :
    ∃ j t, j < c.made answers ∧ c.attempt answers j = .ok t ∧
      r.body = List.replicate t.body.length (if j = i then 0 else 1) := by
  obtain ⟨_, j, made, answered⟩ := received
  rw [← made_eq (samePattern_painted i)] at made
  rw [attempt_painted] at answered
  cases before : c.attempt answers j with
  | error _ =>
    rw [before] at answered
    cases answered
  | ok t =>
    rw [before] at answered
    cases answered
    exact ⟨j, t, made, before, rfl⟩

section Necessary

variable (faithful : ∀ other, SamePattern answers other → Faithful loads c other)

include faithful

theorem allowed_of_faithful : c.allowed := by
  by_contra refused
  have ended := (faithful answers fun _ _ => rfl).whole
  rw [StreamCall.callUpstreamStream, if_neg refused] at ended
  obtain ⟨r, ⟨allowed, _⟩, _⟩ := ended rfl
  exact refused allowed

theorem yielded_painted (i : ℕ) : (c.callUpstreamStream loads (painted answers i)).yielded.flatten =
    (List.range (c.made answers)).flatMap fun j =>
      List.replicate (spoken (c.attempt answers j)) (if j = i then 0 else 1) := by
  rw [yielded_flatten (allowed_of_faithful faithful), ← made_eq (samePattern_painted i)]
  exact congrArg (fun f => (List.range (c.made answers)).flatMap f)
    (funext fun j => bytesOf_painted i j)

theorem once_of_faithful {i j : ℕ} (before : i < j) (made : j < c.made answers) :
    spoken (c.attempt answers i) = 0 ∨ spoken (c.attempt answers j) = 0 := by
  by_contra both
  obtain ⟨first, second⟩ := not_or.mp both
  have mine : (0 : UInt8) ∈ (c.callUpstreamStream loads (painted answers i)).yielded.flatten := by
    rw [yielded_painted faithful]
    refine List.mem_flatMap.mpr ⟨i, List.mem_range.mpr (before.trans made), ?_⟩
    simp [first]
  have theirs : (1 : UInt8) ∈ (c.callUpstreamStream loads (painted answers i)).yielded.flatten := by
    rw [yielded_painted faithful]
    refine List.mem_flatMap.mpr ⟨j, List.mem_range.mpr made, ?_⟩
    simp [second, Nat.ne_of_gt before]
  obtain none | ⟨r, received, part⟩ := (faithful _ (samePattern_painted i)).single
  · rw [none] at mine
    cases mine
  · obtain ⟨k, t, _, _, body⟩ := received_painted received
    have zero := List.eq_of_mem_replicate (body ▸ part.subset mine)
    have one := List.eq_of_mem_replicate (body ▸ part.subset theirs)
    exact absurd (zero.trans one.symm) (by decide)

theorem complete_of_faithful (ended : ending (c.attempt answers (c.made answers - 1)) = none)
    {i : ℕ} (made : i < c.made answers) {r : StreamedResponse}
    (answered : c.attempt answers i = .ok r) :
    spoken (.ok r) = 0 ∨ spoken (.ok r) = r.body.length := by
  by_cases silent : spoken (.ok r) = 0
  · exact .inl silent
  right
  have allowed := allowed_of_faithful faithful
  have finished : (c.callUpstreamStream loads (painted answers i)).raised = none := by
    have count : c.made answers = c.made (painted answers i) := made_eq (samePattern_painted i)
    have last : (c.callUpstreamStream loads (painted answers i)).raised =
        ending (c.attempt (painted answers i) (0 + c.made (painted answers i) - 1)) := by
      rw [StreamCall.callUpstreamStream, if_pos allowed]
      exact tryProxies_raised
    rw [last, Nat.zero_add, ← count, ← ending_eq_of_shape (attempt_shape (samePattern_painted i) _)]
    exact ended
  obtain ⟨t, received, gets⟩ := (faithful _ (samePattern_painted i)).whole finished
  obtain ⟨k, u, madeK, answeredK, body⟩ := received_painted received
  have others (j : ℕ) (lt : j < c.made answers) (ne : j ≠ i) :
      List.replicate (spoken (c.attempt answers j)) (if j = i then 0 else 1 : UInt8) = [] := by
    have none : spoken (c.attempt answers j) = 0 := by
      rw [← answered] at silent
      rcases Nat.lt_or_gt_of_ne ne with before | after
      · exact (once_of_faithful faithful before made).resolve_right silent
      · exact (once_of_faithful faithful after lt).resolve_left silent
    rw [none, List.replicate_zero]
  rw [yielded_painted faithful, flatMap_range_of_single made others, answered, body,
    if_pos rfl] at gets
  -- the response whose body this is has the byte of attempt `i`, so it is that of attempt `i`
  have byte : (0 : UInt8) = if k = i then 0 else 1 := by
    refine List.eq_of_mem_replicate (n := u.body.length) (gets ▸ ?_)
    simp [silent]
  have same : k = i := by
    by_contra ne
    rw [if_neg ne] at byte
    exact absurd byte (by decide)
  rw [same, answered] at answeredK
  cases answeredK
  simpa using congrArg List.length gets

end Necessary

/-- For every pattern of errors: whatever the bytes, the client gets one response, and the
accumulator counts it, exactly when one attempt at most hands out anything and a stream that ends
well has all of it. -/
theorem stream_faithful_iff (loads : Loads) (c : StreamCall)
    (answers : ℕ → ℕ → Answer StreamedResponse) :
    (∀ other, SamePattern answers other → Faithful loads c other) ↔ HandedOnce c answers := by
  constructor
  · intro faithful
    exact ⟨allowed_of_faithful faithful, fun _ _ before made => once_of_faithful faithful before made,
      fun ended _ made _ answered => complete_of_faithful faithful ended made answered⟩
  · intro once other same
    exact faithful_of_once (handedOnce_of_pattern same once)

end Law

section Replay

def greetingText : String :=
  "\x7b\"choices\":[\x7b\"delta\":\x7b\"content\":\"Hi\"\x7d\x7d]\x7d"

def loadsGreeting : Loads := fun text =>
  if text = greetingText then
    some (.obj [("choices", .arr [.obj [("delta", .obj [("content", .str "Hi")])]])])
  else none

def greeting : Chunk := encode ("data: " ++ greetingText ++ "\n\n").toList

def doneEvent : Chunk := encode "data: [DONE]\n\n".toList

def broken : StreamedResponse where
  body := greeting ++ doneEvent
  chunks := [greeting]
  failure := some (.network "connection reset")
  start := by simp
  whole := by simp

def unbroken : StreamedResponse where
  body := greeting ++ doneEvent
  chunks := [greeting, doneEvent]
  failure := none
  start := by simp
  whole := by simp

def chat : StreamCall where
  allowedModels := []
  model := some "gpt-4o"
  url := "https://api.openai.com/v1/chat/completions"
  checks := { safe := fun _ => some true, urljoin := fun _ location => some location }
  proxyMaxRetries := 1

def breaksOnce : ℕ → ℕ → Answer StreamedResponse
  | 0, _ => .final broken
  | _, _ => .final unbroken

/-- The connection is lost after the first event, and the retry hands it out again: the client
and the accumulator have it twice. -/
theorem retry_replays : ¬ Faithful loadsGreeting chat breaksOnce ∧
    (chat.callUpstreamStream loadsGreeting breaksOnce).yielded = [greeting, greeting, doneEvent] ∧
    (chat.callUpstreamStream loadsGreeting breaksOnce).accumulator.assistantContent =
      ["Hi", "Hi"] := by
  have yields : (chat.callUpstreamStream loadsGreeting breaksOnce).yielded =
      [greeting, greeting, doneEvent] := rfl
  refine ⟨fun faithful => ?_, yields, by decide +kernel⟩
  obtain ⟨r, ⟨_, i, made, answered⟩, gets⟩ := faithful.whole rfl
  have body : r.body = greeting ++ doneEvent := by
    match i, made with
    | 0, _ | 1, _ =>
      cases answered
      rfl
  rw [yields, body] at gets
  have lengths := congrArg List.length gets
  have some_ : greeting.length ≠ 0 := by decide +kernel
  simp only [List.flatten_cons, List.flatten_nil, List.length_append, List.append_nil] at lengths
  omega

end Replay

end Deeting.Upstream
