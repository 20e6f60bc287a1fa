import Deeting.Cutting
import Deeting.Stream.Stripping

/-! `StreamUsageAccumulator` of the billing pipeline: what it holds of a stream, however the
network cuts it. -/
namespace Deeting.Stream

open Cutting

/-- `_chunks` counts the parsed lines. -/
structure StreamUsageAccumulator where
  inputTokens : Json := .int 0
  outputTokens : Json := .int 0
  isCompleted : Bool := false
  chunks : ℕ := 0

namespace StreamUsageAccumulator

def feedLine (loads : Loads) (acc : StreamUsageAccumulator) (line : List Char) :
    StreamUsageAccumulator :=
  if IsDone line then { acc with isCompleted := true }
  else
    match lineEvent loads line with
    | none => acc
    | some data =>
      let acc := { acc with chunks := acc.chunks + 1 }
      match data.get? "usage" with
      | some (.obj entries) =>
        { acc with
          inputTokens := ((Json.obj entries).get? "prompt_tokens").getD (.int 0)
          outputTokens := ((Json.obj entries).get? "completion_tokens").getD (.int 0) }
      | _ => acc

/-- `feed`; a chunk that is no UTF-8 is passed over. -/
def feed (loads : Loads) (acc : StreamUsageAccumulator) (chunk : Chunk) : StreamUsageAccumulator :=
  match decode chunk with
  | none => acc
  | some text => (text.splitOn '\n').foldl (feedLine loads) acc

def billed (acc : StreamUsageAccumulator) : Json × Json × Bool :=
  (acc.inputTokens, acc.outputTokens, acc.isCompleted)

end StreamUsageAccumulator

open StreamUsageAccumulator

section Text

/-- `str.encode("utf-8")`. -/
def encode (text : List Char) : Chunk := (String.ofList text).toByteArray.data.toList

theorem encode_append (text more : List Char) :
    encode (text ++ more) = encode text ++ encode more := by
  simp [encode]

theorem decode_encode (text : List Char) : decode (encode text) = some text := by
  have read : String.fromUTF8? ⟨(encode text).toArray⟩ = some (String.ofList text) := by
    rw [encode, Array.toArray_toList, String.fromUTF8?, dif_pos (String.ofList text).isValidUTF8]
    rfl
  rw [decode, read, Option.map_some, String.toList_ofList]

theorem encode_of_decode {bytes : Chunk} {text : List Char} (read : decode bytes = some text) :
    encode text = bytes := by
  obtain ⟨s, decoded, rfl⟩ := Option.map_eq_some_iff.mp read
  rw [String.fromUTF8?] at decoded
  split at decoded
  · cases decoded
    rw [encode, String.ofList_toList]
    rfl
  · cases decoded

theorem length_le_encode (text : List Char) : text.length ≤ (encode text).length := by
  induction text with
  | nil => simp
  | cons c rest ih =>
    have some_byte : 0 < (encode [c]).length := by
      refine List.length_pos_iff.mpr fun none => ?_
      have read := decode_encode [c]
      rw [none] at read
      exact absurd (read.symm.trans (decode_encode [])) (by simp)
    rw [← List.singleton_append, encode_append, List.length_append, List.length_append,
      List.length_singleton]
    omega

end Text

section Feed

variable {loads : Loads} {acc other : StreamUsageAccumulator}

theorem feedLine_of_short {line : List Char} (short : line.length ≤ 1) :
    feedLine loads acc line = acc := by
  have stripped := (length_strip_le line).trans short
  have not_done : ¬ IsDone line := fun same => by
    rw [IsDone.eq_def] at same
    rw [same] at stripped
    exact absurd stripped (by decide)
  have no_prefix : (strip line).take 6 ≠ "data: ".toList := fun same => by
    have length := congrArg List.length same
    rw [List.length_take] at length
    have six : "data: ".toList.length = 6 := by decide
    omega
  rw [feedLine, if_neg not_done, lineEvent, if_neg fun both => no_prefix both.2]

theorem feedLine_observed (same : acc.billed = other.billed) (line : List Char) :
    (feedLine loads acc line).billed = (feedLine loads other line).billed := by
  simp only [billed, Prod.mk.injEq] at same
  obtain ⟨input, output, completed⟩ := same
  rw [feedLine, feedLine]
  split
  · simp [billed, input, output]
  · split
    · simp [billed, input, output, completed]
    · simp only
      split <;> simp [billed, input, output, completed]

theorem foldl_feedLine_observed (lines : List (List Char)) (same : acc.billed = other.billed) :
    (lines.foldl (feedLine loads) acc).billed = (lines.foldl (feedLine loads) other).billed := by
  induction lines generalizing acc other with
  | nil => exact same
  | cons line rest ih => exact ih (feedLine_observed same line)

theorem feed_observed : Observed (feed loads) billed := by
  intro acc other chunk same
  rw [feed, feed]
  split
  · exact same
  · exact foldl_feedLine_observed _ same

theorem foldl_feedLine_of_short {text : List Char} (short : text.length ≤ 1) :
    (text.splitOn '\n').foldl (feedLine loads) acc = acc := by
  have empty : feedLine loads acc [] = acc := feedLine_of_short (Nat.zero_le 1)
  rcases text with _ | ⟨c, _ | ⟨d, rest⟩⟩
  · exact empty
  · rw [List.splitOn_cons_eq_if_modifyHead, List.splitOn_nil]
    split
    · rw [List.foldl_cons, empty]
      exact empty
    · exact feedLine_of_short le_rfl
  · simp at short

theorem feed_single (acc : StreamUsageAccumulator) (byte : UInt8) : feed loads acc [byte] = acc := by
  rw [feed]
  split
  · rfl
  · rename_i text read
    have length := length_le_encode text
    rw [encode_of_decode read] at length
    exact foldl_feedLine_of_short length

theorem feed_append_line (text more : List Char) :
    feed loads acc (encode (text ++ ['\n']) ++ encode more) =
      feed loads (feed loads acc (encode (text ++ ['\n']))) (encode more) := by
  have last (acc) : feedLine loads acc [] = acc := feedLine_of_short (Nat.zero_le 1)
  rw [← encode_append, feed, feed, feed, decode_encode, decode_encode, decode_encode]
  simp only [List.append_assoc, List.singleton_append, List.splitOn_append_cons_self,
    List.splitOn_nil, List.foldl_append, List.foldl_cons, List.foldl_nil, last]

def lineChunks (texts : List (List Char)) (rest : List Char) : List Chunk :=
  texts.map (fun text => encode (text ++ ['\n'])) ++ [encode rest]

theorem flatten_lineChunks (texts : List (List Char)) (rest : List Char) :
    (lineChunks texts rest).flatten =
      encode ((texts.map fun text => text ++ ['\n']).flatten ++ rest) := by
  induction texts with
  | nil => simp [lineChunks]
  | cons text texts ih =>
    have tail : (lineChunks (text :: texts) rest).flatten =
        encode (text ++ ['\n']) ++ (lineChunks texts rest).flatten := rfl
    rw [tail, ih, ← encode_append, List.map_cons, List.flatten_cons, List.append_assoc (text ++ _)]

theorem feed_lineChunks (texts : List (List Char)) (rest : List Char) :
    (lineChunks texts rest).foldl (feed loads) acc =
      feed loads acc (lineChunks texts rest).flatten := by
  induction texts generalizing acc with
  | nil => simp [lineChunks]
  | cons text texts ih =>
    have tail : (lineChunks (text :: texts) rest).flatten =
        encode (text ++ ['\n']) ++ (lineChunks texts rest).flatten := rfl
    have fed : (lineChunks (text :: texts) rest).foldl (feed loads) acc =
        (lineChunks texts rest).foldl (feed loads) (feed loads acc (encode (text ++ ['\n']))) := rfl
    rw [fed, ih, tail, flatten_lineChunks, feed_append_line]

end Feed

section Lines

variable {loads : Loads} {line text : List Char}

def Quiet (loads : Loads) (line : List Char) : Prop :=
  ¬ IsDone line ∧ ∀ data, lineEvent loads line = some data →
    ∀ entries, data.get? "usage" = some (.obj entries) →
    ((Json.obj entries).get? "prompt_tokens").getD (.int 0) = .int 0 ∧
      ((Json.obj entries).get? "completion_tokens").getD (.int 0) = .int 0

theorem quiet_iff : Quiet loads line ↔ (feedLine loads {} line).billed = billed {} := by
  rw [Quiet, feedLine]
  split
  · simp [billed, *]
  rename_i undone
  cases event : lineEvent loads line with
  | none => simp [undone]
  | some data =>
    simp only
    split
    · rename_i entries report
      simp [billed, undone, report]
    · rename_i other
      simpa [billed, undone] using fun entries report => (other entries report).elim

theorem silent_encode (single : '\n' ∉ line) :
    Silent (feed loads) billed {} (encode line) ↔ Quiet loads line := by
  rw [quiet_iff, Silent, feed, decode_encode]
  simp only [List.splitOn_eq_singleton single, List.foldl_cons, List.foldl_nil]

theorem foldl_feedLine_quiet {lines : List (List Char)} {acc : StreamUsageAccumulator}
    (quiet : ∀ line ∈ lines, Quiet loads line) (idle : acc.billed = billed {}) :
    (lines.foldl (feedLine loads) acc).billed = billed {} := by
  induction lines generalizing acc with
  | nil => exact idle
  | cons line rest ih =>
    obtain ⟨head, tail⟩ := List.forall_mem_cons.mp quiet
    exact ih tail ((feedLine_observed idle line).trans (quiet_iff.mp head))

theorem infix_of_mem_splitOn (text : List Char) (mem : line ∈ text.splitOn '\n') :
    '\n' ∉ line ∧ line <:+: text := by
  induction size : text.length using Nat.strong_induction_on generalizing text with
  | _ n ih =>
    by_cases several : '\n' ∈ text
    · obtain ⟨first, rest, rfl, single⟩ := List.eq_append_cons_of_mem several
      rw [List.splitOn_append_cons_self_of_not_mem single, List.mem_cons] at mem
      rcases mem with rfl | later
      · exact ⟨single, (List.prefix_append _ _).isInfix⟩
      · obtain ⟨one, part⟩ := ih rest.length (by simp at size; omega) rest later rfl
        exact ⟨one, part.trans ((List.suffix_cons _ _).trans (List.suffix_append _ _)).isInfix⟩
    · rw [List.splitOn_eq_singleton several, List.mem_singleton] at mem
      subst mem
      exact ⟨several, List.infix_refl _⟩

end Lines

/-- A stream is billed alike however it is cut exactly when no part of a line of it, read as a
line, completes the stream or reports other counts than 0. -/
theorem billed_insensitive_iff (loads : Loads) (stream : Chunk) :
    Insensitive (feed loads) billed {} stream ↔
      ∀ line, '\n' ∉ line → encode line <:+: stream → Quiet loads line := by
  rw [insensitive_iff (fun acc byte => congrArg billed (feed_single acc byte)) feed_observed]
  constructor
  · intro silent line single part
    exact (silent_encode single).mp (silent _ part)
  · intro quiet piece part
    rw [Silent, feed]
    split
    · rfl
    · rename_i text read
      refine foldl_feedLine_quiet (fun line mem => ?_) rfl
      obtain ⟨single, before, after, whole⟩ := infix_of_mem_splitOn _ mem
      refine quiet line single (List.IsInfix.trans ⟨encode before, encode after, ?_⟩ part)
      rw [← encode_append, ← encode_append, whole, encode_of_decode read]

def usageText : String :=
  "\x7b\"usage\":\x7b\"prompt_tokens\":5,\"completion_tokens\":7\x7d\x7d"

def loadsUsage : Loads := fun text =>
  if text = usageText then
    some (.obj [("usage", .obj [("prompt_tokens", .int 5), ("completion_tokens", .int 7)])])
  else none

def usageStream : Chunk := encode ("data: " ++ usageText ++ "\n\n").toList

/-- Cut into bytes, the report is lost. -/
theorem usage_lost_in_cuts : ¬ Insensitive (feed loadsUsage) billed {} usageStream := by
  intro insensitive
  have cut := insensitive (singly usageStream) (flatten_singly _)
  rw [observe_foldl_singly fun acc byte => congrArg billed (feed_single acc byte)] at cut
  have counts : (feed loadsUsage {} usageStream).inputTokens.number? = some 0 :=
    (congrArg (fun shown => shown.1.number?) cut).symm
  rw [feed, usageStream, decode_encode] at counts
  exact absurd counts (by decide +kernel)

end Deeting.Stream
