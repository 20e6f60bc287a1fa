import Deeting.Json
import Mathlib.Data.List.Basic

/-! `StreamTokenAccumulator` and the two layers that feed it: `_call_upstream_stream` parses a
chunk before it yields it, and `stream_with_billing`, around it, parses the same chunk with
the same accumulator. The text of a chunk is that of its own bytes; `json.loads` is any
partial function. -/
namespace Deeting.Stream

abbrev Chunk := List UInt8

/-- `json.loads`, `none` where it raises a `JSONDecodeError`. -/
abbrev Loads := String → Option Json

/-- `bytes.decode("utf-8")`, `none` where it raises. -/
def decode (bytes : Chunk) : Option (List Char) :=
  (String.fromUTF8? ⟨bytes.toArray⟩).map String.toList

/-- `str.isspace` for one character. -/
def isSpace (c : Char) : Bool :=
  let n := c.toNat
  (9 ≤ n ∧ n ≤ 13) ∨ (28 ≤ n ∧ n ≤ 32) ∨ n ∈ [133, 160, 5760, 8232, 8233, 8239, 8287, 12288] ∨
    (8192 ≤ n ∧ n ≤ 8202)

def strip (line : List Char) : List Char :=
  ((line.dropWhile isSpace).reverse.dropWhile isSpace).reverse

inductive StreamError where
  | undecodable
  | malformed
  | canceled
  | upstream (message : String)
  deriving DecidableEq, Repr

structure StreamTokenAccumulator where
  inputTokens : Json := .int 0
  outputTokens : Json := .int 0
  chunksCount : ℕ := 0
  isCompleted : Bool := false
  error : Option StreamError := none
  finishReason : Option Json := none
  model : Option Json := none
  assistantContent : List String := []
  toolCallNames : List Json := []

namespace StreamTokenAccumulator

def assistantText (acc : StreamTokenAccumulator) : String := String.join acc.assistantContent

def toolArguments (_acc : StreamTokenAccumulator) (_index : ℤ) : String := ""

end StreamTokenAccumulator

/-- `a or b`. -/
def orElse (a b : Json) : Json := if a.truthy then a else b

/-- The delta of the first choice, where there is one; `none` where looking for it raises. -/
def choiceDelta (event : Json) : Option (Option Json) :=
  if (event.get "choices").truthy then
    match event.get "choices" with
    | .arr (.obj entries :: _) =>
        let choice := Json.obj entries
        match orElse (orElse (choice.get "delta") (choice.get "message")) (.obj []) with
        | .obj delta => some (some (.obj delta))
        | _ => none
    | _ => none
  else some none

/-- `delta["content"]`, where it is a text that is not empty. -/
def deltaContent (delta : Json) : Option String :=
  match delta.get "content" with
  | .str text => if text = "" then none else some text
  | _ => none

/-- The name of one entry of `tool_calls`. -/
def toolName (call : Json) : Json :=
  let name := (call.get "function").get "name"
  if name.truthy then name else call.get "name"

namespace StreamTokenAccumulator

def noteName (acc : StreamTokenAccumulator) (call : Json) : StreamTokenAccumulator :=
  let name := toolName call
  if name.truthy ∧ ¬ acc.toolCallNames.any name.same then
    { acc with toolCallNames := acc.toolCallNames ++ [name] }
  else acc

def noteDelta (acc : StreamTokenAccumulator) (delta : Json) : StreamTokenAccumulator :=
  let acc := { acc with assistantContent := acc.assistantContent ++ (deltaContent delta).toList }
  match delta.get "tool_calls" with
  | .arr calls => calls.foldl noteName acc
  | _ => acc

def noteModel (acc : StreamTokenAccumulator) (event : Json) : StreamTokenAccumulator :=
  if acc.model.any Json.truthy then acc
  else { acc with model := event.get? "model" <|> acc.model }

def noteReason (acc : StreamTokenAccumulator) (event : Json) : StreamTokenAccumulator :=
  match event.get "choices" with
  | .arr (.obj choice :: _) =>
      let reason := (Json.obj choice).get "finish_reason"
      if reason.truthy then { acc with finishReason := some reason } else acc
  | _ => acc

/-- The part of the parse that looks at `choices`; it may raise. -/
def noteChoices (acc : StreamTokenAccumulator) (event : Json) : StreamTokenAccumulator × Bool :=
  let acc := acc.noteReason event
  match choiceDelta event with
  | some (some delta) => (acc.noteDelta delta, false)
  | some none => (acc, false)
  | none => (acc, true)

/-- The part that looks at `usage`. -/
def noteUsage (acc : StreamTokenAccumulator) (event : Json) : StreamTokenAccumulator × Bool :=
  match event.get? "usage" with
  | none => (acc, false)
  | some (.obj entries) =>
      let usage := Json.obj entries
      ({ acc with
        inputTokens := (usage.get? "prompt_tokens").getD (.int 0)
        outputTokens := (usage.get? "completion_tokens").getD (.int 0) }, false)
  | some _ => (acc, true)

/-- One parsed `data: ` line, and whether it raises; only an object does not. -/
def parseEvent (acc : StreamTokenAccumulator) (event : Json) : StreamTokenAccumulator × Bool :=
  let acc := { acc with chunksCount := acc.chunksCount + 1 }
  if event.isObj then
    match (acc.noteModel event).noteChoices event with
    | (acc, true) => (acc, true)
    | (acc, false) => acc.noteUsage event
  else (acc, true)

end StreamTokenAccumulator

def IsDone (line : List Char) : Prop := strip line = "data: [DONE]".toList
  deriving Decidable

/-- The value after `data: ` on a line. -/
def lineEvent (loads : Loads) (line : List Char) : Option Json :=
  if ¬ IsDone line ∧ (strip line).take 6 = "data: ".toList then
    loads (String.ofList ((strip line).drop 6))
  else none

namespace StreamTokenAccumulator

def parseLines (loads : Loads) : StreamTokenAccumulator → List (List Char) → StreamTokenAccumulator
  | acc, [] => acc
  | acc, line :: rest =>
      if IsDone line then
        parseLines loads { acc with isCompleted := true } rest
      else
        match lineEvent loads line with
        | none => parseLines loads acc rest
        | some event =>
            match acc.parseEvent event with
            | (acc, true) => { acc with error := some .malformed }
            | (acc, false) => parseLines loads acc rest

def parseSseChunk (loads : Loads) (acc : StreamTokenAccumulator) (chunk : Chunk) :
    StreamTokenAccumulator :=
  match decode chunk with
  | none => { acc with error := some .undecodable }
  | some text => acc.parseLines loads (text.splitOn '\n')

end StreamTokenAccumulator

structure Arrival where
  chunk : Chunk
  cancel : Bool

/-- `stream_with_billing` around `_call_upstream_stream`: the inner one parses a chunk before
it hands it on, the outer one when it has looked for a cancellation. -/
def streamWithBilling (loads : Loads) :
    StreamTokenAccumulator → List Arrival → StreamTokenAccumulator
  | acc, [] => acc
  | acc, arrival :: rest =>
      let acc := acc.parseSseChunk loads arrival.chunk
      if arrival.cancel then { acc with error := some .canceled }
      else streamWithBilling loads (acc.parseSseChunk loads arrival.chunk) rest

/-- A run of a stream: its chunks, and the message of the error it ends with, if it does. -/
structure StreamRun where
  arrivals : List Arrival
  raised : Option String

/-- The accumulator that the callback at the end of the stream gets. -/
def StreamRun.accumulated (loads : Loads) (r : StreamRun) : StreamTokenAccumulator :=
  let acc := streamWithBilling loads {} r.arrivals
  match r.raised with
  | none => acc
  | some message => { acc with error := some (.upstream message) }

end Deeting.Stream
