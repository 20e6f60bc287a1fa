import Deeting.Agent.ToolLoop

/-! Answers of three upstream protocols decoded into `CanonicalResponse`, rendered for two
client protocols, and read again as a client would read them. A decoder that raises gives
`none`: where a value has no `get`, cannot be gone through or counted, or is not of its
field's type. -/
namespace Deeting.Protocols

open Deeting.Agent (Builtins iterate stripText)
open Deeting.Stream (orElse)

section Canonical

inductive Arguments where
  | text (value : String)
  | object (entries : List (String × Json))

structure CanonicalToolCall where
  id : Option String := none
  type : String := "function"
  name : Option String := none
  arguments : Option Arguments := none
  status : Option String := none

structure CanonicalUsage where
  inputTokens : ℤ := 0
  outputTokens : ℤ := 0
  totalTokens : ℤ := 0
  deriving DecidableEq

structure CanonicalContentBlock where
  type : String := "text"
  text : Option String := none

structure CanonicalResponse where
  model : String
  outputText : Option String := none
  contentBlocks : List CanonicalContentBlock := []
  toolCalls : List CanonicalToolCall := []
  reasoning : Option String := none
  finishReason : Option String := none
  usage : CanonicalUsage := {}
  rawResponse : List (String × Json) := []

def Arguments.json : Arguments → Json
  | .text value => .str value
  | .object entries => .obj entries

def optional : Option String → Json
  | none => .null
  | some text => .str text

/-- A field of type `str | None`. -/
def optionalStr : Json → Option (Option String)
  | .null => some none
  | .str text => some (some text)
  | _ => none

/-- A field of type `str`. -/
def requiredStr : Json → Option String
  | .str text => some text
  | _ => none

/-- A field of type `str | dict[str, Any] | None`. -/
def optionalArguments : Json → Option (Option Arguments)
  | .null => some none
  | .str text => some (some (.text text))
  | .obj entries => some (some (.object entries))
  | _ => none

end Canonical

section Decoders

variable (b : Builtins)

/-- What `get` can be called on. -/
def dict : Json → Option Json
  | .obj entries => some (.obj entries)
  | _ => none

/-- `values[0]`; of what is no list it raises, or gives what has no `get`. -/
def firstItem : Json → Option Json
  | .arr (item :: _) => some item
  | _ => none

/-- `value in {…}` of texts, which hashes the value. -/
def among (texts : List String) : Json → Option Bool
  | .arr _ | .obj _ => none
  | .str text => some (texts.contains text)
  | _ => some false

def count (usage : Json) (key : String) : Option ℤ := b.toInt (orElse (usage.get key) (.int 0))

def usageFromOpenai (payload : Json) : Option CanonicalUsage := do
  let usage ← dict (orElse (payload.get "usage") (.obj []))
  let either (key other : String) : Option ℤ :=
    b.toInt (orElse (orElse (usage.get key) (usage.get other)) (.int 0))
  return ⟨← either "prompt_tokens" "input_tokens", ← either "completion_tokens" "output_tokens",
    ← count b usage "total_tokens"⟩

def chatToolCall (item : Json) : Option CanonicalToolCall := do
  let id ← optionalStr (item.get "id")
  let type ← requiredStr (orElse (item.get "type") (.str "function"))
  let function ← dict (orElse (item.get "function") (.obj []))
  let name ← optionalStr (function.get "name")
  let arguments ← optionalArguments (function.get "arguments")
  return { id, type, name, arguments }

def decodeModel (payload : Json) : String := b.str (orElse (payload.get "model") (.str ""))

def textBlocks (text : Option String) : List CanonicalContentBlock :=
  match text with
  | none => []
  | some text => if text = "" then [] else [{ text := some text }]

def decodeOpenaiChatResponse (entries : List (String × Json)) : Option CanonicalResponse := do
  let payload := Json.obj entries
  let choice ← dict (← firstItem (orElse (payload.get "choices") (.arr [.obj []])))
  let message ← dict (orElse (choice.get "message") (.obj []))
  let text := (message.get "content").string?
  let items ← iterate (orElse (message.get "tool_calls") (.arr []))
  let toolCalls ← (items.filter Json.isObj).mapM chatToolCall
  let reasoning ← optionalStr (message.get "reasoning_content")
  let finishReason ← optionalStr (choice.get "finish_reason")
  let usage ← usageFromOpenai b payload
  return { model := decodeModel b payload, outputText := text, contentBlocks := textBlocks text,
           toolCalls, reasoning, finishReason, usage, rawResponse := entries }

def messageTexts (item : Json) : Option (List String) := do
  let contents ← iterate (orElse (item.get "content") (.arr []))
  let texts ← (contents.filter Json.isObj).mapM fun content => do
    let isText ← among ["output_text", "text"] (content.get "type")
    return if isText then (content.get "text").string?.toList else []
  return texts.flatten

def responsesToolCall (item : Json) : Option CanonicalToolCall := do
  let id ← optionalStr (item.get "id")
  let name ← optionalStr (item.get "name")
  let arguments ← optionalArguments (item.get "arguments")
  let status ← optionalStr (item.get "status")
  return { id, name, arguments, status }

/-- What one item of `output` adds: texts, or a tool call. -/
def outputItem (item : Json) : Option (List String × List CanonicalToolCall) :=
  match item.get "type" with
  | .str "message" => (messageTexts item).map fun texts => (texts, [])
  | type => do
    let isCall ← among ["function_call", "tool_call"] type
    if isCall then return ([], [← responsesToolCall item]) else return ([], [])

/-- `output_text = (output_text or "") + text`, text by text. -/
def appendTexts (outputText : Option String) (texts : List String) : Option String :=
  texts.foldl (fun outputText text => some (outputText.getD "" ++ text)) outputText

def textBlock (text : String) : CanonicalContentBlock := { text := some text }

def decodeOpenaiResponsesResponse (entries : List (String × Json)) :
    Option CanonicalResponse := do
  let payload := Json.obj entries
  let items ← iterate (orElse (payload.get "output") (.arr []))
  let parts ← (items.filter Json.isObj).mapM outputItem
  let texts := (parts.map Prod.fst).flatten
  let usage ← dict (orElse (payload.get "usage") (.obj []))
  let finishReason ← optionalStr (orElse (payload.get "status") (payload.get "finish_reason"))
  let inputTokens ← count b usage "input_tokens"
  let outputTokens ← count b usage "output_tokens"
  let totalTokens ← count b usage "total_tokens"
  return { model := decodeModel b payload
           outputText := appendTexts (payload.get "output_text").string? texts
           contentBlocks := texts.map textBlock
           toolCalls := (parts.map Prod.snd).flatten
           finishReason, usage := ⟨inputTokens, outputTokens, totalTokens⟩, rawResponse := entries }

structure BlockParts where
  texts : List String := []
  thoughts : List String := []
  toolCalls : List CanonicalToolCall := []

def contentBlock (block : Json) : Option BlockParts :=
  match block.get "type" with
  | .str "text" => some { texts := (block.get "text").string?.toList }
  | .str "thinking" => some { thoughts := (block.get "thinking").string?.toList }
  | .str "tool_use" => do
    let id ← optionalStr (block.get "id")
    let name ← optionalStr (block.get "name")
    let arguments ← optionalArguments (block.get "input")
    return { toolCalls := [{ id, name, arguments }] }
  | _ => some {}

/-- `"".join(parts) or None`. -/
def joined (parts : List String) : Option String :=
  let text := String.join parts
  if text = "" then none else some text

/-- `int(a + b)` of two values that `int` takes: quantities are added, texts put together. -/
def sum : Json → Json → Option ℤ
  | .str a, .str c => b.int (a ++ c)
  | a, c => do b.toInt (.float ((← a.number?) + (← c.number?)))

def decodeAnthropicMessagesResponse (entries : List (String × Json)) :
    Option CanonicalResponse := do
  let payload := Json.obj entries
  let blocks ← iterate (orElse (payload.get "content") (.arr []))
  let parts ← (blocks.filter Json.isObj).mapM contentBlock
  let texts := (parts.map BlockParts.texts).flatten
  let usage ← dict (orElse (payload.get "usage") (.obj []))
  let finishReason ← optionalStr (payload.get "stop_reason")
  let inputTokens ← count b usage "input_tokens"
  let outputTokens ← count b usage "output_tokens"
  let totalTokens ← sum b (orElse (usage.get "input_tokens") (.int 0))
    (orElse (usage.get "output_tokens") (.int 0))
  return { model := decodeModel b payload
           outputText := joined texts
           contentBlocks := texts.map textBlock
           toolCalls := (parts.map BlockParts.toolCalls).flatten
           reasoning := joined (parts.map BlockParts.thoughts).flatten
           finishReason, usage := ⟨inputTokens, outputTokens, totalTokens⟩, rawResponse := entries }

def decodeResponse (decoderName : String) (payload : List (String × Json))
    (fallbackModel : Option String) : Option CanonicalResponse := do
  let name := b.lower (stripText decoderName)
  let response ←
    if name = "openai_responses" then decodeOpenaiResponsesResponse b payload
    else if name = "anthropic_messages" then decodeAnthropicMessagesResponse b payload
    else decodeOpenaiChatResponse b payload
  match fallbackModel with
  | some model =>
    if model ≠ "" ∧ response.model = "" then return { response with model } else return response
  | none => return response

end Decoders

section Renderers

variable (r : CanonicalResponse)

def renderToolCall (tool : CanonicalToolCall) : Json :=
  .obj [("id", optional tool.id), ("type", .str tool.type),
    ("function", .obj [("name", optional tool.name),
      ("arguments", (tool.arguments.map Arguments.json).getD .null)])]

def chatMessage : List (String × Json) :=
  [("role", .str "assistant"), ("content", optional r.outputText)] ++
    (if r.reasoning.getD "" = "" then [] else [("reasoning_content", optional r.reasoning)]) ++
    if r.toolCalls.isEmpty then [] else [("tool_calls", .arr (r.toolCalls.map renderToolCall))]

def renderChatCompletionResponse : List (String × Json) :=
  [("id", (Json.obj r.rawResponse).get "id"),
    ("object", .str "chat.completion"),
    ("model", .str r.model),
    ("choices", .arr [.obj [("index", .int 0), ("message", .obj (chatMessage r)),
      ("finish_reason", optional r.finishReason)]]),
    ("usage", .obj [("prompt_tokens", .int r.usage.inputTokens),
      ("completion_tokens", .int r.usage.outputTokens),
      ("total_tokens", .int r.usage.totalTokens)])]

def renderResponsesApiResponse : List (String × Json) :=
  [("object", .str "response"),
    ("model", .str r.model),
    ("status", orElse (optional r.finishReason) (.str "completed")),
    ("output_text", optional r.outputText),
    ("output", .arr [.obj [("type", .str "message"), ("content", .arr [.obj
      [("type", .str "output_text"), ("text", .str (r.outputText.getD ""))]])]]),
    ("usage", .obj [("input_tokens", .int r.usage.inputTokens),
      ("output_tokens", .int r.usage.outputTokens),
      ("total_tokens", .int r.usage.totalTokens)])]

end Renderers

section ReadBack

variable {b : Builtins} {r : CanonicalResponse} {key other : String} {value : Json}
  {entries : List (String × Json)}

theorem get_cons_self : (Json.obj ((key, value) :: entries)).get key = value := by
  simp [Json.get, Json.get?]

theorem get_cons_of_ne (ne : other ≠ key) :
    (Json.obj ((other, value) :: entries)).get key = (Json.obj entries).get key := by
  simp [Json.get, Json.get?, ne]

theorem get_nil : (Json.obj []).get key = .null := rfl

theorem toInt_orElse_int (n : ℤ) : b.toInt (orElse (.int n) (.int 0)) = some n := by
  by_cases zero : n = 0
  · simp [orElse, Json.truthy, Builtins.toInt, zero]
  · simp [orElse, Json.truthy, Builtins.toInt, zero]

theorem orElse_obj_cons (entry : String × Json) (rest : List (String × Json)) (j : Json) :
    orElse (.obj (entry :: rest)) j = .obj (entry :: rest) := rfl

theorem orElse_arr_cons (item : Json) (rest : List Json) (j : Json) :
    orElse (.arr (item :: rest)) j = .arr (item :: rest) := rfl

theorem optionalStr_optional (text : Option String) : optionalStr (optional text) = some text := by
  cases text <;> rfl

theorem string?_optional (text : Option String) : (optional text).string? = text := by
  cases text <;> rfl

theorem optionalArguments_json (arguments : Option Arguments) :
    optionalArguments ((arguments.map Arguments.json).getD .null) = some arguments := by
  cases arguments with
  | none => rfl
  | some arguments => cases arguments <;> rfl

def CanonicalToolCall.readBack (tool : CanonicalToolCall) : CanonicalToolCall :=
  { tool with type := if tool.type = "" then "function" else tool.type, status := none }

theorem chatToolCall_render (tool : CanonicalToolCall) :
    chatToolCall (renderToolCall tool) = some tool.readBack := by
  have type : requiredStr (orElse (.str tool.type) (.str "function")) =
      some (if tool.type = "" then "function" else tool.type) := by
    by_cases empty : tool.type = ""
    · simp [orElse, Json.truthy, requiredStr, empty]
    · simp [orElse, Json.truthy, requiredStr, empty]
  rw [chatToolCall, renderToolCall]
  simp only [get_cons_self, get_cons_of_ne, ne_eq, String.reduceEq, not_false_eq_true,
    optionalStr_optional, orElse_obj_cons, dict, type, optionalArguments_json,
    Option.bind_eq_bind, Option.bind_some]
  rfl

theorem filter_render (tools : List CanonicalToolCall) :
    (tools.map renderToolCall).filter Json.isObj = tools.map renderToolCall := by
  rw [List.filter_eq_self]
  intro item mem
  obtain ⟨tool, -, rfl⟩ := List.mem_map.mp mem
  rfl

theorem mapM_render (tools : List CanonicalToolCall) :
    (tools.map renderToolCall).mapM chatToolCall = some (tools.map CanonicalToolCall.readBack) := by
  induction tools with
  | nil => rfl
  | cons tool rest ih =>
    rw [List.map_cons, List.mapM_cons, chatToolCall_render, ih]
    rfl

theorem chatMessage_reasoning : (Json.obj (chatMessage r)).get "reasoning_content" =
    optional (r.reasoning.filter fun text => text ≠ "") := by
  have tools : (Json.obj (if r.toolCalls.isEmpty then [] else
      [("tool_calls", .arr (r.toolCalls.map renderToolCall))])).get "reasoning_content" =
        .null := by
    split <;> rfl
  rw [chatMessage]
  cases thought : r.reasoning with
  | none => simpa [get_cons_of_ne, optional] using tools
  | some text =>
    by_cases empty : text = ""
    · simpa [get_cons_of_ne, optional, empty, Option.filter] using tools
    · simp [get_cons_self, get_cons_of_ne, optional, empty, Option.filter]

theorem chatMessage_toolCalls : orElse ((Json.obj (chatMessage r)).get "tool_calls") (.arr []) =
    .arr (r.toolCalls.map renderToolCall) := by
  have field : (Json.obj (chatMessage r)).get "tool_calls" =
      (Json.obj (if r.toolCalls.isEmpty then [] else
        [("tool_calls", .arr (r.toolCalls.map renderToolCall))])).get "tool_calls" := by
    rw [chatMessage]
    split <;> simp [get_cons_of_ne]
  rw [field]
  cases r.toolCalls with
  | nil => rfl
  | cons tool rest => simp [get_cons_self, orElse_arr_cons]

theorem usageFromOpenai_render {payload : Json} (usage : payload.get "usage" =
      .obj [("prompt_tokens", .int r.usage.inputTokens),
        ("completion_tokens", .int r.usage.outputTokens),
        ("total_tokens", .int r.usage.totalTokens)]) :
    usageFromOpenai b payload = some r.usage := by
  have either : ∀ n : ℤ, b.toInt (orElse (orElse (.int n) .null) (.int 0)) = some n := by
    intro n
    by_cases zero : n = 0
    · simp [orElse, Json.truthy, Builtins.toInt, zero]
    · simp [orElse, Json.truthy, Builtins.toInt, zero]
  rw [usageFromOpenai, usage]
  simp [orElse_obj_cons, dict, count, get_cons_self, get_cons_of_ne, get_nil, either,
    toInt_orElse_int]

theorem decode_renderChat : decodeOpenaiChatResponse b (renderChatCompletionResponse r) = some
    { model := b.str (orElse (.str r.model) (.str ""))
      outputText := r.outputText
      contentBlocks := textBlocks r.outputText
      toolCalls := r.toolCalls.map CanonicalToolCall.readBack
      reasoning := r.reasoning.filter fun text => text ≠ ""
      finishReason := r.finishReason
      usage := r.usage
      rawResponse := renderChatCompletionResponse r } := by
  have message : orElse (.obj (chatMessage r)) (.obj []) = .obj (chatMessage r) := rfl
  have content : (Json.obj (chatMessage r)).get "content" = optional r.outputText := by
    simp [chatMessage, get_cons_self, get_cons_of_ne]
  have usage : usageFromOpenai b (.obj (renderChatCompletionResponse r)) = some r.usage := by
    refine usageFromOpenai_render ?_
    simp [renderChatCompletionResponse, get_cons_self, get_cons_of_ne]
  have model : decodeModel b (.obj (renderChatCompletionResponse r)) =
      b.str (orElse (.str r.model) (.str "")) := by
    simp [decodeModel, renderChatCompletionResponse, get_cons_self, get_cons_of_ne]
  have choices : orElse ((Json.obj (renderChatCompletionResponse r)).get "choices")
      (.arr [.obj []]) = .arr [.obj [("index", .int 0), ("message", .obj (chatMessage r)),
        ("finish_reason", optional r.finishReason)]] := by
    simp [renderChatCompletionResponse, get_cons_self, get_cons_of_ne, orElse_arr_cons]
  rw [decodeOpenaiChatResponse]
  simp only [choices, firstItem, dict, usage, model, message, content, get_cons_self,
    get_cons_of_ne, ne_eq, String.reduceEq, not_false_eq_true, chatMessage_toolCalls, iterate,
    filter_render, mapM_render, chatMessage_reasoning, optionalStr_optional, string?_optional,
    Option.bind_eq_bind, Option.bind_some, Option.pure_def]

theorem filter_singleton_obj : [Json.obj entries].filter Json.isObj = [.obj entries] := rfl

theorem outputItem_render (text : String) : outputItem (.obj [("type", .str "message"),
    ("content", .arr [.obj [("type", .str "output_text"), ("text", .str text)]])]) =
      some ([text], []) := by
  simp [outputItem, messageTexts, get_cons_self, get_cons_of_ne, orElse_arr_cons, iterate,
    filter_singleton_obj, among, Json.string?]

theorem decode_renderResponses :
    decodeOpenaiResponsesResponse b (renderResponsesApiResponse r) = some
      { model := b.str (orElse (.str r.model) (.str ""))
        outputText := some (r.outputText.getD "" ++ r.outputText.getD "")
        contentBlocks := [textBlock (r.outputText.getD "")]
        toolCalls := []
        finishReason := some (if r.finishReason.getD "" = "" then "completed"
          else r.finishReason.getD "")
        usage := r.usage
        rawResponse := renderResponsesApiResponse r } := by
  have output : orElse ((Json.obj (renderResponsesApiResponse r)).get "output") (.arr []) =
      .arr [.obj [("type", .str "message"), ("content", .arr [.obj
        [("type", .str "output_text"), ("text", .str (r.outputText.getD ""))]])]] := by
    simp [renderResponsesApiResponse, get_cons_self, get_cons_of_ne, orElse_arr_cons]
  have finishReason : optionalStr (orElse ((Json.obj (renderResponsesApiResponse r)).get "status")
      ((Json.obj (renderResponsesApiResponse r)).get "finish_reason")) =
        some (some (if r.finishReason.getD "" = "" then "completed"
          else r.finishReason.getD "")) := by
    simp only [renderResponsesApiResponse, get_cons_self, get_cons_of_ne, ne_eq,
      String.reduceEq, not_false_eq_true]
    cases r.finishReason with
    | none => rfl
    | some reason =>
      by_cases empty : reason = ""
      · simp [optional, orElse, Json.truthy, optionalStr, empty]
      · simp [optional, orElse, Json.truthy, optionalStr, empty]
  have usage : orElse ((Json.obj (renderResponsesApiResponse r)).get "usage") (.obj []) =
      .obj [("input_tokens", .int r.usage.inputTokens),
        ("output_tokens", .int r.usage.outputTokens),
        ("total_tokens", .int r.usage.totalTokens)] := by
    simp [renderResponsesApiResponse, get_cons_self, get_cons_of_ne, orElse_obj_cons]
  have text : (Json.obj (renderResponsesApiResponse r)).get "output_text" =
      optional r.outputText := by
    simp [renderResponsesApiResponse, get_cons_self, get_cons_of_ne]
  have model : decodeModel b (.obj (renderResponsesApiResponse r)) =
      b.str (orElse (.str r.model) (.str "")) := by
    simp [decodeModel, renderResponsesApiResponse, get_cons_self, get_cons_of_ne]
  rw [decodeOpenaiResponsesResponse]
  simp [output, iterate, filter_singleton_obj, outputItem_render, usage, dict, finishReason,
    count, get_cons_self, get_cons_of_ne, toInt_orElse_int, text, string?_optional, model,
    appendTexts]

end ReadBack

section Answers

/-- What the caller asked for: the text, the calls, the counts. -/
structure Answer where
  outputText : Option String
  toolCalls : List (Option String × Option String × Option Arguments)
  usage : CanonicalUsage

def CanonicalResponse.answer (r : CanonicalResponse) : Answer where
  outputText := r.outputText
  toolCalls := r.toolCalls.map fun tool => (tool.id, tool.name, tool.arguments)
  usage := r.usage

/-- Rendered for either protocol and read again, the answer is the same. -/
def KeepsAnswer (b : Builtins) (r : CanonicalResponse) : Prop :=
  (decodeOpenaiChatResponse b (renderChatCompletionResponse r)).map CanonicalResponse.answer =
      some r.answer ∧
    (decodeOpenaiResponsesResponse b (renderResponsesApiResponse r)).map
      CanonicalResponse.answer = some r.answer

variable {b : Builtins} {r : CanonicalResponse}

theorem chat_keeps_answer :
    (decodeOpenaiChatResponse b (renderChatCompletionResponse r)).map CanonicalResponse.answer =
      some r.answer := by
  simp [decode_renderChat, CanonicalResponse.answer, CanonicalToolCall.readBack]

theorem append_self_eq_iff (text : String) : text ++ text = text ↔ text = "" := by
  constructor
  · intro same
    have length := congrArg String.length same
    rw [String.length_append] at length
    exact String.length_eq_zero_iff.mp (by omega)
  · rintro rfl
    rfl

theorem responses_keeps_answer_iff :
    (decodeOpenaiResponsesResponse b (renderResponsesApiResponse r)).map
      CanonicalResponse.answer = some r.answer ↔ r.toolCalls = [] ∧ r.outputText = some "" := by
  rw [decode_renderResponses, Option.map_some, Option.some.injEq]
  cases text : r.outputText with
  | none => simp [CanonicalResponse.answer, text]
  | some said =>
    simp only [CanonicalResponse.answer, Answer.mk.injEq, Option.getD_some, Option.some.injEq,
      append_self_eq_iff, text, and_true, List.map_nil]
    rw [eq_comm (a := []), List.map_eq_nil_iff, and_comm]

/-- Of all that can be decoded, only an answer with nothing in it survives both protocols. -/
theorem keeps_answer_iff (b : Builtins) (decoderName : String)
    (payload : List (String × Json)) (fallbackModel : Option String) :
    (∀ r ∈ decodeResponse b decoderName payload fallbackModel, KeepsAnswer b r) ↔
      ∀ r ∈ decodeResponse b decoderName payload fallbackModel,
        r.toolCalls = [] ∧ r.outputText = some "" := by
  refine forall₂_congr fun r _ => ?_
  rw [KeepsAnswer, responses_keeps_answer_iff]
  exact and_iff_right chat_keeps_answer

/-- A greeting comes back from the responses protocol twice over. -/
theorem greeting_not_kept : ¬ ∀ (b : Builtins) (decoderName : String)
    (payload : List (String × Json)) (fallbackModel : Option String),
      ∀ r ∈ decodeResponse b decoderName payload fallbackModel, KeepsAnswer b r := by
  intro always
  have decoded : ∃ r, decodeResponse Agent.flatBuiltins "openai_chat"
      [("choices", .arr [.obj [("message", .obj [("content", .str "Hi")])]])] none = some r ∧
        r.outputText = some "Hi" := by
    rw [decodeResponse, if_neg (by decide +kernel), if_neg (by decide +kernel)]
    exact ⟨_, rfl, rfl⟩
  obtain ⟨r, decoded, text⟩ := decoded
  have kept := responses_keeps_answer_iff.mp (always _ _ _ _ r decoded).2
  rw [text] at kept
  exact absurd kept.2 (by decide)

end Answers

end Deeting.Protocols
