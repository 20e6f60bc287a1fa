import Deeting.Agent.ToolCalls

/-! Assistants taken up and put down within a run of `AgentExecutorStep`: the payload a tool
leaves to be applied, the tools offered from then on, and the injection of an assistant that
was set from outside the loop. -/
namespace Deeting.Agent
open Deeting.Stream (orElse)

/-- The body of the upstream requests; keys the loop does not look at are left out. -/
structure RequestBody where
  messages : List Json
  /-- `none` where the key is missing. -/
  tools : Option Json := none
  stream : Json := .bool false
  maxTurns : Json := .null

def systemMessage (content : String) : Json :=
  .obj [("role", .str "system"), ("content", .str content)]

section Transitions

inductive TransitionAction where
  | activated
  | deactivated
  deriving DecidableEq, Repr

variable (b : Builtins)

def transitionAction (pending : Json) : Option TransitionAction :=
  if pending.isObj then
    let action := b.lower (b.text (pending.get "action"))
    if action = "activated" then some .activated
    else if action = "deactivated" then some .deactivated
    else none
  else none

/-- The name a tool definition goes by in `_merge_tool_definitions`. -/
def definitionName (tool : Json) : String :=
  if (tool.get "function").isObj then b.text ((tool.get "function").get "name")
  else b.text (tool.get "name")

def definitionNames (tools : List Json) : List String :=
  ((tools.filter Json.isObj).map (definitionName b)).filter (· ≠ "")

def addDefinition (merged : List Json) (tool : Json) : List Json :=
  let name := definitionName b tool
  if tool.isObj ∧ name ≠ "" ∧ name ∉ definitionNames b merged then merged ++ [tool] else merged

def mergeToolDefinitions (baseTools : Json) (extraTools : List Json) : List Json :=
  extraTools.foldl (addDefinition b) baseTools.items

def activationContent (payload : Json) : String :=
  let given := b.text (payload.get "assistant_name")
  let assistantName := if given = "" then "Assistant" else given
  let systemPrompt := b.text (payload.get "system_prompt")
  stripText (s!"[Assistant Activated: {assistantName}]\n\n" ++
    "Replace any previously activated request-scoped assistant " ++
    "instructions with the following prompt.\n\n" ++ systemPrompt)

def deactivationContent : String :=
  "[Assistant Deactivated]\n\n" ++
    "Return to the default base assistant context for this request. " ++
    "Ignore any previous request-scoped assistant activation instructions."

/-- `assistant_id or None` of an activation. -/
def activatedId (payload : Json) : Json :=
  let assistantId := b.text (payload.get "assistant_id")
  if assistantId = "" then .null else .str assistantId

/-- `_apply_assistant_activation_payload` on the body. -/
def applyActivation (baseTools payload : Json) (body : RequestBody) : RequestBody :=
  { body with
    messages := body.messages ++ [systemMessage (activationContent b payload)]
    tools := some (.arr (mergeToolDefinitions b baseTools (payload.get "skill_tools").items)) }

/-- `_apply_assistant_deactivation_payload` on the body. -/
def applyDeactivation (baseTools : Json) (body : RequestBody) : RequestBody :=
  { body with
    messages := body.messages ++ [systemMessage deactivationContent]
    tools := some baseTools }

end Transitions

section Injection

inductive SkillTools where
  | absent
  | tools (openaiTools : List Json)
  | raises

/-- The row `_inject_assistant_mid_loop` reads. -/
structure AssistantRow where
  systemPrompt : String
  name : String
  skillTools : SkillTools

/-- `t.get("function", {}).get("name")`, `none` where it raises. -/
def functionName (tool : Json) : Option Json :=
  if tool.isObj then
    match (tool.get? "function").getD (.obj []) with
    | .obj entries => some ((Json.obj entries).get "name")
    | _ => none
  else none

def hashable : Json → Bool
  | .arr _ | .obj _ => false
  | _ => true

/-- The tools with the new ones at their end, `none` where this raises. -/
def extendTools (tools : Option Json) (openaiTools : List Json) : Option (List Json) :=
  match tools.getD (.arr []) with
  | .arr existing =>
      match (existing.filter Json.isObj).mapM functionName, openaiTools.mapM functionName with
      | some names, some added =>
          if (names ++ added).all hashable then
            let new := (openaiTools.zip added).filter fun (_, name) => !names.any name.same
            some (existing ++ new.map Prod.fst)
          else none
      | _, _ => none
  | _ => none

def removeConsult (body : RequestBody) : RequestBody :=
  match iterate (body.tools.getD (.arr [])) with
  | none => body
  | some tools =>
      match tools.mapM functionName with
      | none => body
      | some names =>
          let kept := (tools.zip names).filter fun (_, name) =>
            !name.same (.str "consult_expert_network")
          { body with tools := some (.arr (kept.map Prod.fst)) }

def injectPrompt (row : AssistantRow) (body : RequestBody) : RequestBody :=
  if row.systemPrompt = "" then body
  else
    { body with messages := body.messages ++
        [systemMessage s!"[Assistant Activated: {row.name}]\n\n{row.systemPrompt}"] }

/-- `_inject_assistant_mid_loop`; without a row it does nothing, and what it raises ends it. -/
def injectAssistantMidLoop (row : Option AssistantRow) (body : RequestBody) : RequestBody :=
  match row with
  | none => body
  | some row =>
      let body := injectPrompt row body
      match row.skillTools with
      | .absent => removeConsult body
      | .raises => body
      | .tools openaiTools =>
          match extendTools body.tools openaiTools with
          | none => body
          | some tools => removeConsult { body with tools := some (.arr tools) }

theorem injectAssistantMidLoop_messages (row : Option AssistantRow) (body : RequestBody) :
    (injectAssistantMidLoop row body).messages = body.messages ∨
      ∃ content, (injectAssistantMidLoop row body).messages =
        body.messages ++ [systemMessage content] := by
  have kept : ∀ body, (removeConsult body).messages = body.messages := by
    intro body
    rw [removeConsult]
    split
    · rfl
    · split <;> rfl
  cases row with
  | none => exact .inl rfl
  | some row =>
    have same : (injectAssistantMidLoop (some row) body).messages =
        (injectPrompt row body).messages := by
      rw [injectAssistantMidLoop]
      split
      · exact kept _
      · rfl
      · split
        · rfl
        · exact kept _
    rw [same, injectPrompt]
    split
    · exact .inl rfl
    · exact .inr ⟨_, rfl⟩

end Injection

end Deeting.Agent
