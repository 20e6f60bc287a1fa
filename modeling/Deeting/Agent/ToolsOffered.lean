import Deeting.Agent.ToolLoop
import Deeting.Transition
import Mathlib.Data.List.Nodup

/-! The tools a run of `AgentExecutorStep` offers upstream: the transitions that it applies, one
by one, and what the last of them makes of the tools the request came with. -/
namespace Deeting.Agent
open Deeting.Stream (orElse)
open Transition

section Skills
variable (b : Builtins)

/-- A tool of a manifest as `skill_tools_to_openai_format` has it. -/
def openaiTool (toolDef : Json) : Json :=
  .obj [("type", .str "function"), ("function", .obj [
    ("name", .str (b.text (toolDef.get "name"))),
    ("description", .str (b.str (orElse (toolDef.get "description") (.str "")))),
    ("parameters", objectOrEmpty (orElse (toolDef.get "parameters") (toolDef.get "input_schema")))])]

def collectTool (tools : List Json) (toolDef : Json) : List Json :=
  let name := b.text (toolDef.get "name")
  if toolDef.isObj ∧ name ≠ "" ∧ name ∉ definitionNames b tools then
    tools ++ [openaiTool b toolDef]
  else tools

/-- `resolve_skill_refs` of references to skills with these manifests, in that format. -/
def resolveSkillRefs (manifests : List Json) : List Json :=
  (manifests.flatMap fun manifest => ((objectOrEmpty manifest).get "tools").items).foldl
    (collectTool b) []

def Resolved (skillTools : List Json) : Prop :=
  ∃ manifests, skillTools = resolveSkillRefs b manifests

def FunctionTool (tool : Json) : Prop :=
  ∃ name, functionName tool = some (.str name) ∧ stripText name = name ∧ name ≠ ""

end Skills

/-- A change of the assistant, with the tools that it brings. -/
inductive AssistantTransition where
  | activated (skillTools : List Json)
  | deactivated
  | injected (skillTools : List Json)

section Transitions
variable (b : Builtins) (settings : AgentSettings) (session : Session)

namespace Loop

/-- What `_consume_pending_assistant_transition` applies. -/
def pendingTransition (l : Loop) : Option AssistantTransition :=
  (transitionAction b l.pending).map fun
    | .activated => .activated (l.pending.get "skill_tools").items
    | .deactivated => .deactivated

def recordTransition (l : Loop) (result : ToolResult) : Option AssistantTransition :=
  (formatToolResult b result).bind fun _ => l.pendingTransition b

def answerTransition (l : Loop) (call : ToolCall) (outcome : ToolOutcome) :
    Option AssistantTransition :=
  match refusal b settings session (l.body.tools.getD .null) call with
  | some error => l.recordTransition b (.json error)
  | none => (l.affect outcome).recordTransition b outcome.result

def injectTransition (l : Loop) (row : Option AssistantRow) : Option AssistantTransition :=
  if l.assistantId.truthy ∧ ¬ l.assistantId.same l.injectedAssistantId then
    row.bind fun row =>
      match row.skillTools with
      | .absent => some (.injected [])
      | .tools openaiTools => some (.injected openaiTools)
      | .raises => none
  else none

def transition (l : Loop) : Action → Option AssistantTransition
  | .tool outcome =>
      match l.phase with
      | .answering (call :: _) =>
          if call.parseError = none then l.answerTransition b settings session call.toolCall outcome
          else none
      | _ => none
  | .nextTurn row =>
      match l.phase with
      | .answering [] => l.injectTransition row
      | _ => none
  | _ => none

end Loop

def transitions : Loop → List Action → List AssistantTransition
  | _, [] => []
  | l, a :: rest =>
      (l.transition b settings session a).toList ++
        ((step b settings session l a).map fun m => transitions m rest).getD []

end Transitions

inductive Offer where
  | base
  | merged (skillTools : List Json)
  /-- An assistant was injected into the base tools, and is settled. -/
  | settled (skillTools : List Json)
  /-- An assistant was injected over the tools of another one. -/
  | stacked

namespace Offer

def next : Offer → AssistantTransition → Offer
  | _, .activated skillTools => .merged skillTools
  | _, .deactivated => .base
  | .base, .injected skillTools => .settled skillTools
  | _, .injected _ => .stacked

variable (b : Builtins) (baseTools : Json)

def tools : Offer → Option Json
  | .base => some baseTools
  | .merged skillTools => some (.arr (mergeToolDefinitions b baseTools skillTools))
  | .settled skillTools => some (.arr ((mergeToolDefinitions b baseTools skillTools).filter fun tool =>
      definitionName b tool ≠ "consult_expert_network"))
  | .stacked => none

def skillTools : Offer → List Json
  | .merged skillTools | .settled skillTools => skillTools
  | _ => []

/-- An injection goes by the names of functions, the base tools are to be some; over another
assistant it is left open what is offered. -/
def Described : Offer → Prop
  | .base | .merged _ => True
  | .settled skillTools =>
      (∃ given, baseTools = .arr given ∧ ∀ t ∈ given, FunctionTool t) ∧ Resolved b skillTools
  | .stacked => False

def after (offer : Offer) (transition : Option AssistantTransition) : Offer :=
  transition.elim offer offer.next

end Offer

section Names
variable {b : Builtins} {tool : Json} {given extra skillTools : List Json} {name : String}

theorem definitionName_of_function (named : functionName tool = some (.str name))
    (plain : stripText name = name) (filled : name ≠ "") :
    tool.isObj = true ∧ definitionName b tool = name := by
  rw [functionName] at named
  split at named
  · rename_i object
    split at named
    · rename_i entries stored
      rw [Option.some.injEq] at named
      have there : tool.get "function" = .obj entries := by
        rw [Json.get]
        cases found : tool.get? "function" with
        | none =>
          -- an absent function has no name
          rw [found, Option.getD_none] at stored
          rw [← stored] at named
          cases named
        | some function =>
          rw [found, Option.getD_some] at stored
          rw [stored, Option.getD_some]
      refine ⟨object, ?_⟩
      have isObj : (Json.obj entries).isObj = true := rfl
      rw [definitionName, there, if_pos isObj, named, Builtins.text, orElse,
        if_pos (by simpa [Json.truthy])]
      exact plain
    · cases named
  · cases named

theorem FunctionTool.name_eq (defined : FunctionTool tool) :
    tool.isObj = true ∧ definitionName b tool ≠ "" ∧
      functionName tool = some (.str (definitionName b tool)) := by
  obtain ⟨name, named, plain, filled⟩ := defined
  obtain ⟨object, same⟩ := definitionName_of_function (b := b) named plain filled
  rw [same]
  exact ⟨object, filled, named⟩

theorem definitionNames_append :
    definitionNames b (given ++ extra) = definitionNames b given ++ definitionNames b extra := by
  simp [definitionNames]

theorem definitionNames_functions (defined : ∀ t ∈ given, FunctionTool t) :
    definitionNames b given = given.map (definitionName b) := by
  rw [definitionNames, List.filter_eq_self.mpr fun t mem => (defined t mem).name_eq (b := b).1]
  apply List.filter_eq_self.mpr
  intro name mem
  obtain ⟨t, listed, rfl⟩ := List.mem_map.mp mem
  simpa using ((defined t listed).name_eq (b := b)).2.1

theorem nodup_addDefinition (distinct : (definitionNames b given).Nodup) :
    (definitionNames b (addDefinition b given tool)).Nodup := by
  simp only [addDefinition]
  split
  · rename_i new
    obtain ⟨object, filled, fresh⟩ := new
    have single : definitionNames b [tool] = [definitionName b tool] := by
      simp [definitionNames, object, filled]
    rw [definitionNames_append, single, ← List.concat_eq_append]
    exact distinct.concat fresh
  · exact distinct

theorem nodup_mergeToolDefinitions {baseTools : Json}
    (distinct : (definitionNames b baseTools.items).Nodup) :
    (definitionNames b (mergeToolDefinitions b baseTools extra)).Nodup := by
  rw [mergeToolDefinitions]
  generalize baseTools.items = merged at distinct ⊢
  induction extra generalizing merged with
  | nil => exact distinct
  | cons tool rest ih => exact ih _ (nodup_addDefinition distinct)

theorem mem_mergeToolDefinitions {baseTools : Json}
    (mem : tool ∈ mergeToolDefinitions b baseTools extra) :
    tool ∈ baseTools.items ∨ tool ∈ extra := by
  rw [mergeToolDefinitions] at mem
  generalize baseTools.items = merged at mem ⊢
  induction extra generalizing merged with
  | nil => exact .inl mem
  | cons other rest ih =>
    rcases ih _ mem with early | late
    · rw [addDefinition] at early
      split at early
      · rcases List.mem_append.mp early with old | new
        · exact .inl old
        · exact .inr (List.mem_singleton.mp new ▸ List.mem_cons_self)
      · exact .inl early
    · exact .inr (List.mem_cons_of_mem other late)

theorem foldl_addDefinition (defined : ∀ t ∈ extra, FunctionTool t)
    (distinct : (extra.map (definitionName b)).Nodup) :
    extra.foldl (addDefinition b) given =
      given ++ extra.filter fun t => definitionName b t ∉ definitionNames b given := by
  induction extra generalizing given with
  | nil => simp
  | cons tool rest ih =>
    obtain ⟨first, defined⟩ := List.forall_mem_cons.mp defined
    obtain ⟨fresh, distinct⟩ := List.nodup_cons.mp distinct
    obtain ⟨object, filled, _⟩ := first.name_eq (b := b)
    rw [List.foldl_cons, ih defined distinct]
    by_cases known : definitionName b tool ∈ definitionNames b given
    · have same : addDefinition b given tool = given := by simp [addDefinition, known]
      rw [same, List.filter_cons_of_neg (by simpa using known)]
    · have added : addDefinition b given tool = given ++ [tool] := by
        simp [addDefinition, known, object, filled]
      have single : definitionNames b [tool] = [definitionName b tool] := by
        simp [definitionNames, object, filled]
      rw [added, List.filter_cons_of_pos (by simpa using known), List.append_assoc,
        List.singleton_append]
      congr 2
      apply List.filter_congr
      intro t mem
      have ne : definitionName b t ≠ definitionName b tool := by
        intro same
        exact fresh (same ▸ List.mem_map_of_mem mem)
      simp [definitionNames_append, single, ne]

theorem mapM_functionName (defined : ∀ t ∈ given, FunctionTool t) :
    given.mapM functionName = some (given.map fun t => .str (definitionName b t)) := by
  induction given with
  | nil => rfl
  | cons tool rest ih =>
    obtain ⟨first, defined⟩ := List.forall_mem_cons.mp defined
    rw [List.mapM_cons, (first.name_eq (b := b)).2.2, ih defined]
    rfl

theorem zip_map_filter {α β : Type} (f : α → β) (p : β → Bool) (items : List α) :
    ((items.zip (items.map f)).filter fun pair => p pair.2).map Prod.fst =
      items.filter fun x => p (f x) := by
  induction items with
  | nil => rfl
  | cons x rest ih =>
    rw [List.map_cons, List.zip_cons_cons, List.filter_cons, List.filter_cons]
    by_cases kept : p (f x)
    · rw [if_pos kept, if_pos kept, List.map_cons, ih]
    · rw [if_neg kept, if_neg kept, ih]

theorem any_same_iff (tools : List Json) :
    (tools.map fun t => Json.str (definitionName b t)).any (Json.str name).same = true ↔
      name ∈ tools.map (definitionName b) := by
  rw [List.any_map, List.any_eq_true, List.mem_map]
  constructor
  · rintro ⟨t, mem, same⟩
    exact ⟨t, mem, (eq_of_beq same).symm⟩
  · rintro ⟨t, mem, rfl⟩
    exact ⟨t, mem, beq_self_eq_true _⟩

theorem extendTools_functions (old : ∀ t ∈ given, FunctionTool t)
    (new : ∀ t ∈ extra, FunctionTool t) {tools : Option Json}
    (body : tools.getD (.arr []) = .arr given) :
    extendTools tools extra =
      some (given ++ extra.filter fun t => definitionName b t ∉ definitionNames b given) := by
  have objects : given.filter Json.isObj = given :=
    List.filter_eq_self.mpr fun t mem => (old t mem).name_eq (b := b).1
  have texts : ((given.map fun t => Json.str (definitionName b t)) ++
      extra.map fun t => Json.str (definitionName b t)).all hashable = true := by
    rw [← List.map_append, List.all_map]
    exact List.all_eq_true.mpr fun _ _ => rfl
  simp only [extendTools, body, objects, mapM_functionName (b := b) old,
    mapM_functionName (b := b) new, texts, if_true]
  rw [zip_map_filter (fun t => Json.str (definitionName b t))
    (fun name => !(given.map fun t => Json.str (definitionName b t)).any name.same)]
  congr 2
  apply List.filter_congr
  intro t _
  rw [definitionNames_functions old, Bool.eq_iff_iff, Bool.not_eq_true', ← Bool.not_eq_true,
    any_same_iff, decide_eq_true_eq]

theorem removeConsult_functions {body : RequestBody} (defined : ∀ t ∈ given, FunctionTool t)
    (listed : body.tools.getD (.arr []) = .arr given) :
    (removeConsult body).tools =
      some (.arr (given.filter fun t => definitionName b t ≠ "consult_expert_network")) := by
  simp only [removeConsult, listed, iterate, mapM_functionName (b := b) defined]
  rw [zip_map_filter (fun t => Json.str (definitionName b t))
    (fun name => !name.same (.str "consult_expert_network"))]
  congr 2
  apply List.filter_congr
  intro t _
  rw [Bool.eq_iff_iff, Bool.not_eq_true', ← Bool.not_eq_true, decide_eq_true_eq]
  exact not_congr beq_iff_eq

theorem Resolved.functions (resolved : Resolved b skillTools) :
    (∀ t ∈ skillTools, FunctionTool t) ∧ (skillTools.map (definitionName b)).Nodup := by
  obtain ⟨manifests, rfl⟩ := resolved
  rw [resolveSkillRefs]
  generalize manifests.flatMap _ = toolDefs
  suffices step : ∀ tools : List Json, (∀ t ∈ tools, FunctionTool t) →
      (tools.map (definitionName b)).Nodup →
      (∀ t ∈ toolDefs.foldl (collectTool b) tools, FunctionTool t) ∧
        ((toolDefs.foldl (collectTool b) tools).map (definitionName b)).Nodup from
    step [] (List.forall_mem_nil _) List.nodup_nil
  induction toolDefs with
  | nil => exact fun tools defined distinct => ⟨defined, distinct⟩
  | cons toolDef rest ih =>
    intro tools defined distinct
    rw [List.foldl_cons]
    have named : functionName (openaiTool b toolDef) =
        some (.str (b.text (toolDef.get "name"))) := by
      simp [functionName, openaiTool, Json.isObj, Json.get?, Json.get]
    have plain : stripText (b.text (toolDef.get "name")) = b.text (toolDef.get "name") :=
      stripText_stripText _
    simp only [collectTool]
    split
    · rename_i new
      obtain ⟨_, filled, fresh⟩ := new
      apply ih
      · intro t mem
        rcases List.mem_append.mp mem with old | added
        · exact defined t old
        · rw [List.mem_singleton.mp added]
          exact ⟨_, named, plain, filled⟩
      · rw [List.map_append, List.map_singleton, (definitionName_of_function named plain filled).2,
          ← List.concat_eq_append]
        rw [definitionNames_functions defined] at fresh
        exact distinct.concat fresh
    · exact ih tools defined distinct

end Names

section Runs
variable {b : Builtins} {settings : AgentSettings} {session : Session} {baseTools : Json}
  {offer : Offer} {l m : Loop} {a : Action}

structure Loop.Offers (b : Builtins) (baseTools : Json) (offer : Offer) (l : Loop) : Prop where
  kept : l.baseTools = baseTools
  listed : offer.Described b baseTools →
    offer.tools b baseTools = some (l.body.tools.getD (.arr []))

structure Loop.SameTools (l m : Loop) : Prop where
  base : m.baseTools = l.baseTools
  body : m.body.tools = l.body.tools

namespace Loop

theorem SameTools.trans {k : Loop} (first : l.SameTools m) (second : m.SameTools k) :
    l.SameTools k :=
  ⟨second.base.trans first.base, second.body.trans first.body⟩

theorem Offers.same (offers : l.Offers b baseTools offer) (same : l.SameTools m) :
    m.Offers b baseTools offer := by
  refine ⟨same.base.trans offers.kept, fun described => ?_⟩
  rw [same.body]
  exact offers.listed described

theorem raise_sameTools (timeout : Bool) : l.SameTools (l.raise timeout) := by
  unfold raise degrade
  split <;> exact ⟨rfl, rfl⟩

theorem toTurn_sameTools : l.SameTools l.toTurn := by
  unfold toTurn finish
  split <;> exact ⟨rfl, rfl⟩

theorem callUpstream_sameTools (answer : UpstreamAnswer) : l.SameTools (l.callUpstream answer) := by
  have turned : l.SameTools { l with turn := l.turn + 1 } := ⟨rfl, rfl⟩
  have sent : l.SameTools (send { l with turn := l.turn + 1 }) := ⟨rfl, rfl⟩
  cases answer with
  | success response => exact ⟨rfl, rfl⟩
  | failed early => cases early <;> exact ⟨rfl, rfl⟩
  | raises early timeout =>
    cases early with
    | true => exact sent.trans (raise_sameTools timeout)
    | false => exact turned.trans (raise_sameTools timeout)

theorem takeCalls_sameTools (message : Json) : l.SameTools (l.takeCalls b message) := by
  unfold takeCalls
  split
  · exact raise_sameTools false
  · exact ⟨rfl, rfl⟩

theorem analyse_sameTools : l.SameTools (l.analyse b) := by
  have snapped : l.SameTools l.snapshot := ⟨rfl, rfl⟩
  have finished : l.SameTools l.snapshot.finish := ⟨rfl, rfl⟩
  unfold analyse
  dsimp only
  split
  · split
    · exact finished
    · split
      · exact snapped.trans (takeCalls_sameTools _)
      · exact finished
    · exact snapped.trans (raise_sameTools false)
  · exact finished

theorem consumePending_offers (rest : List PreparedCall) (offers : l.Offers b baseTools offer) :
    (l.consumePending b rest).Offers b baseTools (offer.after (l.pendingTransition b)) := by
  unfold consumePending pendingTransition
  split
  · rename_i activated
    rw [activated]
    refine ⟨offers.kept, fun _ => ?_⟩
    change some (Json.arr (mergeToolDefinitions b baseTools _)) = _
    rw [← offers.kept]
    rfl
  · rename_i deactivated
    rw [deactivated]
    exact ⟨offers.kept, fun _ => congrArg some offers.kept.symm⟩
  · rename_i none_
    rw [none_]
    exact offers.same ⟨rfl, rfl⟩

theorem record_offers {call : ToolCall} {rest : List PreparedCall} {result : ToolResult}
    (offers : l.Offers b baseTools offer) :
    (l.record b settings call rest result).Offers b baseTools
      (offer.after (l.recordTransition b result)) := by
  unfold record recordTransition
  cases formatToolResult b result with
  | none => exact offers.same (raise_sameTools false)
  | some text =>
    have said : l.SameTools
        (l.say (toolMessage call (trimToolResultForHistory settings text)) rest) := ⟨rfl, rfl⟩
    exact consumePending_offers rest (offers.same said)

theorem answer_offers {call : ToolCall} {rest : List PreparedCall} {outcome : ToolOutcome}
    (offers : l.Offers b baseTools offer) :
    (l.answer b settings session call rest outcome).Offers b baseTools
      (offer.after (l.answerTransition b settings session call outcome)) := by
  unfold answer answerTransition
  cases refusal b settings session (l.body.tools.getD .null) call with
  | some error => exact record_offers offers
  | none =>
    have affected : l.SameTools (l.affect outcome) := ⟨rfl, rfl⟩
    exact record_offers (offers.same affected)

theorem tools_injectAssistantMidLoop {row : AssistantRow} {body : RequestBody}
    {given skillTools : List Json} (listed : body.tools.getD (.arr []) = .arr given)
    (defined : ∀ t ∈ given, FunctionTool t) (resolved : Resolved b skillTools)
    (skills : row.skillTools = .tools skillTools ∨ row.skillTools = .absent ∧ skillTools = []) :
    (injectAssistantMidLoop (some row) body).tools =
      some (.arr ((mergeToolDefinitions b (.arr given) skillTools).filter fun tool =>
        definitionName b tool ≠ "consult_expert_network")) := by
  have prompted : (injectPrompt row body).tools = body.tools := by
    unfold injectPrompt
    split <;> rfl
  rcases skills with tools | ⟨absent, rfl⟩
  · obtain ⟨new, distinct⟩ := resolved.functions
    have extended := extendTools_functions (b := b) defined new listed
    simp only [injectAssistantMidLoop, tools, prompted, extended]
    rw [mergeToolDefinitions, Json.items, foldl_addDefinition new distinct]
    apply removeConsult_functions _ rfl
    intro t mem
    rcases List.mem_append.mp mem with old | added
    · exact defined t old
    · exact new t (List.mem_of_mem_filter added)
  · simp only [injectAssistantMidLoop, absent]
    exact removeConsult_functions defined (prompted ▸ listed)

theorem inject_offers {row : Option AssistantRow} (offers : l.Offers b baseTools offer) :
    (l.inject row).Offers b baseTools (offer.after (l.injectTransition row)) := by
  unfold inject injectTransition
  split
  · cases row with
    | none => exact offers.same ⟨rfl, rfl⟩
    | some row =>
      -- an offer of injected tools is one of the base tools before
      have settles {skillTools : List Json} (skills : row.skillTools = .tools skillTools ∨
            row.skillTools = .absent ∧ skillTools = []) :
          ({ l with injectedAssistantId := l.assistantId,
                    body := injectAssistantMidLoop (some row) l.body } : Loop).Offers b baseTools
            (offer.next (.injected skillTools)) := by
        refine ⟨offers.kept, fun described => ?_⟩
        cases offer with
        | base =>
          obtain ⟨⟨given, rfl, defined⟩, resolved⟩ := described
          have listed := Option.some.inj (offers.listed trivial)
          rw [tools_injectAssistantMidLoop listed.symm defined resolved skills]
          rfl
        | merged _ => cases described
        | settled _ => cases described
        | stacked => cases described
      rw [Option.bind_some]
      cases stored : row.skillTools with
      | absent => exact settles (.inr ⟨stored, rfl⟩)
      | tools openaiTools => exact settles (.inl stored)
      | raises =>
        have unchanged : (injectAssistantMidLoop (some row) l.body).tools = l.body.tools := by
          simp only [injectAssistantMidLoop, stored, injectPrompt]
          split <;> rfl
        exact offers.same ⟨rfl, unchanged⟩
  · exact offers

theorem step_offers (offers : l.Offers b baseTools offer)
    (taken : step b settings session l a = some m) :
    m.Offers b baseTools (offer.after (l.transition b settings session a)) := by
  have steps := Steps.of_step taken
  cases steps with
  | upstream answer _ => exact offers.same (callUpstream_sameTools answer)
  | analyse _ => exact offers.same analyse_sameTools
  | refuse error _ => exact offers.same ⟨rfl, rfl⟩
  | tool outcome phase =>
    rename_i call rest
    have parsed : call.parseError = none := by
      by_contra malformed
      simp [step, phase, malformed] at taken
    simp only [transition, phase, if_pos parsed]
    exact answer_offers offers
  | nextTurn row phase =>
    simp only [transition, phase]
    exact (inject_offers offers).same toTurn_sameTools
  | raises timeout _ => exact offers.same (raise_sameTools timeout)

theorem run_offers {actions : List Action} (offers : l.Offers b baseTools offer)
    (reached : run (step b settings session) l actions = some m) :
    m.Offers b baseTools ((transitions b settings session l actions).foldl Offer.next offer) := by
  induction actions generalizing l offer with
  | nil =>
    cases reached
    exact offers
  | cons a rest ih =>
    obtain ⟨k, taken, reached⟩ := run_cons_eq_some.mp reached
    have later := ih (step_offers offers taken) reached
    rw [transitions, List.foldl_append, taken]
    cases applied : l.transition b settings session a with
    | none =>
      rw [applied] at later
      exact later
    | some transition =>
      rw [applied] at later
      exact later

end Loop

theorem Offer.mem_tools {tools : Json} {tool : Json} (listed : offer.tools b baseTools = some tools)
    (mem : tool ∈ tools.items) : tool ∈ baseTools.items ∨ tool ∈ offer.skillTools := by
  cases offer with
  | base =>
    obtain rfl := Option.some.inj listed
    exact .inl mem
  | merged skillTools =>
    obtain rfl := Option.some.inj listed
    exact mem_mergeToolDefinitions mem
  | settled skillTools =>
    obtain rfl := Option.some.inj listed
    exact mem_mergeToolDefinitions (List.mem_of_mem_filter mem)
  | stacked => cases listed

theorem Offer.nodup_tools {tools : Json} (listed : offer.tools b baseTools = some tools)
    (distinct : (definitionNames b baseTools.items).Nodup) :
    (definitionNames b tools.items).Nodup := by
  cases offer with
  | base =>
    obtain rfl := Option.some.inj listed
    exact distinct
  | merged skillTools =>
    obtain rfl := Option.some.inj listed
    exact nodup_mergeToolDefinitions distinct
  | settled skillTools =>
    obtain rfl := Option.some.inj listed
    have kept : (definitionNames b ((mergeToolDefinitions b baseTools skillTools).filter fun tool =>
        definitionName b tool ≠ "consult_expert_network")).Sublist
          (definitionNames b (mergeToolDefinitions b baseTools skillTools)) :=
      ((List.filter_sublist.filter _).map _).filter _
    exact List.Nodup.sublist kept (nodup_mergeToolDefinitions distinct)
  | stacked => cases listed

/-- In every state of every run, so also where a turn is sent, the base tools are those of the
request, and the tools are what the transitions before come to: the base tools, or these with
the tools of the assistant of the last transition, and none twice. -/
theorem tools_offered (request : RequestBody) (assistantId : Json) (actions : List Action)
    (reached : run (step b settings session) (start b settings request assistantId) actions =
      some l) :
    let baseTools := request.tools.getD (.arr [])
    let offer := (transitions b settings session (start b settings request assistantId)
      actions).foldl Offer.next .base
    let tools := l.body.tools.getD (.arr [])
    l.baseTools = baseTools ∧ (offer.Described b baseTools →
      offer.tools b baseTools = some tools ∧
      ((definitionNames b baseTools.items).Nodup → (definitionNames b tools.items).Nodup) ∧
      ∀ tool ∈ tools.items, tool ∈ baseTools.items ∨ tool ∈ offer.skillTools) := by
  intro baseTools offer tools
  have begun : (start b settings request assistantId).Offers b baseTools .base :=
    Loop.Offers.same ⟨rfl, fun _ => rfl⟩ Loop.toTurn_sameTools
  have offers := Loop.run_offers begun reached
  refine ⟨offers.kept, fun described => ?_⟩
  have listed := offers.listed described
  exact ⟨listed, Offer.nodup_tools listed, fun tool mem => Offer.mem_tools listed mem⟩

end Runs

section Expert

def namedTool (name : String) : Json :=
  .obj [("type", .str "function"), ("function", .obj [("name", .str name)])]

def expertTools : Json := .arr [namedTool "consult_expert_network", namedTool "activate_assistant"]

def expertRequest : RequestBody where
  messages := [.obj [("role", .str "user"), ("content", .str "hello")]]
  tools := some expertTools

/-- A turn with a call that leaves an assistant with a tool to be activated. -/
def activatingTurn : List Action :=
  let payload := Json.obj [("action", .str "activated"), ("assistant_id", .str "a1"),
    ("skill_tools", .arr [namedTool "fetch", namedTool "activate_assistant"])]
  [.upstream (.success (asking [rawCall "c1" "activate_assistant"] 0 0)), .analyse,
    .tool { result := .json payload, pending := some payload }, .nextTurn none]

/-- The second turn offers the base tools and the one new tool of the assistant. -/
theorem tools_offered_expert : ∃ l, run (step flatBuiltins {} {})
      (start flatBuiltins {} expertRequest .null) activatingTurn = some l ∧
    l.baseTools = expertTools ∧
    definitionNames flatBuiltins (l.body.tools.getD (.arr [])).items =
      ["consult_expert_network", "activate_assistant", "fetch"] ∧
    (definitionNames flatBuiltins (l.body.tools.getD (.arr [])).items).Nodup := by
  have listed : (run (step flatBuiltins {} {}) (start flatBuiltins {} expertRequest .null)
      activatingTurn).map (fun l => definitionNames flatBuiltins
        (l.body.tools.getD (.arr [])).items) =
      some ["consult_expert_network", "activate_assistant", "fetch"] := by
    decide +kernel
  have merged : (match (transitions flatBuiltins {} {} (start flatBuiltins {} expertRequest .null)
      activatingTurn).foldl Offer.next .base with
      | .merged _ => true
      | _ => false) = true := by
    decide +kernel
  obtain ⟨l, reached, names⟩ := Option.map_eq_some_iff.mp listed
  obtain ⟨kept, offered⟩ := tools_offered expertRequest .null activatingTurn reached
  refine ⟨l, reached, kept, names, (offered ?_).2.1 (by decide +kernel)⟩
  generalize (transitions flatBuiltins {} {} _ activatingTurn).foldl Offer.next .base = offer at merged
  cases offer with
  | merged skillTools => trivial
  | _ => cases merged

/-- The base tools with those of the assistant of the last transition, however it came. -/
def lastMerged (b : Builtins) (baseTools : Json) : Option AssistantTransition → Json
  | some (.activated skillTools) | some (.injected skillTools) =>
      .arr (mergeToolDefinitions b baseTools skillTools)
  | _ => baseTools

def coach : AssistantRow where
  systemPrompt := "Be brief."
  name := "Coach"
  skillTools := .tools (resolveSkillRefs flatBuiltins
    [.obj [("tools", .arr [.obj [("name", .str "fetch")]])]])

/-- A turn with one call, at the end of which the assistant of the request is injected. -/
def injectingTurn : List Action :=
  [.upstream (.success (asking [rawCall "c1" "search_sdk"] 0 0)), .analyse,
    .tool { result := .json (.str "found") }, .nextTurn (some coach)]

/-- From the second turn on the tool that looks for an assistant is gone. -/
theorem consult_removed : ∃ l, run (step flatBuiltins {} {})
      (start flatBuiltins {} expertRequest (.str "a1")) injectingTurn = some l ∧
    l.body.tools.getD (.arr []) ≠ lastMerged flatBuiltins expertTools
      (transitions flatBuiltins {} {} (start flatBuiltins {} expertRequest (.str "a1"))
        injectingTurn).getLast? := by
  have listed : (run (step flatBuiltins {} {}) (start flatBuiltins {} expertRequest (.str "a1"))
      injectingTurn).map (fun l => definitionNames flatBuiltins
        (l.body.tools.getD (.arr [])).items) = some ["activate_assistant", "fetch"] := by
    decide +kernel
  have claimed : definitionNames flatBuiltins (lastMerged flatBuiltins expertTools
      (transitions flatBuiltins {} {} (start flatBuiltins {} expertRequest (.str "a1"))
        injectingTurn).getLast?).items =
      ["consult_expert_network", "activate_assistant", "fetch"] := by
    decide +kernel
  obtain ⟨l, reached, names⟩ := Option.map_eq_some_iff.mp listed
  refine ⟨l, reached, fun same => ?_⟩
  rw [same, claimed] at names
  exact absurd names (by decide)

end Expert

end Deeting.Agent
