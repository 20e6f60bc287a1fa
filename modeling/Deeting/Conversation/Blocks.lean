import Deeting.Agent.Assistants
import Mathlib.Data.List.AList
import Mathlib.Data.List.Dedup
import Mathlib.Data.List.Induction

/-! The blocks of an assistant message as `ConversationAppendStep` stores them: those of its
text and its tool calls, those of what the tools returned, and the one list made of both. A
result finds its call through a dictionary that has one result for each call id. -/
namespace Deeting.Conversation
open Deeting.Agent (Builtins stripText hashable iterate)
open Deeting.Stream (orElse)

section Building

variable (b : Builtins)

def optionalField (key : String) (value : Option Json) : List (String × Json) :=
  (value.map fun value => (key, value)).toList

def nonemptyText (j : Json) : Option Json :=
  match j with
  | .str "" => none
  | .str text => some (.str text)
  | _ => none

def argumentsField : Json → Json
  | .null => .null
  | .str text => .str text
  | args => .str (b.dumps args)

/-- The block of one entry of `tool_calls`; entries that are no objects are passed over, and
a `function` that is none raises. -/
def toolCallBlock (call : Json) : Option (List Json) :=
  if call.isObj then
    let function := orElse (call.get "function") (.obj [])
    if function.isObj then
      some [.obj ([("type", .str "tool_call"),
        ("toolName", orElse (function.get "name") (call.get "name")),
        ("toolArgs", argumentsField b (orElse (function.get "arguments") (call.get "arguments")))]
        ++ optionalField "callId" (nonemptyText (call.get "id")))]
    else none
  else some []

/-- `_build_blocks`, where there is no reasoning; `none` where it raises. -/
def buildBlocks (contentText : Option String) (toolCalls : Json) : Option (List Json) :=
  let text := (contentText.filter fun text => stripText text ≠ "").map fun text =>
    Json.obj [("type", .str "text"), ("content", .str text)]
  (toolCalls.items.mapM (toolCallBlock b)).map fun blocks => text.toList ++ blocks.flatten

def nonemptyItems (j : Json) : Option Json :=
  match j with
  | .arr (item :: items) => some (.arr (item :: items))
  | _ => none

def nonemptyEntries (j : Json) : Option Json :=
  match j with
  | .obj (entry :: entries) => some (.obj (entry :: entries))
  | _ => none

def failedCall (call : Json) : Bool := call.get "success" matches .bool false

def loggedResult (call : Json) : Json :=
  match call.get "output" with
  | .null => if failedCall call then call.get "error" else .null
  | output => output

def toolResultBlock (call : Json) : Option Json :=
  if call.isObj then
    match loggedResult call with
    | .null => none
    | result =>
        some (.obj ([("type", .str "tool_result"), ("result", result),
          ("status", .str (if failedCall call then "error" else "success"))]
          ++ optionalField "callId" (nonemptyText (call.get "tool_call_id"))
          ++ optionalField "toolName" (nonemptyText (call.get "name"))
          ++ optionalField "ui" (nonemptyItems (call.get "ui_blocks"))
          ++ optionalField "debug" (nonemptyEntries (call.get "debug"))))
  else none

def buildToolResultBlocks (toolCallsLog : Json) : List Json :=
  toolCallsLog.items.filterMap toolResultBlock

end Building

section Interleaving

/-- A call id that can be a key of a dictionary and is not passed over as empty; numbers and
truth values are one kind of key. -/
inductive CallId where
  | text (value : String)
  | number (value : ℚ)
  deriving DecidableEq, Repr

def callId (block : Json) : Option CallId :=
  match block.get "callId" with
  | .str value => if value = "" then none else some (.text value)
  | value => (value.number?.filter (· ≠ 0)).map .number

def isToolCall (block : Json) : Bool := block.get "type" matches .str "tool_call"

def callOf (block : Json) : Option CallId := if isToolCall block then callId block else none

/-- `call_id_set`. -/
def callIds (baseBlocks : List Json) : List CallId := baseBlocks.filterMap callOf

def matchedId (ids : List CallId) (result : Json) : Option CallId :=
  (callId result).filter (· ∈ ids)

/-- `results_by_call_id`: a later result takes the place of an earlier one. -/
def resultsByCallId (ids : List CallId) (resultBlocks : List Json) : AList fun _ : CallId => Json :=
  resultBlocks.foldl (fun dict result =>
    match matchedId ids result with
    | some cid => dict.insert cid result
    | none => dict) ∅

def unmatched (ids : List CallId) (resultBlocks : List Json) : List Json :=
  resultBlocks.filter fun result => (matchedId ids result).isNone

def orderBlocks : List Json → (AList fun _ : CallId => Json) → List Json
  | [], _ => []
  | block :: rest, dict =>
      match callOf block with
      | none => block :: orderBlocks rest dict
      | some cid =>
          match dict.lookup cid with
          | none => block :: orderBlocks rest dict
          | some result => block :: result :: orderBlocks rest (dict.erase cid)

def lookable (block : Json) : Bool :=
  block.isObj && (!(block.get "callId").truthy || hashable (block.get "callId"))

/-- `_interleave_blocks`; `none` where it raises, on a block that is no object or on an id
that cannot be a key. -/
def interleaveBlocks (baseBlocks resultBlocks : List Json) : Option (List Json) :=
  if resultBlocks.isEmpty then some baseBlocks
  else if (baseBlocks.all fun block => block.isObj && (!isToolCall block || lookable block)) &&
      resultBlocks.all lookable then
    let ids := callIds baseBlocks
    let dict := resultsByCallId ids resultBlocks
    if dict.entries.isEmpty then some (baseBlocks ++ resultBlocks)
    else some (orderBlocks baseBlocks dict ++ unmatched ids resultBlocks)
  else none

/-- `_append_tool_result_blocks`; `none` where it raises. -/
def appendToolResultBlocks (b : Builtins) (assistantMessage toolCallsLog : Json) : Option Json :=
  let resultBlocks := buildToolResultBlocks toolCallsLog
  if !assistantMessage.isObj || resultBlocks.isEmpty then some assistantMessage
  else
    let metaInfo := match assistantMessage.get "meta_info" with
      | .obj entries => Json.obj entries
      | _ => .obj []
    let baseBlocks := match metaInfo.get "blocks" with
      | .arr existing => some existing
      | _ => buildBlocks b (assistantMessage.get "content").string? (assistantMessage.get "tool_calls")
    (baseBlocks.bind fun baseBlocks => interleaveBlocks baseBlocks resultBlocks).map fun blocks =>
      assistantMessage.set "meta_info" (metaInfo.set "blocks" (.arr blocks))

structure Follow (baseBlocks results : List Json) (groups : List (List Json)) : Prop where
  length : groups.length = baseBlocks.length
  own : ∀ p ∈ baseBlocks.zip groups, p.2.Sublist results ∧
    ∀ result ∈ p.2, ∃ cid, callOf p.1 = some cid ∧ callId result = some cid

/-- The stored list: nothing is lost or doubled, the base blocks keep their order, each followed
by results of its own call, and the results of no call come last as they were. -/
structure StoredNextToCalls (baseBlocks results stored : List Json) : Prop where
  conserved : stored.Perm (baseBlocks ++ results)
  placed : ∃ groups, Follow baseBlocks results groups ∧
    stored = (List.zipWith List.cons baseBlocks groups).flatten ++
      unmatched (callIds baseBlocks) results

/-- No two results belong to calls by one id, and every id can be looked up, unless there is
nothing to look up. -/
def Unambiguous (baseBlocks results : List Json) : Prop :=
  results ≠ [] →
    (∀ block ∈ baseBlocks, block.isObj ∧ (isToolCall block → lookable block)) ∧
    (∀ result ∈ results, lookable result) ∧
    (results.filterMap (matchedId (callIds baseBlocks))).Nodup

section Groups

variable {α : Type}

theorem perm_flatten_zipWith_cons {heads : List α} {groups : List (List α)}
    (length : groups.length = heads.length) :
    (List.zipWith List.cons heads groups).flatten.Perm (heads ++ groups.flatten) := by
  induction heads generalizing groups with
  | nil =>
    rw [List.length_eq_zero_iff.mp length]
    rfl
  | cons head heads ih =>
    obtain ⟨group, groups, rfl⟩ := List.exists_cons_of_length_eq_add_one length
    have rest := ih (Nat.succ.inj length)
    simp only [List.zipWith_cons_cons, List.flatten_cons, List.cons_append]
    refine List.Perm.cons head ((rest.append_left group).trans ?_)
    rw [← List.append_assoc, ← List.append_assoc]
    exact List.perm_append_comm.append_right _

theorem zipWith_cons_nil (heads : List α) :
    (List.zipWith List.cons heads (List.replicate heads.length [])).flatten = heads := by
  induction heads with
  | nil => rfl
  | cons head heads ih =>
    rw [List.length_cons, List.replicate_succ, List.zipWith_cons_cons, List.flatten_cons, ih]
    rfl

end Groups

section Dictionary

variable {ids : List CallId} {results : List Json} {cid : CallId} {result : Json}

theorem matchedId_eq_some :
    matchedId ids result = some cid ↔ callId result = some cid ∧ cid ∈ ids := by
  rw [matchedId, Option.filter_eq_some_iff, decide_eq_true_eq]

theorem resultsByCallId_concat : resultsByCallId ids (results ++ [result]) =
    match matchedId ids result with
    | some cid => (resultsByCallId ids results).insert cid result
    | none => resultsByCallId ids results := by
  rw [resultsByCallId, List.foldl_append]
  rfl

theorem mem_resultsByCallId :
    cid ∈ resultsByCallId ids results ↔ cid ∈ results.filterMap (matchedId ids) := by
  induction results using List.reverseRecOn with
  | nil => simp [resultsByCallId]
  | append_singleton front last ih =>
    rw [resultsByCallId_concat, List.filterMap_append, List.mem_append, ← ih]
    cases matched : matchedId ids last with
    | none => simp [matched]
    | some other => simp [matched, AList.mem_insert, or_comm]

theorem of_lookup_resultsByCallId (found : (resultsByCallId ids results).lookup cid = some result) :
    result ∈ results ∧ callId result = some cid := by
  induction results using List.reverseRecOn with
  | nil => cases found
  | append_singleton front last ih =>
    have earlier : (resultsByCallId ids front).lookup cid = some result →
        result ∈ front ++ [last] ∧ callId result = some cid :=
      fun found => ⟨List.mem_append_left _ (ih found).1, (ih found).2⟩
    rw [resultsByCallId_concat] at found
    split at found
    · rename_i other matched
      by_cases same : cid = other
      · subst same
        rw [AList.lookup_insert, Option.some.injEq] at found
        subst found
        exact ⟨by simp, (matchedId_eq_some.mp matched).1⟩
      · exact earlier (AList.lookup_insert_ne same ▸ found)
    · exact earlier found

theorem perm_resultsByCallId (distinct : (results.filterMap (matchedId ids)).Nodup) :
    ((resultsByCallId ids results).entries.map Sigma.snd).Perm
      (results.filter fun result => (matchedId ids result).isSome) := by
  induction results using List.reverseRecOn with
  | nil => rfl
  | append_singleton front last ih =>
    rw [List.filterMap_append, List.nodup_append] at distinct
    have before := ih distinct.1
    rw [resultsByCallId_concat, List.filter_append]
    cases matched : matchedId ids last with
    | none => simpa [matched] using before
    | some cid =>
      have fresh : cid ∉ resultsByCallId ids front := by
        intro mem
        exact distinct.2.2 cid (mem_resultsByCallId.mp mem) cid (by simp [matched]) rfl
      simp only [AList.entries_insert_of_notMem fresh, List.map_cons, matched, Option.isSome_some,
        List.filter_cons_of_pos, List.filter_nil]
      exact (before.cons last).trans (List.perm_append_singleton last _).symm

theorem perm_matched_unmatched : (results.filter (fun result => (matchedId ids result).isSome) ++
    unmatched ids results).Perm results := by
  have others : unmatched ids results =
      results.filter fun result => !(matchedId ids result).isSome := by
    simp only [unmatched, Option.not_isSome]
  rw [others]
  exact List.filter_append_perm _ results

end Dictionary

section Ordering

variable {baseBlocks results : List Json} {dict : AList fun _ : CallId => Json} {cid : CallId}
  {result : Json}

theorem perm_erase_of_lookup (found : dict.lookup cid = some result) :
    (dict.entries.map Sigma.snd).Perm (result :: (dict.erase cid).entries.map Sigma.snd) := by
  have same : dict.entries.Perm ((dict.erase cid).insert cid result).entries := by
    refine List.lookup_ext dict.nodupKeys (AList.nodupKeys _) fun key value => ?_
    change value ∈ dict.lookup key ↔ value ∈ ((dict.erase cid).insert cid result).lookup key
    by_cases here : key = cid
    · rw [here, found, AList.lookup_insert]
    · rw [AList.lookup_insert_ne here, AList.lookup_erase_ne here]
  have fresh : cid ∉ dict.erase cid := fun mem => (AList.mem_erase.mp mem).1 rfl
  rw [AList.entries_insert_of_notMem fresh] at same
  exact same.map Sigma.snd

theorem follow_cons {block : Json} {group : List Json} {groups : List (List Json)}
    (follow : Follow baseBlocks results groups) (listed : group.Sublist results)
    (own : ∀ result ∈ group, ∃ cid, callOf block = some cid ∧ callId result = some cid) :
    Follow (block :: baseBlocks) results (group :: groups) := by
  constructor
  · exact congrArg (· + 1) follow.length
  · rintro p mem
    rcases List.mem_cons.mp mem with rfl | mem
    · exact ⟨listed, own⟩
    · exact follow.own p mem

theorem follow_replicate : Follow baseBlocks results (List.replicate baseBlocks.length []) := by
  induction baseBlocks with
  | nil => exact ⟨rfl, by simp⟩
  | cons block rest ih => exact follow_cons ih (List.nil_sublist _) (by simp)

theorem mem_callIds_of_cons {block : Json} {rest : List Json} {key : CallId}
    (known : key ∈ callIds (block :: rest)) (other : callOf block ≠ some key) :
    key ∈ callIds rest := by
  obtain ⟨call, listed, same⟩ := List.mem_filterMap.mp known
  rcases List.mem_cons.mp listed with rfl | listed
  · exact absurd same other
  · exact List.mem_filterMap.mpr ⟨call, listed, same⟩

theorem orderBlocks_spec (known : ∀ cid ∈ dict, cid ∈ callIds baseBlocks)
    (own : ∀ cid result, dict.lookup cid = some result →
      result ∈ results ∧ callId result = some cid) :
    ∃ groups, Follow baseBlocks results groups ∧
      orderBlocks baseBlocks dict = (List.zipWith List.cons baseBlocks groups).flatten ∧
      groups.flatten.Perm (dict.entries.map Sigma.snd) := by
  induction baseBlocks generalizing dict with
  | nil =>
    have empty : dict.entries = [] := by
      by_contra some_
      obtain ⟨⟨cid, result⟩, rest, entries⟩ := List.exists_cons_of_ne_nil some_
      have key : cid ∈ dict := by
        rw [AList.mem_keys, AList.keys, entries]
        exact List.mem_cons_self
      exact absurd (known cid key) (by simp [callIds])
    exact ⟨[], ⟨rfl, by simp⟩, rfl, by simp [empty]⟩
  | cons block rest ih =>
    by_cases taken : ∃ cid result, callOf block = some cid ∧ dict.lookup cid = some result
    · obtain ⟨cid, result, call, found⟩ := taken
      have later : ∀ key ∈ dict.erase cid, key ∈ callIds rest := by
        intro key mem
        obtain ⟨differs, mem⟩ := AList.mem_erase.mp mem
        refine mem_callIds_of_cons (known key mem) fun same => differs ?_
        exact Option.some.inj (same.symm.trans call)
      have ownLater : ∀ key value, (dict.erase cid).lookup key = some value →
          value ∈ results ∧ callId value = some key := by
        intro key value kept
        by_cases here : key = cid
        · rw [here, AList.lookup_erase] at kept
          cases kept
        · exact own key value (AList.lookup_erase_ne here ▸ kept)
      obtain ⟨groups, follow, order, perm⟩ := ih later ownLater
      obtain ⟨listed, id⟩ := own cid result found
      refine ⟨[result] :: groups, follow_cons follow (List.singleton_sublist.mpr listed) ?_, ?_, ?_⟩
      · intro value only
        rw [List.mem_singleton.mp only]
        exact ⟨cid, call, id⟩
      · simp only [orderBlocks, call, found, order]
        rfl
      · rw [List.flatten_cons, List.singleton_append]
        exact (perm.cons result).trans (perm_erase_of_lookup found).symm
    · have passed : orderBlocks (block :: rest) dict = block :: orderBlocks rest dict := by
        rw [orderBlocks]
        split
        · rfl
        · rename_i cid call
          split
          · rfl
          · rename_i result found
            exact absurd ⟨cid, result, call, found⟩ taken
      have later : ∀ key ∈ dict, key ∈ callIds rest := by
        intro key mem
        refine mem_callIds_of_cons (known key mem) fun call => taken ?_
        obtain ⟨result, found⟩ := Option.isSome_iff_exists.mp (AList.lookup_isSome.mpr mem)
        exact ⟨key, result, call, found⟩
      obtain ⟨groups, follow, order, perm⟩ := ih later own
      refine ⟨[] :: groups, follow_cons follow (List.nil_sublist _) (by simp), ?_, perm⟩
      rw [passed, order]
      rfl

theorem orderBlocks_empty (empty : dict.entries = []) : orderBlocks baseBlocks dict = baseBlocks := by
  have absent : ∀ cid, dict.lookup cid = none := by
    intro cid
    rw [AList.lookup_eq_none, AList.mem_keys, AList.keys, empty]
    exact List.not_mem_nil
  induction baseBlocks with
  | nil => rfl
  | cons block rest ih =>
    rw [orderBlocks, ih]
    split
    · rfl
    · rw [absent]

end Ordering

section Stored

variable {baseBlocks results : List Json} {b : Builtins} {cid : CallId}

theorem known_of_mem (ids : List CallId) (mem : cid ∈ resultsByCallId ids results) : cid ∈ ids := by
  obtain ⟨result, -, matched⟩ := List.mem_filterMap.mp (mem_resultsByCallId.mp mem)
  exact (matchedId_eq_some.mp matched).2

/-- Where nothing raises, the list is that of the loop with the other results at its end. -/
theorem interleaveBlocks_of_lookable (some_ : results ≠ [])
    (blocks : ∀ block ∈ baseBlocks, block.isObj ∧ (isToolCall block → lookable block))
    (ids : ∀ result ∈ results, lookable result) :
    interleaveBlocks baseBlocks results =
      some (orderBlocks baseBlocks (resultsByCallId (callIds baseBlocks) results) ++
        unmatched (callIds baseBlocks) results) := by
  have readable : ((baseBlocks.all fun block =>
      block.isObj && (!isToolCall block || lookable block)) && results.all lookable) = true := by
    simp only [Bool.and_eq_true, List.all_eq_true, Bool.or_eq_true, Bool.not_eq_true',
      Bool.eq_false_iff]
    refine ⟨fun block mem => ⟨(blocks block mem).1, ?_⟩, ids⟩
    exact or_iff_not_imp_left.mpr fun call => (blocks block mem).2 (not_not.mp call)
  have filled : results.isEmpty = false := List.isEmpty_eq_false_iff.mpr some_
  rw [interleaveBlocks, filled, readable]
  simp only [Bool.false_eq_true, if_false, if_true]
  split
  · rename_i none_
    have empty := List.isEmpty_iff.mp none_
    have apart : ∀ result ∈ results, (matchedId (callIds baseBlocks) result).isNone := by
      intro result mem
      rw [Option.isNone_iff_eq_none]
      by_contra matched
      obtain ⟨cid, matched⟩ := Option.ne_none_iff_exists'.mp matched
      have key := mem_resultsByCallId.mpr (List.mem_filterMap.mpr ⟨result, mem, matched⟩)
      rw [AList.mem_keys, AList.keys, empty] at key
      cases key
    rw [orderBlocks_empty empty, unmatched, List.filter_eq_self.mpr apart]
  · rfl

/-- The stored list is what the base blocks and the dictionary hold, with the results of no
call. -/
theorem interleaved_spec (baseBlocks results : List Json) :
    ∃ groups, Follow baseBlocks results groups ∧
      orderBlocks baseBlocks (resultsByCallId (callIds baseBlocks) results) =
        (List.zipWith List.cons baseBlocks groups).flatten ∧
      groups.flatten.Perm
        ((resultsByCallId (callIds baseBlocks) results).entries.map Sigma.snd) :=
  orderBlocks_spec (fun _ mem => known_of_mem _ mem) fun _ _ found => of_lookup_resultsByCallId found

theorem stored_of_unambiguous (unambiguous : Unambiguous baseBlocks results) :
    ∃ stored, interleaveBlocks baseBlocks results = some stored ∧
      StoredNextToCalls baseBlocks results stored := by
  by_cases none_ : results = []
  · subst none_
    refine ⟨baseBlocks, rfl, by simp, List.replicate baseBlocks.length [], follow_replicate, ?_⟩
    rw [zipWith_cons_nil]
    simp [unmatched]
  · obtain ⟨blocks, ids, distinct⟩ := unambiguous none_
    obtain ⟨groups, follow, order, perm⟩ := interleaved_spec baseBlocks results
    refine ⟨_, interleaveBlocks_of_lookable none_ blocks ids, ?_, groups, follow, ?_⟩
    · rw [order]
      have kept := perm.trans (perm_resultsByCallId distinct)
      refine ((perm_flatten_zipWith_cons follow.length).append_right _).trans ?_
      rw [List.append_assoc]
      exact ((kept.append_right _).trans perm_matched_unmatched).append_left _
    · rw [order]

theorem length_matched (ids : List CallId) (results : List Json) :
    (results.filterMap (matchedId ids)).length + (unmatched ids results).length =
      results.length := by
  have perm : (_ ++ unmatched ids results).Perm results := perm_matched_unmatched
  rw [← perm.length_eq, List.length_append, List.length_filterMap_eq_countP,
    List.countP_eq_length_filter]

/-- As many results are kept as there are ids, so of two under one id the first is lost. -/
theorem unambiguous_of_stored {stored : List Json}
    (returned : interleaveBlocks baseBlocks results = some stored)
    (conserved : stored.Perm (baseBlocks ++ results)) : Unambiguous baseBlocks results := by
  intro some_
  have readable : (∀ block ∈ baseBlocks, block.isObj ∧ (isToolCall block → lookable block)) ∧
      ∀ result ∈ results, lookable result := by
    rw [interleaveBlocks, List.isEmpty_eq_false_iff.mpr some_] at returned
    simp only [Bool.false_eq_true, if_false, Option.ite_none_right_eq_some] at returned
    obtain ⟨blocks, ids⟩ := Bool.and_eq_true_iff.mp returned.1
    refine ⟨fun block mem => ?_, List.all_eq_true.mp ids⟩
    have checked := List.all_eq_true.mp blocks block mem
    rw [Bool.and_eq_true, Bool.or_eq_true, Bool.not_eq_true'] at checked
    exact ⟨checked.1, fun call => checked.2.resolve_left (by simp [call])⟩
  refine ⟨readable.1, readable.2, ?_⟩
  obtain ⟨groups, follow, order, perm⟩ := interleaved_spec baseBlocks results
  rw [interleaveBlocks_of_lookable some_ readable.1 readable.2, Option.some.injEq] at returned
  have total := conserved.length_eq
  rw [← returned, order, List.length_append, List.length_append,
    (perm_flatten_zipWith_cons follow.length).length_eq, List.length_append, perm.length_eq,
    List.length_map, ← length_matched (callIds baseBlocks) results] at total
  -- the keys are distinct, are ids of results and are as many as these
  have keys := (resultsByCallId (callIds baseBlocks) results).keys_nodup
  have within : (resultsByCallId (callIds baseBlocks) results).keys ⊆
      results.filterMap (matchedId (callIds baseBlocks)) :=
    fun cid mem => mem_resultsByCallId.mp mem
  have short : (results.filterMap (matchedId (callIds baseBlocks))).length ≤
      (resultsByCallId (callIds baseBlocks) results).keys.length := by
    rw [AList.keys, List.keys, List.length_map]
    omega
  exact ((List.subperm_of_subset keys within).perm_of_length_le short).nodup_iff.mp keys

/-- Results are stored next to their calls exactly where no id can be mistaken. -/
theorem stored_next_to_calls_iff (baseBlocks results : List Json) :
    (∃ stored, interleaveBlocks baseBlocks results = some stored ∧
      StoredNextToCalls baseBlocks results stored) ↔ Unambiguous baseBlocks results := by
  constructor
  · rintro ⟨stored, returned, conserved, -⟩
    exact unambiguous_of_stored returned conserved
  · exact stored_of_unambiguous

theorem nonemptyText_cases (j : Json) :
    nonemptyText j = none ∨ ∃ text, nonemptyText j = some (.str text) := by
  unfold nonemptyText
  split
  · exact .inl rfl
  · exact .inr ⟨_, rfl⟩
  · exact .inl rfl

theorem find?_optionalField {key other : String} (value : Option Json) (differs : key ≠ other) :
    (optionalField key value).find? (fun entry => entry.1 = other) = none := by
  cases value <;> simp [optionalField, differs]

theorem toolResultBlock_callId {call block : Json} (built : toolResultBlock call = some block) :
    block.isObj ∧ block.get "callId" = (nonemptyText (call.get "tool_call_id")).getD .null := by
  rw [toolResultBlock] at built
  generalize nonemptyText (call.get "tool_call_id") = id at built ⊢
  generalize nonemptyText (call.get "name") = name at built
  generalize nonemptyItems (call.get "ui_blocks") = ui at built
  generalize nonemptyEntries (call.get "debug") = debug at built
  split at built
  · split at built
    · cases built
    · obtain rfl := Option.some.inj built
      refine ⟨rfl, ?_⟩
      cases id <;> simp [Json.get, Json.get?, List.find?_append, find?_optionalField] <;>
        simp [optionalField]
  · cases built

theorem lookable_of_mem_buildToolResultBlocks {log result : Json}
    (mem : result ∈ buildToolResultBlocks log) : lookable result := by
  obtain ⟨call, -, built⟩ := List.mem_filterMap.mp mem
  obtain ⟨isObj, id⟩ := toolResultBlock_callId built
  obtain absent | ⟨text, given⟩ := nonemptyText_cases (call.get "tool_call_id")
  · simp [lookable, isObj, id, absent, Json.truthy]
  · simp [lookable, isObj, id, given, hashable]

theorem appendToolResultBlocks_stores {log : Json} {message info : List (String × Json)}
    {blocks : List Json}
    (hasInfo : (Json.obj message).get "meta_info" = .obj info)
    (hasBlocks : (Json.obj info).get "blocks" = .arr blocks)
    (some_ : buildToolResultBlocks log ≠ [])
    (unambiguous : Unambiguous blocks (buildToolResultBlocks log)) :
    ∃ stored, appendToolResultBlocks b (.obj message) log =
        some ((Json.obj message).set "meta_info" ((Json.obj info).set "blocks" (.arr stored))) ∧
      StoredNextToCalls blocks (buildToolResultBlocks log) stored := by
  obtain ⟨stored, returned, next⟩ := stored_of_unambiguous unambiguous
  refine ⟨stored, ?_, next⟩
  simp [appendToolResultBlocks, Json.isObj, some_, hasInfo, hasBlocks, returned]

end Stored

section Repeated

/-- One call of a weather tool that is repeated in a later turn under the same id. -/
def repeatedCall : List Json :=
  [.obj [("type", .str "tool_call"), ("toolName", .str "weather"), ("callId", .str "call_0")]]

def repeatedResult (text : String) : Json :=
  .obj [("type", .str "tool_result"), ("result", .str text), ("callId", .str "call_0")]

/-- The first of the two results is not stored. -/
theorem first_result_lost :
    interleaveBlocks repeatedCall [repeatedResult "rain", repeatedResult "sun"] =
        some (repeatedCall ++ [repeatedResult "sun"]) ∧
      ¬ ∃ stored, interleaveBlocks repeatedCall [repeatedResult "rain", repeatedResult "sun"] =
          some stored ∧
        StoredNextToCalls repeatedCall [repeatedResult "rain", repeatedResult "sun"] stored := by
  have answer : interleaveBlocks repeatedCall [repeatedResult "rain", repeatedResult "sun"] =
      some (repeatedCall ++ [repeatedResult "sun"]) := rfl
  refine ⟨answer, ?_⟩
  rintro ⟨stored, returned, conserved, -⟩
  rw [answer, Option.some.injEq] at returned
  have short := conserved.length_eq
  rw [← returned] at short
  exact absurd short (by decide)

end Repeated

end Interleaving

end Deeting.Conversation
