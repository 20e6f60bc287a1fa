import Deeting.Agent.ToolLoop
import Deeting.Counting
import Deeting.Transition
import Deeting.Uuid

/-! Whose rights code mode acts with. A workflow context comes from a request, from a stored
execution that is replayed, or from the claims of an execution token; a bridge call looks for
one in the table of the process first, under the trace id of its claims. Which steps of a
plan are dispatched and whether a bridge call is granted are modeled elsewhere. -/
namespace Deeting.CodeMode.Ownership

open Agent (Builtins stripText stripText_of_plain)
open Transition

/-- What a context says its user may do. Absent lists and empty ones are the same to their
readers. -/
structure Rights where
  tenantId : Json := .null
  apiKeyId : Json := .null
  scopes : List String := []
  allowedModels : List String := []

/-- `WorkflowContext`; `replayed` says whether it goes back to a stored execution. -/
structure Context where
  userId : Option Uuid
  sessionId : String
  traceId : String
  capability : Json := .null
  requestedModel : Json := .null
  rights : Rights
  replayed : Bool := false

/-- `RuntimeBridgeClaims` as `consume_call` returns them. -/
structure Claims where
  userId : Option Uuid
  sessionId : String
  traceId : Option String
  tenantId : Option String
  apiKeyId : Option String
  capability : Option String
  requestedModel : Option String
  scopes : List String
  allowedModels : List String
  replayed : Bool

/-- `CodeModeExecution`. -/
structure Execution where
  userId : Uuid
  sessionId : String
  executionId : String
  runtimeContext : Json

/-- `CodeModeSyncExecutionInput`. -/
structure SyncInput where
  executionId : String
  sessionId : String
  code : Option String
  runtimeContext : Json

/-- How far `handle_execute_code_plan` comes: whether it dispatches a step of the plan and
whether it issues a token. -/
structure Attempt where
  executionId : Uuid
  dispatches : Bool
  issues : Bool

structure Act where
  user : Uuid
  context : Context

/-- The contexts ever made, the table of the active ones, the stores of executions and tokens.
The last two fields are for the statements: the rights that the server has attached to
requests of a user, and the tools executed by replays and bridge calls. -/
structure World where
  contexts : List Context := []
  active : String → Option ℕ := fun _ => none
  executions : List Execution := []
  tokens : List Claims := []
  attached : List (Uuid × Rights) := []
  acts : List Act := []

/-- `granted` says whether address, token and onboarding let the bridge call pass. -/
inductive Action where
  | request (userId tenantId apiKeyId : Option Uuid) (scopes allowedModels : List String)
      (sessionId traceId : String) (capability requestedModel : Option String)
  | release (n : ℕ)
  | execute (n : ℕ) (sessionId : String) (attempt : Attempt)
  | sync (userId : Uuid) (inputs : List SyncInput)
  | replay (userId : Uuid) (n : ℕ) (sessionId : Option String) (traceId : Uuid) (attempt : Attempt)
  | call (n : ℕ) (toolName : String) (granted : Bool)

/-- An attribute that is `None` or a text. -/
def orNull (value : Option String) : Json := value.elim .null .str

section Claims
variable (b : Builtins)

def asOptionalStr : Json → Option String
  | .null => none
  | j =>
      let text := stripText (b.str j)
      if text = "" then none else some text

/-- The claims of `_issue_runtime_bridge_context`, as they are read back. -/
def issueClaims (c : Context) (sessionId : String) : Claims where
  userId := c.userId
  sessionId := sessionId
  traceId := asOptionalStr b (.str c.traceId)
  tenantId := asOptionalStr b c.rights.tenantId
  apiKeyId := asOptionalStr b c.rights.apiKeyId
  capability := asOptionalStr b c.capability
  requestedModel := asOptionalStr b c.requestedModel
  scopes := c.rights.scopes
  allowedModels := c.rights.allowedModels
  replayed := c.replayed

end Claims

namespace Claims

def rights (claims : Claims) : Rights :=
  ⟨orNull claims.tenantId, orNull claims.apiKeyId, claims.scopes, claims.allowedModels⟩

/-- The context that `_dispatch_code_mode_tool` makes of the claims. -/
def context (claims : Claims) : Context where
  userId := claims.userId
  sessionId := claims.sessionId
  traceId := claims.traceId.getD ""
  capability := orNull claims.capability
  requestedModel := orNull claims.requestedModel
  rights := claims.rights
  replayed := claims.replayed

/-- `_extract_scope_values`. -/
def scopeValues (scopes : List String) (scopeType : String) : List String :=
  scopes.filterMap fun raw =>
    let item := (stripText raw).toList
    let value := stripText (String.ofList ((item.dropWhile (· ≠ ':')).drop 1))
    if ':' ∈ item ∧ stripText (String.ofList (item.takeWhile (· ≠ ':'))) = scopeType ∧ value ≠ ""
    then some value else none

def within (value : String) (allowed : List String) : Bool :=
  allowed.isEmpty || (value ≠ "" && allowed.contains value)

/-- `_enforce_claim_permissions`. -/
def permits (claims : Claims) : Bool :=
  let requestedModel := stripText (claims.requestedModel.getD "")
  let capability := stripText (claims.capability.getD "")
  let allowedModels := (claims.allowedModels.map stripText).filter (· ≠ "")
  within requestedModel allowedModels &&
    within requestedModel (scopeValues claims.scopes "model") &&
    within capability (scopeValues claims.scopes "capability")

/-- The checks of `code_mode_call_tool` between the token and the dispatch. -/
def admits (claims : Claims) (toolName : String) : Bool :=
  let toolName := stripText toolName
  claims.sessionId ≠ "" && toolName ≠ "" &&
    ! (["search_sdk", "execute_code_plan"].contains toolName) && claims.permits

end Claims

/-- `_build_runtime_meta`: what the server itself stores of a run says nothing of rights. -/
def runtimeMeta (executionId : Uuid) (sessionId : String) (userId : Uuid) : Json :=
  .obj [("execution_id", .str executionId.hex), ("session_id", .str sessionId),
    ("user_id", .str userId.text)]

/-- The rights that `_build_replay_context` finds in a stored execution. -/
def Execution.rights (b : Builtins) (record : Execution) : Rights :=
  let identity := record.runtimeContext.get "identity"
  let permissions := record.runtimeContext.get "permissions"
  { tenantId := identity.get "tenant_id"
    apiKeyId := identity.get "api_key_id"
    scopes := (permissions.get "scopes").items.map b.str
    allowedModels := (permissions.get "allowed_models").items.map b.str }

def buildReplayContext (b : Builtins) (record : Execution) (userId : Uuid) (sessionId : String)
    (traceId : Uuid) : Context where
  userId := some userId
  sessionId := sessionId
  traceId := traceId.hex
  capability := (record.runtimeContext.get "request").get "capability"
  requestedModel := (record.runtimeContext.get "request").get "requested_model"
  rights := record.rights b
  replayed := true

namespace World

/-- `WorkflowContext(…)`, which enters itself under its trace id. -/
def register (w : World) (c : Context) : World :=
  { w with
    contexts := w.contexts ++ [c]
    active := if c.traceId = "" then w.active
      else Function.update w.active c.traceId (some w.contexts.length) }

def release (w : World) (n : ℕ) : World :=
  { w with active := fun key => (w.active key).filter (· ≠ n) }

def getActive (w : World) (traceId : Option String) : Option Context :=
  traceId.bind fun traceId => (w.active traceId).bind fun n => w.contexts[n]?

/-- The end of `handle_execute_code_plan`: the token, and the stored execution. -/
def finish (b : Builtins) (w : World) (c : Context) (sessionId : String) (attempt : Attempt) :
    World :=
  { w with
    tokens := if attempt.issues then w.tokens ++ [issueClaims b c sessionId] else w.tokens
    executions := match c.userId with
      | some userId => w.executions ++
          [⟨userId, sessionId, attempt.executionId.hex,
            runtimeMeta attempt.executionId sessionId userId⟩]
      | none => w.executions }

/-- What an item of `sync_code_mode_executions` adds, if it is complete and new. -/
def synced (w : World) (userId : Uuid) (input : SyncInput) : Option Execution :=
  let executionId := stripText input.executionId
  let sessionId := stripText input.sessionId
  let known := w.executions.any fun record =>
    record.userId = userId ∧ record.executionId = executionId
  let written := stripText (input.code.getD "")
  let code := if written ≠ "" then written
    else ((input.runtimeContext.get "code").string?).getD ""
  if executionId = "" ∨ sessionId = "" ∨ known = true ∨ code = "" then none
  else some ⟨userId, sessionId, executionId, input.runtimeContext⟩

def syncOne (userId : Uuid) (w : World) (input : SyncInput) : World :=
  { w with executions := w.executions ++ (w.synced userId input).toList }

def attach (w : World) (userId : Option Uuid) (rights : Rights) : World :=
  match userId with
  | some userId => { w with attached := w.attached ++ [(userId, rights)] }
  | none => w

def act (w : World) (user : Uuid) (context : Context) : World :=
  { w with acts := w.acts ++ [⟨user, context⟩] }

/-- `_dispatch_code_mode_tool`. -/
def dispatch (w : World) (claims : Claims) (user : Uuid) : World :=
  match w.getActive claims.traceId with
  | some c => w.act user c
  | none => (w.register claims.context).act user claims.context

end World

/-- A replay of an execution that is not the user's, or not there, is answered 404. -/
def step (b : Builtins) (w : World) : Action → Option World
  | .request userId tenantId apiKeyId scopes allowedModels sessionId traceId capability model =>
      let rights : Rights :=
        ⟨orNull (tenantId.map Uuid.text), orNull (apiKeyId.map Uuid.text), scopes,
          allowedModels⟩
      some ((w.attach userId rights).register
        { userId, sessionId, traceId, capability := orNull capability
          requestedModel := orNull model, rights })
  | .release n => some (w.release n)
  | .execute n sessionId attempt =>
      w.contexts[n]?.map fun c => w.finish b c sessionId attempt
  | .sync userId inputs => some (inputs.foldl (World.syncOne userId) w)
  | .replay userId n sessionId traceId attempt =>
      (w.executions[n]?.filter fun record => record.userId = userId).map fun record =>
        let sessionId := (sessionId.filter (· ≠ "")).getD record.sessionId
        let c := buildReplayContext b record userId sessionId traceId
        let w := if attempt.dispatches then (w.register c).act userId c else w.register c
        w.finish b c sessionId attempt
  | .call n toolName granted =>
      match w.tokens[n]? with
      | none => some w
      | some claims =>
          match claims.userId with
          | none => some w
          | some user =>
              if granted = true ∧ claims.admits toolName = true then some (w.dispatch claims user)
              else some w

def World.Attached (w : World) (user : Uuid) (rights : Rights) : Prop :=
  rights = {} ∨ (user, rights) ∈ w.attached

/-- Every tool was executed with a context of its user and with rights the server attached. -/
def World.Owned (w : World) : Prop :=
  ∀ act ∈ w.acts, act.context.userId = some act.user ∧ w.Attached act.user act.context.rights

/-- A replay that dispatches is of an execution stored with rights the server attached, and
a bridge call finds no context of another user, nor one, or claims, that go back to a stored
execution with other rights. -/
def Rightful (b : Builtins) (w : World) : Action → Prop
  | .replay userId n _ _ attempt =>
      attempt.dispatches = true → ∀ record, w.executions[n]? = some record →
        record.userId = userId → w.Attached userId (record.rights b)
  | .call n toolName granted =>
      ∀ claims user, w.tokens[n]? = some claims → claims.userId = some user → granted = true →
        claims.admits toolName = true →
        match w.getActive claims.traceId with
        | some c => c.userId = some user ∧ (c.replayed = true → w.Attached user c.rights)
        | none => claims.replayed = true → w.Attached user claims.rights
  | _ => True

section Claims
variable {b : Builtins}

theorem mem_dashed {sizes : List ℕ} {digits : List Char} {c : Char}
    (mem : c ∈ Uuid.dashed sizes digits) : c = '-' ∨ c ∈ digits := by
  induction sizes generalizing digits with
  | nil => exact .inr mem
  | cons size sizes ih =>
    rcases List.mem_append.mp mem with first | later
    · exact .inr (List.mem_of_mem_take first)
    · rcases List.mem_cons.mp later with dash | later
      · exact .inl dash
      · exact (ih later).imp_right List.mem_of_mem_drop

theorem asOptionalStr_text (u : Uuid) : asOptionalStr b (.str u.text) = some u.text := by
  have plain : ∀ c ∈ u.text.toList, Stream.isSpace c = false := by
    intro c mem
    rw [Uuid.text, String.toList_ofList] at mem
    rcases mem_dashed mem with rfl | digit
    · decide
    · obtain ⟨d, _, rfl⟩ := List.mem_map.mp digit
      have digits : ∀ d, Stream.isSpace (Uuid.hexDigit d) = false := by decide
      exact digits d
  have same : stripText u.text = u.text := stripText_of_plain plain
  have filled : u.text ≠ "" := by
    intro empty
    have chars := congrArg String.toList empty
    rw [Uuid.text, String.toList_ofList] at chars
    simp [Uuid.dashed] at chars
  simp only [asOptionalStr, Builtins.str, same, filled, if_false]

def Rights.Plain (b : Builtins) (rights : Rights) : Prop :=
  orNull (asOptionalStr b rights.tenantId) = rights.tenantId ∧
    orNull (asOptionalStr b rights.apiKeyId) = rights.apiKeyId

theorem plain_of_ids (tenantId apiKeyId : Option Uuid) (scopes allowedModels : List String) :
    Rights.Plain b ⟨orNull (tenantId.map Uuid.text), orNull (apiKeyId.map Uuid.text), scopes,
      allowedModels⟩ := by
  have reads (id : Option Uuid) :
      orNull (asOptionalStr b (orNull (id.map Uuid.text))) = orNull (id.map Uuid.text) := by
    cases id with
    | none => rfl
    | some u => exact congrArg orNull (asOptionalStr_text u)
  exact ⟨reads tenantId, reads apiKeyId⟩

theorem rights_issueClaims {c : Context} (plain : c.rights.Plain b) (sessionId : String) :
    (issueClaims b c sessionId).rights = c.rights := by
  obtain ⟨tenant, key⟩ := plain
  simp only [Claims.rights, issueClaims, tenant, key]

end Claims

section Steps
variable {b : Builtins} {w t : World} {c : Context} {a : Action}

structure Honest (b : Builtins) (w : World) : Prop where
  contexts : ∀ c ∈ w.contexts, c.replayed = false → ∀ user, c.userId = some user →
    w.Attached user c.rights
  tokens : ∀ claims ∈ w.tokens, claims.replayed = false → ∀ user, claims.userId = some user →
    w.Attached user claims.rights
  plain : ∀ entry ∈ w.attached, entry.2.Plain b

theorem Honest.plain_of_attached (honest : Honest b w) {user : Uuid} {rights : Rights}
    (attached : w.Attached user rights) : rights.Plain b := by
  rcases attached with rfl | listed
  · exact ⟨rfl, rfl⟩
  · exact honest.plain _ listed

theorem Honest.register (honest : Honest b w)
    (own : c.replayed = false → ∀ user, c.userId = some user → w.Attached user c.rights) :
    Honest b (w.register c) :=
  ⟨Counting.forall_mem_concat honest.contexts own, honest.tokens, honest.plain⟩

theorem Honest.finish (honest : Honest b w)
    (own : c.replayed = false → ∀ user, c.userId = some user → w.Attached user c.rights)
    (sessionId : String) (attempt : Attempt) : Honest b (w.finish b c sessionId attempt) := by
  refine ⟨honest.contexts, ?_, honest.plain⟩
  rw [World.finish]
  cases attempt.issues with
  | false => exact honest.tokens
  | true =>
    refine Counting.forall_mem_concat honest.tokens fun fresh user known => ?_
    have attached := own fresh user known
    rw [rights_issueClaims (honest.plain_of_attached attached)]
    exact attached

theorem Honest.attach (honest : Honest b w) (userId : Option Uuid) {rights : Rights}
    (plain : rights.Plain b) : Honest b (w.attach userId rights) := by
  cases userId with
  | none => exact honest
  | some user =>
    have more (other : Uuid) (r : Rights) (attached : w.Attached other r) :
        (w.attach (some user) rights).Attached other r :=
      attached.imp id fun listed => List.mem_append_left _ listed
    exact ⟨fun c mem fresh u known => more u _ (honest.contexts c mem fresh u known),
      fun t mem fresh u known => more u _ (honest.tokens t mem fresh u known),
      Counting.forall_mem_concat honest.plain plain⟩

theorem Honest.dispatch (honest : Honest b w) {claims : Claims} (listed : claims ∈ w.tokens)
    (user : Uuid) : Honest b (w.dispatch claims user) := by
  rw [World.dispatch]
  split
  · exact ⟨honest.contexts, honest.tokens, honest.plain⟩
  · have made := honest.register (c := claims.context) (honest.tokens claims listed)
    exact ⟨made.contexts, made.tokens, made.plain⟩

theorem sync_cases (userId : Uuid) (w : World) (inputs : List SyncInput) :
    ∃ executions, inputs.foldl (World.syncOne userId) w = { w with executions } := by
  induction inputs generalizing w with
  | nil => exact ⟨w.executions, rfl⟩
  | cons input rest ih =>
    obtain ⟨executions, rest⟩ := ih (w.syncOne userId input)
    exact ⟨executions, rest⟩

theorem Honest.step (honest : Honest b w) (taken : step b w a = some t) : Honest b t := by
  cases a with
  | request userId tenantId apiKeyId scopes allowedModels sessionId traceId capability model =>
    cases taken
    refine (honest.attach userId (plain_of_ids tenantId apiKeyId scopes allowedModels)).register ?_
    rintro - user rfl
    exact .inr (List.mem_append_right _ (List.mem_singleton_self _))
  | release n =>
    cases taken
    exact ⟨honest.contexts, honest.tokens, honest.plain⟩
  | execute n sessionId attempt =>
    obtain ⟨c, there, rfl⟩ := Option.map_eq_some_iff.mp taken
    exact honest.finish (honest.contexts c (List.mem_of_getElem? there)) sessionId attempt
  | sync userId inputs =>
    obtain ⟨executions, synced⟩ := sync_cases userId w inputs
    simp only [Ownership.step, synced, Option.some.injEq] at taken
    cases taken
    exact ⟨honest.contexts, honest.tokens, honest.plain⟩
  | replay userId n sessionId traceId attempt =>
    obtain ⟨record, _, rfl⟩ := Option.map_eq_some_iff.mp taken
    have replayed (session : String) : ∀ w : World,
        (buildReplayContext b record userId session traceId).replayed = false → ∀ user,
          (buildReplayContext b record userId session traceId).userId = some user →
          w.Attached user (buildReplayContext b record userId session traceId).rights :=
      fun _ no => by cases no
    refine Honest.finish ?_ (replayed _ _) _ attempt
    have made := honest.register (replayed ((sessionId.filter (· ≠ "")).getD record.sessionId) w)
    split
    · exact ⟨made.contexts, made.tokens, made.plain⟩
    · exact made
  | call n toolName granted =>
    simp only [Ownership.step] at taken
    split at taken
    · cases taken
      exact honest
    · rename_i claims there
      split at taken
      · cases taken
        exact honest
      · split at taken <;> cases taken
        · exact honest.dispatch (List.mem_of_getElem? there) _
        · exact honest

theorem owned_act (owned : w.Owned) (user : Uuid) (c : Context) :
    (w.act user c).Owned ↔ c.userId = some user ∧ w.Attached user c.rights := by
  constructor
  · intro after
    exact after ⟨user, c⟩ (List.mem_append_right _ (List.mem_singleton_self _))
  · exact fun own => Counting.forall_mem_concat owned own

theorem mem_of_getActive {traceId : Option String} (found : w.getActive traceId = some c) :
    c ∈ w.contexts := by
  obtain ⟨key, _, found⟩ := Option.bind_eq_some_iff.mp found
  obtain ⟨n, _, there⟩ := Option.bind_eq_some_iff.mp found
  exact List.mem_of_getElem? there

/-- A bridge call: the context of its own, or the one that is active under its trace id. -/
theorem owned_dispatch (honest : Honest b w) (owned : w.Owned) {claims : Claims} {user : Uuid}
    (listed : claims ∈ w.tokens) (known : claims.userId = some user) :
    (w.dispatch claims user).Owned ↔
      match w.getActive claims.traceId with
      | some c => c.userId = some user ∧ (c.replayed = true → w.Attached user c.rights)
      | none => claims.replayed = true → w.Attached user claims.rights := by
  rw [World.dispatch]
  cases active : w.getActive claims.traceId with
  | some c =>
    refine (owned_act owned user c).trans (and_congr_right fun own => ?_)
    refine ⟨fun attached _ => attached, fun stored => ?_⟩
    cases origin : c.replayed with
    | true => exact stored origin
    | false => exact honest.contexts c (mem_of_getActive active) origin user own
  | none =>
    have acted : _ ↔ _ ∧ w.Attached user claims.rights :=
      owned_act (w := w.register claims.context) owned user claims.context
    refine acted.trans ⟨fun both _ => both.2, fun stored => ⟨known, ?_⟩⟩
    cases origin : claims.replayed with
    | true => exact stored origin
    | false => exact honest.tokens claims listed origin user known

theorem owned_replay (owned : w.Owned) {userId : Uuid} {n : ℕ} {sessionId : Option String}
    {traceId : Uuid} {attempt : Attempt}
    (taken : step b w (.replay userId n sessionId traceId attempt) = some t) :
    t.Owned ↔ Rightful b w (.replay userId n sessionId traceId attempt) := by
  obtain ⟨record, found, rfl⟩ := Option.map_eq_some_iff.mp taken
  obtain ⟨there, own⟩ := Option.filter_eq_some_iff.mp found
  have same : record.userId = userId := by simpa using own
  have rightful : Rightful b w (.replay userId n sessionId traceId attempt) ↔
      (attempt.dispatches = true → w.Attached userId (record.rights b)) := by
    simp only [Rightful, there, Option.some.injEq, forall_eq', same, true_imp_iff]
  rw [rightful]
  cases attempt.dispatches with
  | false => exact iff_of_true owned (by simp)
  | true =>
    let c := buildReplayContext b record userId
      ((sessionId.filter (· ≠ "")).getD record.sessionId) traceId
    have acted : _ ↔ _ ∧ w.Attached userId (record.rights b) :=
      owned_act (w := w.register c) owned userId c
    exact acted.trans ⟨fun both _ => both.2, fun attached => ⟨rfl, attached rfl⟩⟩

theorem rightful_call_iff {n : ℕ} {toolName : String} {granted : Bool} {claims : Claims}
    {user : Uuid} (there : w.tokens[n]? = some claims) (known : claims.userId = some user) :
    Rightful b w (.call n toolName granted) ↔
      (granted = true → claims.admits toolName = true →
        match w.getActive claims.traceId with
        | some c => c.userId = some user ∧ (c.replayed = true → w.Attached user c.rights)
        | none => claims.replayed = true → w.Attached user claims.rights) := by
  refine ⟨fun rightful => rightful claims user there known, ?_⟩
  intro own other u listed same
  rw [there] at listed
  cases listed
  rw [known] at same
  cases same
  exact own

theorem owned_call (honest : Honest b w) (owned : w.Owned) {n : ℕ} {toolName : String}
    {granted : Bool} (taken : step b w (.call n toolName granted) = some t) :
    t.Owned ↔ Rightful b w (.call n toolName granted) := by
  simp only [Ownership.step] at taken
  split at taken
  · rename_i absent
    cases taken
    exact iff_of_true owned fun claims user there => by simp [absent] at there
  rename_i claims there
  split at taken
  · rename_i unknown
    cases taken
    refine iff_of_true owned fun other user listed known => ?_
    rw [there] at listed
    cases listed
    rw [unknown] at known
    cases known
  rename_i user known
  rw [rightful_call_iff there known]
  split at taken <;> rename_i admitted <;> cases taken
  · rw [owned_dispatch honest owned (List.mem_of_getElem? there) known]
    exact ⟨fun own _ _ => own, fun own => own admitted.1 admitted.2⟩
  · exact iff_of_true owned fun yes admits => absurd ⟨yes, admits⟩ admitted

theorem owned_step (honest : Honest b w) (owned : w.Owned) (taken : step b w a = some t) :
    t.Owned ↔ Rightful b w a := by
  cases a with
  | request userId tenantId apiKeyId scopes allowedModels sessionId traceId capability model =>
    cases taken
    refine iff_of_true ?_ trivial
    cases userId with
    | none => exact owned
    | some user =>
      exact fun act mem => ⟨(owned act mem).1, (owned act mem).2.imp id
        fun listed => List.mem_append_left _ listed⟩
  | release n =>
    cases taken
    exact iff_of_true owned trivial
  | execute n sessionId attempt =>
    obtain ⟨c, _, rfl⟩ := Option.map_eq_some_iff.mp taken
    exact iff_of_true owned trivial
  | sync userId inputs =>
    obtain ⟨executions, synced⟩ := sync_cases userId w inputs
    simp only [Ownership.step, synced, Option.some.injEq] at taken
    cases taken
    exact iff_of_true owned trivial
  | replay userId n sessionId traceId attempt => exact owned_replay owned taken
  | call n toolName granted => exact owned_call honest owned taken

theorem rightful_of_refused (refused : step b w a = none) : Rightful b w a := by
  cases a with
  | replay userId n sessionId traceId attempt =>
    intro _ record there own
    have found : w.executions[n]?.filter (fun record => record.userId = userId) = some record :=
      Option.filter_eq_some_iff.mpr ⟨there, by simpa using own⟩
    simp [step, found] at refused
  | call n toolName granted =>
    simp only [step] at refused
    split at refused
    · cases refused
    · split at refused
      · cases refused
      · split at refused <;> cases refused
  | _ => trivial

end Steps

/-- In a run code mode acts with its owner's rights throughout if and only if every step is
rightful. -/
theorem owned_throughout_iff (b : Builtins) (actions : List Action) :
    (∀ first, first <+: actions → ∀ t, run (step b) {} first = some t → t.Owned) ↔
      Along (step b) (Rightful b) {} actions := by
  refine forall_prefix_iff_along (P := fun w => Honest b w ∧ w.Owned) And.right
    (fun held ok taken => ⟨held.1.step taken, (owned_step held.1 held.2 taken).mpr ok⟩)
    (fun held taken owned => (owned_step held.1 held.2 taken).mp owned) rightful_of_refused ?_
  exact ⟨⟨by simp, by simp, by simp⟩, by simp [World.Owned]⟩

/-- A user stores an execution under another tenant, with any scope, and replays it. -/
def borrowedRun : List Action :=
  [.sync (.repeated 1) [⟨"e", "s", some "pass", .obj [
      ("identity", .obj [("tenant_id", .str "other")]),
      ("permissions", .obj [("scopes", .arr [.str "provider:all"])])]⟩],
    .replay (.repeated 1) 0 none (.repeated 2) ⟨.repeated 3, true, false⟩]

/-- Two requests under one trace id; the token of the first is used in the second. -/
def collidingRun : List Action :=
  [.request (some (.repeated 1)) none none [] [] "s" "trace" none none,
    .execute 0 "s" ⟨.repeated 3, false, true⟩,
    .request (some (.repeated 2)) none none [] [] "s" "trace" none none,
    .call 0 "tool" true]

/-- The tools executed: for whom, as whom and with which scopes. -/
def World.summary (w : World) : List (Uuid × Option Uuid × List String) :=
  w.acts.map fun act => (act.user, act.context.userId, act.context.rights.scopes)

/-- The first executes with scopes that the user has uploaded, the second as another user. -/
theorem acts_with_foreign_rights :
    (∃ t, run (step Agent.flatBuiltins) {} borrowedRun = some t ∧
      t.summary = [(.repeated 1, some (.repeated 1), ["provider:all"])] ∧ t.attached = [] ∧
      ¬ t.Owned) ∧
    ∃ t, run (step Agent.flatBuiltins) {} collidingRun = some t ∧
      t.summary = [(.repeated 1, some (.repeated 2), [])] ∧ ¬ t.Owned := by
  constructor
  · have reached : (run (step Agent.flatBuiltins) {} borrowedRun).map (fun t =>
        (t.summary, t.attached.length)) =
        some ([(.repeated 1, some (.repeated 1), ["provider:all"])], 0) := by decide +kernel
    obtain ⟨t, run, seen⟩ := Option.map_eq_some_iff.mp reached
    obtain ⟨acts, unattached⟩ := Prod.mk.inj seen
    have none := List.length_eq_zero_iff.mp unattached
    refine ⟨t, run, acts, none, fun owned => ?_⟩
    obtain ⟨act, mem, same⟩ := List.mem_map.mp (acts ▸ List.mem_cons_self)
    simp only [Prod.mk.injEq] at same
    have scopes := same.2.2
    rcases (owned act mem).2 with blank | listed
    · rw [blank] at scopes
      simp at scopes
    · rw [none] at listed
      cases listed
  · have reached : (run (step Agent.flatBuiltins) {} collidingRun).map World.summary =
        some [(.repeated 1, some (.repeated 2), [])] := by decide +kernel
    obtain ⟨t, run, acts⟩ := Option.map_eq_some_iff.mp reached
    refine ⟨t, run, acts, fun owned => ?_⟩
    obtain ⟨act, mem, same⟩ := List.mem_map.mp (acts ▸ List.mem_cons_self)
    simp only [Prod.mk.injEq] at same
    have own := (owned act mem).1
    rw [same.1, same.2.1] at own
    exact absurd own (by decide)

end Deeting.CodeMode.Ownership
