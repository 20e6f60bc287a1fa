import Deeting.Orchestrator.Runs
import Deeting.Workflow.ExternalChat

/-! A refused request on `EXTERNAL_CHAT_WORKFLOW`: `quota_check` counts it in the quota
hash, and neither a step of its layer that has failed before it nor one that fails after
it takes that back. The tenant is the one the context names when the check runs, which
`signature_verify` replaces by that of a verified key. -/
namespace Deeting.Workflow
open Deeting.Quota Deeting.Billing Deeting.Orchestrator Transition

/-- How far `quota_check` has come when its timeout cuts it short. -/
inductive Cut where
  | atStart
  | afterWarming
  | afterScript
  deriving DecidableEq, Repr

/-- A request with its surroundings, and the configuration of the steps: `skipped` are
those disabled or skipped on the channel. -/
structure Gateway where
  sc : Scenario
  session : Bool
  skipped : StepName → Bool := fun _ => false
  retries : StepName → ℕ := maxRetries
  /-- `ctx.tenant_id` of the request, and the tenant of its key. -/
  tenantId : Option TenantId
  keyTenant : Option TenantId
  quotaTimeout : Option Cut := none

structure GateContext where
  chat : ChatContext
  tenantId : Option TenantId

namespace Gateway

/-- `QuotaCheckStep.execute`. -/
def quotaCheck (gw : Gateway) (c : GateContext) : StepResult × GateContext :=
  if gw.session = false then ({}, c)
  else
    match c.tenantId with
    | none =>
        match gw.sc.apiKeyCheck with
        | .exceeded e => ({ status := .failed, message := some e.quotaType }, c)
        | .passes | .raises => ({}, c)
    | some tenantId =>
        let (r, chat) := { gw.sc with tenantId }.quotaCheck c.chat
        (r, { c with chat })

/-- `_warm_quota_cache` on the way to the script. -/
def warm (gw : Gateway) (c : GateContext) : GateContext :=
  match c.tenantId with
  | none => c
  | some tenantId =>
      if gw.session = true ∧ gw.sc.env.usesScript = true then
        let account := warmed gw.sc.env (c.chat.store.account tenantId)
        { c with chat := { c.chat with store := c.chat.store.setAccount tenantId account } }
      else c

def execute (gw : Gateway) (name : StepName) (attempt : ℕ) (c : GateContext) :
    Except StepError StepResult × GateContext :=
  match name with
  | .quotaCheck =>
      match gw.quotaTimeout with
      | none =>
          let (r, c) := gw.quotaCheck c
          (.ok r, c)
      | some .atStart => (.error .timeout, c)
      | some .afterWarming => (.error .timeout, gw.warm c)
      | some .afterScript => (.error .timeout, (gw.quotaCheck c).2)
  | .signatureVerify =>
      match gw.sc.ending .signatureVerify attempt with
      | .returns r => (.ok r, if r.status = .success then { c with tenantId := gw.keyTenant } else c)
      | .raises e => (.error e, c)
  | name =>
      -- without a session `billing` records nothing
      if name = .billing ∧ gw.session = true then
        let (outcome, chat) := gw.sc.executeStep .billing attempt c.chat
        (outcome, { c with chat })
      else
        let (outcome, chat) := gw.sc.executeOther name attempt c.chat
        (outcome, { c with chat })

def step (gw : Gateway) (name : StepName) : Step StepName GateContext where
  name := name
  dependsOn := alignedDependsOn externalChatSteps name
  maxRetries := gw.retries name
  shouldSkip _ := gw.skipped name || gw.sc.shouldSkip name
  execute := gw.execute name
  onFailure _ := Scenario.onFailure name
  onDegrade _ c := ({ status := .degraded }, c)

def steps (gw : Gateway) : List (Step StepName GateContext) := externalChatSteps.map gw.step

def start (gw : Gateway) (s : Store) : GateContext := ⟨{ store := s }, gw.tenantId⟩

def serve (gw : Gateway) (s : Store) : ExecutionResult StepName GateContext :=
  Orchestrator.execute gw.steps (gw.start s)

/-- The tenant `quota_check` finds after the steps before it. -/
def tenantAtCheck (gw : Gateway) : Option TenantId :=
  if gw.skipped .signatureVerify then gw.tenantId
  else
    match gw.sc.ending .signatureVerify 1 with
    | .returns r => if r.status = .success then gw.keyTenant else gw.tenantId
    | .raises _ => gw.tenantId

end Gateway

/-- One of the gateway checks has the result `FAILED`. -/
def GateFailed {C : Type} (p : Progress StepName C) : Prop :=
  ∃ name ∈ [StepName.signatureVerify, .quotaCheck, .rateLimit, .routing],
    ∃ r, p.results name = some r ∧ r.status = .failed

/-- `balance`, `daily_used` and `monthly_used` for today. -/
def quotaView (env : Env) (h : QuotaHash) : ℚ × ℕ × ℕ :=
  (h.balance, h.dailyUsedOn env.today, h.monthlyUsedIn env.today.yearMonth)

/-- The hash shows what it has shown before; one that was not there counts as the copy of
the row that warming writes. -/
def SameQuota (env : Env) (before after : Account) : Prop :=
  match after.hash with
  | none => before.hash = none
  | some h => quotaView env h = quotaView env (foundHash env before)

/-- The request is counted: the check is reached with a tenant, comes to its script, and
the script accepts. -/
def Counted (gw : Gateway) (s : Store) : Prop :=
  (gw.skipped .quotaCheck = false ∧
    ∀ name ∈ [StepName.signatureVerify, .resolveAssets, .mcpDiscovery],
      gw.skipped name = true ∨ ∃ r, gw.sc.ending name 1 = .returns r) ∧
  (gw.sc.apiKeyCheck = .passes ∧ gw.sc.precheckRaises = false ∧ gw.sc.env.usesScript = true ∧
    (gw.quotaTimeout = none ∨ gw.quotaTimeout = some .afterScript)) ∧
  ∃ tenantId, gw.tenantAtCheck = some tenantId ∧
    ScriptAccepts (deductArgs gw.sc.env.today 0 1 1 false)
      (foundHash gw.sc.env (s.account tenantId))

section View
variable {env : Env} {before after : Account}

theorem sameQuota_of_hash (same : after.hash = before.hash) : SameQuota env before after := by
  rw [SameQuota, same]
  cases stored : before.hash with
  | none => rfl
  | some h => simp only [foundHash_of_stored stored]

theorem sameQuota_of_found (found : after.hash = some (foundHash env before)) :
    SameQuota env before after := by
  simp only [SameQuota, found]

theorem not_sameQuota_of_charged {amount : ℚ}
    (charged : after.hash = some
      (charge env.stored (deductArgs env.today amount 1 1 false) (foundHash env before))) :
    ¬ SameQuota env before after := by
  simp only [SameQuota, charged, quotaView, Prod.mk.injEq, not_and]
  intro _ daily
  have counted :=
    dailyUsedOn_charge env.stored (deductArgs env.today amount 1 1 false) (foundHash env before)
  simp only [deductArgs] at counted daily
  omega

end View

section QuotaCheck
variable {env : Env} {gw : Gateway} {c : GateContext}

def Charges (gw : Gateway) (c : GateContext) : Prop :=
  (gw.session = true ∧ gw.sc.apiKeyCheck = .passes ∧ gw.sc.precheckRaises = false ∧
    gw.sc.env.usesScript = true) ∧
  ∃ tenantId, c.tenantId = some tenantId ∧
    ScriptAccepts (deductArgs gw.sc.env.today 0 1 1 false)
      (foundHash gw.sc.env (c.chat.store.account tenantId))

theorem precheckDb_hash (env : Env) (estimatedCost : ℚ) (a : Account) :
    (precheckDb env estimatedCost a).2.hash = a.hash := by
  have kept : (checkAndDeduct env false false
      { balanceAmount := estimatedCost, dailyRequests := 1, monthlyRequests := 1 } a).2.hash =
      a.hash := by
    by_cases accepts : RowAccepts
        { balanceAmount := estimatedCost, dailyRequests := 1, monthlyRequests := 1 }
        (currentRow env.today a.row)
    · rw [checkAndDeduct_of_accepts accepts]
      simp
    · obtain ⟨e, refused⟩ : ∃ e, checkAndDeduct env false false _ a = (.error e, _) :=
        checkAndDeduct_of_refuses accepts
      rw [refused]
      simp
  rw [precheckDb]
  split <;> rename_i checked <;> rw [checked] at kept <;> exact kept

theorem setAccount_same {s : Store} {tenantId : TenantId} {a : Account}
    (same : SameQuota env (s.account tenantId) a) (t : TenantId) :
    SameQuota env (s.account t) ((s.setAccount tenantId a).account t) := by
  by_cases tenant : t = tenantId
  · subst tenant
    simpa [Store.setAccount] using same
  · exact sameQuota_of_hash (by simp [Store.setAccount, tenant])

/-- `quota_check` shows in a quota hash if and only if it charges; routing has not run, so
there is no pricing yet. -/
theorem quotaCheck_same_iff (unpriced : c.chat.pricingConfig = none) :
    (∀ t, SameQuota gw.sc.env (c.chat.store.account t)
      ((gw.quotaCheck c).2.chat.store.account t)) ↔ ¬ Charges gw c := by
  have idle : ∀ t, SameQuota gw.sc.env (c.chat.store.account t) (c.chat.store.account t) :=
    fun t => sameQuota_of_hash rfl
  rw [Gateway.quotaCheck]
  cases session : gw.session with
  | false => simpa [Charges, session] using idle
  | true =>
    cases tenant : c.tenantId with
    | none =>
      have unknown : ¬ Charges gw c := by simp [Charges, tenant]
      cases gw.sc.apiKeyCheck <;> exact iff_of_true idle unknown
    | some tenantId =>
      cases key : gw.sc.apiKeyCheck with
      | exceeded e => simpa [Scenario.quotaCheck, Charges, key] using idle
      | raises => simpa [Scenario.quotaCheck, Charges, key] using idle
      | passes =>
        cases raised : gw.sc.precheckRaises with
        | true =>
          simpa [Scenario.quotaCheck, Scenario.precheckEstimate, Charges, key, raised] using idle
        | false =>
          have effect : ((({ gw.sc with tenantId }.quotaCheck c.chat).2).store) =
              c.chat.store.setAccount tenantId
                (quotaPrecheck gw.sc.env 0 (c.chat.store.account tenantId)).2 := by
            simp only [Scenario.quotaCheck, Scenario.precheckEstimate, key, unpriced, raised]
            split <;> rename_i checked <;> rw [checked]
          simp only [Bool.true_eq_false, if_false, effect]
          cases usable : gw.sc.env.usesScript with
          | false =>
            have hash : (quotaPrecheck gw.sc.env 0 (c.chat.store.account tenantId)).2.hash =
                (c.chat.store.account tenantId).hash := by
              rw [quotaPrecheck, if_pos usable, precheckDb_hash]
            refine iff_of_true (setAccount_same (sameQuota_of_hash hash)) ?_
            simp [Charges, usable]
          | true =>
            rcases quotaPrecheck_cases usable 0 (c.chat.store.account tenantId) with
              ⟨accepts, _, charged⟩ | ⟨refuses, _, left⟩
            · have charges : Charges gw c :=
                ⟨⟨session, key, raised, usable⟩, tenantId, tenant, accepts⟩
              refine iff_of_false (fun same => ?_) (not_not.mpr charges)
              have seen := same tenantId
              simp only [Store.setAccount, Function.update_self, charged] at seen
              exact not_sameQuota_of_charged rfl seen
            · refine iff_of_true (setAccount_same (sameQuota_of_found (by rw [left]))) ?_
              rintro ⟨_, other, known, accepts⟩
              rw [tenant] at known
              cases known
              exact refuses accepts

theorem warm_same (gw : Gateway) (c : GateContext) (t : TenantId) :
    SameQuota gw.sc.env (c.chat.store.account t) ((gw.warm c).chat.store.account t) := by
  rw [Gateway.warm]
  split
  · exact sameQuota_of_hash rfl
  · split
    · exact setAccount_same (sameQuota_of_found (warmed_hash _ _)) t
    · exact sameQuota_of_hash rfl

theorem execute_same_iff (unpriced : c.chat.pricingConfig = none) :
    (∀ t, SameQuota gw.sc.env (c.chat.store.account t)
      ((gw.execute .quotaCheck 1 c).2.chat.store.account t)) ↔
    ¬ ((gw.quotaTimeout = none ∨ gw.quotaTimeout = some .afterScript) ∧ Charges gw c) := by
  have checked : _ ↔ ¬ Charges gw c := quotaCheck_same_iff unpriced
  simp only [Gateway.execute]
  cases timeout : gw.quotaTimeout with
  | none => simpa using checked
  | some cut =>
    cases cut with
    | atStart => simpa using fun t => sameQuota_of_hash rfl
    | afterWarming => simpa using warm_same gw c
    | afterScript => simpa using checked

end QuotaCheck

section Serve
variable {gw : Gateway} {s : Store}

theorem serve_eq (gw : Gateway) (s : Store) :
    gw.serve s = executeLayers (externalChatLayers.map fun layer => layer.map gw.step)
      ⟨gw.start s, fun _ => none⟩ := by
  have graph : graphOf gw.steps =
      externalChatSteps.map fun name => (name, alignedDependsOn externalChatSteps name) := rfl
  rw [Gateway.serve, execute, graph, executionLayers_externalChat]
  rfl

/-- Beside `quota_check` and `billing` no step writes to the store, and without a session
these two do not either. -/
theorem keeps_store (gw : Gateway) {name : StepName}
    (other : gw.session = false ∨ name ≠ .quotaCheck ∧ name ≠ .billing)
    (s : Store) : Keeps (gw.step name) (fun c => c.chat.store = s) := by
  refine ⟨fun attempt c held => ?_, fun _ _ held => held⟩
  have written (name : StepName) (attempt : ℕ) (c : ChatContext) :
      (gw.sc.executeOther name attempt c).2.store = c.store := by
    have same : (gw.sc.writes name attempt c).store = c.store := by cases name <;> rfl
    simp only [Scenario.executeOther]
    split <;> exact same
  cases name with
  | quotaCheck =>
    have session := other.resolve_right fun no => no.1 rfl
    have checked : (gw.quotaCheck c).2 = c := by rw [Gateway.quotaCheck, if_pos session]
    have warmed : gw.warm c = c := by
      rw [Gateway.warm]
      split <;> simp [session]
    simp only [Gateway.step, Gateway.execute]
    split <;> simpa [checked, warmed] using held
  | billing =>
    have session := other.resolve_right fun no => no.2 rfl
    simpa [Gateway.step, Gateway.execute, session, written] using held
  | signatureVerify =>
    simp only [Gateway.step, Gateway.execute]
    split
    · split <;> exact held
    · exact held
  | _ => simpa [Gateway.step, Gateway.execute, written] using held

theorem aborts_of_ne {name : StepName} (routing : name ≠ .routing) (agent : name ≠ .agentExecutor)
    (e : StepError) (attempt : ℕ) : Scenario.onFailure name e attempt = .abort := by
  cases name with
  | routing => contradiction
  | agentExecutor => contradiction
  | _ => exact baseOnFailure_never _ e attempt

def executable (gw : Gateway) (names : List StepName) : List (Step StepName GateContext) :=
  (names.filter fun name => !(gw.skipped name || gw.sc.shouldSkip name)).map gw.step

structure Unchecked (s : Store) (c : GateContext) : Prop where
  store : c.chat.store = s
  unpriced : c.chat.pricingConfig = none

theorem keeps_unchecked (gw : Gateway) {name : StepName} (check : name ≠ .quotaCheck)
    (billing : name ≠ .billing) (routing : name ≠ .routing) (s : Store) :
    Keeps (gw.step name) (Unchecked s) := by
  have store := keeps_store gw (.inr ⟨check, billing⟩) s
  refine ⟨fun attempt c held => ⟨store.execute attempt c held.store, ?_⟩, fun _ _ held => held⟩
  have unpriced := held.unpriced
  have written (name : StepName) (other : name ≠ .routing) (c : ChatContext) :
      (gw.sc.executeOther name attempt c).2.pricingConfig = c.pricingConfig := by
    have same : (gw.sc.writes name attempt c).pricingConfig = c.pricingConfig := by
      cases name with
      | routing => contradiction
      | _ => rfl
    simp only [Scenario.executeOther]
    split <;> exact same
  cases name with
  | quotaCheck => contradiction
  | billing => contradiction
  | routing => contradiction
  | signatureVerify =>
    simp only [Gateway.step, Gateway.execute]
    split
    · split <;> exact unpriced
    · exact unpriced
  | _ => simpa [Gateway.step, Gateway.execute, written] using unpriced

theorem keeps_tenant (gw : Gateway) {name : StepName} (signature : name ≠ .signatureVerify)
    (check : name ≠ .quotaCheck) (billing : name ≠ .billing) (tenantId : Option TenantId) :
    Keeps (gw.step name) (fun c => c.tenantId = tenantId) := by
  refine ⟨fun attempt c held => ?_, fun _ _ held => held⟩
  cases name with
  | quotaCheck => contradiction
  | billing => contradiction
  | signatureVerify => contradiction
  | _ => simpa [Gateway.step, Gateway.execute] using held

/-- The steps of the gateway before the check all return, or one of them ends the layer. -/
theorem executable_returns (gw : Gateway) {names : List StepName}
    (early : ∀ name ∈ names, name ∈ [StepName.signatureVerify, .resolveAssets, .mcpDiscovery])
    (p : Progress StepName GateContext) :
    (executeSerial (executable gw names) p).1 = true ↔
      ∀ name ∈ names, gw.skipped name = true ∨ ∃ r, gw.sc.ending name 1 = .returns r := by
  induction names generalizing p with
  | nil => simp [executable, executeSerial]
  | cons name rest ih =>
    obtain ⟨first, early⟩ := List.forall_mem_cons.mp early
    have unlogged : gw.sc.shouldSkip name = false := by
      refine shouldSkip_eq_false ?_
      rintro rfl
      simp at first
    rw [List.forall_mem_cons]
    cases skipped : gw.skipped name with
    | true =>
      have same : executable gw (name :: rest) = executable gw rest := by
        simp [executable, skipped]
      simp only [same, ih early, true_or, true_and]
    | false =>
      have same : executable gw (name :: rest) = gw.step name :: executable gw rest := by
        simp [executable, skipped, unlogged]
      have aborts (c : GateContext) (e : StepError) (attempt : ℕ) :
          (gw.step name).onFailure c e attempt = .abort := by
        refine aborts_of_ne ?_ ?_ e attempt <;> rintro rfl <;> simp at first
      have ended : ((gw.step name).execute 1 p.ctx).1.isOk = true ↔
          ∃ r, gw.sc.ending name 1 = .returns r := by
        simp only [List.mem_cons, List.not_mem_nil, or_false] at first
        rcases first with rfl | rfl | rfl <;>
          simp only [Gateway.step, Gateway.execute, Scenario.executeOther] <;>
          cases ending : gw.sc.ending _ 1 <;> simp [Except.isOk, Except.toBool]
      obtain ⟨once, _⟩ := executeStep_once aborts p
      rw [same]
      simp only [executeSerial, Bool.false_eq_true, false_or]
      split <;> rename_i executed <;> rw [executed] at once
      · rw [ih early, ← ended, ← once]
        simp
      · rw [← ended, ← once]
        simp

theorem tenant_of_returns (gw : Gateway) {p : Progress StepName GateContext}
    (start : p.ctx.tenantId = gw.tenantId)
    (returned : (executeSerial (executable gw [.signatureVerify, .resolveAssets, .mcpDiscovery])
      p).1 = true) :
    (executeSerial (executable gw [.signatureVerify, .resolveAssets, .mcpDiscovery])
      p).2.ctx.tenantId = gw.tenantAtCheck := by
  have others (q : Progress StepName GateContext) :
      (executeSerial (executable gw [.resolveAssets, .mcpDiscovery]) q).2.ctx.tenantId =
        q.ctx.tenantId := by
    have keeps : ∀ step ∈ executable gw [.resolveAssets, .mcpDiscovery],
        Keeps step (fun c => c.tenantId = q.ctx.tenantId) := by
      intro step mem
      obtain ⟨name, listed, rfl⟩ := List.mem_map.mp mem
      have listed := (List.mem_filter.mp listed).1
      refine keeps_tenant gw ?_ ?_ ?_ _ <;> rintro rfl <;> simp at listed
    exact Keeps.executeSerial keeps rfl
  rw [Gateway.tenantAtCheck]
  cases skipped : gw.skipped .signatureVerify with
  | true =>
    have same : executable gw [.signatureVerify, .resolveAssets, .mcpDiscovery] =
        executable gw [.resolveAssets, .mcpDiscovery] := by simp [executable, skipped]
    rw [same, others, start]
    rfl
  | false =>
    have same : executable gw [.signatureVerify, .resolveAssets, .mcpDiscovery] =
        gw.step .signatureVerify :: executable gw [.resolveAssets, .mcpDiscovery] := by
      simp [executable, skipped, Scenario.shouldSkip]
    have aborts (c : GateContext) (e : StepError) (attempt : ℕ) :
        (gw.step .signatureVerify).onFailure c e attempt = .abort :=
      @aborts_of_ne .signatureVerify (by decide) (by decide) e attempt
    obtain ⟨once, ctx⟩ := executeStep_once aborts p
    rw [same] at returned ⊢
    simp only [executeSerial] at returned ⊢
    split at returned
    · rename_i q executed
      rw [executed] at once ctx
      rw [others, ctx]
      simp only [Gateway.step, Gateway.execute] at once ⊢
      cases ending : gw.sc.ending .signatureVerify 1 with
      | returns r =>
        by_cases success : r.status = .success
        · simp [success]
        · simp [success, start]
      | raises e => simp [ending, Except.isOk, Except.toBool] at once
    · cases returned

theorem layer_executable (gw : Gateway) (names : List StepName) (c : GateContext) :
    ((names.map gw.step).filter fun step => !step.shouldSkip c) = executable gw names := by
  rw [executable, List.filter_map]
  rfl

theorem executable_append (gw : Gateway) (first second : List StepName) :
    executable gw (first ++ second) = executable gw first ++ executable gw second := by
  rw [executable, List.filter_append, List.map_append]
  rfl

theorem keeps_executable (gw : Gateway) {names : List StepName} {A : GateContext → Prop}
    (each : ∀ name ∈ names, Keeps (gw.step name) A) : ∀ step ∈ executable gw names, Keeps step A := by
  intro step mem
  obtain ⟨name, listed, rfl⟩ := List.mem_map.mp mem
  exact each name (List.mem_filter.mp listed).1

theorem layers_failed (gw : Gateway) {names : List StepName} {later : List (List StepName)}
    {name : StepName} {q : Progress StepName GateContext} {r : StepResult} (mem : name ∈ names)
    (beyond : ∀ names ∈ later, name ∉ names)
    (found : (executeLayers (names.map gw.step :: later.map fun layer => layer.map gw.step)
      q).progress.results name = some r) (failed : r.status = .failed) :
    (executeLayers (names.map gw.step :: later.map fun layer => layer.map gw.step) q).progress =
      (executeLayer (names.map gw.step) q).2 := by
  have listed : gw.step name ∈ names.map gw.step := List.mem_map_of_mem mem
  refine executeLayers_failed listed ?_ ?_
  · intro layer listed other member
    obtain ⟨names, early, rfl⟩ := List.mem_map.mp listed
    obtain ⟨later, within, rfl⟩ := List.mem_map.mp member
    rintro (rfl : name = later)
    exact beyond names early within
  · rw [hasFailed, show (gw.step name).name = name from rfl, found, Option.any_some, failed]
    rfl

theorem serve_failed (failed : GateFailed (gw.serve s).progress) :
    ∃ q : Progress StepName GateContext, Unchecked s q.ctx ∧ q.ctx.tenantId = gw.tenantId ∧
      (gw.serve s).progress.ctx = (executeSerial (executable gw
        ([.signatureVerify, .resolveAssets, .mcpDiscovery] ++ .quotaCheck :: [.rateLimit, .routing]))
        q).2.ctx := by
  obtain ⟨name, gate, r, found, failed⟩ := failed
  rw [serve_eq] at found ⊢
  rw [externalChatLayers, List.map_cons] at found ⊢
  have apart : ∀ step ∈ [StepName.requestAdapter, .validation].map gw.step, name ≠ step.name := by
    intro step mem
    obtain ⟨other, listed, rfl⟩ := List.mem_map.mp mem
    rintro rfl
    simp only [List.mem_cons, List.not_mem_nil, or_false] at listed
    rcases listed with rfl | rfl <;> simp at gate
  obtain ⟨q, passed, later⟩ := executeLayers_later rfl apart
    (by rw [found]; exact Option.some_ne_none r)
  rw [later, List.map_cons] at found ⊢
  have mem : name ∈ [StepName.signatureVerify, .resolveAssets, .mcpDiscovery, .quotaCheck,
      .rateLimit, .routing] := by
    simp only [List.mem_cons, List.not_mem_nil, or_false] at gate ⊢
    rcases gate with rfl | rfl | rfl | rfl <;> simp
  have beyond : ∀ names ∈ ([[.templateRender], [.agentExecutor], [.responseTransform],
      [.memoryWrite, .sanitize, .billing], [.auditLog]] : List (List StepName)), name ∉ names := by
    intro names listed mem
    simp only [List.mem_cons, List.not_mem_nil, or_false] at gate listed
    rcases listed with rfl | rfl | rfl | rfl | rfl <;> rcases gate with rfl | rfl | rfl | rfl <;>
      simp at mem
  have ended := layers_failed gw mem beyond found failed
  have before : q = (executeSerial (executable gw [.requestAdapter, .validation])
      (markSkipped ([StepName.requestAdapter, .validation].map gw.step)
        ⟨gw.start s, fun _ => none⟩)).2 := by
    rw [← layer_executable gw _ (gw.start s), ← executeLayer_snd _ ⟨gw.start s, fun _ => none⟩,
      passed]
  have unchecked : ∀ step ∈ executable gw [.requestAdapter, .validation],
      Keeps step (Unchecked s) := by
    refine keeps_executable gw fun name listed => ?_
    refine keeps_unchecked gw ?_ ?_ ?_ s <;> rintro rfl <;> simp at listed
  have tenant : ∀ step ∈ executable gw [.requestAdapter, .validation],
      Keeps step (fun c => c.tenantId = gw.tenantId) := by
    refine keeps_executable gw fun name listed => ?_
    refine keeps_tenant gw ?_ ?_ ?_ _ <;> rintro rfl <;> simp at listed
  rw [ended, executeLayer_snd, layer_executable]
  refine ⟨markSkipped _ q, ?_, ?_, rfl⟩
  · rw [markSkipped_ctx, before]
    refine Keeps.executeSerial unchecked ?_
    rw [markSkipped_ctx]
    exact ⟨rfl, rfl⟩
  · rw [markSkipped_ctx, before]
    refine Keeps.executeSerial tenant ?_
    rw [markSkipped_ctx]
    rfl

theorem keeps_beside (gw : Gateway) (names : List StepName)
    (beside : .quotaCheck ∉ names ∧ .billing ∉ names) (t : Store) :
    ∀ step ∈ executable gw names, Keeps step (fun c => c.chat.store = t) := by
  refine keeps_executable gw fun name listed => ?_
  refine keeps_store gw (.inr ⟨?_, ?_⟩) t <;> rintro rfl
  · exact beside.1 listed
  · exact beside.2 listed

theorem store_after_check (gw : Gateway) (names : List StepName)
    (beside : .quotaCheck ∉ names ∧ .billing ∉ names) (r : Progress StepName GateContext) :
    (executeSerial (gw.step .quotaCheck :: executable gw names) r).2.ctx.chat.store =
      (gw.execute .quotaCheck 1 r.ctx).2.chat.store := by
  have aborts (c : GateContext) (e : StepError) (attempt : ℕ) :
      (gw.step .quotaCheck).onFailure c e attempt = .abort :=
    @aborts_of_ne .quotaCheck (by decide) (by decide) e attempt
  have checked := (executeStep_once aborts r).2
  rw [← show (gw.step .quotaCheck).execute 1 r.ctx = gw.execute .quotaCheck 1 r.ctx from rfl,
    ← checked]
  simp only [executeSerial]
  split <;> rename_i executed <;> rw [executed]
  exact Keeps.executeSerial (keeps_beside gw names beside _) rfl

/-- With a session: a refused request leaves the quota as it was if and only if the check
did not count it. -/
theorem serve_same_iff (session : gw.session = true) (failed : GateFailed (gw.serve s).progress) :
    (∀ t, SameQuota gw.sc.env (s.account t) ((gw.serve s).progress.ctx.chat.store.account t)) ↔
      ¬ Counted gw s := by
  obtain ⟨q, unchecked, tenant, ended⟩ := serve_failed failed
  rw [ended, executable_append]
  have early : ∀ step ∈ executable gw [.signatureVerify, .resolveAssets, .mcpDiscovery],
      Keeps step (Unchecked s) := by
    refine keeps_executable gw fun name listed => ?_
    refine keeps_unchecked gw ?_ ?_ ?_ s <;> rintro rfl <;> simp at listed
  have unchanged {c : GateContext} (store : c.chat.store = s) (t : TenantId) :
      SameQuota gw.sc.env (s.account t) (c.chat.store.account t) :=
    sameQuota_of_hash (by rw [store])
  have before := Keeps.executeSerial early unchecked
  have reached := executable_returns gw (fun _ mem => mem) q
  have known := tenant_of_returns gw tenant
  rw [executeSerial_append]
  cases serial : executeSerial (executable gw [.signatureVerify, .resolveAssets, .mcpDiscovery]) q with
  | mk returned r =>
    rw [serial] at before reached known
    cases returned with
    | false =>
      refine iff_of_true (unchanged before.store) ?_
      rintro ⟨⟨_, returns⟩, _⟩
      cases reached.mpr returns
    | true =>
      have returns := reached.mp rfl
      have tenant := known rfl
      cases skipped : gw.skipped .quotaCheck with
      | true =>
        have rest : executable gw (.quotaCheck :: [.rateLimit, .routing]) =
            executable gw [.rateLimit, .routing] := by simp [executable, skipped]
        simp only [rest]
        have kept := Keeps.executeSerial (keeps_beside gw [.rateLimit, .routing] (by decide) s) before.store
        exact iff_of_true (unchanged kept) (by simp [Counted, skipped])
      | false =>
        have rest : executable gw (.quotaCheck :: [.rateLimit, .routing]) =
            gw.step .quotaCheck :: executable gw [.rateLimit, .routing] := by
          simp [executable, skipped, Scenario.shouldSkip]
        have after := store_after_check gw [.rateLimit, .routing] (by decide) r
        have shown : _ ↔ ¬ (_ ∧ Charges gw r.ctx) := execute_same_iff before.unpriced
        rw [before.store] at shown
        simp only [rest, after, shown]
        refine not_congr ?_
        constructor
        · rintro ⟨script, ⟨_, key, raised, usable⟩, tenantId, at_, accepts⟩
          rw [before.store] at accepts
          exact ⟨⟨skipped, returns⟩, ⟨key, raised, usable, script⟩, tenantId, tenant ▸ at_, accepts⟩
        · rintro ⟨_, ⟨key, raised, usable, script⟩, tenantId, at_, accepts⟩
          rw [← before.store] at accepts
          exact ⟨script, ⟨session, key, raised, usable⟩, tenantId, tenant.trans at_, accepts⟩

end Serve

/-- A request refused by a gateway check leaves the quota as it was if and only if
`quota_check` did not count it; without a session, when the layer is gathered, it never
counts. -/
theorem rejection_is_free_iff (gw : Gateway) (s : Store) :
    (gw.session = true → GateFailed (gw.serve s).progress →
      ((∀ t, SameQuota gw.sc.env (s.account t)
          ((gw.serve s).progress.ctx.chat.store.account t)) ↔ ¬ Counted gw s)) ∧
    (gw.session = false → ∀ actions (e : Execution StepName GateContext),
      Along (Execution.act gw.retries) (Follows gw.steps false)
        (.initial (graphOf gw.steps) (gw.start s)) actions →
      run (Execution.act gw.retries) (.initial (graphOf gw.steps) (gw.start s)) actions = some e →
      ∀ t, SameQuota gw.sc.env (s.account t) (e.ctx.chat.store.account t)) := by
  refine ⟨serve_same_iff, ?_⟩
  intro session actions e follows reached t
  have keeps : ∀ step ∈ gw.steps, Keeps step (fun c => c.chat.store = s) := by
    intro step mem
    obtain ⟨name, _, rfl⟩ := List.mem_map.mp mem
    exact keeps_store gw (.inl session) s
  have kept := keeps_run keeps (A := fun c => c.chat.store = s) rfl follows reached
  exact sameQuota_of_hash (by rw [kept])

instance (env : Env) (before after : Account) : Decidable (SameQuota env before after) :=
  match stored : after.hash with
  | none => decidable_of_iff (before.hash = none) (by rw [SameQuota, stored])
  | some h => decidable_of_iff (quotaView env h = quotaView env (foundHash env before))
      (by rw [SameQuota, stored])

/-- Tenant 1 with a valid signature, and a rate limit that is exhausted or not. -/
def limitedGateway (session exhausted : Bool) (apiKeyCheck : ApiKeyCheck) : Gateway where
  sc := { thousandTokens apiKeyCheck with
    ending := fun name _ =>
      .returns { status := if name = .rateLimit ∧ exhausted = true then .failed else .success } }
  session := session
  tenantId := none
  keyTenant := some 1

/-- A used-up key is refused without being counted; without a session nothing is either. -/
theorem rejection_is_free_refused :
    SameQuota scriptEnv ((storeOf 10).account 1)
      (((limitedGateway true false (.exceeded ⟨"apikey_request", 1, 1⟩)).serve
        (storeOf 10)).progress.ctx.chat.store.account 1) ∧
    ∃ e : Execution StepName GateContext, e.task .validation = .executing 1 ∧
      SameQuota scriptEnv ((storeOf 10).account 1) (e.ctx.chat.store.account 1) := by
  constructor
  · have failed : GateFailed ((limitedGateway true false (.exceeded ⟨"apikey_request", 1, 1⟩)).serve
        (storeOf 10)).progress :=
      ⟨.quotaCheck, by decide, ⟨.failed, some "apikey_request"⟩, by decide +kernel, rfl⟩
    refine ((rejection_is_free_iff _ (storeOf 10)).1 rfl failed).mpr ?_ 1
    rintro ⟨_, ⟨passes, _⟩, _⟩
    cases passes
  · have free := (rejection_is_free_iff (limitedGateway false true .passes) (storeOf 10)).2 rfl
      [.enter [] false, .begin .validation]
    refine ⟨_, ?_, free _ ?_ rfl 1⟩
    · rfl
    · rw [along_cons_of_step rfl, along_cons_of_step rfl]
      refine ⟨⟨rfl, ?_⟩, trivial, trivial⟩
      intro step mem
      obtain ⟨name, _, rfl⟩ := List.mem_map.mp mem
      simp [limitedGateway, Gateway.step, Scenario.shouldSkip, thousandTokens]

/-- The rate limit refuses the request and its check has counted it. -/
theorem rejection_counts_request :
    GateFailed ((limitedGateway true true .passes).serve (storeOf 10)).progress ∧
    ¬ SameQuota scriptEnv ((storeOf 10).account 1)
      (((limitedGateway true true .passes).serve
        (storeOf 10)).progress.ctx.chat.store.account 1) := by
  constructor
  · exact ⟨.rateLimit, by decide, { status := .failed }, by decide +kernel, rfl⟩
  · decide +kernel

end Deeting.Workflow
