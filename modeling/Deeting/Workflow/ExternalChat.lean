import Deeting.Billing.Deduct
import Deeting.Workflow.Steps

/-! `EXTERNAL_CHAT_WORKFLOW`: the quota check stands in the same layer as routing and
before it, so it never sees a pricing, while `BillingStep` settles against an estimate for
the pricing that was routed. What a successful run takes from the quota hash is followed
through the layers. -/
namespace Deeting.Workflow
open Deeting.Quota Deeting.Billing Deeting.Orchestrator

/-- `steps` of `EXTERNAL_CHAT_WORKFLOW`. -/
def externalChatSteps : List StepName :=
  [.requestAdapter, .validation, .signatureVerify, .resolveAssets, .mcpDiscovery, .quotaCheck,
    .rateLimit, .routing, .templateRender, .agentExecutor, .responseTransform, .memoryWrite,
    .sanitize, .billing, .auditLog]

/-- The workflow on the external channel, with a database session. -/
def externalChat (sc : Scenario) (s : Store) : ExecutionResult StepName ChatContext :=
  execute (externalChatSteps.map (sc.step externalChatSteps)) { store := s }

def externalChatLayers : List (List StepName) :=
  [[.requestAdapter, .validation],
    [.signatureVerify, .resolveAssets, .mcpDiscovery, .quotaCheck, .rateLimit, .routing],
    [.templateRender],
    [.agentExecutor],
    [.responseTransform],
    [.memoryWrite, .sanitize, .billing],
    [.auditLog]]

theorem executionLayers_externalChat :
    executionLayers (externalChatSteps.map fun name =>
      (name, alignedDependsOn externalChatSteps name)) = externalChatLayers := by decide

theorem externalChat_eq (sc : Scenario) (s : Store) :
    externalChat sc s =
      executeLayers (externalChatLayers.map fun layer => layer.map (sc.step externalChatSteps))
        ⟨{ store := s }, fun _ => none⟩ := by
  have graph : graphOf (externalChatSteps.map (sc.step externalChatSteps)) =
      externalChatSteps.map fun name => (name, alignedDependsOn externalChatSteps name) := rfl
  rw [externalChat, execute, graph, executionLayers_externalChat]
  rfl

def Scenario.shown (sc : Scenario) (s : Store) : ℚ :=
  (foundHash sc.env (s.account sc.tenantId)).balance

def Scenario.degraded (sc : Scenario) : Bool :=
  match sc.apiKeyCheck with
  | .passes => sc.precheckRaises
  | .exceeded _ => false
  | .raises => true

def ChatContext.total (c : ChatContext) : ℚ :=
  Billing.totalCost c.inputTokens c.outputTokens c.pricingConfig

def Scenario.selected (sc : Scenario) : Option Pricing :=
  match sc.ending .routing 1 with
  | .returns _ => sc.routed 1
  | .raises _ => sc.routed 2

/-- `total_cost` of the usage at the selected pricing. -/
def Scenario.total (sc : Scenario) : ℚ := Billing.totalCost sc.usage.1 sc.usage.2 sc.selected

def Scenario.estimate (sc : Scenario) : ℚ := sc.settledEstimate sc.selected

structure Admitted (sc : Scenario) (s : Store) (c : ChatContext) : Prop where
  stream : c.stream = false
  unchecked : Scenario.unchecked c = sc.degraded
  degraded : sc.degraded = true → c.store = s
  checked : sc.degraded = false →
    c.store.redisBalance sc.tenantId = some (sc.env.less (sc.shown s) 0) ∧
      c.store.ledger = s.ledger

structure Routed (sc : Scenario) (s : Store) (c : ChatContext) : Prop extends Admitted sc s c where
  pricing : c.pricingConfig = sc.selected

structure Answered (sc : Scenario) (s : Store) (c : ChatContext) : Prop
    extends Routed sc s c where
  input : c.inputTokens = sc.usage.1
  output : c.outputTokens = sc.usage.2

/-- A cost that `record_and_adjust` settles against an estimate. -/
def Adjusts (total estimate : ℚ) : Prop := total ≠ 0 ∧ 1 / 1000000 < |total - estimate|

instance (total estimate : ℚ) : Decidable (Adjusts total estimate) :=
  inferInstanceAs (Decidable (_ ∧ _))

def left (sc : Scenario) (s : Store) (total estimate : ℚ) : ℚ :=
  if sc.degraded then
    if total = 0 ∨ s.ledger.find? sc.traceId ≠ none then sc.shown s
    else Decimal.truncate (luaSub (sc.shown s) total)
  else if Adjusts total estimate then
    adjusted (sc.env.less (sc.shown s) 0) (total - estimate)
  else sc.env.less (sc.shown s) 0

def Billed (sc : Scenario) (s : Store) (c : ChatContext) : Prop :=
  sc.shown c.store = left sc s sc.total sc.estimate

section QuotaCheck
variable {sc : Scenario} {s : Store} {c c' : ChatContext} {r : StepResult}

theorem shown_of_redisBalance {t : Store} {balance : ℚ}
    (present : t.redisBalance sc.tenantId = some balance) : sc.shown t = balance := by
  obtain ⟨h, stored, rfl⟩ := Option.map_eq_some_iff.mp present
  rw [Scenario.shown, foundHash_of_stored stored]

theorem quotaCheck_admits (usable : sc.env.usesScript = true)
    (checked : sc.quotaCheck { store := s } = (r, c)) :
    r.status = .failed ∨ Admitted sc s c := by
  rw [Scenario.quotaCheck] at checked
  cases key : sc.apiKeyCheck with
  | exceeded e =>
    rw [key] at checked
    cases checked
    exact .inl rfl
  | raises =>
    rw [key] at checked
    cases checked
    have degraded : sc.degraded = true := by simp [Scenario.degraded, key]
    exact .inr ⟨rfl, degraded.symm, fun _ => rfl, fun no => by simp [degraded] at no⟩
  | passes =>
    simp only [key, Scenario.precheckEstimate] at checked
    cases raised : sc.precheckRaises with
    | true =>
      rw [raised] at checked
      cases checked
      have degraded : sc.degraded = true := by simp [Scenario.degraded, key, raised]
      exact .inr ⟨rfl, degraded.symm, fun _ => rfl, fun no => by simp [degraded] at no⟩
    | false =>
      have degraded : sc.degraded = false := by simp [Scenario.degraded, key, raised]
      simp only [raised] at checked
      have answer := quotaPrecheck_cases usable 0 (s.account sc.tenantId)
      cases precheck : quotaPrecheck sc.env 0 (s.account sc.tenantId) with
      | mk verdict a =>
        rw [precheck] at checked answer
        cases verdict with
        | error e =>
          cases checked
          exact .inl rfl
        | ok info =>
          cases checked
          obtain ⟨_, _, charged⟩ | ⟨_, refused, _⟩ := answer
          · refine .inr ⟨rfl, degraded.symm, fun no => by simp [degraded] at no, fun _ => ⟨?_, rfl⟩⟩
            have charged : a = ⟨some (Quota.charge sc.env.stored (deductArgs sc.env.today 0 1 1 false)
              (foundHash sc.env (s.account sc.tenantId))), _⟩ := charged
            simp only [Store.redisBalance, Store.setAccount, Function.update_self, charged,
              Option.map_some, Scenario.shown]
            simp [Quota.charge, deductArgs, Env.less]
          · cases refused

theorem Admitted.shown (admitted : Admitted sc s c) : sc.shown c.store =
    if sc.degraded then sc.shown s else sc.env.less (sc.shown s) 0 := by
  cases degraded : sc.degraded with
  | true => simp [admitted.degraded degraded]
  | false => simp [shown_of_redisBalance (admitted.checked degraded).1]

/-- Without a cost `BillingStep` leaves the balance as it is. -/
theorem Admitted.left_free (admitted : Admitted sc s c) (estimate : ℚ) :
    left sc s 0 estimate = sc.shown c.store := by
  rw [admitted.shown]
  simp [left, Adjusts]

theorem Admitted.costed (admitted : Admitted sc s c) (inputCost outputCost totalCost : ℚ) :
    Admitted sc s { c with inputCost, outputCost, totalCost } :=
  ⟨admitted.stream, admitted.unchecked, admitted.degraded, admitted.checked⟩

end QuotaCheck

section Billing
variable {sc : Scenario} {s : Store} {c c' : ChatContext} {hook : Hook} {p : Pricing}

/-- The charge made in place of the pre-check ends in the truncated balance, or finds a
transaction. -/
theorem deducted_shown (usable : sc.env.usesScript = true) {charge : Charge}
    (tenant : charge.tenantId = sc.tenantId) (trace : charge.traceId = sc.traceId)
    {tx : BillingTransaction} {t : Store}
    (called : deduct sc.env sc.deductFault charge false s = (.ok tx, hook, t)) :
    sc.shown (t.commit sc.env hook) =
      if s.ledger.find? sc.traceId ≠ none then sc.shown s
      else (Decimal.truncate (luaSub (sc.shown s) charge.amount) : ℚ) := by
  have redis : sc.env.redis = true := (Bool.and_eq_true_iff.mp usable).1
  rcases deduct_ok usable called with ⟨used, rfl, accounts⟩ | ⟨fresh, updated, rfl, balance⟩
  · rw [trace] at used
    rw [if_pos used]
    simp only [Store.commit, Scenario.shown, accounts]
  · rw [trace] at fresh
    have copied : (t.commit sc.env (some (charge.tenantId, updated))).redisBalance sc.tenantId =
        some updated.balance := by
      simp [Store.commit, Store.redisBalance, Store.setAccount, tenant, syncRedisHash, redis]
    rw [shown_of_redisBalance copied, balance, if_neg (not_not.mpr fresh), tenant]
    rfl

theorem settled_shown (usable : sc.env.usesScript = true) (total : 0 < c.total) {before : ℚ}
    (present : c.store.redisBalance sc.tenantId = some before) {balance : Option ℚ} {t : Store}
    (called : recordAndAdjust sc.env (sc.usageCall c) c.store = (.ok balance, t)) :
    sc.shown t =
      if 1 / 1000000 < |c.total - sc.settledEstimate c.pricingConfig| then
        adjusted before (c.total - sc.settledEstimate c.pricingConfig)
      else before := by
  have redis : sc.env.redis = true := (Bool.and_eq_true_iff.mp usable).1
  have billable : (sc.usageCall c).Billable sc.tenantId := ⟨rfl, total⟩
  have recorded : recordable sc.traceId c.store = true := by
    cases found : c.store.ledger.find? sc.traceId with
    | none => simp [recordable, found]
    | some existing =>
      by_cases status : existing.status = .committed
      · simp [recordable, found, status]
      · rw [recordAndAdjust_duplicate _ billable found status] at called
        cases called
  have after := recordAndAdjust_redisBalance sc.env (s := c.store) billable
  rw [called, present, Option.map_some] at after
  rw [shown_of_redisBalance after]
  have adjusted : Adjusted sc.env (sc.usageCall c) c.store ↔
      1 / 1000000 < |c.total - sc.settledEstimate c.pricingConfig| :=
    ⟨fun adjusted => adjusted.1.1, fun large => ⟨⟨large, redis⟩, recorded⟩⟩
  simp only [adjustment, adjusted]
  split
  · rfl
  · rfl

theorem total_nonneg (c : ChatContext) : 0 ≤ c.total := totalCost_nonneg _ _ _

theorem recorded_bills (usable : sc.env.usesScript = true) (admitted : Admitted sc s c)
    (idle : ¬ (0 < c.total ∧ Scenario.unchecked c = true)) {balance : Option ℚ} {t : Store}
    (called : recordAndAdjust sc.env (sc.usageCall c) c.store = (.ok balance, t)) :
    sc.shown t = left sc s c.total (sc.settledEstimate c.pricingConfig) := by
  rcases (total_nonneg c).eq_or_lt with free | total
  · have unbillable : ∀ x, ¬ (sc.usageCall c).Billable x := fun _ billable =>
      absurd billable.costs (by rw [show (sc.usageCall c).total = c.total from rfl, ← free]; simp)
    rw [recordAndAdjust_unbillable _ unbillable] at called
    cases called
    rw [← free, admitted.left_free]
  · have degraded : sc.degraded = false := by
      rw [← admitted.unchecked]
      simpa [total] using idle
    rw [settled_shown usable total (admitted.checked degraded).1 called]
    simp [left, Adjusts, total.ne', degraded]

theorem chargeUsage_bills (usable : sc.env.usesScript = true) (admitted : Admitted sc s c)
    (costs : c.totalCost = c.total) (called : sc.chargeUsage c p = (.ok hook, c')) :
    sc.shown (c'.store.commit sc.env hook) =
      left sc s c.total (sc.settledEstimate c.pricingConfig) := by
  rw [Scenario.chargeUsage] at called
  rw [costs] at called
  split at called
  · rename_i due
    have degraded : sc.degraded = true := admitted.unchecked ▸ due.2
    split at called
    · cases called
    · rename_i tx _ t deducted
      cases called
      have after := deducted_shown usable rfl rfl deducted
      rw [admitted.degraded degraded] at after
      have cost : (sc.charge c p).amount = c.total := costs
      rw [after, cost, left, if_pos degraded]
      simp only [due.1.ne', false_or]
  · rename_i idle
    split at called
    · cases called
    split at called <;> rename_i recorded <;> cases called
    · exact recorded_bills usable admitted idle recorded
    · exact recorded_bills usable admitted idle recorded

theorem bill_bills (usable : sc.env.usesScript = true) (answered : Answered sc s c)
    {r : StepResult} (billed : sc.bill c = (.ok r, c')) : r.status = .failed ∨ Billed sc s c' := by
  have admitted : Admitted sc s c := answered.toAdmitted
  have total : sc.total = c.total := by
    rw [Scenario.total, ChatContext.total, answered.input, answered.output, answered.pricing]
  have estimate : sc.estimate = sc.settledEstimate c.pricingConfig := by
    rw [Scenario.estimate, answered.pricing]
  rw [Billed, total, estimate]
  rw [Scenario.bill, if_neg (by simp [admitted.stream])] at billed
  simp only [Scenario.deductForNonStream] at billed
  split at billed
  · rename_i pricing
    have free : c.total = 0 := by rw [ChatContext.total, pricing, totalCost_unpriced]
    split at billed <;> cases billed
    right
    rw [free, admitted.left_free]
  · split at billed
    · cases billed
      exact .inl rfl
    · cases billed
      exact .inl rfl
    · rename_i hook charged called
      split at billed <;> cases billed
      · exact .inl rfl
      · right
        have bills := chargeUsage_bills usable (admitted.costed _ _ _) rfl called
        exact bills

end Billing

section Run
variable {sc : Scenario} {s : Store}

attribute [local simp] Scenario.executeStep

theorem keeps_other {names : List StepName} {name : StepName} {A : ChatContext → Prop}
    (check : name ≠ .quotaCheck) (billing : name ≠ .billing)
    (writes : ∀ attempt c, A c → A (sc.writes name attempt c)) : Keeps (sc.step names name) A := by
  refine ⟨?_, fun _ _ held => held⟩
  intro attempt c held
  have other : sc.executeStep name attempt c = sc.executeOther name attempt c := by
    cases name <;> first | contradiction | rfl
  have written : ((sc.step names name).execute attempt c).2 = sc.writes name attempt c := by
    simp only [Scenario.step, other, Scenario.executeOther]
    split <;> rfl
  rw [written]
  exact writes attempt c held

theorem Admitted.writes {c : ChatContext} (admitted : Admitted sc s c) (name : StepName)
    (attempt : ℕ) : Admitted sc s (sc.writes name attempt c) := by
  obtain ⟨stream, unchecked, degraded, checked⟩ := admitted
  cases name with
  | agentExecutor => exact ⟨rfl, unchecked, degraded, checked⟩
  | _ => exact ⟨stream, unchecked, degraded, checked⟩

theorem Routed.writes {c : ChatContext} (routed : Routed sc s c) {name : StepName}
    (other : name ≠ .routing) (attempt : ℕ) : Routed sc s (sc.writes name attempt c) := by
  refine ⟨routed.toAdmitted.writes name attempt, ?_⟩
  cases name with
  | routing => contradiction
  | _ => exact routed.pricing

theorem Answered.writes {c : ChatContext} (answered : Answered sc s c) {name : StepName}
    (other : name ≠ .routing) (attempt : ℕ) : Answered sc s (sc.writes name attempt c) := by
  refine ⟨answered.toRouted.writes other attempt, ?_, ?_⟩
  · cases name with
    | responseTransform => rfl
    | _ => exact answered.input
  · cases name with
    | responseTransform => rfl
    | _ => exact answered.output

theorem routing_rule (names : List StepName) :
    StepRule (fun p => Admitted sc s p.ctx) (sc.step names .routing)
      (fun p => Routed sc s p.ctx) := by
  intro p q admitted executed
  have routed (attempt : ℕ) (pricing : sc.routed attempt = sc.selected) {c : ChatContext}
      (admitted : Admitted sc s c) : Routed sc s (sc.writes .routing attempt c) :=
    ⟨admitted.writes .routing attempt, pricing⟩
  simp only [Orchestrator.executeStep, attempts, Scenario.step, maxRetries, Scenario.executeStep,
    Scenario.executeOther, Scenario.onFailure] at executed
  cases first : sc.ending .routing 1 with
  | returns r =>
    simp only [first] at executed
    cases executed
    exact routed 1 (by rw [Scenario.selected, first]) admitted
  | raises e =>
    have again := admitted.writes .routing 1
    cases second : sc.ending .routing 2 with
    | returns r =>
      simp only [first, second, le_refl, if_true] at executed
      cases executed
      exact routed 2 (by rw [Scenario.selected, first]) again
    | raises e =>
      simp [first, second, settle] at executed

theorem responseTransform_rule (names : List StepName) :
    StepRule (fun p => Routed sc s p.ctx) (sc.step names .responseTransform)
      (fun p => Answered sc s p.ctx) := by
  refine .of_abort (fun _ => baseOnFailure_never (maxRetries .responseTransform)) ?_
  intro c r c' routed executed
  have written : c' = sc.writes .responseTransform 1 c := by
    simp only [Scenario.step, Scenario.executeStep, Scenario.executeOther] at executed
    split at executed <;> cases executed
    rfl
  rw [written]
  exact ⟨routed.writes (by decide) 1, rfl, rfl⟩

theorem quotaCheck_leads (usable : sc.env.usesScript = true) {names : List StepName}
    {r : StepResult} {c c' : ChatContext} (start : c = { store := s })
    (executed : (sc.step names .quotaCheck).execute 1 c = (.ok r, c')) :
    r.status = .failed ∨ Admitted sc s c' := by
  subst start
  simp only [Scenario.step, Scenario.executeStep] at executed
  cases cut : sc.cutShort .quotaCheck with
  | some done =>
    rw [cut] at executed
    cases executed
  | none =>
    rw [cut] at executed
    cases checked : sc.quotaCheck { store := s } with
    | mk result after =>
      simp only [checked] at executed
      cases executed
      exact quotaCheck_admits usable checked

theorem billing_leads (usable : sc.env.usesScript = true) {names : List StepName}
    {r : StepResult} {c c' : ChatContext} (answered : Answered sc s c)
    (executed : (sc.step names .billing).execute 1 c = (.ok r, c')) :
    r.status = .failed ∨ Billed sc s c' := by
  simp only [Scenario.step, Scenario.executeStep] at executed
  cases cut : sc.cutShort .billing with
  | some done =>
    rw [cut] at executed
    cases executed
  | none =>
    rw [cut] at executed
    exact bill_bills usable answered executed

theorem shouldSkip_eq_false {name : StepName} (other : name ≠ .auditLog) :
    sc.shouldSkip name = false := by
  simp [Scenario.shouldSkip, other]

theorem keeps_all {names layer : List StepName} {A : ChatContext → Prop}
    (check : .quotaCheck ∉ layer) (billing : .billing ∉ layer)
    (writes : ∀ name ∈ layer, ∀ attempt c, A c → A (sc.writes name attempt c)) :
    ∀ step ∈ layer.map (sc.step names), Keeps step A := by
  intro step mem
  obtain ⟨name, listed, rfl⟩ := List.mem_map.mp mem
  exact keeps_other (fun same => check (same ▸ listed)) (fun same => billing (same ▸ listed))
    (writes name listed)

theorem layer_through {names : List StepName} {A B D : ChatContext → Prop}
    (before : List StepName) {after : List StepName} {charging : StepName}
    (logged : .auditLog ∉ before ++ charging :: after)
    (check : .quotaCheck ∉ before) (billing : .billing ∉ before)
    (aborts : ∀ e attempt, Scenario.onFailure charging e attempt = .abort)
    (first : ∀ name ∈ before, ∀ attempt c, A c → A (sc.writes name attempt c))
    (leads : ∀ r c c', A c → (sc.step names charging).execute 1 c = (.ok r, c') →
      r.status = .failed ∨ B c')
    (second : SerialRule (UnlessFailed (sc.step names charging) B) (after.map (sc.step names))
      (UnlessFailed (sc.step names charging) D)) :
    LayerRule (fun p => A p.ctx) ((before ++ charging :: after).map (sc.step names))
      (fun p => D p.ctx) := by
  rw [List.map_append, List.map_cons]
  refine .through (fun step mem c => ?_) (keeps_all check billing first) (fun _ => aborts)
    (fun c r c' => leads r c c') second
  rw [← List.map_cons, ← List.map_append] at mem
  obtain ⟨name, listed, rfl⟩ := List.mem_map.mp mem
  exact shouldSkip_eq_false fun same => logged (same ▸ listed)

theorem layer_keeps {names layer : List StepName} {A : ChatContext → Prop}
    (check : .quotaCheck ∉ layer) (billing : .billing ∉ layer)
    (writes : ∀ name ∈ layer, ∀ attempt c, A c → A (sc.writes name attempt c)) :
    LayerRule (fun p => A p.ctx) (layer.map (sc.step names)) (fun p => A p.ctx) :=
  .keep_ctx (keeps_all check billing writes)

theorem second_layer (usable : sc.env.usesScript = true) (names : List StepName) :
    LayerRule (fun p => p.ctx = { store := s })
      ([.signatureVerify, .resolveAssets, .mcpDiscovery, .quotaCheck, .rateLimit, .routing].map
        (sc.step names)) (fun p => Routed sc s p.ctx) := by
  have rateLimit : Keeps (sc.step names .rateLimit) (Admitted sc s) :=
    keeps_other (by decide) (by decide) fun attempt _ admitted => admitted.writes .rateLimit attempt
  have rest : SerialRule (UnlessFailed (sc.step names .quotaCheck) (Admitted sc s))
      ([.rateLimit, .routing].map (sc.step names))
      (UnlessFailed (sc.step names .quotaCheck) (Routed sc s)) := by
    refine .cons (rateLimit.stepRule.unlessFailed ?_)
      (.cons ((routing_rule names).unlessFailed ?_) .nil)
    · exact fun same => nomatch (show StepName.rateLimit = .quotaCheck from same)
    · exact fun same => nomatch (show StepName.routing = .quotaCheck from same)
  refine layer_through (A := fun c => c = { store := s })
    [.signatureVerify, .resolveAssets, .mcpDiscovery] (by decide) (by decide)
    (by decide) (baseOnFailure_never _) ?_ (fun _ _ _ => quotaCheck_leads usable) rest
  simp +contextual [Scenario.writes]

theorem externalChat_bills (usable : sc.env.usesScript = true)
    (success : (externalChat sc s).success = true) :
    Billed sc s (externalChat sc s).progress.ctx := by
  have rule : LayersRule (fun p => p.ctx = { store := s })
      (externalChatLayers.map fun layer => layer.map (sc.step externalChatSteps))
      (fun p => Billed sc s p.ctx) := by
    refine .cons (layer_keeps (A := fun c => c = { store := s }) (by decide) (by decide) ?_)
      (.cons (second_layer usable _) (.cons (layer_keeps (by decide) (by decide) ?_)
        (.cons (layer_keeps (by decide) (by decide) ?_)
          (.cons (.single (fun _ => rfl) (responseTransform_rule _))
            (.cons (layer_through [.memoryWrite, .sanitize] (by decide) (by decide)
                (by decide) (baseOnFailure_never _) ?_ (fun _ _ _ => billing_leads usable) .nil)
              (.cons (layer_keeps (A := Billed sc s) (by decide) (by decide) ?_) .nil))))))
    · simp +contextual [Scenario.writes]
    · intro name listed attempt c routed
      exact routed.writes (fun same => by simp [same] at listed) attempt
    · intro name listed attempt c routed
      exact routed.writes (fun same => by simp [same] at listed) attempt
    · intro name listed attempt c answered
      exact answered.writes (fun same => by simp [same] at listed) attempt
    · simp +contextual [Scenario.writes]
  rw [externalChat_eq] at success ⊢
  exact rule _ rfl success

end Run

/-- The run has taken the cost of its usage, up to the tolerance of the settlement. -/
def ChargesTotal (sc : Scenario) (s : Store) (c : ChatContext) : Prop :=
  |sc.shown s - sc.shown c.store - sc.total| ≤ 1 / 1000000

/-- What the writes of the balance round away: the double of the pre-check, and the text of
a settlement by `costDiff`. -/
def checkLoss (sc : Scenario) (s : Store) : ℚ := sc.shown s - sc.env.less (sc.shown s) 0

def settlementLoss (sc : Scenario) (s : Store) (costDiff : ℚ) : ℚ :=
  sc.shown s - costDiff - adjusted (sc.env.less (sc.shown s) 0) costDiff

/-- When the decrease is the cost, up to the tolerance of the settlement. After a pre-check:
the estimate is settled and is 0, or it is not settled and the cost is 0, but for what the
writes round away. Without one: there is no cost or the truncation that follows `deduct`
loses nothing, or a transaction is there already and the cost is 0. -/
def Matches (sc : Scenario) (s : Store) : Prop :=
  if sc.degraded then
    if sc.total = 0 ∨ s.ledger.find? sc.traceId ≠ none then sc.total ≤ 1 / 1000000
    else
      |sc.shown s - sc.total - (Decimal.truncate (luaSub (sc.shown s) sc.total) : ℚ)| ≤ 1 / 1000000
  else if Adjusts sc.total sc.estimate then
    |sc.estimate - settlementLoss sc s (sc.total - sc.estimate)| ≤ 1 / 1000000
  else |sc.total - checkLoss sc s| ≤ 1 / 1000000

instance (sc : Scenario) (s : Store) (c : ChatContext) : Decidable (ChargesTotal sc s c) :=
  inferInstanceAs (Decidable (_ ≤ _))

instance (sc : Scenario) (s : Store) : Decidable (Matches sc s) :=
  inferInstanceAs (Decidable (ite _ _ _))

theorem left_close_iff (sc : Scenario) (s : Store) :
    |sc.shown s - left sc s sc.total sc.estimate - sc.total| ≤ 1 / 1000000 ↔ Matches sc s := by
  have nonneg : 0 ≤ sc.total := totalCost_nonneg _ _ _
  rw [left, Matches]
  split
  · split
    · rw [sub_self, zero_sub, abs_neg, abs_of_nonneg nonneg]
    · rw [sub_right_comm]
  · split
    · have gap : sc.shown s - adjusted (sc.env.less (sc.shown s) 0) (sc.total - sc.estimate) -
          sc.total = -(sc.estimate - settlementLoss sc s (sc.total - sc.estimate)) := by
        rw [settlementLoss]
        ring
      rw [gap, abs_neg]
    · rw [← checkLoss, abs_sub_comm]

/-- One credit per thousand tokens either way, a thousand tokens at most, and half of
them used each way: the cost is 1 and the estimate 2. -/
def thousandTokens (apiKeyCheck : ApiKeyCheck) : Scenario :=
  { env := scriptEnv, tenantId := 1, traceId := "trace", maxTokens := some 1000, apiKeyCheck
    routed := fun _ => some ⟨some 1, some 1⟩, usage := (500, 500) }

end Deeting.Workflow
