import Deeting.Transition
import Deeting.Workflow.Steps

/-! A streaming chat run from the quota check to `stream_billing_callback`, with other
requests at work on the same stores. `BillingStep` leaves a pending transaction, and the
callback goes through `record_transaction`, which takes a pending row for a duplicate;
`commit_pending_transaction` has no caller. -/
namespace Deeting.Workflow
open Deeting.Quota Deeting.Billing Transition

/-- The counters of `StreamTokenAccumulator` when the stream is over. -/
structure StreamUsage where
  inputTokens : ℕ
  outputTokens : ℕ
  chunksCount : ℕ

def StreamUsage.estimateOutputTokens (usage : StreamUsage) : ℕ :=
  if 0 < usage.outputTokens then usage.outputTokens else max 1 (usage.chunksCount * 3)

/-- What the end of `stream_with_billing` leaves to its callback. -/
def StreamUsage.bill (usage : StreamUsage) (c : ChatContext) : ChatContext :=
  { c with
    inputTokens := usage.inputTokens
    outputTokens :=
      if usage.outputTokens = 0 then usage.estimateOutputTokens else usage.outputTokens }

namespace Scenario

/-- The call of `record_and_adjust` in the callback. -/
def streamCall (sc : Scenario) (c : ChatContext) (estimatedCost : ℚ) : UsageCall :=
  { tenantId := some sc.tenantId, traceId := sc.traceId, inputTokens := c.inputTokens
    outputTokens := c.outputTokens, pricing := c.pricingConfig, estimatedCost
    attribution := sc.attribution, description := some "Stream billing completed" }

/-- `stream_billing_callback` for a known tenant, as far as costs, ledger and balance go. An
exception of the estimate, the record or the commit is rolled back and logged. -/
def streamBillingCallback (sc : Scenario) (commitFails : Bool) (c : ChatContext) : ChatContext :=
  let (inputCost, outputCost, totalCost) :=
    calculateCost c.inputTokens c.outputTokens c.pricingConfig
  let c := { c with inputCost, outputCost, totalCost }
  match c.pricingConfig with
  | none => c
  | some _ =>
      match sc.precheckEstimate c.pricingConfig with
      | none => c
      | some estimatedCost =>
          match recordAndAdjust sc.env (sc.streamCall c estimatedCost) c.store with
          | (.error _, store) => { c with store := c.store.rollback store }
          | (.ok _, store) =>
              if commitFails then { c with store := c.store.rollback store }
              else { c with store }

end Scenario

inductive OtherRequest where
  | quota (tenant : TenantId) (a : Account)
  | createPending (env : Env) (call : PendingCall)
  | deduct (env : Env) (fault : Fault) (c : Charge) (allowNegative : Bool)
  | recordAndAdjust (env : Env) (call : UsageCall)
  | recharge (env : Env) (tenant : TenantId) (amount : ℚ) (traceId : TraceId)
      (description : Option String)
  | reverse (env : Env) (originalTraceId reverseTraceId : TraceId) (description : Option String)

def OtherRequest.act (s : Store) : OtherRequest → Store
  | .quota tenant a => s.setAccount tenant a
  | .createPending env call => (createPendingTransaction env call s).2
  | .deduct env fault c allowNegative =>
      let (_, hook, s) := Billing.deduct env fault c allowNegative s
      s.commit env hook
  | .recordAndAdjust env call => (Billing.recordAndAdjust env call s).2
  | .recharge env tenant amount traceId description =>
      (Billing.recharge env tenant amount traceId description s).2
  | .reverse env originalTraceId reverseTraceId description =>
      (Billing.reverse env originalTraceId reverseTraceId description s).2

inductive StreamPhase where
  | started
  | billed
  | finished
  | called
  deriving DecidableEq

structure StreamRun where
  phase : StreamPhase
  context : ChatContext

inductive StreamAction where
  | quotaCheck
  | bill
  | finish (usage : StreamUsage)
  | callback (commitFails : Bool)
  | other (request : OtherRequest)

namespace Scenario

/-- The run of a request whose `upstream_call` has left a stream. -/
def streamStep (sc : Scenario) (w : StreamRun) : StreamAction → Option StreamRun
  | .quotaCheck =>
    match w.phase with
    | .started => some { w with context := (sc.quotaCheck w.context).2 }
    | _ => none
  | .bill =>
    match w.phase with
    | .started => some ⟨.billed, (sc.bill w.context).2⟩
    | _ => none
  | .finish usage =>
    match w.phase with
    | .billed => some ⟨.finished, usage.bill w.context⟩
    | _ => none
  | .callback commitFails =>
    match w.phase with
    | .finished => some ⟨.called, sc.streamBillingCallback commitFails w.context⟩
    | _ => none
  | .other request =>
    some { w with context := { w.context with store := request.act w.context.store } }

/-- `BillingStep` has created the transaction of the run, and it is pending. -/
def CreatesPending (sc : Scenario) (w : StreamRun) : StreamAction → Prop
  | .bill => w.context.store.ledger.find? sc.traceId = none ∧
      ∃ tx, (sc.bill w.context).2.store.ledger.find? sc.traceId = some tx ∧ tx.status = .pending
  | _ => True

end Scenario

/-- The charge of a finished stream: one transaction, committed with the amount for its
usage, and the balance down by this amount. -/
def StreamRun.Charged (sc : Scenario) (start : Store) (w : StreamRun) : Prop :=
  let amount := totalCost w.context.inputTokens w.context.outputTokens w.context.pricingConfig
  (∃ tx, w.context.store.ledger.rows.filter (·.traceId = sc.traceId) = [tx] ∧
    tx.status = .committed ∧ tx.amount = amount) ∧
  w.context.store.redisBalance sc.tenantId =
    (start.redisBalance sc.tenantId).map fun balance => balance - amount

def Unsettled (traceId : TraceId) (ledger : Ledger) : Prop :=
  ∃ tx, ledger.find? traceId = some tx ∧ tx.status ≠ .committed

namespace Unsettled

variable {traceId : TraceId} {ledger : Ledger}

theorem of_traceId (unsettled : Unsettled traceId ledger) {other : TraceId}
    (fresh : ledger.find? other = none) : other ≠ traceId := by
  rintro rfl
  obtain ⟨tx, found, -⟩ := unsettled
  rw [fresh] at found
  cases found

theorem insert {added : Ledger} {row : BillingTransaction} (unsettled : Unsettled traceId ledger)
    (inserted : ledger.insert? row = some added) : Unsettled traceId added := by
  obtain ⟨tx, found, status⟩ := unsettled
  exact ⟨tx, Table.find?_of_insert inserted found, status⟩

/-- The row that is rewritten has another trace id, unless the rewriting leaves it uncommitted. -/
theorem modify {k : TraceId} {f : BillingTransaction → BillingTransaction}
    (keeps : ∀ tx, (f tx).traceId = tx.traceId) (unsettled : Unsettled traceId ledger)
    (harmless : k ≠ traceId ∨ ∀ tx, (f tx).status ≠ .committed) :
    Unsettled traceId (ledger.modify k f keeps) := by
  obtain ⟨tx, found, status⟩ := unsettled
  by_cases same : traceId = k
  · subst same
    refine ⟨f tx, ?_, harmless.resolve_left (absurd rfl) tx⟩
    rw [Table.find?_modify, if_pos rfl, found, Option.map_some]
  · refine ⟨tx, ?_, status⟩
    rw [Table.find?_modify, if_neg same, found]

theorem enter {added : Ledger} {row : BillingTransaction}
    {f : BillingTransaction → BillingTransaction} (keeps : ∀ tx, (f tx).traceId = tx.traceId)
    (unsettled : Unsettled traceId ledger) (inserted : ledger.insert? row = some added) :
    Unsettled traceId (added.modify row.traceId f keeps) :=
  (unsettled.insert inserted).modify keeps
    (.inl (unsettled.of_traceId (Table.insert?_eq_some.mp inserted).1))

end Unsettled

section OtherRequests

variable {env : Env} {traceId : TraceId} {s : Store}

theorem unsettled_createPending (unsettled : Unsettled traceId s.ledger) (call : PendingCall) :
    Unsettled traceId (createPendingTransaction env call s).2.ledger := by
  rw [createPendingTransaction]
  split
  · exact unsettled
  · simp only
    split
    · exact unsettled
    · rename_i inserted
      exact unsettled.insert inserted

theorem unsettled_recordTransaction (env : Env) (unsettled : Unsettled traceId s.ledger) (c : Charge) :
    Unsettled traceId (recordTransaction env c s).2.ledger := by
  rw [recordTransaction]
  split
  · split
    · exact unsettled
    · exact unsettled
  · simp only
    split
    · exact unsettled
    · rename_i inserted
      exact unsettled.insert inserted

theorem unsettled_recordAndAdjust (unsettled : Unsettled traceId s.ledger) (call : UsageCall) :
    Unsettled traceId (recordAndAdjust env call s).2.ledger := by
  rw [recordAndAdjust]
  split
  · rename_i tenant p _ _
    have recorded := unsettled_recordTransaction env unsettled (call.charge tenant p)
    split
    · exact unsettled
    · split
      · rename_i answered
        rwa [answered] at recorded
      · rename_i answered
        rw [answered] at recorded
        simpa only [settleEstimate_ledger] using recorded
  · exact unsettled

theorem unsettled_deduct (unsettled : Unsettled traceId s.ledger) (fault : Fault) (c : Charge)
    (allowNegative : Bool) : Unsettled traceId (deduct env fault c allowNegative s).2.2.ledger := by
  rw [deduct]
  split
  · exact unsettled
  simp only
  split
  · exact unsettled
  split
  · exact unsettled
  split
  · exact unsettled
  rw [deductNested]
  simp only
  split
  · exact unsettled
  rename_i inserted
  split
  · exact unsettled
  split
  · exact unsettled
  split
  · exact unsettled
  · exact unsettled.enter (settleDeduct_traceId _) inserted

theorem unsettled_recharge (unsettled : Unsettled traceId s.ledger) (tenant : TenantId)
    (amount : ℚ) (other : TraceId) (description : Option String) :
    Unsettled traceId (recharge env tenant amount other description s).2.ledger := by
  rw [recharge]
  split
  · exact unsettled
  · simp only
    split
    · exact unsettled
    · rename_i inserted
      exact unsettled.enter commitStatus_traceId inserted

theorem unsettled_reverse (unsettled : Unsettled traceId s.ledger)
    (originalTraceId reverseTraceId : TraceId) (description : Option String) :
    Unsettled traceId (reverse env originalTraceId reverseTraceId description s).2.ledger := by
  rw [reverse]
  split
  · exact unsettled
  split
  · exact unsettled
  · rename_i fresh
    simp only
    split
    · exact unsettled
    · rename_i inserted
      have marked := (unsettled.insert inserted).modify (k := originalTraceId)
        (markReversed_traceId reverseTraceId) (.inr fun tx => by simp [markReversed])
      exact marked.modify commitStatus_traceId (.inl (unsettled.of_traceId fresh))

theorem OtherRequest.unsettled (unsettled : Unsettled traceId s.ledger) (request : OtherRequest) :
    Unsettled traceId (request.act s).ledger := by
  cases request with
  | quota tenant a => exact unsettled
  | createPending env call => exact unsettled_createPending unsettled call
  | deduct env fault c allowNegative =>
    simp only [act]
    rw [show ∀ hook (t : Store), (t.commit env hook).ledger = t.ledger by
      intro hook t; cases hook <;> rfl]
    exact unsettled_deduct unsettled fault c allowNegative
  | recordAndAdjust env call => exact unsettled_recordAndAdjust unsettled call
  | recharge env tenant amount other description =>
    exact unsettled_recharge unsettled tenant amount other description
  | reverse env originalTraceId reverseTraceId description =>
    exact unsettled_reverse unsettled originalTraceId reverseTraceId description

end OtherRequests

section Callback

variable {sc : Scenario} {c : ChatContext} {w t : StreamRun}

/-- The callback finds its own pending row in the way and leaves the stores as they are. -/
theorem streamBillingCallback_store (unsettled : Unsettled sc.traceId c.store.ledger)
    (commitFails : Bool) : (sc.streamBillingCallback commitFails c).store = c.store := by
  obtain ⟨tx, found, status⟩ := unsettled
  unfold Scenario.streamBillingCallback
  simp only
  split
  · rfl
  split
  · rfl
  rename_i estimatedCost _
  by_cases billable : (sc.streamCall { c with
      inputCost := (calculateCost c.inputTokens c.outputTokens c.pricingConfig).1
      outputCost := (calculateCost c.inputTokens c.outputTokens c.pricingConfig).2.1
      totalCost := (calculateCost c.inputTokens c.outputTokens c.pricingConfig).2.2 }
        estimatedCost).Billable sc.tenantId
  · rw [recordAndAdjust_duplicate sc.env billable found status]
    rfl
  · rw [recordAndAdjust_unbillable sc.env]
    · split
      · rename_i answered
        cases answered
      · rename_i answered
        cases answered
        split
        · rfl
        · rfl
    · intro tenant other
      have known : tenant = sc.tenantId := (Option.some.inj other.known).symm
      exact billable (known ▸ other)

theorem unsettled_streamStep {a : StreamAction}
    (unsettled : w.phase ≠ .started → Unsettled sc.traceId w.context.store.ledger)
    (created : sc.CreatesPending w a) (taken : sc.streamStep w a = some t) :
    t.phase ≠ .started → Unsettled sc.traceId t.context.store.ledger := by
  cases a with
  | quotaCheck =>
    simp only [Scenario.streamStep] at taken
    split at taken
    · rename_i started
      cases taken
      exact fun late => absurd started late
    · cases taken
  | bill =>
    simp only [Scenario.streamStep] at taken
    split at taken
    · cases taken
      obtain ⟨-, tx, found, pending⟩ := created
      exact fun _ => ⟨tx, found, by simp [pending]⟩
    · cases taken
  | finish usage =>
    simp only [Scenario.streamStep] at taken
    split at taken
    · rename_i billed
      cases taken
      exact fun _ => unsettled (by simp [billed])
    · cases taken
  | callback commitFails =>
    simp only [Scenario.streamStep] at taken
    split at taken
    · rename_i finished
      cases taken
      intro _
      have before := unsettled (by simp [finished])
      rwa [streamBillingCallback_store before commitFails]
    · cases taken
  | other request =>
    cases taken
    exact fun late => (unsettled late).elim fun tx found =>
      OtherRequest.unsettled ⟨tx, found⟩ request

end Callback

/-- No streaming run whose transaction `BillingStep` has created is ever charged for. -/
theorem stream_never_charged {sc : Scenario} {c : ChatContext} {actions : List StreamAction}
    {w : StreamRun}
    (created : Along sc.streamStep sc.CreatesPending ⟨.started, c⟩ actions)
    (reached : run sc.streamStep ⟨.started, c⟩ actions = some w) (called : w.phase = .called) :
    ¬ w.Charged sc c.store := by
  have unsettled : w.phase ≠ .started → Unsettled sc.traceId w.context.store.ledger :=
    run_invariant (P := fun w => w.phase ≠ .started → Unsettled sc.traceId w.context.store.ledger)
      (fun held guard taken => unsettled_streamStep held guard taken) (absurd rfl) created reached
  obtain ⟨open_, found, status⟩ := unsettled (by simp [called])
  rintro ⟨⟨tx, single, committed, -⟩, -⟩
  have listed : open_ ∈ w.context.store.ledger.rows.filter (·.traceId = sc.traceId) := by
    simp [Table.mem_of_find? found, Table.key_of_find? found]
  rw [single, List.mem_singleton] at listed
  exact status (listed ▸ committed)

section Streamed

/-- One credit per thousand tokens either way, and a thousand tokens at most. -/
def streamed : Scenario :=
  { env := scriptEnv, tenantId := 1, traceId := "trace", maxTokens := some 1000
    routed := fun _ => some ⟨some 1, some 1⟩, usage := (500, 500) }

def streamedContext : ChatContext :=
  { pricingConfig := some ⟨some 1, some 1⟩, stream := true, store := storeOf 10 }

def streamedRun : List StreamAction :=
  [.quotaCheck, .bill, .finish ⟨500, 500, 20⟩, .callback false]

theorem streamed_creates :
    Along streamed.streamStep streamed.CreatesPending ⟨.started, streamedContext⟩ streamedRun := by
  refine (along_cons_of_step rfl).mpr ⟨trivial, ?_⟩
  refine (along_cons_of_step rfl).mpr ⟨⟨by decide +kernel, ?_⟩, ?_⟩
  · have pending : ((streamed.bill (streamed.quotaCheck streamedContext).2).2.store.ledger.find?
        "trace").map BillingTransaction.status = some .pending := by decide +kernel
    exact Option.map_eq_some_iff.mp pending
  · refine (along_cons_of_step rfl).mpr ⟨trivial, ?_⟩
    exact (along_cons_of_step rfl).mpr ⟨trivial, trivial⟩

theorem streamed_never_charged :
    ∃ w, run streamed.streamStep ⟨.started, streamedContext⟩ streamedRun = some w ∧
      w.phase = .called ∧ ¬ w.Charged streamed (storeOf 10) := by
  refine ⟨_, rfl, rfl, ?_⟩
  exact stream_never_charged (c := streamedContext) streamed_creates rfl rfl

/-- The pre-check has taken the estimate of two credits, the usage has cost one; the row
stays pending with the estimate for its input, and nothing is given back. -/
theorem streamed_stays_pending :
    ∃ w, run streamed.streamStep ⟨.started, streamedContext⟩ streamedRun = some w ∧
      w.phase = .called ∧
      (w.context.store.ledger.rows.map fun tx => (tx.traceId, tx.status, tx.amount)) =
        [("trace", .pending, 1)] ∧
      totalCost w.context.inputTokens w.context.outputTokens w.context.pricingConfig = 1 ∧
      w.context.store.redisBalance 1 = some 8 ∧ ¬ w.Charged streamed (storeOf 10) := by
  refine ⟨_, rfl, rfl, by decide +kernel, by decide +kernel, by decide +kernel, ?_⟩
  rintro ⟨⟨tx, single, committed, -⟩, -⟩
  have statuses := congrArg (List.map BillingTransaction.status) single
  rw [List.map_cons, List.map_nil, committed] at statuses
  exact absurd statuses (by decide +kernel)

end Streamed

end Deeting.Workflow
