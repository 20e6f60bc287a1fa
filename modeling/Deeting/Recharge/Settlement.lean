import Deeting.Recharge.Alipay

/-! One recharge order from its creation on, under notifications, refreshes and changes of
the policy in any order. The credits are those of the policy in force when the payment is
first reported, not those fixed at the creation. -/
namespace Deeting.Recharge
open Deeting.Quota Deeting.Billing Decimal Transition

/-- An order that `create_alipay_recharge_order` has entered. -/
structure Creation where
  policy : RechargePolicy
  tenantId : TenantId
  amount : ℚ
  nonce : ℕ
  order : AlipayRechargeOrder
  created : createOrder policy tenantId amount nonce = .ok order

structure Trade where
  shop : Shop
  tradeNo : String
  named : tradeNo ≠ ""

namespace Trade

def traceId (trade : Trade) (order : AlipayRechargeOrder) : TraceId :=
  trade.shop.traceId trade.tradeNo order.outTradeNo

def Reports (trade : Trade) (order : AlipayRechargeOrder) (report : TradeReport) : Prop :=
  trade.shop.ValidSeller report.sellerId ∧
  (∀ total ∈ report.totalAmount, quantize2 total = quantize2 order.amount) ∧
  (∀ tradeNo ∈ report.tradeNo, tradeNo = trade.tradeNo) ∧
  ((∃ status ∈ report.tradeStatus, status.Paid) → report.tradeNo = some trade.tradeNo)
  deriving Decidable

def Notifies (trade : Trade) (order : AlipayRechargeOrder) (form : NotifyForm) : Prop :=
  form.signed = true ∧ (form.appId = "" ∨ form.appId = trade.shop.appId) ∧
  form.outTradeNo = some order.outTradeNo ∧ form.tradeNo = trade.tradeNo ∧
  form.totalAmount = some order.amount ∧
  (trade.shop.sellerId = "" ∨ form.sellerId = trade.shop.sellerId)
  deriving Decidable

end Trade

inductive Action where
  | notify (env : Env) (form : NotifyForm)
  | refresh (env : Env) (reply : QueryReply)
  | setPolicy (policy : RechargePolicy)

def Trade.Genuine (trade : Trade) (order : AlipayRechargeOrder) : Action → Prop
  | .notify _ form => trade.Notifies order form
  | .refresh _ (.answered result) => result.code = "10000" → trade.Reports order result.report
  | .refresh _ (.failed _) | .setPolicy _ => True

instance (trade : Trade) (order : AlipayRechargeOrder) :
    (a : Action) → Decidable (trade.Genuine order a)
  | .notify _ form => inferInstanceAs (Decidable (trade.Notifies order form))
  | .refresh _ (.answered result) =>
      inferInstanceAs (Decidable (result.code = "10000" → trade.Reports order result.report))
  | .refresh _ (.failed _) | .setPolicy _ => instDecidableTrue

/-- A result `TRADE_SUCCESS` or `TRADE_FINISHED` comes to be processed; a settled order is
not queried any more. -/
def Action.Pays (status : OrderStatus) : Action → Prop
  | .notify _ form => ∃ reported ∈ form.tradeStatus, reported.Paid
  | .refresh _ (.answered result) => status ≠ .success ∧ result.code = "10000" ∧
      ∃ reported ∈ result.report.tradeStatus, reported.Paid
  | .refresh _ (.failed _) | .setPolicy _ => False

instance (status : OrderStatus) : (a : Action) → Decidable (a.Pays status)
  | .notify _ form => inferInstanceAs (Decidable (∃ reported ∈ form.tradeStatus, reported.Paid))
  | .refresh _ (.answered result) => inferInstanceAs (Decidable
      (status ≠ .success ∧ result.code = "10000" ∧
        ∃ reported ∈ result.report.tradeStatus, reported.Paid))
  | .refresh _ (.failed _) | .setPolicy _ => instDecidableFalse

structure World where
  order : AlipayRechargeOrder
  policy : RechargePolicy
  store : Store
  /-- Whether a paid result has been processed. -/
  processed : Bool := false
  /-- Whether a settled order has been answered with an error. -/
  refused : Bool := false

namespace World

/-- Whether the request is answered without error, and what it leaves. -/
def act (shop : Shop) (w : World) : Action → Bool × World
  | .notify env form =>
      let (answer, order, store) := handleNotify shop env w.policy form w.order w.store
      (answer == .success, { w with order, store })
  | .refresh env reply =>
      let (answer, order, store) := refreshOrder shop env w.policy reply w.order w.store
      (answer.isOk, { w with order, store })
  | .setPolicy policy => (true, { w with policy })

end World

def step (trade : Trade) (w : World) (a : Action) : Option World :=
  if trade.Genuine w.order a then
    let (acknowledged, t) := w.act trade.shop a
    some { t with
      processed := w.processed || decide (a.Pays w.order.status)
      refused := w.refused || decide (w.order.status = .success ∧ acknowledged = false) }
  else none

namespace Creation

def start (c : Creation) (store : Store) : World :=
  { order := c.order, policy := c.policy, store }

end Creation

def Credits (trade : Trade) (order : AlipayRechargeOrder) (amount : ℚ) (s t : Store) : Prop :=
  ∃ tx, t.ledger.rows = tx :: s.ledger.rows ∧ tx.traceId = trade.traceId order ∧
    tx.tenantId = order.tenantId ∧ tx.type = .recharge ∧ tx.status = .committed ∧
    tx.amount = amount ∧ Moves s t order.tenantId amount

namespace World

/-- The order as it was entered is credited once, from the first paid result on. -/
structure ExactlyOnce (trade : Trade) (order : AlipayRechargeOrder) (store : Store)
    (w : World) : Prop where
  uncredited : w.processed = false →
    w.store.ledger = store.ledger ∧ ∀ x, w.store.balance x = store.balance x
  credited : w.processed = true →
    Credits trade order order.expectedCreditedAmount store w.store
  final : w.processed = true → w.order.status = .success
  acknowledged : w.refused = false

/-- The policy in force gives credits for the order, and, when they are to be given, as many
as were fixed; and the trace id is not in use. -/
def Honours (trade : Trade) (order : AlipayRechargeOrder) (w : World) : Prop :=
  0 < w.policy.credits order.amount ∧
    (w.processed = false → w.policy.credits order.amount = order.expectedCreditedAmount ∧
      w.store.ledger.find? (trade.traceId order) = none)

def HonoursAt (trade : Trade) (order : AlipayRechargeOrder) (w : World) (a : Action) : Prop :=
  trade.Genuine w.order a → a.Pays w.order.status → w.Honours trade order

end World

section Updates

variable {shop : Shop} {env : Env} {policy : RechargePolicy} {report : TradeReport}
  {order : AlipayRechargeOrder} {s : Store}

theorem mapOrderStatus_success {reported : Option TradeStatus} :
    mapOrderStatus reported = .success ↔ ∃ status ∈ reported, status.Paid := by
  unfold TradeStatus.Paid
  cases reported with
  | none => simp [mapOrderStatus]
  | some status => cases status <;> simp [mapOrderStatus]

theorem rate_pos {amount : ℚ} (positive : 0 < policy.credits amount) :
    0 < quantize6 policy.creditPerUnit := by
  have rate : 0 ≤ quantize6 policy.creditPerUnit := quantize6_nonneg policy.positive.le
  apply lt_of_le_of_ne rate
  intro none
  rw [RechargePolicy.credits, ← none, mul_zero, quantize6_zero] at positive
  exact lt_irrefl 0 positive

theorem recharge_fresh (env : Env) {trade : Trade} (amount : ℚ) (description : Option String)
    (fresh : s.ledger.find? (trade.traceId order) = none) :
    ∃ tx t, recharge env order.tenantId amount (trade.traceId order) description s = (.ok tx, t) ∧
      Credits trade order amount s t := by
  rw [recharge, fresh]
  simp only
  split
  · rename_i used
    exact absurd fresh (Table.insert?_eq_none.mp used)
  · rename_i ledger inserted
    have moves : Moves s ((s.setAccount order.tenantId (addBalance env amount
        (getOrCreate env true (s.account order.tenantId)).2).2).setLedger ledger)
          order.tenantId amount :=
      Moves.setAccount (by rw [rowBalance_addBalance, rowBalance_getOrCreate])
    refine ⟨_, _, rfl, _, Table.rows_insert_modify commitStatus_traceId inserted, rfl, rfl,
      rfl, rfl, rfl, ?_⟩
    exact Moves.of_balances moves fun _ => rfl

theorem recharge_used {tenant : TenantId} {amount : ℚ} {traceId : TraceId}
    {description : Option String} {existing : BillingTransaction}
    (found : s.ledger.find? traceId = some existing) :
    recharge env tenant amount traceId description s = (replayed traceId (some existing), s) := by
  rw [recharge, found]

theorem rechargeWithTraceId_refused (env : Env) (s : Store) (tenant : TenantId)
    (traceId : TraceId) (description : String) {amount : ℚ} (positive : 0 < amount)
    (none : policy.credits amount ≤ 0) :
    ∃ message, rechargeWithTraceId env tenant amount (quantize6 policy.creditPerUnit) traceId
      description s = (.error (.valueError message), s) := by
  rw [rechargeWithTraceId, if_neg (not_le.mpr positive)]
  split
  · exact ⟨_, rfl⟩
  · simp only
    rw [if_pos (by exact none)]
    exact ⟨_, rfl⟩

theorem rechargeWithTraceId_passed {tenant : TenantId} {amount : ℚ} {traceId : TraceId}
    {description : String} (positive : 0 < amount) (some_ : 0 < policy.credits amount) :
    rechargeWithTraceId env tenant amount (quantize6 policy.creditPerUnit) traceId description s =
      ((recharge env tenant (policy.credits amount) traceId (some description) s).1.mapError .billing,
        (recharge env tenant (policy.credits amount) traceId (some description) s).2) := by
  rw [rechargeWithTraceId, if_neg (not_le.mpr positive), if_neg (not_le.mpr (rate_pos some_))]
  simp only
  rw [if_neg (by exact not_le.mpr some_)]
  rfl

end Updates

/-- The row is that of the order as it was entered, and its status that of the trade. -/
structure AlipayRechargeOrder.Follows (order entered : AlipayRechargeOrder) : Prop where
  outTradeNo : order.outTradeNo = entered.outTradeNo
  tenantId : order.tenantId = entered.tenantId
  amount : order.amount = entered.amount
  status : order.status = mapOrderStatus order.tradeStatus

def Receives (trade : Trade) (order : AlipayRechargeOrder) (amount : ℚ) (s t : Store) : Prop :=
  (∃ existing, s.ledger.find? (trade.traceId order) = some existing ∧ t = s) ∨
    s.ledger.find? (trade.traceId order) = none ∧ Credits trade order amount s t

section Reports

variable {trade : Trade} {env : Env} {policy : RechargePolicy} {report : TradeReport}
  {order entered : AlipayRechargeOrder} {s : Store}

theorem take_follows (follows : order.Follows entered) (report : TradeReport) :
    (order.take report).Follows entered :=
  ⟨follows.outTradeNo, follows.tenantId, follows.amount, rfl⟩

theorem apply_unpaid (env : Env) (policy : RechargePolicy) (s : Store)
    (reports : trade.Reports order report) (follows : order.Follows entered)
    (unsettled : order.status ≠ .success) (unpaid : ¬ ∃ status ∈ report.tradeStatus, status.Paid) :
    applyOrderUpdate trade.shop env policy report order s = (.ok (order.take report), s) ∧
      (order.take report).status ≠ .success := by
  obtain ⟨seller, total, -, -⟩ := reports
  have open_ : (order.take report).status ≠ .success := by
    rw [follows.status, Ne, mapOrderStatus_success] at unsettled
    rw [(take_follows follows report).status, Ne, mapOrderStatus_success]
    simp only [AlipayRechargeOrder.take]
    cases reported : report.tradeStatus with
    | none => simpa using unsettled
    | some status => simpa [reported] using unpaid
  refine ⟨?_, open_⟩
  rw [applyOrderUpdate, if_neg (not_not.mpr seller), if_neg]
  · exact if_pos open_
  · rintro ⟨given, mem, differs⟩
    exact differs (total given mem)

theorem apply_reports (reports : trade.Reports order report)
    (paid : ∃ status ∈ report.tradeStatus, status.Paid) :
    applyOrderUpdate trade.shop env policy report order s =
      match rechargeWithTraceId env order.tenantId order.amount (quantize6 policy.creditPerUnit)
          (trade.traceId order)
          (((order.take report).reprice policy).description trade.shop trade.tradeNo) s with
      | (.error (.billing (.duplicateTransaction _)), s)
      | (.ok _, s) =>
          (.ok { (order.take report).reprice policy with status := .success, settled := true }, s)
      | (.error failure, s) => (.error failure, s) := by
  obtain ⟨seller, total, -, named⟩ := reports
  have success : (order.take report).status = .success := by
    obtain ⟨status, reported, pays⟩ := paid
    change mapOrderStatus _ = _
    exact mapOrderStatus_success.mpr ⟨status, by simp [Option.mem_def.mp reported], pays⟩
  have number : (order.take report).tradeNo = some trade.tradeNo := by
    simp [AlipayRechargeOrder.take, named paid, trade.named]
  rw [applyOrderUpdate, if_neg (not_not.mpr seller), if_neg]
  · simp only [success, number]
    rfl
  · rintro ⟨given, mem, differs⟩
    exact differs (total given mem)

/-- A report of the paid trade is refused where the policy gives no credits, and settles the
order where it gives some. -/
theorem apply_paid (env : Env) (policy : RechargePolicy) (s : Store)
    (reports : trade.Reports order report) (follows : order.Follows entered)
    (positive : 0 < entered.amount) (paid : ∃ status ∈ report.tradeStatus, status.Paid) :
    (policy.credits entered.amount ≤ 0 ∧ ∃ message,
      applyOrderUpdate trade.shop env policy report order s = (.error (.valueError message), s)) ∨
    (0 < policy.credits entered.amount ∧ ∃ updated t,
      applyOrderUpdate trade.shop env policy report order s = (.ok updated, t) ∧
      updated.Follows entered ∧ updated.status = .success ∧
      Receives trade entered (policy.credits entered.amount) s t) := by
  have traceId : trade.traceId order = trade.traceId entered := by
    rw [Trade.traceId, Trade.traceId, follows.outTradeNo]
  rw [apply_reports reports paid, follows.tenantId, follows.amount, traceId]
  obtain ⟨status, reported, pays⟩ := paid
  have settled : ({ (order.take report).reprice policy with status := .success, settled := true } :
      AlipayRechargeOrder).Follows entered :=
    ⟨follows.outTradeNo, follows.tenantId, follows.amount,
      (mapOrderStatus_success.mpr ⟨status, by
        simp [AlipayRechargeOrder.take, AlipayRechargeOrder.reprice,
          Option.mem_def.mp reported], pays⟩).symm⟩
  rcases le_or_gt (policy.credits entered.amount) 0 with none | some_
  · obtain ⟨message, refused⟩ := rechargeWithTraceId_refused env s entered.tenantId
      (trade.traceId entered)
      (((order.take report).reprice policy).description trade.shop trade.tradeNo) positive none
    exact .inl ⟨none, message, by rw [refused]⟩
  · refine .inr ⟨some_, ?_⟩
    rw [rechargeWithTraceId_passed positive some_]
    cases found : s.ledger.find? (trade.traceId entered) with
    | some existing =>
      refine ⟨_, s, ?_, settled, rfl, .inl ⟨existing, found, rfl⟩⟩
      rw [recharge_used found, replayed]
      split_ifs with committed
      · rfl
      · rfl
    | none =>
      obtain ⟨tx, t, charged, credits⟩ := recharge_fresh env (policy.credits entered.amount)
        (some (((order.take report).reprice policy).description trade.shop trade.tradeNo)) found
      exact ⟨_, t, by rw [charged]; rfl, settled, rfl, .inr ⟨found, credits⟩⟩

end Reports

section Requests

variable {trade : Trade} {entered order : AlipayRechargeOrder} {w : World} {a : Action}
  {form : NotifyForm} {env : Env} {policy : RechargePolicy} {s : Store}

def NotifyForm.report (form : NotifyForm) (total : ℚ) : TradeReport where
  tradeStatus := form.tradeStatus
  tradeNo := some form.tradeNo
  totalAmount := some (quantize2 total)
  sellerId := if form.sellerId = "" then none else some form.sellerId

theorem AlipayRechargeOrder.Follows.cents (follows : order.Follows entered)
    (cents : entered.amount = entered.outTradeNo.cents / 100) :
    order.amount = order.outTradeNo.cents / 100 := by
  rw [follows.amount, cents, follows.outTradeNo]

theorem report_genuine (notifies : trade.Notifies order form)
    (cents : order.amount = order.outTradeNo.cents / 100) :
    trade.Reports order (form.report order.amount) := by
  obtain ⟨-, -, -, tradeNo, -, seller⟩ := notifies
  refine ⟨?_, ?_, ?_, ?_⟩
  · rcases seller with any | same
    · exact .inl any
    · refine .inr ?_
      unfold NotifyForm.report
      simp only
      split_ifs with empty
      · exact empty ▸ same
      · exact same
  · rintro total ⟨rfl⟩
    rw [cents, quantize2_cents, quantize2_cents]
  · rintro given ⟨rfl⟩
    exact tradeNo
  · exact fun _ => congrArg some tradeNo

theorem handleNotify_paid (env : Env) (policy : RechargePolicy) (s : Store)
    (notifies : trade.Notifies order form)
    (cents : order.amount = order.outTradeNo.cents / 100)
    (paid : ∃ status ∈ form.tradeStatus, status.Paid) :
    handleNotify trade.shop env policy form order s =
      match applyOrderUpdate trade.shop env policy (form.report order.amount) order s with
      | (.ok updated, s) => (.success, updated, s)
      | (.error (.valueError _), s) => (.failure, order, s)
      | (.error (.billing (.duplicateTransaction _)), s) => (.success, order, s)
      | (.error (.billing _), s) => (.serverError, order, s) := by
  obtain ⟨signed, appId, outTradeNo, tradeNo, totalAmount, -⟩ := notifies
  have same : quantize2 order.amount = order.outTradeNo.amount := by
    rw [OutTradeNo.amount, cents]
  have named : form.tradeNo ≠ "" := tradeNo ▸ trade.named
  rw [handleNotify, if_neg (by simp [signed]), if_neg, if_neg (not_not.mpr paid), outTradeNo,
    totalAmount]
  · simp only
    rw [if_neg named, if_neg (not_not.mpr same)]
    rfl
  · rintro ⟨given, other⟩
    exact appId.elim given other

theorem act_unpaid (genuine : trade.Genuine w.order a) (follows : w.order.Follows entered)
    (unpaid : ¬ a.Pays w.order.status) :
    ∃ t, w.act trade.shop a = (true, t) ∧ t.store = w.store ∧ t.order.Follows entered ∧
      (t.order.status = .success ↔ w.order.status = .success) := by
  cases a with
  | setPolicy policy => exact ⟨_, rfl, rfl, follows, .rfl⟩
  | notify env form =>
    obtain ⟨signed, appId, -⟩ := genuine
    have skipped : handleNotify trade.shop env w.policy form w.order w.store =
        (.success, w.order, w.store) := by
      rw [handleNotify, if_neg (by simp [signed]), if_neg, if_pos (by exact unpaid)]
      rintro ⟨given, other⟩
      exact appId.elim given other
    exact ⟨w, by simp only [World.act, skipped]; rfl, rfl, follows, .rfl⟩
  | refresh env reply =>
    by_cases settled : w.order.status = .success
    · have skipped : refreshOrder trade.shop env w.policy reply w.order w.store =
          (.ok (), w.order, w.store) := if_pos settled
      exact ⟨w, by simp only [World.act, skipped]; rfl, rfl, follows, .rfl⟩
    · cases reply with
      | failed message =>
        refine ⟨{ w with order := { w.order with
            errorCode := some "query_failed", errorDetail := some message } }, ?_, rfl,
          ⟨follows.outTradeNo, follows.tenantId, follows.amount, follows.status⟩, .rfl⟩
        simp only [World.act, refreshOrder, if_neg settled]
        rfl
      | answered result =>
        by_cases answered : result.code = "10000"
        · obtain ⟨updated, open_⟩ := apply_unpaid env w.policy w.store
            (genuine answered) follows settled fun paid => unpaid ⟨settled, answered, paid⟩
          refine ⟨{ w with order := w.order.take result.report }, ?_, rfl,
            take_follows follows result.report, iff_of_false open_ settled⟩
          simp only [World.act, refreshOrder, if_neg settled, if_pos answered, updated]
          rfl
        · refine ⟨{ w with order := { w.order with
              errorCode := (result.subCode <|> some result.code).filter (· ≠ "")
              errorDetail := result.msg } }, ?_, rfl,
            ⟨follows.outTradeNo, follows.tenantId, follows.amount, follows.status⟩, .rfl⟩
          simp only [World.act, refreshOrder, if_neg settled, if_neg answered]
          rfl

theorem act_paid (genuine : trade.Genuine w.order a) (follows : w.order.Follows entered)
    (cents : entered.amount = entered.outTradeNo.cents / 100) (pays : a.Pays w.order.status) :
    (w.policy.credits entered.amount ≤ 0 ∧ w.act trade.shop a = (false, w)) ∨
    (0 < w.policy.credits entered.amount ∧ ∃ updated t,
      w.act trade.shop a = (true, { w with order := updated, store := t }) ∧
      updated.Follows entered ∧ updated.status = .success ∧
      Receives trade entered (w.policy.credits entered.amount) w.store t) := by
  have positive : 0 < entered.amount := by
    have whole : (0 : ℚ) < entered.outTradeNo.cents := by exact_mod_cast entered.outTradeNo.positive
    rw [cents]
    linarith
  cases a with
  | setPolicy policy => exact pays.elim
  | notify env form =>
    have own := follows.cents cents
    have update := handleNotify_paid env w.policy w.store genuine own pays
    rcases apply_paid env w.policy w.store (report_genuine genuine own)
      follows positive pays with
      ⟨none, message, refused⟩ | ⟨some_, updated, t, settled, after⟩
    · rw [refused] at update
      exact .inl ⟨none, by simp only [World.act, update]; rfl⟩
    · rw [settled] at update
      exact .inr ⟨some_, updated, t, by simp only [World.act, update]; rfl, after⟩
  | refresh env reply =>
    cases reply with
    | failed message => exact pays.elim
    | answered result =>
      obtain ⟨unsettled, answered, paid⟩ := pays
      rcases apply_paid env w.policy w.store (genuine answered)
        follows positive paid with
        ⟨none, message, refused⟩ | ⟨some_, updated, t, settled, after⟩
      · refine .inl ⟨none, ?_⟩
        simp only [World.act, refreshOrder, if_neg unsettled, if_pos answered, refused]
        rfl
      · refine .inr ⟨some_, updated, t, ?_, after⟩
        simp only [World.act, refreshOrder, if_neg unsettled, if_pos answered, settled]
        rfl

end Requests

/-- The row follows the order, the stores are those of the start until a paid result is
processed, and then they have the one credit. -/
structure World.Tracked (trade : Trade) (entered : AlipayRechargeOrder) (store : Store)
    (w : World) : Prop where
  follows : w.order.Follows entered
  untouched : w.processed = false → w.store = store ∧ w.order.status ≠ .success
  credited : w.processed = true →
    Credits trade entered entered.expectedCreditedAmount store w.store ∧ w.order.status = .success
  acknowledged : w.refused = false

section Runs

variable {trade : Trade} {entered : AlipayRechargeOrder} {store : Store} {w t : World} {a : Action}

theorem World.Tracked.exactlyOnce (tracked : w.Tracked trade entered store) :
    w.ExactlyOnce trade entered store where
  uncredited waiting := by
    obtain ⟨same, -⟩ := tracked.untouched waiting
    exact ⟨congrArg Store.ledger same, fun x => congrArg (Store.balance · x) same⟩
  credited processed := (tracked.credited processed).1
  final processed := (tracked.credited processed).2
  acknowledged := tracked.acknowledged

theorem Credits.found {amount : ℚ} {s : Store} (credits : Credits trade entered amount store s) :
    ∃ tx, s.ledger.find? (trade.traceId entered) = some tx := by
  obtain ⟨tx, rows, traceId, -⟩ := credits
  refine ⟨tx, ?_⟩
  rw [Table.find?, rows]
  exact List.find?_cons_of_pos (by simp [traceId])

theorem Credits.irrefl {amount : ℚ} {s : Store} : ¬ Credits trade entered amount s s := by
  rintro ⟨tx, rows, -⟩
  exact List.cons_ne_self tx s.ledger.rows rows.symm

theorem Credits.amount_eq {amount other : ℚ} {s u : Store}
    (first : Credits trade entered amount s u) (second : Credits trade entered other s u) :
    amount = other := by
  obtain ⟨tx, rows, -, -, -, -, given, -⟩ := first
  obtain ⟨tx', rows', -, -, -, -, given', -⟩ := second
  have same : tx = tx' := List.head_eq_of_cons_eq (rows.symm.trans rows')
  rw [← given, ← given', same]

theorem tracked_unpaid (tracked : w.Tracked trade entered store) (taken : step trade w a = some t)
    (unpaid : ¬ a.Pays w.order.status) : t.Tracked trade entered store := by
  rw [step] at taken
  split at taken
  · rename_i genuine
    obtain ⟨after, answered, same, follows, success⟩ := act_unpaid genuine tracked.follows unpaid
    rw [answered] at taken
    cases taken
    refine ⟨follows, ?_, ?_, ?_⟩
    · intro waiting
      obtain ⟨untouched, open_⟩ := tracked.untouched (by simpa [unpaid] using waiting)
      exact ⟨same.trans untouched, fun settled => open_ (success.mp settled)⟩
    · intro processed
      obtain ⟨credits, settled⟩ := tracked.credited (by simpa [unpaid] using processed)
      exact ⟨by simpa only [same] using credits, success.mpr settled⟩
    · simpa using tracked.acknowledged
  · cases taken

theorem tracked_paid (tracked : w.Tracked trade entered store)
    (cents : entered.amount = entered.outTradeNo.cents / 100)
    (honours : w.HonoursAt trade entered a) (taken : step trade w a = some t)
    (pays : a.Pays w.order.status) : t.Tracked trade entered store := by
  rw [step] at taken
  split at taken
  · rename_i genuine
    obtain ⟨positive, fixed⟩ := honours genuine pays
    rcases act_paid genuine tracked.follows cents pays with
      ⟨none, -⟩ | ⟨-, updated, after, answered, follows, settled, receives⟩
    · exact absurd positive (not_lt.mpr none)
    rw [answered] at taken
    cases taken
    refine ⟨follows, ?_, ?_, by simpa using tracked.acknowledged⟩
    · simp [pays]
    · intro _
      refine ⟨?_, settled⟩
      cases processed : w.processed with
      | true =>
        obtain ⟨credits, -⟩ := tracked.credited processed
        obtain ⟨tx, found⟩ := credits.found
        rcases receives with ⟨existing, -, same⟩ | ⟨fresh, -⟩
        · exact same ▸ credits
        · rw [found] at fresh
          cases fresh
      | false =>
        obtain ⟨amount, fresh⟩ := fixed processed
        rcases receives with ⟨existing, found, -⟩ | ⟨-, credits⟩
        · rw [found] at fresh
          cases fresh
        · rw [amount, (tracked.untouched processed).1] at credits
          exact credits
  · cases taken

/-- Where the policy does not, the order is refused, or credited with another amount. -/
theorem honours_of_exactlyOnce (tracked : w.Tracked trade entered store)
    (cents : entered.amount = entered.outTradeNo.cents / 100) (taken : step trade w a = some t)
    (once : t.ExactlyOnce trade entered store) : w.HonoursAt trade entered a := by
  intro genuine pays
  rw [step, if_pos genuine] at taken
  rcases act_paid genuine tracked.follows cents pays with
    ⟨none, answered⟩ | ⟨positive, updated, after, answered, follows, settled, receives⟩
  · rw [answered] at taken
    cases taken
    have credits := once.credited (by simp [pays])
    cases processed : w.processed with
    | true =>
      have acknowledged := once.acknowledged
      simp [(tracked.credited processed).2] at acknowledged
    | false =>
      rw [(tracked.untouched processed).1] at credits
      exact absurd credits Credits.irrefl
  · rw [answered] at taken
    cases taken
    have credits := once.credited (by simp [pays])
    refine ⟨positive, fun waiting => ?_⟩
    have start := (tracked.untouched waiting).1
    rw [start] at receives ⊢
    rcases receives with ⟨existing, -, same⟩ | ⟨fresh, given⟩
    · rw [same] at credits
      exact absurd credits Credits.irrefl
    · exact ⟨given.amount_eq credits, fresh⟩

/-- The order is credited exactly once, in every run whose paid results meet a policy that
honours the order. -/
theorem exactly_once_iff {trade : Trade} {c : Creation} {store : Store} {actions : List Action} :
    (∀ first, first <+: actions → ∀ w, run (step trade) (c.start store) first = some w →
      w.ExactlyOnce trade c.order store) ↔
      Along (step trade) (World.HonoursAt trade c.order) (c.start store) actions := by
  have entered := createOrder_entered c.created
  refine forall_prefix_iff_along (P := World.Tracked trade c.order store)
    World.Tracked.exactlyOnce ?_ ?_ ?_ ?_
  · intro w a t tracked honours taken
    by_cases pays : a.Pays w.order.status
    · exact tracked_paid tracked entered.cents honours taken pays
    · exact tracked_unpaid tracked taken pays
  · intro w a t tracked taken once
    exact honours_of_exactlyOnce tracked entered.cents taken once
  · intro w a stuck genuine
    rw [step, if_pos genuine] at stuck
    cases stuck
  · exact ⟨⟨rfl, rfl, rfl, by rw [Creation.start, entered.waiting, entered.reported]; rfl⟩,
      fun _ => ⟨rfl, by rw [Creation.start, entered.waiting]; nofun⟩, nofun, rfl⟩

end Runs

section Policies

def anyShop : Shop where
  appId := "app"
  sellerId := ""
  print _ := ""
  digest tradeNo _ := tradeNo

def anyTrade : Trade := ⟨anyShop, "trade", by decide⟩

def policyOf (creditPerUnit : ℚ) (positive : 0 < creditPerUnit) : RechargePolicy :=
  ⟨creditPerUnit, "CNY", positive⟩

def tenCredits : Creation where
  policy := policyOf 10 (by decide +kernel)
  tenantId := 1
  amount := 1
  nonce := 0
  order := {
    outTradeNo := ⟨1, 100, 0, by decide, by decide⟩, tenantId := 1, amount := 1
    status := .pending, tradeStatus := some .waitBuyerPay, currency := "CNY", creditPerUnit := 10
    expectedCreditedAmount := 10 }
  created := by decide +kernel

def paidForm : NotifyForm where
  signed := true
  appId := "app"
  tradeStatus := some .tradeSuccess
  outTradeNo := some tenCredits.order.outTradeNo
  tradeNo := "trade"
  totalAmount := some 1
  sellerId := ""

/-- The admin doubles the ratio between the order and its payment: ten credits were fixed,
twenty are given. -/
theorem policy_changed_between :
    ∃ w, run (step anyTrade) (tenCredits.start (storeOf 0))
        [.setPolicy (policyOf 20 (by decide +kernel)), .notify scriptEnv paidForm] = some w ∧
      (w.store.ledger.rows.map fun tx => (tx.tenantId, tx.status, tx.amount)) =
        [(1, .committed, 20)] ∧
      tenCredits.order.expectedCreditedAmount = 10 ∧
      ¬ w.ExactlyOnce anyTrade tenCredits.order (storeOf 0) := by
  refine ⟨_, rfl, by decide +kernel, rfl, ?_⟩
  intro once
  obtain ⟨tx, rows, -, -, -, -, amount, -⟩ := once.credited (by decide +kernel)
  have twenty := congrArg (List.map BillingTransaction.amount) rows
  rw [List.map_cons, amount] at twenty
  exact absurd twenty (by decide +kernel)

end Policies

end Deeting.Recharge
