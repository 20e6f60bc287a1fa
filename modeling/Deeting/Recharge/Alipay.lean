import Deeting.Billing.Ledger
import Deeting.Decimal

/-! Recharge orders paid through Alipay: an order as `create_alipay_recharge_order` enters
it, and the two ways a payment is reported, the asynchronous notification and the status
request that queries the trade. Both end in `_apply_alipay_order_update`, which computes the
credits again from the policy of the day. Times are not modeled, and a float is read as the
decimal it prints as. -/
namespace Deeting.Recharge
open Deeting.Quota Deeting.Billing Decimal

inductive OrderStatus where
  | pending
  | success
  | failed
  deriving DecidableEq, Repr

inductive TradeStatus where
  | waitBuyerPay
  | tradeClosed
  | tradeSuccess
  | tradeFinished
  deriving DecidableEq, Repr

def TradeStatus.Paid (status : TradeStatus) : Prop :=
  status = .tradeSuccess ∨ status = .tradeFinished
  deriving Decidable

/-- `_map_alipay_order_status`. -/
def mapOrderStatus : Option TradeStatus → OrderStatus
  | some .tradeSuccess | some .tradeFinished => .success
  | some .tradeClosed => .failed
  | some .waitBuyerPay | none => .pending

/-- The policy an admin sets; `set_recharge_policy` refuses any other ratio. -/
structure RechargePolicy where
  creditPerUnit : ℚ
  currency : String
  positive : 0 < creditPerUnit

/-- `out_trade_no`, as the fields its text is made of. -/
structure OutTradeNo where
  tenantId : TenantId
  cents : ℤ
  nonce : ℕ
  positive : 0 < cents
  bounded : cents ≤ 9999999999
  deriving DecidableEq

/-- The amount `parse_out_trade_no` reads. -/
def OutTradeNo.amount (number : OutTradeNo) : ℚ := quantize2 (number.cents / 100)

def buildOutTradeNo (tenantId : TenantId) (amount : ℚ) (nonce : ℕ) : Except String OutTradeNo :=
  let cents := roundHalfUp (amount * 100)
  if positive : 0 < cents then
    if bounded : cents ≤ 9999999999 then .ok ⟨tenantId, cents, nonce, positive, bounded⟩
    else .error "充值金额超出支付宝订单号编码范围"
  else .error "充值金额必须大于 0"

def normalizeAmount (amount : ℚ) : Except String ℚ :=
  if amount ≤ 0 then .error "充值金额必须大于 0"
  else
    let normalized : ℚ := roundHalfUp (amount * 100) / 100
    if normalized ≤ 0 then .error "充值金额必须大于 0" else .ok normalized

structure AlipayRechargeOrder where
  outTradeNo : OutTradeNo
  tenantId : TenantId
  amount : ℚ
  status : OrderStatus
  tradeStatus : Option TradeStatus
  tradeNo : Option String := none
  currency : String
  creditPerUnit : ℚ
  expectedCreditedAmount : ℚ
  errorCode : Option String := none
  errorDetail : Option String := none
  settled : Bool := false
  deriving DecidableEq

/-- `create_alipay_recharge_order`, where Alipay is configured. -/
def createOrder (policy : RechargePolicy) (tenantId : TenantId) (amount : ℚ) (nonce : ℕ) :
    Except String AlipayRechargeOrder := do
  let normalized ← normalizeAmount amount
  let outTradeNo ← buildOutTradeNo tenantId normalized nonce
  return {
    outTradeNo, tenantId, amount := normalized
    status := .pending, tradeStatus := some .waitBuyerPay
    currency := policy.currency, creditPerUnit := quantize6 policy.creditPerUnit
    expectedCreditedAmount := quantize6 (normalized * policy.creditPerUnit) }

structure Shop where
  appId : String
  sellerId : String
  print : ℚ → String
  digest : String → OutTradeNo → String

/-- `_build_alipay_trace_id`. -/
def Shop.traceId (shop : Shop) (tradeNo : String) (number : OutTradeNo) : TraceId :=
  "alipay-recharge-" ++ shop.digest tradeNo number

/-- `_validate_alipay_seller_id`. -/
def Shop.ValidSeller (shop : Shop) (sellerId : Option String) : Prop :=
  shop.sellerId = "" ∨ sellerId.getD "" = shop.sellerId
  deriving Decidable

inductive Failure where
  | valueError (message : String)
  | billing (error : BillingError)
  deriving DecidableEq

structure TradeReport where
  tradeStatus : Option TradeStatus
  tradeNo : Option String
  totalAmount : Option ℚ
  sellerId : Option String

def RechargePolicy.credits (policy : RechargePolicy) (amount : ℚ) : ℚ :=
  quantize6 (amount * quantize6 policy.creditPerUnit)

/-- `recharge_with_trace_id`, for a known tenant and a trace id. -/
def rechargeWithTraceId (env : Env) (tenant : TenantId) (amount creditPerUnit : ℚ)
    (traceId : TraceId) (description : String) (s : Store) : Except Failure BillingTransaction × Store :=
  if amount ≤ 0 then (.error (.valueError "充值金额必须大于 0"), s)
  else if creditPerUnit ≤ 0 then (.error (.valueError "充值比例必须大于 0"), s)
  else
    let credited := quantize6 (amount * creditPerUnit)
    if credited ≤ 0 then (.error (.valueError "充值积分必须大于 0"), s)
    else
      let (answer, s) := recharge env tenant credited traceId (some description) s
      (answer.mapError .billing, s)

/-- The part of `_apply_alipay_order_update` before the settlement: the fields taken over. -/
def AlipayRechargeOrder.take (order : AlipayRechargeOrder) (report : TradeReport) :
    AlipayRechargeOrder :=
  let tradeStatus := report.tradeStatus <|> order.tradeStatus
  let tradeNo := report.tradeNo.filter (· ≠ "") <|> order.tradeNo
  { order with tradeStatus, tradeNo, status := mapOrderStatus tradeStatus }

def AlipayRechargeOrder.reprice (order : AlipayRechargeOrder) (policy : RechargePolicy) :
    AlipayRechargeOrder :=
  { order with
    currency := policy.currency
    creditPerUnit := quantize6 policy.creditPerUnit
    expectedCreditedAmount := policy.credits order.amount }

def AlipayRechargeOrder.description (shop : Shop) (tradeNo : String)
    (order : AlipayRechargeOrder) : String :=
  "Alipay recharge trade_no=" ++ tradeNo ++ " amount=" ++ shop.print order.amount ++ " " ++
    order.currency ++ " ratio=" ++ shop.print order.creditPerUnit

/-- `_apply_alipay_order_update`. What ends with an error is not committed. -/
def applyOrderUpdate (shop : Shop) (env : Env) (policy : RechargePolicy) (report : TradeReport)
    (order : AlipayRechargeOrder) (s : Store) : Except Failure AlipayRechargeOrder × Store :=
  if ¬ shop.ValidSeller report.sellerId then (.error (.valueError "支付宝卖家身份不匹配"), s)
  else if ∃ total ∈ report.totalAmount, quantize2 total ≠ quantize2 order.amount then
    (.error (.valueError "支付宝支付金额与订单金额不一致"), s)
  else
    let order := order.take report
    if order.status ≠ .success then (.ok order, s)
    else
      match order.tradeNo with
      | none => (.error (.valueError "支付宝交易号缺失"), s)
      | some tradeNo =>
          let order := order.reprice policy
          match rechargeWithTraceId env order.tenantId order.amount order.creditPerUnit
              (shop.traceId tradeNo order.outTradeNo) (order.description shop tradeNo) s with
          | (.error (.billing (.duplicateTransaction _)), s)
          | (.ok _, s) => (.ok { order with status := .success, settled := true }, s)
          | (.error failure, s) => (.error failure, s)

/-- The fields of a notification, stripped; `out_trade_no` and `total_amount` are missing
where their texts cannot be read. -/
structure NotifyForm where
  signed : Bool
  appId : String
  tradeStatus : Option TradeStatus
  outTradeNo : Option OutTradeNo
  tradeNo : String
  totalAmount : Option ℚ
  sellerId : String

inductive NotifyAnswer where
  | success
  | failure
  | serverError
  deriving DecidableEq, Repr

/-- `handle_alipay_recharge_notify`, for an order that has its row. -/
def handleNotify (shop : Shop) (env : Env) (policy : RechargePolicy) (form : NotifyForm)
    (order : AlipayRechargeOrder) (s : Store) : NotifyAnswer × AlipayRechargeOrder × Store :=
  if form.signed = false then (.failure, order, s)
  else if form.appId ≠ "" ∧ form.appId ≠ shop.appId then (.failure, order, s)
  else if ¬ ∃ status ∈ form.tradeStatus, status.Paid then (.success, order, s)
  else
    match form.outTradeNo, form.totalAmount with
    | some number, some total =>
        if form.tradeNo = "" then (.failure, order, s)
        else
          let paid := quantize2 total
          if paid ≠ number.amount then (.failure, order, s)
          else
            let report : TradeReport :=
              { tradeStatus := form.tradeStatus, tradeNo := some form.tradeNo
                totalAmount := some paid
                sellerId := if form.sellerId = "" then none else some form.sellerId }
            match applyOrderUpdate shop env policy report order s with
            | (.ok updated, s) => (.success, updated, s)
            | (.error (.valueError _), s) => (.failure, order, s)
            | (.error (.billing (.duplicateTransaction _)), s) => (.success, order, s)
            | (.error (.billing _), s) => (.serverError, order, s)
    | _, _ => (.failure, order, s)

/-- `AlipayTradeQueryResult`. -/
structure TradeQueryResult where
  code : String
  subCode : Option String
  msg : Option String
  report : TradeReport

/-- What `query_trade` raises, or returns. -/
inductive QueryReply where
  | failed (message : String)
  | answered (result : TradeQueryResult)

/-- `get_alipay_recharge_order_status` with a refresh; an error of the update leaves it. -/
def refreshOrder (shop : Shop) (env : Env) (policy : RechargePolicy) (reply : QueryReply)
    (order : AlipayRechargeOrder) (s : Store) :
    Except Failure Unit × AlipayRechargeOrder × Store :=
  if order.status = .success then (.ok (), order, s)
  else
    match reply with
    | .failed message =>
        (.ok (), { order with errorCode := some "query_failed", errorDetail := some message }, s)
    | .answered result =>
        if result.code = "10000" then
          match applyOrderUpdate shop env policy result.report order s with
          | (.ok updated, s) => (.ok (), updated, s)
          | (.error failure, s) => (.error failure, order, s)
        else
          let errorCode := (result.subCode <|> some result.code).filter (· ≠ "")
          (.ok (), { order with errorCode, errorDetail := result.msg }, s)

section Creation

variable {policy : RechargePolicy} {tenant : TenantId} {amount : ℚ} {nonce : ℕ}
  {order : AlipayRechargeOrder}

/-- An order as it is entered: a positive number of cents, the same in its trade number, and
the amount of credits that is fixed for it. -/
structure AlipayRechargeOrder.Entered (order : AlipayRechargeOrder) (policy : RechargePolicy) :
    Prop where
  cents : order.amount = order.outTradeNo.cents / 100
  waiting : order.status = .pending
  reported : order.tradeStatus = some .waitBuyerPay
  unnamed : order.tradeNo = none
  fixed : order.expectedCreditedAmount = quantize6 (order.amount * policy.creditPerUnit)

theorem createOrder_entered (created : createOrder policy tenant amount nonce = .ok order) :
    order.Entered policy := by
  simp only [createOrder, normalizeAmount, buildOutTradeNo, bind, Except.bind, pure,
    Except.pure] at created
  split at created
  · cases created
  rename_i normalized normalizes
  split at created
  · cases created
  rename_i number builds
  cases created
  split at normalizes
  · cases normalizes
  split at normalizes
  · cases normalizes
  cases normalizes
  split at builds
  · split at builds
    · cases builds
      refine ⟨?_, rfl, rfl, rfl, rfl⟩
      simp
    · cases builds
  · cases builds

end Creation

end Deeting.Recharge
