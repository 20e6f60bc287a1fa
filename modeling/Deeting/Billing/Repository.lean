import Deeting.Quota.Operations
import Deeting.Table
import Mathlib.Logic.Function.Basic

/-! `BillingRepository` on the stores it changes: the accounts, the ledger of
transactions under their unique trace id, and the idempotency keys of `deduct`. The
ledger and the rows are what the session sees; a savepoint or a rollback puts them
back and leaves the hash and the keys. Ids of rows are their trace ids, and the time
stamps are not modeled. -/
namespace Deeting.Billing
open Deeting.Quota

abbrev TenantId := ℕ
abbrev TraceId := String

inductive TransactionType where
  | deduct
  | recharge
  | refund
  | adjust
  deriving DecidableEq, Repr

/-- There is no `FAILED`. -/
inductive TransactionStatus where
  | pending
  | committed
  | reversed
  deriving DecidableEq, Repr

structure Attribution where
  apiKeyId : Option String := none
  provider : Option String := none
  model : Option String := none
  providerModelId : Option String := none
  deriving DecidableEq, Repr

structure BillingTransaction where
  traceId : TraceId
  tenantId : TenantId
  type : TransactionType
  status : TransactionStatus
  amount : ℚ
  inputTokens : ℕ := 0
  outputTokens : ℕ := 0
  inputPrice : ℚ := 0
  outputPrice : ℚ := 0
  attribution : Attribution := {}
  balanceBefore : ℚ
  balanceAfter : ℚ
  description : Option String := none
  reversedBy : Option TraceId := none
  deriving DecidableEq, Repr

abbrev Ledger := Table BillingTransaction.traceId

structure Store where
  account : TenantId → Account
  ledger : Ledger
  deductKeys : TenantId → TraceId → Bool

/-- What the repository raises; the constructors stand for its messages. -/
inductive BillingError where
  | insufficientBalance (required available : ℚ)
  | duplicateTransaction (traceId : TraceId)
  | transactionNotFound (traceId : TraceId)
  | invalidStatus (status : TransactionStatus)
  | originalNotFound (traceId : TraceId)
  | alreadyReversed (traceId : TraceId)
  | notDeduct (type : TransactionType)
  | noSuchStatus (name : String)
  | integrity (traceId : TraceId)
  | fault
  deriving DecidableEq, Repr

def Store.setAccount (s : Store) (tenant : TenantId) (a : Account) : Store :=
  { s with account := Function.update s.account tenant a }

def Store.setLedger (s : Store) (ledger : Ledger) : Store := { s with ledger }

/-- A status change and the like: the row under `traceId` is rewritten. -/
def Store.rewrite (s : Store) (traceId : TraceId) (f : BillingTransaction → BillingTransaction)
    (keeps : ∀ tx, (f tx).traceId = tx.traceId) : Store :=
  s.setLedger (s.ledger.modify traceId f keeps)

def commitStatus (tx : BillingTransaction) : BillingTransaction := { tx with status := .committed }

theorem commitStatus_traceId (tx : BillingTransaction) : (commitStatus tx).traceId = tx.traceId :=
  rfl

/-- The database part of `before` with the rest of `after`. -/
def Store.rollback (before after : Store) : Store where
  account tenant := ⟨(after.account tenant).hash, (before.account tenant).row⟩
  ledger := before.ledger
  deductKeys := after.deductKeys

structure PendingCall where
  tenantId : TenantId
  traceId : TraceId
  estimatedTokens : ℕ
  /-- `pricing["input_per_1k"]`, where a non-empty pricing is given. -/
  inputPer1k : Option ℚ
  attribution : Attribution := {}

def PendingCall.estimatedCost (call : PendingCall) : ℚ :=
  match call.inputPer1k with
  | some price => if 0 < call.estimatedTokens then call.estimatedTokens / 1000 * price else 0
  | none => 0

/-- `description or text`. -/
def describe (description : Option String) (text : String) : Option String :=
  match description with
  | none | some "" => some text
  | some given => some given

def createPendingTransaction (env : Env) (call : PendingCall) (s : Store) :
    Except BillingError BillingTransaction × Store :=
  match s.ledger.find? call.traceId with
  | some existing => (.ok existing, s)
  | none =>
      let (quota, a) := getOrCreate env false (s.account call.tenantId)
      let transaction : BillingTransaction :=
        { traceId := call.traceId, tenantId := call.tenantId, type := .deduct, status := .pending
          amount := call.estimatedCost, attribution := call.attribution
          balanceBefore := quota.balance, balanceAfter := quota.balance
          description := some "Stream billing (pending)" }
      match s.ledger.insert? transaction with
      | none => (.error (.integrity call.traceId), s.setAccount call.tenantId a)
      | some ledger => (.ok transaction, (s.setAccount call.tenantId a).setLedger ledger)

structure CommitCall where
  traceId : TraceId
  inputTokens : ℕ
  outputTokens : ℕ
  inputPrice : ℚ
  outputPrice : ℚ
  allowNegative : Bool := true

def CommitCall.actualCost (call : CommitCall) : ℚ :=
  call.inputTokens / 1000 * call.inputPrice + call.outputTokens / 1000 * call.outputPrice

/-- The transaction as `commit_pending_transaction` leaves it. -/
def CommitCall.settle (call : CommitCall) (updated : TenantQuota) (tx : BillingTransaction) :
    BillingTransaction :=
  { tx with
    amount := call.actualCost
    inputTokens := call.inputTokens
    outputTokens := call.outputTokens
    inputPrice := call.inputPrice
    outputPrice := call.outputPrice
    balanceAfter := updated.balance
    status := .committed }

theorem CommitCall.settle_traceId (call : CommitCall) (updated : TenantQuota)
    (tx : BillingTransaction) : (call.settle updated tx).traceId = tx.traceId := rfl

/-- What a call leaves to the caller's commit: the row `_sync_redis_hash_after_commit`
will copy over the hash of its tenant. -/
abbrev Hook := Option (TenantId × TenantQuota)

def Store.commit (env : Env) (hook : Hook) (s : Store) : Store :=
  match hook with
  | none => s
  | some (tenant, quota) =>
      s.setAccount tenant
        { s.account tenant with hash := syncRedisHash env quota (s.account tenant).hash }

/-- `commit_pending_transaction`. The branch for a refused deduction assigns a status
that does not exist, and raises before it has changed the transaction. -/
def commitPendingTransaction (env : Env) (call : CommitCall) (s : Store) :
    Except BillingError BillingTransaction × Hook × Store :=
  match s.ledger.find? call.traceId with
  | none => (.error (.transactionNotFound call.traceId), none, s)
  | some tx =>
      match tx.status with
      | .committed => (.ok tx, none, s)
      | .reversed => (.error (.invalidStatus .reversed), none, s)
      | .pending =>
          match deductQuotaRedis env call.actualCost 1 1 call.allowNegative
              (s.account tx.tenantId) with
          | (.error _, a) => (.error (.noSuchStatus "FAILED"), none, s.setAccount tx.tenantId a)
          | (.ok updated, a) =>
              (.ok (call.settle updated tx), some (tx.tenantId, updated),
                (s.setAccount tx.tenantId a).rewrite call.traceId (call.settle updated)
                  (call.settle_traceId updated))

/-- The arguments `deduct` and `record_transaction` share. -/
structure Charge where
  tenantId : TenantId
  amount : ℚ
  traceId : TraceId
  inputTokens : ℕ := 0
  outputTokens : ℕ := 0
  inputPrice : ℚ := 0
  outputPrice : ℚ := 0
  attribution : Attribution := {}
  description : Option String := none

/-- The row `record_transaction` inserts. -/
def recordedDeduct (c : Charge) (quota : TenantQuota) : BillingTransaction :=
  { traceId := c.traceId, tenantId := c.tenantId, type := .deduct, status := .committed
    amount := c.amount, inputTokens := c.inputTokens, outputTokens := c.outputTokens
    inputPrice := c.inputPrice, outputPrice := c.outputPrice, attribution := c.attribution
    balanceBefore := quota.balance, balanceAfter := quota.balance
    description := describe c.description "Transaction recorded (quota deducted in quota_check)" }

def recordTransaction (env : Env) (c : Charge) (s : Store) :
    Except BillingError BillingTransaction × Store :=
  match s.ledger.find? c.traceId with
  | some existing =>
      if existing.status = .committed then (.ok existing, s)
      else (.error (.duplicateTransaction c.traceId), s)
  | none =>
      let (quota, a) := getOrCreate env false (s.account c.tenantId)
      match s.ledger.insert? (recordedDeduct c quota) with
      | none => (.error (.integrity c.traceId), s.setAccount c.tenantId a)
      | some ledger => (.ok (recordedDeduct c quota), (s.setAccount c.tenantId a).setLedger ledger)

/-- Where a call of `deduct` fails of itself: at the `SET` of the key, whose answer is lost
and read as a refusal, at the database lookup, at a statement of the savepoint before the
script, or at one after it. -/
inductive Fault where
  | none
  | key
  | lookup
  | beforeScript
  | afterScript
  deriving DecidableEq, Repr

def Store.release (env : Env) (s after : Store) (c : Charge) : Store :=
  { s.rollback after with
    deductKeys :=
      if env.deletes then
        Function.update after.deductKeys c.tenantId
          (Function.update (after.deductKeys c.tenantId) c.traceId false)
      else after.deductKeys }

def Store.takeKey (s : Store) (c : Charge) : Store :=
  { s with
    deductKeys := Function.update s.deductKeys c.tenantId
      (Function.update (s.deductKeys c.tenantId) c.traceId true) }

def pendingDeduct (c : Charge) (quota : TenantQuota) : BillingTransaction :=
  { traceId := c.traceId, tenantId := c.tenantId, type := .deduct, status := .pending
    amount := c.amount, inputTokens := c.inputTokens, outputTokens := c.outputTokens
    inputPrice := c.inputPrice, outputPrice := c.outputPrice, attribution := c.attribution
    balanceBefore := quota.balance, balanceAfter := quota.balance - c.amount
    description := c.description }

def settleDeduct (updated : TenantQuota) (tx : BillingTransaction) : BillingTransaction :=
  { tx with status := .committed, balanceAfter := updated.balance }

theorem settleDeduct_traceId (updated : TenantQuota) (tx : BillingTransaction) :
    (settleDeduct updated tx).traceId = tx.traceId := rfl

/-- The savepoint of `deduct` and its exception paths, with the key in hand. -/
def deductNested (env : Env) (fault : Fault) (c : Charge) (allowNegative : Bool) (s : Store) :
    Except BillingError BillingTransaction × Hook × Store :=
  let (quota, a) := getOrCreate env false (s.account c.tenantId)
  let opened := s.setAccount c.tenantId a
  match s.ledger.insert? (pendingDeduct c quota) with
  | none => (.error (.integrity c.traceId), none, s.release env opened c)
  | some ledger =>
      if fault = .beforeScript then (.error .fault, none, s.release env opened c)
      else
        match deductQuotaRedis env c.amount 1 1 allowNegative a with
        | (.error e, a) =>
            (.error (.insufficientBalance c.amount e.available), none,
              s.release env (s.setAccount c.tenantId a) c)
        | (.ok updated, a) =>
            let charged := (s.setAccount c.tenantId a).setLedger ledger
            if fault = .afterScript then (.error .fault, none, s.release env charged c)
            else
              (.ok (settleDeduct updated (pendingDeduct c quota)), some (c.tenantId, updated),
                charged.rewrite c.traceId (settleDeduct updated) (settleDeduct_traceId updated))

/-- What a repeated trace id gets: the committed transaction or an error. -/
def replayed (traceId : TraceId) : Option BillingTransaction → Except BillingError BillingTransaction
  | some existing =>
      if existing.status = .committed then .ok existing else .error (.duplicateTransaction traceId)
  | none => .error (.duplicateTransaction traceId)

/-- `deduct`. The key comes first; `cache.set` fails without Redis. -/
def deduct (env : Env) (fault : Fault) (c : Charge) (allowNegative : Bool) (s : Store) :
    Except BillingError BillingTransaction × Hook × Store :=
  if env.redis = false ∨ s.deductKeys c.tenantId c.traceId = true then
    (replayed c.traceId (s.ledger.find? c.traceId), none, s)
  else
    let s := s.takeKey c
    if fault = .key then (replayed c.traceId (s.ledger.find? c.traceId), none, s)
    else if fault = .lookup then (.error .fault, none, s)
    else
      match s.ledger.find? c.traceId with
      | some existing => (replayed c.traceId (some existing), none, s)
      | none => deductNested env fault c allowNegative s

def recharge (env : Env) (tenant : TenantId) (amount : ℚ) (traceId : TraceId)
    (description : Option String) (s : Store) : Except BillingError BillingTransaction × Store :=
  match s.ledger.find? traceId with
  | some existing => (replayed traceId (some existing), s)
  | none =>
      let (quota, a) := getOrCreate env true (s.account tenant)
      let transaction : BillingTransaction :=
        { traceId, tenantId := tenant, type := .recharge, status := .pending, amount
          balanceBefore := quota.balance, balanceAfter := quota.balance + amount, description }
      match s.ledger.insert? transaction with
      | none => (.error (.integrity traceId), s.setAccount tenant a)
      | some ledger =>
          let credited := (s.setAccount tenant (addBalance env amount a).2).setLedger ledger
          (.ok (commitStatus transaction), credited.rewrite traceId commitStatus commitStatus_traceId)

/-- The refund row of `reverse`. -/
def refundOf (original : BillingTransaction) (reverseTraceId : TraceId) (quota : TenantQuota)
    (description : Option String) : BillingTransaction :=
  { original with
    traceId := reverseTraceId
    type := .refund
    status := .pending
    balanceBefore := quota.balance
    balanceAfter := quota.balance + original.amount
    description := describe description ("Reverse of " ++ original.traceId)
    reversedBy := none }

/-- The checks of `reverse` on the original. -/
def reversible (originalTraceId : TraceId) (found : Option BillingTransaction) :
    Except BillingError BillingTransaction :=
  match found with
  | none => .error (.originalNotFound originalTraceId)
  | some original =>
      if original.status = .reversed then .error (.alreadyReversed originalTraceId)
      else if original.type ≠ .deduct then .error (.notDeduct original.type)
      else .ok original

def markReversed (reverseTraceId : TraceId) (tx : BillingTransaction) : BillingTransaction :=
  { tx with status := .reversed, reversedBy := some reverseTraceId }

theorem markReversed_traceId (reverseTraceId : TraceId) (tx : BillingTransaction) :
    (markReversed reverseTraceId tx).traceId = tx.traceId := rfl

def reverse (env : Env) (originalTraceId reverseTraceId : TraceId) (description : Option String)
    (s : Store) : Except BillingError BillingTransaction × Store :=
  match reversible originalTraceId (s.ledger.find? originalTraceId) with
  | .error e => (.error e, s)
  | .ok original =>
      match s.ledger.find? reverseTraceId with
      | some existing => (replayed reverseTraceId (some existing), s)
      | none =>
          let (quota, a) := getOrCreate env true (s.account original.tenantId)
          let reverseTx := refundOf original reverseTraceId quota description
          match s.ledger.insert? reverseTx with
          | none => (.error (.integrity reverseTraceId), s.setAccount original.tenantId a)
          | some ledger =>
              let credited :=
                (s.setAccount original.tenantId (addBalance env original.amount a).2).setLedger
                  ledger
              (.ok (commitStatus reverseTx),
                (credited.rewrite originalTraceId (markReversed reverseTraceId)
                  (markReversed_traceId reverseTraceId)).rewrite reverseTraceId commitStatus
                  commitStatus_traceId)

/-- `adjust_redis_balance` for one tenant. -/
def Store.adjustRedisBalance (env : Env) (tenant : TenantId) (amountDiff : ℚ) (s : Store) : Store :=
  s.setAccount tenant (Quota.adjustRedisBalance env amountDiff (s.account tenant))

/-- Every tenant with the same balance in hash and row, and nothing recorded. -/
def storeOf (balance : ℚ) : Store :=
  ⟨fun _ => ⟨some (quotaPayload .june15 (rowOf .june15 balance)), some (rowOf .june15 balance)⟩,
    Table.empty, fun _ _ => false⟩

end Deeting.Billing
