import Deeting.Billing.Repository
import Deeting.Transition

/-! The ledger invariant on the database path: what a tenant's balance owes to the
rows of the ledger, over any sequence of the five operations that move money. Each
call runs alone and is committed by its caller. -/
namespace Deeting.Billing
open Deeting.Quota Deeting.Transition

inductive LedgerOp where
  | createPending (call : PendingCall)
  | commitPending (call : CommitCall)
  | deduct (c : Charge) (allowNegative : Bool)
  | recharge (tenant : TenantId) (amount : ℚ) (traceId : TraceId) (description : Option String)
  | reverse (originalTraceId reverseTraceId : TraceId) (description : Option String)

/-- An operation with the circumstances of its call, on the database path. -/
structure LedgerAct where
  env : Env
  database : env.usesScript = false
  op : LedgerOp

def ledgerStep (s : Store) (act : LedgerAct) : Store :=
  match act.op with
  | .createPending call => (createPendingTransaction act.env call s).2
  | .commitPending call =>
      let (_, hook, s) := commitPendingTransaction act.env call s
      s.commit act.env hook
  | .deduct c allowNegative =>
      let (_, hook, s) := deduct act.env .none c allowNegative s
      s.commit act.env hook
  | .recharge tenant amount traceId description =>
      (recharge act.env tenant amount traceId description s).2
  | .reverse originalTraceId reverseTraceId description =>
      (reverse act.env originalTraceId reverseTraceId description s).2

def LedgerOp.Nonneg : LedgerOp → Prop
  | .createPending call => ∀ price ∈ call.inputPer1k, 0 ≤ price
  | .commitPending call => 0 ≤ call.inputPrice ∧ 0 ≤ call.outputPrice
  | .deduct c _ => 0 ≤ c.amount
  | .recharge _ amount _ _ => 0 ≤ amount
  | .reverse .. => True

/-- A reversal that will pay finds a row whose amount was deducted, or no amount. -/
def LedgerOp.Charged (s : Store) : LedgerOp → Prop
  | .reverse originalTraceId reverseTraceId _ =>
      s.ledger.find? reverseTraceId = none →
        ∀ tx ∈ s.ledger.find? originalTraceId,
          tx.type = .deduct → tx.status = .pending → tx.amount = 0
  | _ => True

instance (s : Store) : (op : LedgerOp) → Decidable (op.Charged s)
  | .reverse originalTraceId reverseTraceId _ =>
      inferInstanceAs (Decidable (s.ledger.find? reverseTraceId = none →
        ∀ tx ∈ s.ledger.find? originalTraceId,
          tx.type = .deduct → tx.status = .pending → tx.amount = 0))
  | .createPending _ | .commitPending _ | .deduct .. | .recharge .. => instDecidableTrue

def ReversesCharged (s : Store) (act : LedgerAct) : Prop := act.op.Charged s

instance (s : Store) (act : LedgerAct) : Decidable (ReversesCharged s act) :=
  inferInstanceAs (Decidable (act.op.Charged s))

/-- The database balance; a tenant without a row will start from 0. -/
def Store.balance (s : Store) (tenant : TenantId) : ℚ :=
  (s.account tenant).row.elim 0 TenantQuota.balance

section Sums
variable (tenant : TenantId) (tx : BillingTransaction)

def credited : ℚ :=
  if tx.tenantId = tenant ∧ tx.status = .committed ∧ (tx.type = .recharge ∨ tx.type = .refund)
  then tx.amount else 0

def deducted : ℚ :=
  if tx.tenantId = tenant ∧ tx.type = .deduct ∧ (tx.status = .committed ∨ tx.status = .reversed)
  then tx.amount else 0

def refunded : ℚ :=
  if tx.tenantId = tenant ∧ tx.type = .refund ∧ tx.status = .committed then tx.amount else 0

def takenBack : ℚ :=
  if tx.tenantId = tenant ∧ tx.type = .deduct ∧ tx.status = .reversed then tx.amount else 0

end Sums

/-- What an amount of `tenant` means to `x`. -/
def share (x tenant : TenantId) (amount : ℚ) : ℚ := if x = tenant then amount else 0

theorem share_neg (x tenant : TenantId) (amount : ℚ) :
    share x tenant (-amount) = -share x tenant amount := by
  unfold share
  split <;> simp

theorem share_zero (x tenant : TenantId) : share x tenant 0 = 0 := ite_self 0

/-- Only the balance of `tenant` moves, by `amount`. -/
def Moves (s t : Store) (tenant : TenantId) (amount : ℚ) : Prop :=
  ∀ x, t.balance x = s.balance x + share x tenant amount

inductive Effect (s t : Store) : Prop where
  | unchanged (balances : ∀ x, t.balance x = s.balance x) (ledger : t.ledger = s.ledger)
  | opened (tx : BillingTransaction) (balances : ∀ x, t.balance x = s.balance x)
      (inserted : s.ledger.insert? tx = some t.ledger) (type : tx.type = .deduct)
      (status : tx.status = .pending) (amount : 0 ≤ tx.amount)
  | settled (tx : BillingTransaction) (f : BillingTransaction → BillingTransaction)
      (keeps : ∀ x, (f x).traceId = x.traceId) (found : s.ledger.find? tx.traceId = some tx)
      (pending : tx.status = .pending) (ledger : t.ledger = s.ledger.modify tx.traceId f keeps)
      (same : (f tx).tenantId = tx.tenantId ∧ (f tx).type = tx.type)
      (status : (f tx).status = .committed) (amount : 0 ≤ (f tx).amount)
      (moves : tx.type = .deduct → Moves s t tx.tenantId (-(f tx).amount))
  | entered (tx : BillingTransaction) (f : BillingTransaction → BillingTransaction)
      (keeps : ∀ x, (f x).traceId = x.traceId) (ledger : Ledger)
      (inserted : s.ledger.insert? tx = some ledger)
      (rewritten : t.ledger = ledger.modify tx.traceId f keeps)
      (status : (f tx).status = .committed) (amount : 0 ≤ (f tx).amount) (moved : ℚ)
      (signed : (f tx).type = .deduct ∧ moved = -(f tx).amount ∨
        (f tx).type = .recharge ∧ moved = (f tx).amount)
      (moves : Moves s t (f tx).tenantId moved)
  | reversed (original refund : BillingTransaction) (ledger : Ledger)
      (found : s.ledger.find? original.traceId = some original) (type : original.type = .deduct)
      (open_ : original.status ≠ .reversed)
      (paid : original.status = .pending → original.amount = 0)
      (inserted : s.ledger.insert? refund = some ledger)
      (copy : refund.type = .refund ∧ refund.tenantId = original.tenantId ∧
        refund.amount = original.amount)
      (rewritten : t.ledger =
        (ledger.modify original.traceId (markReversed refund.traceId)
          (markReversed_traceId refund.traceId)).modify refund.traceId commitStatus
          commitStatus_traceId)
      (moves : Moves s t original.tenantId original.amount)

section Balances
variable {env : Env} {a : Account}

def rowBalance (a : Account) : ℚ := a.row.elim 0 TenantQuota.balance

theorem rowBalance_currentRow (today : Date) (row : Option TenantQuota) :
    (currentRow today row).balance = row.elim 0 TenantQuota.balance := by
  cases row <;> rfl

@[simp] theorem rowBalance_getOrCreate (env : Env) (commit : Bool) (a : Account) :
    rowBalance (getOrCreate env commit a).2 = rowBalance a := by
  simp only [rowBalance, getOrCreate_row, Option.elim, rowBalance_currentRow]

@[simp] theorem rowBalance_addBalance (env : Env) (amount : ℚ) (a : Account) :
    rowBalance (addBalance env amount a).2 = rowBalance a + amount := by
  simp only [rowBalance, addBalance, getOrCreate_fst, Option.elim, rowBalance_currentRow]

theorem rowBalance_deductQuotaRedis (database : env.usesScript = false) (amount : ℚ) (d m : ℕ)
    (allowNegative : Bool) (a : Account) :
    (∃ updated, (deductQuotaRedis env amount d m allowNegative a).1 = .ok updated ∧
      rowBalance (deductQuotaRedis env amount d m allowNegative a).2 = rowBalance a - amount) ∨
    (∃ e, (deductQuotaRedis env amount d m allowNegative a).1 = .error e ∧
      rowBalance (deductQuotaRedis env amount d m allowNegative a).2 = rowBalance a) := by
  simp only [deductQuotaRedis, database, if_true, deductQuotaDb]
  by_cases accepts : RowAccepts (dbRequest amount d m allowNegative) (currentRow env.today a.row)
  · refine .inl ⟨_, congrArg Prod.fst (checkAndDeduct_of_accepts accepts), ?_⟩
    rw [checkAndDeduct_of_accepts accepts]
    simp only [rowBalance, deductFrom, dbRequest, Option.elim, rowBalance_currentRow]
  · obtain ⟨e, refused⟩ : ∃ e, checkAndDeduct env false false (dbRequest amount d m allowNegative) a =
        (.error e, _) := checkAndDeduct_of_refuses accepts
    exact .inr ⟨e, congrArg Prod.fst refused, by rw [refused, rowBalance_getOrCreate]⟩

end Balances

section Stores
variable {s : Store} {tenant : TenantId} {a : Account}

theorem Store.balance_eq (s : Store) (x : TenantId) : s.balance x = rowBalance (s.account x) := rfl

theorem Moves.setAccount {amount : ℚ} {ledger : Ledger}
    (moved : rowBalance a = rowBalance (s.account tenant) + amount) :
    Moves s ((s.setAccount tenant a).setLedger ledger) tenant amount := by
  intro x
  simp only [Store.balance_eq, Store.setAccount, Store.setLedger]
  by_cases same : x = tenant
  · subst same
    simpa [share] using moved
  · simp [share, same]

theorem balance_setAccount (kept : rowBalance a = rowBalance (s.account tenant)) (x : TenantId) :
    (s.setAccount tenant a).balance x = s.balance x := by
  have moves : Moves s ((s.setAccount tenant a).setLedger s.ledger) tenant 0 :=
    Moves.setAccount (by simpa using kept)
  simpa [share_zero, Store.setLedger, Store.setAccount] using moves x

@[simp] theorem balance_commit (env : Env) (hook : Hook) (s : Store) (x : TenantId) :
    (s.commit env hook).balance x = s.balance x := by
  cases hook with
  | none => rfl
  | some registered =>
    obtain ⟨tenant, quota⟩ := registered
    have kept : rowBalance { s.account tenant with
        hash := syncRedisHash env quota (s.account tenant).hash } =
          rowBalance (s.account tenant) := rfl
    exact balance_setAccount kept x

@[simp] theorem ledger_commit (env : Env) (hook : Hook) (s : Store) :
    (s.commit env hook).ledger = s.ledger := by
  cases hook <;> rfl

theorem Moves.of_balances {t u : Store} {amount : ℚ} (moves : Moves s t tenant amount)
    (same : ∀ x, u.balance x = t.balance x) : Moves s u tenant amount :=
  fun x => (same x).trans (moves x)

end Stores

section Effects
variable {s : Store} {env : Env}

theorem PendingCall.estimatedCost_nonneg {call : PendingCall}
    (nonneg : ∀ price ∈ call.inputPer1k, 0 ≤ price) : 0 ≤ call.estimatedCost := by
  rw [estimatedCost]
  split
  · rename_i price given
    split
    · exact mul_nonneg (by positivity) (nonneg price given)
    · exact le_rfl
  · exact le_rfl

theorem CommitCall.actualCost_nonneg {call : CommitCall}
    (nonneg : 0 ≤ call.inputPrice ∧ 0 ≤ call.outputPrice) : 0 ≤ call.actualCost :=
  add_nonneg (mul_nonneg (by positivity) nonneg.1) (mul_nonneg (by positivity) nonneg.2)

theorem createPending_effect (call : PendingCall) (nonneg : ∀ price ∈ call.inputPer1k, 0 ≤ price) :
    Effect s (createPendingTransaction env call s).2 := by
  rw [createPendingTransaction]
  split
  · exact .unchanged (fun _ => rfl) rfl
  · simp only
    split
    · exact .unchanged (balance_setAccount (rowBalance_getOrCreate env false _)) rfl
    · rename_i ledger inserted
      exact .opened _ (balance_setAccount (rowBalance_getOrCreate env false _)) inserted rfl rfl
        (PendingCall.estimatedCost_nonneg nonneg)

theorem commitPending_effect (database : env.usesScript = false) (call : CommitCall)
    (nonneg : 0 ≤ call.inputPrice ∧ 0 ≤ call.outputPrice) :
    Effect s ((commitPendingTransaction env call s).2.2.commit env
      (commitPendingTransaction env call s).2.1) := by
  rw [commitPendingTransaction]
  split
  · exact .unchanged (fun _ => rfl) rfl
  rename_i tx found
  have traceId : tx.traceId = call.traceId := Table.key_of_find? found
  split
  · exact .unchanged (fun _ => rfl) rfl
  · exact .unchanged (fun _ => rfl) rfl
  rename_i pending
  rcases rowBalance_deductQuotaRedis database call.actualCost 1 1 call.allowNegative
    (s.account tx.tenantId) with ⟨updated, accepted, balance⟩ | ⟨e, refused, balance⟩
  · split
    · rename_i answered
      simp [answered] at accepted
    · rename_i updated' a answered
      rw [answered] at balance
      have moves : Moves s ((s.setAccount tx.tenantId a).setLedger s.ledger) tx.tenantId
          (-call.actualCost) := Moves.setAccount (by simpa [sub_eq_add_neg] using balance)
      refine .settled tx (call.settle updated') (call.settle_traceId updated') (traceId ▸ found)
        pending ?_ ⟨rfl, rfl⟩ rfl (CommitCall.actualCost_nonneg nonneg) fun _ =>
          moves.of_balances fun x => ?_
      · rw [ledger_commit, traceId]
        rfl
      · rw [balance_commit]
        rfl
  · split
    · rename_i e' a answered
      rw [answered] at balance
      exact .unchanged (balance_setAccount balance) rfl
    · rename_i answered
      simp [answered] at refused

theorem deductNested_effect (database : env.usesScript = false) (c : Charge)
    (allowNegative : Bool) (nonneg : 0 ≤ c.amount) :
    Effect s ((deductNested env .none c allowNegative s).2.2.commit env
      (deductNested env .none c allowNegative s).2.1) := by
  rw [deductNested]
  simp only
  split
  · exact .unchanged (fun _ => rfl) rfl
  rename_i ledger inserted
  simp only [reduceCtorEq, if_false]
  rcases rowBalance_deductQuotaRedis database c.amount 1 1 allowNegative
    (getOrCreate env false (s.account c.tenantId)).2 with
    ⟨updated, accepted, balance⟩ | ⟨e, refused, balance⟩
  · split
    · rename_i answered
      simp [answered] at accepted
    · rename_i updated' a answered
      rw [answered, rowBalance_getOrCreate] at balance
      have moves : Moves s ((s.setAccount c.tenantId a).setLedger ledger) c.tenantId (-c.amount) :=
        Moves.setAccount (by simpa [sub_eq_add_neg] using balance)
      refine .entered _ (settleDeduct updated') (settleDeduct_traceId updated') ledger inserted ?_ rfl
        nonneg _ (.inl ⟨rfl, rfl⟩) (moves.of_balances fun x => ?_)
      · rw [ledger_commit]
        rfl
      · rw [balance_commit]
        rfl
  · split
    · exact .unchanged (fun _ => rfl) rfl
    · rename_i answered
      simp [answered] at refused

theorem Effect.of_takeKey {c : Charge} {t : Store} (effect : Effect (s.takeKey c) t) :
    Effect s t := by
  cases effect with
  | unchanged balances ledger => exact .unchanged balances ledger
  | opened tx balances inserted type status amount =>
    exact .opened tx balances inserted type status amount
  | settled tx f keeps found pending ledger same status amount moves =>
    exact .settled tx f keeps found pending ledger same status amount moves
  | entered tx f keeps ledger inserted rewritten status amount moved signed moves =>
    exact .entered tx f keeps ledger inserted rewritten status amount moved signed moves
  | reversed original refund ledger found type open_ paid inserted copy rewritten moves =>
    exact .reversed original refund ledger found type open_ paid inserted copy rewritten moves

theorem deduct_effect (database : env.usesScript = false) (c : Charge) (allowNegative : Bool)
    (nonneg : 0 ≤ c.amount) :
    Effect s ((deduct env .none c allowNegative s).2.2.commit env
      (deduct env .none c allowNegative s).2.1) := by
  rw [deduct]
  split
  · exact .unchanged (fun _ => rfl) rfl
  simp only [reduceCtorEq, if_false]
  split
  · exact .unchanged (fun _ => rfl) rfl
  · exact (deductNested_effect database c allowNegative nonneg).of_takeKey

theorem recharge_effect (tenant : TenantId) (amount : ℚ) (traceId : TraceId)
    (description : Option String) (nonneg : 0 ≤ amount) :
    Effect s (recharge env tenant amount traceId description s).2 := by
  rw [recharge]
  split
  · exact .unchanged (fun _ => rfl) rfl
  simp only
  split
  · exact .unchanged (balance_setAccount (rowBalance_getOrCreate env true _)) rfl
  rename_i ledger inserted
  refine .entered _ commitStatus commitStatus_traceId ledger inserted rfl rfl nonneg _
    (.inr ⟨rfl, rfl⟩) ?_
  have moves : Moves s ((s.setAccount tenant
      (addBalance env amount (getOrCreate env true (s.account tenant)).2).2).setLedger ledger)
      tenant amount :=
    Moves.setAccount (by rw [rowBalance_addBalance, rowBalance_getOrCreate])
  exact moves.of_balances fun _ => rfl

theorem reversible_eq_ok {traceId : TraceId} {found : Option BillingTransaction}
    {original : BillingTransaction} (checked : reversible traceId found = .ok original) :
    found = some original ∧ original.status ≠ .reversed ∧ original.type = .deduct := by
  unfold reversible at checked
  split at checked
  · cases checked
  split at checked
  · cases checked
  rename_i open_
  split at checked
  · cases checked
  rename_i deduct
  cases checked
  exact ⟨rfl, open_, not_not.mp deduct⟩

theorem reverse_effect (originalTraceId reverseTraceId : TraceId) (description : Option String)
    (charged : s.ledger.find? reverseTraceId = none → ∀ tx ∈ s.ledger.find? originalTraceId,
      tx.type = .deduct → tx.status = .pending → tx.amount = 0) :
    Effect s (reverse env originalTraceId reverseTraceId description s).2 := by
  rw [reverse]
  split
  · exact .unchanged (fun _ => rfl) rfl
  rename_i original checked
  obtain ⟨found, open_, type⟩ := reversible_eq_ok checked
  have traceId : original.traceId = originalTraceId := Table.key_of_find? found
  split
  · exact .unchanged (fun _ => rfl) rfl
  rename_i fresh
  simp only
  split
  · exact .unchanged (balance_setAccount (rowBalance_getOrCreate env true _)) rfl
  rename_i ledger inserted
  subst traceId
  refine .reversed original _ ledger found type open_
    (charged fresh original found type) inserted ⟨rfl, rfl, rfl⟩ rfl ?_
  have moves : Moves s ((s.setAccount original.tenantId (addBalance env original.amount
      (getOrCreate env true (s.account original.tenantId)).2).2).setLedger ledger)
      original.tenantId original.amount :=
    Moves.setAccount (by rw [rowBalance_addBalance, rowBalance_getOrCreate])
  exact moves.of_balances fun _ => rfl

theorem ledgerStep_effect (act : LedgerAct) (nonneg : act.op.Nonneg)
    (charged : ReversesCharged s act) : Effect s (ledgerStep s act) := by
  obtain ⟨env, database, op⟩ := act
  cases op with
  | createPending call => exact createPending_effect call nonneg
  | commitPending call => exact commitPending_effect database call nonneg
  | deduct c allowNegative => exact deduct_effect database c allowNegative nonneg
  | recharge tenant amount traceId description =>
    exact recharge_effect tenant amount traceId description nonneg
  | reverse originalTraceId reverseTraceId description =>
    exact reverse_effect originalTraceId reverseTraceId description charged

end Effects

/-- The ledger invariant, for a run that started with the balances `initial`. -/
structure Sound (initial : TenantId → ℚ) (s : Store) : Prop where
  balance : ∀ x, s.balance x = initial x + s.ledger.sum (credited x) - s.ledger.sum (deducted x)
  refunds : ∀ x, s.ledger.sum (refunded x) = s.ledger.sum (takenBack x)
  settled : ∀ tx ∈ s.ledger.rows, tx.type ≠ .deduct → tx.status = .committed
  amount : ∀ tx ∈ s.ledger.rows, 0 ≤ tx.amount

section Sums
variable {tx : BillingTransaction} (x : TenantId)

theorem sums_of_pending (type : tx.type = .deduct) (status : tx.status = .pending) :
    credited x tx = 0 ∧ deducted x tx = 0 ∧ refunded x tx = 0 ∧ takenBack x tx = 0 := by
  simp [credited, deducted, refunded, takenBack, type, status]

theorem sums_of_committed_deduct (type : tx.type = .deduct) (status : tx.status = .committed) :
    credited x tx = 0 ∧ deducted x tx = share x tx.tenantId tx.amount ∧
      refunded x tx = 0 ∧ takenBack x tx = 0 := by
  simp [credited, deducted, refunded, takenBack, share, type, status, eq_comm]

theorem sums_of_reversed (type : tx.type = .deduct) (status : tx.status = .reversed) :
    credited x tx = 0 ∧ deducted x tx = share x tx.tenantId tx.amount ∧
      refunded x tx = 0 ∧ takenBack x tx = share x tx.tenantId tx.amount := by
  simp [credited, deducted, refunded, takenBack, share, type, status, eq_comm]

theorem sums_of_recharge (type : tx.type = .recharge) (status : tx.status = .committed) :
    credited x tx = share x tx.tenantId tx.amount ∧ deducted x tx = 0 ∧
      refunded x tx = 0 ∧ takenBack x tx = 0 := by
  simp [credited, deducted, refunded, takenBack, share, type, status, eq_comm]

theorem sums_of_refund (type : tx.type = .refund) (status : tx.status = .committed) :
    credited x tx = share x tx.tenantId tx.amount ∧ deducted x tx = 0 ∧
      refunded x tx = share x tx.tenantId tx.amount ∧ takenBack x tx = 0 := by
  simp [credited, deducted, refunded, takenBack, share, type, status, eq_comm]

end Sums

namespace Sound
variable {initial : TenantId → ℚ} {s t : Store}

theorem settledBy (sound : Sound initial s) {tx : BillingTransaction}
    {f : BillingTransaction → BillingTransaction} {keeps : ∀ x, (f x).traceId = x.traceId}
    (found : s.ledger.find? tx.traceId = some tx) (pending : tx.status = .pending)
    (ledger : t.ledger = s.ledger.modify tx.traceId f keeps)
    (same : (f tx).tenantId = tx.tenantId ∧ (f tx).type = tx.type)
    (status : (f tx).status = .committed) (amount : 0 ≤ (f tx).amount)
    (moves : tx.type = .deduct → Moves s t tx.tenantId (-(f tx).amount)) : Sound initial t := by
  have type : tx.type = .deduct := by
    by_contra other
    have committed := sound.settled tx (Table.mem_of_find? found) other
    simp [pending] at committed
  have before (x : TenantId) := sums_of_pending x type pending
  have after (x : TenantId) := sums_of_committed_deduct x (same.2.trans type) status
  refine ⟨?_, ?_, ?_, ?_⟩
  · intro x
    rw [moves type x, sound.balance x, ledger, Table.sum_modify found, Table.sum_modify found,
      (before x).1, (before x).2.1, (after x).1, (after x).2.1, same.1, share_neg]
    ring
  · intro x
    rw [ledger, Table.sum_modify found, Table.sum_modify found, sound.refunds x, (before x).2.2.1,
      (before x).2.2.2, (after x).2.2.1, (after x).2.2.2]
  · rw [ledger]
    refine Table.forall_modify (fun r here _ _ => ?_) (fun _ _ held => held) sound.settled
    rw [found] at here
    cases here
    exact status
  · rw [ledger]
    refine Table.forall_modify (fun r here _ => ?_) (fun _ _ held => held) sound.amount
    rw [found] at here
    cases here
    exact amount

theorem enteredBy (sound : Sound initial s) {tx : BillingTransaction}
    {f : BillingTransaction → BillingTransaction} {keeps : ∀ x, (f x).traceId = x.traceId}
    {ledger : Ledger} {moved : ℚ} (inserted : s.ledger.insert? tx = some ledger)
    (rewritten : t.ledger = ledger.modify tx.traceId f keeps) (status : (f tx).status = .committed)
    (amount : 0 ≤ (f tx).amount)
    (signed : (f tx).type = .deduct ∧ moved = -(f tx).amount ∨
      (f tx).type = .recharge ∧ moved = (f tx).amount)
    (moves : Moves s t (f tx).tenantId moved) : Sound initial t := by
  have sums (g : BillingTransaction → ℚ) : t.ledger.sum g = g (f tx) + s.ledger.sum g := by
    rw [rewritten, Table.sum_insert_modify inserted]
  refine ⟨?_, ?_, ?_, ?_⟩
  · intro x
    rw [moves x, sound.balance x, sums, sums]
    rcases signed with ⟨type, rfl⟩ | ⟨type, rfl⟩
    · have row := sums_of_committed_deduct x type status
      rw [row.1, row.2.1, share_neg]
      ring
    · have row := sums_of_recharge x type status
      rw [row.1, row.2.1]
      ring
  · intro x
    rw [sums, sums, sound.refunds x]
    rcases signed with ⟨type, _⟩ | ⟨type, _⟩
    · have row := sums_of_committed_deduct x type status
      rw [row.2.2.1, row.2.2.2]
    · have row := sums_of_recharge x type status
      rw [row.2.2.1, row.2.2.2]
  · rw [rewritten]
    exact Table.forall_insert_modify inserted (fun _ => status) sound.settled
  · rw [rewritten]
    exact Table.forall_insert_modify inserted amount sound.amount

theorem reversedBy (sound : Sound initial s) {original refund : BillingTransaction}
    {ledger : Ledger} (found : s.ledger.find? original.traceId = some original)
    (type : original.type = .deduct) (open_ : original.status ≠ .reversed)
    (paid : original.status = .pending → original.amount = 0)
    (inserted : s.ledger.insert? refund = some ledger)
    (copy : refund.type = .refund ∧ refund.tenantId = original.tenantId ∧
      refund.amount = original.amount)
    (rewritten : t.ledger =
      (ledger.modify original.traceId (markReversed refund.traceId)
        (markReversed_traceId refund.traceId)).modify refund.traceId commitStatus
        commitStatus_traceId)
    (moves : Moves s t original.tenantId original.amount) : Sound initial t := by
  have fresh := (Table.insert?_eq_some.mp inserted).1
  have distinct : original.traceId ≠ refund.traceId := by
    intro same
    rw [same] at found
    rw [found] at fresh
    cases fresh
  have stillThere : ledger.find? original.traceId = some original :=
    Table.find?_of_insert inserted found
  have refundThere : (ledger.modify original.traceId (markReversed refund.traceId)
      (markReversed_traceId refund.traceId)).find? refund.traceId = some refund := by
    rw [Table.find?_modify, if_neg (Ne.symm distinct), Table.find?_insert inserted, if_pos rfl]
  have sums (g : BillingTransaction → ℚ) : t.ledger.sum g =
      g refund + s.ledger.sum g + (g (markReversed refund.traceId original) - g original) +
        (g (commitStatus refund) - g refund) := by
    rw [rewritten, Table.sum_modify refundThere, Table.sum_modify stillThere,
      Table.sum_insert inserted]
  have nonneg : 0 ≤ original.amount := sound.amount original (Table.mem_of_find? found)
  have paidBack (x : TenantId) :=
    sums_of_refund x (show (commitStatus refund).type = .refund from copy.1) rfl
  have marked (x : TenantId) :=
    sums_of_reversed x (show (markReversed refund.traceId original).type = .deduct from type) rfl
  -- what the original counted for before it was marked
  have original_sums (x : TenantId) : credited x original = 0 ∧
      deducted x original = share x original.tenantId original.amount ∧
      refunded x original = 0 ∧ takenBack x original = 0 := by
    cases status : original.status with
    | pending =>
      have row := sums_of_pending x type status
      rw [paid status, share_zero]
      exact row
    | committed => exact sums_of_committed_deduct x type status
    | reversed => exact absurd status open_
  refine ⟨?_, ?_, ?_, ?_⟩
  · intro x
    rw [moves x, sound.balance x, sums, sums, (paidBack x).1, (paidBack x).2.1, (marked x).1,
      (marked x).2.1, (original_sums x).1, (original_sums x).2.1]
    simp only [markReversed, commitStatus, copy.2.1, copy.2.2]
    ring
  · intro x
    rw [sums, sums, sound.refunds x, (paidBack x).2.2.1, (paidBack x).2.2.2, (marked x).2.2.1,
      (marked x).2.2.2, (original_sums x).2.2.1, (original_sums x).2.2.2]
    simp only [markReversed, commitStatus, copy.2.1, copy.2.2]
    ring
  · rw [rewritten]
    -- until its own status is set, the refund is the one exception
    refine Table.forall_modify (P := fun tx => tx.traceId ≠ refund.traceId → tx.type ≠ .deduct →
      tx.status = .committed) (fun _ _ _ _ => rfl) (fun _ elsewhere held => held elsewhere) ?_
    refine Table.forall_modify (fun r here _ _ other => ?_) (fun _ _ held => held) ?_
    · rw [stillThere] at here
      cases here
      exact absurd type other
    · exact Table.forall_insert inserted (absurd rfl) fun tx mem _ => sound.settled tx mem
  · rw [rewritten]
    refine Table.forall_modify (fun _ _ held => held) (fun _ _ held => held) ?_
    refine Table.forall_modify (fun _ _ held => held) (fun _ _ held => held) ?_
    exact Table.forall_insert inserted (copy.2.2 ▸ nonneg) sound.amount

theorem of_effect (sound : Sound initial s) (effect : Effect s t) : Sound initial t := by
  cases effect with
  | unchanged balances ledger =>
    refine ⟨fun x => ?_, ?_, ?_, ?_⟩
    · rw [balances x, ledger, sound.balance x]
    all_goals rw [ledger]
    · exact sound.refunds
    · exact sound.settled
    · exact sound.amount
  | opened tx balances inserted type status amount =>
    have row (x : TenantId) := sums_of_pending x type status
    refine ⟨?_, ?_, ?_, ?_⟩
    · intro x
      rw [balances x, sound.balance x, Table.sum_insert inserted, Table.sum_insert inserted,
        (row x).1, (row x).2.1, zero_add, zero_add]
    · intro x
      rw [Table.sum_insert inserted, Table.sum_insert inserted, (row x).2.2.1, (row x).2.2.2,
        sound.refunds x]
    · exact Table.forall_insert inserted (absurd type) sound.settled
    · exact Table.forall_insert inserted amount sound.amount
  | settled tx f keeps found pending ledger same status amount moves =>
    exact sound.settledBy found pending ledger same status amount moves
  | entered tx f keeps ledger inserted rewritten status amount moved signed moves =>
    exact sound.enteredBy inserted rewritten status amount signed moves
  | reversed original refund ledger found type open_ paid inserted copy rewritten moves =>
    exact sound.reversedBy found type open_ paid inserted copy rewritten moves

theorem refunded_le_deducted (sound : Sound initial s) (x : TenantId) :
    s.ledger.sum (refunded x) ≤ s.ledger.sum (deducted x) := by
  rw [sound.refunds x]
  refine Table.sum_le_sum fun tx mem => ?_
  have nonneg := sound.amount tx mem
  rw [takenBack, deducted]
  split
  · rename_i back
    rw [if_pos ⟨back.1, back.2.1, .inr back.2.2⟩]
  · split
    · exact nonneg
    · exact le_rfl

end Sound

/-- In a run that never reverses an uncharged amount, every balance is its initial
value plus the committed recharges and refunds less the deductions that were committed
or reversed, and what was refunded is what was reversed, hence no more than was
deducted. -/
theorem ledger_balanced {s t : Store} {acts : List LedgerAct} (empty : s.ledger = Table.empty)
    (nonneg : ∀ act ∈ acts, act.op.Nonneg)
    (charged : Along (total ledgerStep) ReversesCharged s acts)
    (reached : run (total ledgerStep) s acts = some t) (x : TenantId) :
    t.balance x = s.balance x + t.ledger.sum (credited x) - t.ledger.sum (deducted x) ∧
      t.ledger.sum (refunded x) = t.ledger.sum (takenBack x) ∧
      t.ledger.sum (refunded x) ≤ t.ledger.sum (deducted x) := by
  have start : Sound s.balance s := by
    refine ⟨fun x => ?_, fun x => ?_, ?_, ?_⟩ <;> simp [empty, Table.empty, Table.sum]
  have guarded : Along (total ledgerStep)
      (fun s act => act.op.Nonneg ∧ ReversesCharged s act) s acts :=
    along_and (along_of_mem (fun act mem _ => nonneg act mem) s) charged
  have sound : Sound s.balance t := by
    refine run_invariant (fun {u act v} held ok taken => ?_) start guarded reached
    cases taken
    exact held.of_effect (ledgerStep_effect act ok.1 ok.2)
  exact ⟨sound.balance x, sound.refunds x, sound.refunded_le_deducted x⟩

/-- Every tenant with ten credits, an empty ledger, no script loaded. -/
def newBooks : Store := ⟨fun _ => ⟨none, some (rowOf .june15 10)⟩, Table.empty, fun _ _ => false⟩

def onDatabase (op : LedgerOp) : LedgerAct := ⟨⟨true, false, .june15, id, true⟩, rfl, op⟩

def chargeAndReverse : List LedgerAct :=
  [onDatabase (.deduct { tenantId := 1, amount := 3, traceId := "call" } false),
    onDatabase (.reverse "call" "undo" none), onDatabase (.reverse "call" "again" none)]

theorem ledger_balanced_after_reverse :
    ∃ t, run (total ledgerStep) newBooks chargeAndReverse = some t ∧
      t.balance 1 = newBooks.balance 1 + t.ledger.sum (credited 1) - t.ledger.sum (deducted 1) := by
  have nonneg : ∀ act ∈ chargeAndReverse, act.op.Nonneg := by
    simp [chargeAndReverse, onDatabase, LedgerOp.Nonneg]
  have charged : Along (total ledgerStep) ReversesCharged newBooks chargeAndReverse := by
    decide +kernel
  exact ⟨_, rfl, (ledger_balanced rfl nonneg charged rfl 1).1⟩

/-- A stream that was only announced is reversed: the credit it never paid is paid out. -/
theorem pending_reversal_pays :
    newBooks.ledger = Table.empty ∧
      ∃ t, run (total ledgerStep) newBooks
          [onDatabase (.createPending ⟨1, "stream", 1000, some 1, {}⟩),
            onDatabase (.reverse "stream" "undo" none)] = some t ∧
        newBooks.balance 1 = 10 ∧ t.balance 1 = 11 ∧
        t.ledger.sum (credited 1) = 1 ∧ t.ledger.sum (deducted 1) = 1 := by
  refine ⟨rfl, _, rfl, ?_⟩
  decide +kernel

end Deeting.Billing
