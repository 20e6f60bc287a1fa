import Deeting.Billing.Repository

/-! How `commit_pending_transaction` ends on a pending transaction: charged, or refused. -/
namespace Deeting.Billing

open Deeting.Quota

structure Standing where
  balance : ℚ
  dailyUsed : ℕ
  monthlyUsed : ℕ
  deriving DecidableEq, Repr

def Standing.charged (cost : ℚ) (standing : Standing) : Standing where
  balance := standing.balance - cost
  dailyUsed := standing.dailyUsed + 1
  monthlyUsed := standing.monthlyUsed + 1

def rowStanding (q : TenantQuota) : Standing := ⟨q.balance, q.dailyUsed, q.monthlyUsed⟩

def hashStanding (today : Date) (h : QuotaHash) : Standing :=
  ⟨h.balance, h.dailyUsedOn today, h.monthlyUsedIn today.yearMonth⟩

def standing (env : Env) (a : Account) : Standing :=
  if env.usesScript then hashStanding env.today (foundHash env a)
  else rowStanding (currentRow env.today a.row)

/-- The row shows the tenant charged by exactly the cost and one request, and so does the hash
that is copied from it. -/
def Charged (env : Env) (cost : ℚ) (before after : Account) : Prop :=
  ∃ q, after.row = some q ∧ rowStanding q = (standing env before).charged cost ∧
    (env.redis = true → after.hash = some (quotaPayload env.today q))

def committed (env : Env) (call : CommitCall) (s : Store) : Store :=
  (commitPendingTransaction env call s).2.2.commit env (commitPendingTransaction env call s).2.1

/-- The transaction is returned and stored as committed at its cost, and charged. -/
structure EndsCharged (env : Env) (call : CommitCall) (s : Store) (tenant : TenantId) : Prop where
  settled : ∃ tx, (commitPendingTransaction env call s).1 = .ok tx ∧
    (committed env call s).ledger.find? call.traceId = some tx ∧ tx.status = .committed ∧
    tx.amount = call.actualCost
  charged : Charged env call.actualCost (s.account tenant) ((committed env call s).account tenant)

/-- The balance is called insufficient, the transaction has failed, the quota is as before. -/
structure EndsRefused (env : Env) (call : CommitCall) (s : Store) (tenant : TenantId) : Prop where
  raised : ∃ available, (commitPendingTransaction env call s).1 =
    .error (.insufficientBalance call.actualCost available)
  failed : ∃ tx, (commitPendingTransaction env call s).2.2.ledger.find? call.traceId = some tx ∧
    tx.status ≠ .pending ∧ tx.status ≠ .committed
  unchanged : standing env ((commitPendingTransaction env call s).2.2.account tenant) =
    standing env (s.account tenant)

/-- The deduction is accepted, and the script's reply can say the balance that is left. -/
def ChargesExactly (env : Env) (cost : ℚ) (allowNegative : Bool) (a : Account) : Prop :=
  if env.usesScript then
    ScriptAccepts (deductArgs env.today cost 1 1 allowNegative) (foundHash env a) ∧
      (Decimal.truncate (luaSub (foundHash env a).balance cost) : ℚ) =
        (foundHash env a).balance - cost
  else RowAccepts (dbRequest cost 1 1 allowNegative) (currentRow env.today a.row)

instance (env : Env) (cost : ℚ) (allowNegative : Bool) (a : Account) :
    Decidable (ChargesExactly env cost allowNegative a) := by
  unfold ChargesExactly
  infer_instance

section Deduction

variable {env : Env} {cost : ℚ} {allowNegative : Bool} {a : Account}

theorem chargesExactly_of_script (usable : env.usesScript = true) :
    ChargesExactly env cost allowNegative a ↔
      ScriptAccepts (deductArgs env.today cost 1 1 allowNegative) (foundHash env a) ∧
        (Decimal.truncate (luaSub (foundHash env a).balance cost) : ℚ) =
          (foundHash env a).balance - cost := by
  rw [ChargesExactly, if_pos usable]

theorem chargesExactly_of_database (unusable : env.usesScript = false) :
    ChargesExactly env cost allowNegative a ↔
      RowAccepts (dbRequest cost 1 1 allowNegative) (currentRow env.today a.row) := by
  rw [ChargesExactly, if_neg (by simp [unusable])]

def Deducted (env : Env) (cost : ℚ) (allowNegative : Bool) (a : Account) : Prop :=
  ∃ updated after, deductQuotaRedis env cost 1 1 allowNegative a = (.ok updated, after) ∧
    after.row = some updated ∧
    (rowStanding updated = (standing env a).charged cost ↔ ChargesExactly env cost allowNegative a)

def Refused (env : Env) (cost : ℚ) (allowNegative : Bool) (a : Account) : Prop :=
  (∃ e after, deductQuotaRedis env cost 1 1 allowNegative a = (.error e, after)) ∧
    ¬ ChargesExactly env cost allowNegative a

theorem deducted_or_refused_of_script (usable : env.usesScript = true) :
    Deducted env cost allowNegative a ∨ Refused env cost allowNegative a := by
  by_cases accepts : ScriptAccepts (deductArgs env.today cost 1 1 allowNegative) (foundHash env a)
  · refine .inl ⟨_, _, deductQuotaRedis_of_accepts usable accepts, rfl, ?_⟩
    rw [chargesExactly_of_script usable, and_iff_right accepts]
    simp [standing, usable, rowStanding, Standing.charged, hashStanding, charge, deductArgs]
  · obtain ⟨e, refused⟩ := deductQuotaRedis_of_refuses (a := a) usable accepts
    refine .inr ⟨⟨e, _, refused⟩, fun exact_ => accepts ?_⟩
    exact ((chargesExactly_of_script usable).mp exact_).1

theorem deducted_or_refused_of_database (unusable : env.usesScript = false) :
    Deducted env cost allowNegative a ∨ Refused env cost allowNegative a := by
  have database : deductQuotaRedis env cost 1 1 allowNegative a =
      checkAndDeduct env false false (dbRequest cost 1 1 allowNegative) a := by
    simp [deductQuotaRedis, unusable, deductQuotaDb]
  rw [Deducted, Refused, database, chargesExactly_of_database unusable]
  by_cases accepts : RowAccepts (dbRequest cost 1 1 allowNegative) (currentRow env.today a.row)
  · refine .inl ⟨_, _, checkAndDeduct_of_accepts accepts, rfl, iff_of_true ?_ accepts⟩
    simp [standing, unusable, rowStanding, Standing.charged, deductFrom, dbRequest]
  · obtain ⟨e, refused⟩ := checkAndDeduct_of_refuses accepts
    exact .inr ⟨⟨e, _, refused⟩, accepts⟩

theorem deducted_or_refused (env : Env) (cost : ℚ) (allowNegative : Bool) (a : Account) :
    Deducted env cost allowNegative a ∨ Refused env cost allowNegative a := by
  cases usable : env.usesScript with
  | true => exact deducted_or_refused_of_script usable
  | false => exact deducted_or_refused_of_database usable

end Deduction

section Commit

variable {env : Env} {call : CommitCall} {s : Store} {tx : BillingTransaction}

theorem commitPending_replayed (found : s.ledger.find? call.traceId = some tx)
    (status : tx.status = .committed) : commitPendingTransaction env call s = (.ok tx, none, s) := by
  simp only [commitPendingTransaction, found, status]

/-- A refused deduction raises an error of its own: the status it is to record does not exist. -/
theorem commitPending_of_refused (found : s.ledger.find? call.traceId = some tx)
    (status : tx.status = .pending)
    (refused : Refused env call.actualCost call.allowNegative (s.account tx.tenantId)) :
    ∃ after, commitPendingTransaction env call s =
      (.error (.noSuchStatus "FAILED"), none, s.setAccount tx.tenantId after) := by
  obtain ⟨⟨e, after, answered⟩, -⟩ := refused
  exact ⟨after, by simp only [commitPendingTransaction, found, status, answered]⟩

theorem commitPending_of_deducted (found : s.ledger.find? call.traceId = some tx)
    (status : tx.status = .pending) {updated : TenantQuota} {after : Account}
    (answered : deductQuotaRedis env call.actualCost 1 1 call.allowNegative
      (s.account tx.tenantId) = (.ok updated, after)) :
    commitPendingTransaction env call s =
      (.ok (call.settle updated tx), some (tx.tenantId, updated),
        (s.setAccount tx.tenantId after).rewrite call.traceId (call.settle updated)
          (call.settle_traceId updated)) := by
  simp only [commitPendingTransaction, found, status, answered]

/-- The account the commit leaves: the row as it was written, the hash copied from it. -/
theorem account_commit_rewrite {tenant : TenantId} {after : Account} {updated : TenantQuota}
    {f : BillingTransaction → BillingTransaction} (keeps : ∀ tx, (f tx).traceId = tx.traceId) :
    (((s.setAccount tenant after).rewrite call.traceId f keeps).commit env
      (some (tenant, updated))).account tenant =
      { after with hash := syncRedisHash env updated after.hash } := by
  simp [Store.commit, Store.setAccount, Store.rewrite, Store.setLedger]

theorem find?_commit_rewrite {tenant : TenantId} {after : Account} {hook : Hook}
    {f : BillingTransaction → BillingTransaction} (keeps : ∀ tx, (f tx).traceId = tx.traceId)
    (found : s.ledger.find? call.traceId = some tx) :
    (((s.setAccount tenant after).rewrite call.traceId f keeps).commit env hook).ledger.find?
      call.traceId = some (f tx) := by
  have modified : (s.ledger.modify call.traceId f keeps).find? call.traceId = some (f tx) := by
    rw [Table.find?_modify, if_pos rfl, found]
    rfl
  cases hook with
  | none => exact modified
  | some synced => exact modified

theorem not_endsRefused (found : s.ledger.find? call.traceId = some tx)
    (status : tx.status = .pending) : ¬ EndsRefused env call s tx.tenantId := by
  rintro ⟨⟨available, raised⟩, -, -⟩
  rcases deducted_or_refused env call.actualCost call.allowNegative (s.account tx.tenantId) with
    ⟨updated, after, answered, -⟩ | refused
  · rw [commitPending_of_deducted found status answered] at raised
    cases raised
  · obtain ⟨after, answered⟩ := commitPending_of_refused found status refused
    rw [answered] at raised
    cases raised

theorem endsCharged_iff (found : s.ledger.find? call.traceId = some tx)
    (status : tx.status = .pending) :
    EndsCharged env call s tx.tenantId ↔
      ChargesExactly env call.actualCost call.allowNegative (s.account tx.tenantId) := by
  rcases deducted_or_refused env call.actualCost call.allowNegative (s.account tx.tenantId) with
    ⟨updated, after, answered, row, shown⟩ | refused
  · have result := commitPending_of_deducted found status answered
    have account : (committed env call s).account tx.tenantId =
        { after with hash := syncRedisHash env updated after.hash } := by
      rw [committed, result]
      exact account_commit_rewrite (call.settle_traceId updated)
    rw [← shown]
    constructor
    · rintro ⟨-, q, stored, charged, -⟩
      rw [account] at stored
      obtain rfl := Option.some.inj (row.symm.trans stored)
      exact charged
    · intro charged
      refine ⟨⟨_, congrArg Prod.fst result, ?_, rfl, rfl⟩, updated, ?_, charged, fun redis => ?_⟩
      · rw [committed, result]
        exact find?_commit_rewrite (call.settle_traceId updated) found
      · rw [account]
        exact row
      · rw [account]
        exact if_pos redis
  · refine iff_of_false ?_ refused.2
    rintro ⟨⟨settled, returned, -⟩, -⟩
    obtain ⟨after, answered⟩ := commitPending_of_refused found status refused
    rw [answered] at returned
    cases returned

end Commit

/-- A pending transaction of the tenant with a balance, and a call that costs 5. -/
def pendingStore (balance : ℚ) : Store :=
  (createPendingTransaction scriptEnv { tenantId := 0, traceId := "t", estimatedTokens := 0
                                        inputPer1k := none } (storeOf balance)).2

def fiveCredits : CommitCall :=
  { traceId := "t", inputTokens := 1000, outputTokens := 0, inputPrice := 5, outputPrice := 0
    allowNegative := false }

/-- From 8.5 credits it is taken, and the row keeps 3 of the 3.5 that are left. -/
example : ¬ ChargesExactly scriptEnv 5 false ((pendingStore (17 / 2)).account 0) := by
  decide +kernel

end Deeting.Billing
