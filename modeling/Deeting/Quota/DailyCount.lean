import Deeting.Quota.Operations
import Deeting.Transition

/-! One calendar day of a tenant: admissions through the script, synchronisations of
the row from the hash, reads and writes of the row, and the end of the hash's time to live.
The admitted requests are counted beside the account. The hash and the row each have their own
reset rule, and the day's count can only be lowered where the row takes the hash's place. -/
namespace Deeting.Quota
open Deeting.Transition

/-- The operations of a day for a tenant whose daily quota stays `quota`. -/
inductive DayOp (quota : ℕ) where
  | precheck (estimatedCost : ℚ)
  | sync
  | getOrCreate (commit : Bool)
  | addBalance (amount : ℚ)
  | updateLimits (u : LimitUpdate) (fixed : ∀ n ∈ u.dailyQuota, n = quota)
  | expire

structure Day where
  account : Account
  admitted : ℕ

variable {quota : ℕ}

def dayStep (env : Env) (s : Day) : DayOp quota → Day
  | .precheck estimatedCost =>
      let (verdict, a) := quotaPrecheck env estimatedCost s.account
      ⟨a, if verdict.isOk then s.admitted + 1 else s.admitted⟩
  | .sync => { s with account := (syncQuotaFromRedisToDb env s.account).2 }
  | .getOrCreate commit => { s with account := (getOrCreate env commit s.account).2 }
  | .addBalance amount => { s with account := (addBalance env amount s.account).2 }
  | .updateLimits u _ => { s with account := (updateLimits env u s.account).2 }
  | .expire => { s with account := { s.account with hash := none } }

/-- The day's count the script goes by: where there is no hash, that of the row's copy. -/
def dayCount (env : Env) (a : Account) : ℕ := (foundHash env a).dailyUsedOn env.today

def copiedCount (env : Env) (a : Account) : ℕ :=
  (quotaPayload env.today (currentRow env.today a.row)).dailyUsedOn env.today

def DayOp.copiesRow (env : Env) (a : Account) : DayOp quota → Bool
  | .precheck _ | .sync | .getOrCreate false => false
  | .getOrCreate true => a.row.elim true fun q => resetDue env.today q
  | .addBalance _ | .updateLimits .. | .expire => true

/-- A row that takes the place of the hash is not behind it. -/
def CopiesCurrentCount (env : Env) (s : Day) (op : DayOp quota) : Prop :=
  op.copiesRow env s.account = true → dayCount env s.account ≤ copiedCount env s.account

instance (env : Env) (s : Day) (op : DayOp quota) : Decidable (CopiesCurrentCount env s op) :=
  inferInstanceAs (Decidable (_ → _))

/-- Both copies carry the tenant's daily quota, and every admission is counted. -/
structure Counted (env : Env) (quota : ℕ) (s : Day) : Prop where
  hashQuota : ∀ h ∈ s.account.hash, h.dailyQuota = quota
  rowQuota : (currentRow env.today s.account.row).dailyQuota = quota
  counted : s.admitted ≤ dayCount env s.account
  within : s.admitted ≤ quota

section Copies
variable {env : Env} {a : Account}

theorem dayCount_addBalance (redis : env.redis = true) (amount : ℚ) :
    dayCount env (addBalance env amount a).2 = copiedCount env a := by
  simp only [addBalance, getOrCreate_fst, syncRedisHash, redis, if_true]
  rfl

theorem dayCount_updateLimits (redis : env.redis = true) (u : LimitUpdate) :
    dayCount env (updateLimits env u a).2 = copiedCount env a := by
  simp only [updateLimits, getOrCreate_fst, syncRedisHash, redis, if_true]
  rfl

theorem getOrCreate_hash_of_kept (commit : Bool)
    (kept : (DayOp.getOrCreate commit : DayOp quota).copiesRow env a = false) :
    (getOrCreate env commit a).2.hash = a.hash := by
  cases commit with
  | false => exact getOrCreate_false_hash env a
  | true =>
    cases stored : a.row with
    | none => simp [DayOp.copiesRow, stored] at kept
    | some q =>
      have current : resetDue env.today q = false := by
        simpa [DayOp.copiesRow, stored] using kept
      rw [getOrCreate_of_current env true a stored current]

/-- A reset that has been written changes nothing about what a copy of the row would say. -/
theorem dayCount_getOrCreate_of_kept (commit : Bool)
    (kept : (DayOp.getOrCreate commit : DayOp quota).copiesRow env a = false) :
    dayCount env (getOrCreate env commit a).2 = dayCount env a := by
  have hash := getOrCreate_hash_of_kept commit kept
  cases stored : a.hash with
  | some h => simp only [dayCount, foundHash, hash, stored, Option.getD_some]
  | none =>
    have again : currentRow env.today (some (currentRow env.today a.row)) =
        currentRow env.today a.row ∨ a.row = none := by
      cases a.row with
      | none => exact .inr rfl
      | some q => exact .inl (maybeResetQuotas_idem env.today q)
    simp only [dayCount, foundHash, hash, stored, getOrCreate_row, Option.getD_none]
    rcases again with same | absent
    · rw [same]
    · rw [absent]
      rfl

theorem getOrCreate_hash_of_copied (redis : env.redis = true) (commit : Bool)
    (copied : (DayOp.getOrCreate commit : DayOp quota).copiesRow env a = true) :
    (getOrCreate env commit a).2.hash =
      some (quotaPayload env.today (currentRow env.today a.row)) := by
  cases commit with
  | false => simp [DayOp.copiesRow] at copied
  | true =>
    unfold getOrCreate currentRow
    cases stored : a.row with
    | none => simp [syncRedisHash, redis]
    | some q =>
      have due : resetDue env.today q = true := by simpa [DayOp.copiesRow, stored] using copied
      simp [syncRedisHash, redis, due]

theorem syncQuotaFromRedisToDb_hash (env : Env) (a : Account) :
    (syncQuotaFromRedisToDb env a).2.hash = a.hash := by
  rw [syncQuotaFromRedisToDb]
  split
  · rfl
  split <;> simp_all

theorem dayCount_sync (env : Env) (a : Account) :
    dayCount env (syncQuotaFromRedisToDb env a).2 = dayCount env a := by
  cases stored : a.hash with
  | some h =>
    simp only [dayCount, foundHash, syncQuotaFromRedisToDb_hash, stored, Option.getD_some]
  | none =>
    have same : (syncQuotaFromRedisToDb env a).2 = a := by
      rw [syncQuotaFromRedisToDb]
      split
      · rfl
      · simp [stored]
    rw [same]

theorem syncQuotaFromRedisToDb_quota (env : Env) (a : Account) :
    (currentRow env.today (syncQuotaFromRedisToDb env a).2.row).dailyQuota =
      (currentRow env.today a.row).dailyQuota := by
  rw [syncQuotaFromRedisToDb]
  split
  · rfl
  split
  · rfl
  · rfl
  rename_i h q _ stored
  rw [stored]
  simp only [currentRow, maybeResetQuotas_dailyQuota, syncQuotaRow]
  split <;> rfl

theorem warmed_row_quota (env : Env) (a : Account) :
    (currentRow env.today (warmed env a).row).dailyQuota =
      (currentRow env.today a.row).dailyQuota := by
  cases stored : a.hash with
  | some h => rw [warmed_row_of_stored stored]
  | none => simp [warmed, stored, warmQuotaCache, currentRow]

end Copies

section Steps
variable {env : Env} {s : Day}

theorem dayCount_precheck_of_accepts (estimatedCost : ℚ)
    (account : (quotaPrecheck env estimatedCost s.account).2 =
      ⟨some (charge env.stored (deductArgs env.today estimatedCost 1 1 false)
        (foundHash env s.account)), (warmed env s.account).row⟩) :
    dayCount env (dayStep env s (.precheck estimatedCost : DayOp quota)).account =
      dayCount env s.account + 1 := by
  simp only [dayStep, account, dayCount]
  exact dailyUsedOn_charge env.stored (deductArgs env.today estimatedCost 1 1 false) _

theorem dayCount_le_iff (usable : env.usesScript = true) (s : Day) (op : DayOp quota) :
    dayCount env s.account ≤ dayCount env (dayStep env s op).account ↔
      CopiesCurrentCount env s op := by
  have redis : env.redis = true := (Bool.and_eq_true_iff.mp usable).1
  cases op with
  | precheck estimatedCost =>
    refine iff_of_true ?_ nofun
    rcases quotaPrecheck_cases usable estimatedCost s.account with ⟨_, _, account⟩ | ⟨_, _, account⟩
    · rw [dayCount_precheck_of_accepts estimatedCost account]
      omega
    · simp only [dayStep, account, dayCount]
      rfl
  | sync =>
    refine iff_of_true (le_of_eq ?_) nofun
    simp only [dayStep, dayCount_sync]
  | getOrCreate commit =>
    cases copied : (DayOp.getOrCreate commit : DayOp quota).copiesRow env s.account with
    | false =>
      refine iff_of_true (le_of_eq ?_) fun copies => by simp [copied] at copies
      simp only [dayStep, dayCount_getOrCreate_of_kept commit copied]
    | true =>
      have after : dayCount env (getOrCreate env commit s.account).2 =
          copiedCount env s.account := by
        simp only [dayCount, foundHash, getOrCreate_hash_of_copied redis commit copied, copiedCount,
          Option.getD_some]
      simp only [dayStep, CopiesCurrentCount, copied, after, forall_const]
  | addBalance amount =>
    simp only [dayStep, CopiesCurrentCount, DayOp.copiesRow, dayCount_addBalance redis, forall_const]
  | updateLimits u _ =>
    simp only [dayStep, CopiesCurrentCount, DayOp.copiesRow, dayCount_updateLimits redis,
      forall_const]
  | expire =>
    have after : dayCount env { s.account with hash := none } = copiedCount env s.account := rfl
    simp only [dayStep, CopiesCurrentCount, DayOp.copiesRow, after, forall_const]

theorem Counted.foundQuota (counted : Counted env quota s) :
    (foundHash env s.account).dailyQuota = quota := by
  cases stored : s.account.hash with
  | none => simpa [foundHash, stored] using counted.rowQuota
  | some h => simpa [foundHash, stored] using counted.hashQuota h stored

theorem counted_precheck (usable : env.usesScript = true) (estimatedCost : ℚ)
    (counted : Counted env quota s) :
    Counted env quota (dayStep env s (.precheck estimatedCost : DayOp quota)) := by
  have quotaOf := counted.foundQuota
  have total := counted.counted
  have row : (currentRow env.today (warmed env s.account).row).dailyQuota = quota :=
    (warmed_row_quota env s.account).trans counted.rowQuota
  rcases quotaPrecheck_cases usable estimatedCost s.account with
    ⟨accepts, verdict, account⟩ | ⟨_, verdict, account⟩
  · have guard := accepts.2.1
    simp only [deductArgs] at guard
    rw [quotaOf] at guard
    have after := @dayCount_precheck_of_accepts quota _ _ estimatedCost account
    have guard : ((dayCount env s.account + 1 : ℕ) : ℤ) ≤ quota := guard
    have admitted : (dayStep env s (.precheck estimatedCost : DayOp quota)).admitted
        = s.admitted + 1 := by simp [dayStep, verdict]
    refine ⟨?_, ?_, by omega, by omega⟩
    · intro h stored
      simp only [dayStep, account, Option.mem_some_iff] at stored
      exact stored ▸ quotaOf
    · simpa only [dayStep, account] using row
  · have admitted : (dayStep env s (.precheck estimatedCost : DayOp quota)).admitted
        = s.admitted := by simp [dayStep, verdict]
    refine ⟨?_, ?_, ?_, admitted ▸ counted.within⟩
    · intro h stored
      simp only [dayStep, account, Option.mem_some_iff] at stored
      exact stored ▸ quotaOf
    · simpa only [dayStep, account] using row
    · rw [admitted]
      simp only [dayStep, account, dayCount]
      exact total

theorem counted_getOrCreate (redis : env.redis = true) (commit : Bool)
    (counted : Counted env quota s)
    (count : dayCount env s.account ≤ dayCount env (getOrCreate env commit s.account).2) :
    Counted env quota (dayStep env s (.getOrCreate commit : DayOp quota)) := by
  refine ⟨?_, ?_, counted.counted.trans count, counted.within⟩
  · intro h stored
    cases copied : (DayOp.getOrCreate commit : DayOp quota).copiesRow env s.account with
    | false =>
      simp only [dayStep, getOrCreate_hash_of_kept commit copied] at stored
      exact counted.hashQuota h stored
    | true =>
      simp only [dayStep, getOrCreate_hash_of_copied redis commit copied,
        Option.mem_some_iff] at stored
      exact stored ▸ counted.rowQuota
  · simp only [dayStep, getOrCreate_row]
    exact counted.rowQuota

theorem counted_addBalance (redis : env.redis = true) (amount : ℚ) (counted : Counted env quota s)
    (count : dayCount env s.account ≤ dayCount env (addBalance env amount s.account).2) :
    Counted env quota (dayStep env s (.addBalance amount : DayOp quota)) := by
  refine ⟨?_, ?_, counted.counted.trans count, counted.within⟩
  · intro h stored
    simp only [dayStep, addBalance, getOrCreate_fst, syncRedisHash, redis, if_true,
      Option.mem_some_iff] at stored
    exact stored ▸ counted.rowQuota
  · simp only [dayStep, addBalance, getOrCreate_fst]
    exact counted.rowQuota

theorem counted_updateLimits (redis : env.redis = true) (u : LimitUpdate)
    (fixed : ∀ n ∈ u.dailyQuota, n = quota) (counted : Counted env quota s)
    (count : dayCount env s.account ≤ dayCount env (updateLimits env u s.account).2) :
    Counted env quota (dayStep env s (.updateLimits u fixed : DayOp quota)) := by
  have kept : (u.apply (currentRow env.today s.account.row)).dailyQuota = quota := by
    simp only [LimitUpdate.apply]
    cases given : u.dailyQuota with
    | none => exact counted.rowQuota
    | some n => exact fixed n given
  refine ⟨?_, ?_, counted.counted.trans count, counted.within⟩
  · intro h stored
    simp only [dayStep, updateLimits, getOrCreate_fst, syncRedisHash, redis, if_true,
      Option.mem_some_iff] at stored
    exact stored ▸ kept
  · simp only [dayStep, updateLimits, getOrCreate_fst]
    exact kept

theorem counted_step (usable : env.usesScript = true) (op : DayOp quota)
    (counted : Counted env quota s) (current : CopiesCurrentCount env s op) :
    Counted env quota (dayStep env s op) ∧
      dayCount env s.account ≤ dayCount env (dayStep env s op).account := by
  have redis : env.redis = true := (Bool.and_eq_true_iff.mp usable).1
  have count := (dayCount_le_iff usable s op).mpr current
  refine ⟨?_, count⟩
  cases op with
  | precheck estimatedCost => exact counted_precheck usable estimatedCost counted
  | sync =>
    refine ⟨?_, ?_, counted.counted.trans count, counted.within⟩
    · intro h stored
      simp only [dayStep, syncQuotaFromRedisToDb_hash] at stored
      exact counted.hashQuota h stored
    · simp only [dayStep, syncQuotaFromRedisToDb_quota]
      exact counted.rowQuota
  | getOrCreate commit => exact counted_getOrCreate redis commit counted count
  | addBalance amount => exact counted_addBalance redis amount counted count
  | updateLimits u fixed => exact counted_updateLimits redis u fixed counted count
  | expire =>
    refine ⟨fun h stored => ?_, counted.rowQuota, counted.counted.trans count, counted.within⟩
    cases stored

theorem counted_run {t : Day} {ops : List (DayOp quota)} (usable : env.usesScript = true)
    (counted : Counted env quota s)
    (current : Along (total (dayStep env)) (CopiesCurrentCount env) s ops)
    (reached : run (total (dayStep env)) s ops = some t) :
    Counted env quota t ∧ dayCount env s.account ≤ dayCount env t.account := by
  refine run_invariant (P := fun t => Counted env quota t ∧
    dayCount env s.account ≤ dayCount env t.account) ?_ ⟨counted, le_rfl⟩ current reached
  rintro u op v ⟨held, above⟩ ok taken
  cases taken
  have stepped := counted_step usable op held ok
  exact ⟨stepped.1, above.trans stepped.2⟩

end Steps

/-- The day starts with nothing admitted, and both copies carry the quota. -/
structure DayStart (env : Env) (quota : ℕ) (s : Day) : Prop where
  hashQuota : ∀ h ∈ s.account.hash, h.dailyQuota = quota
  rowQuota : (currentRow env.today s.account.row).dailyQuota = quota
  admitted : s.admitted = 0

theorem DayStart.counted {env : Env} {s : Day} (start : DayStart env quota s) :
    Counted env quota s :=
  ⟨start.hashQuota, start.rowQuota, by simp [start.admitted], by simp [start.admitted]⟩

/-- The start of 15 June for a tenant with one request a day whose copies were both
written on `day`. -/
def startOf (day : Date) : Day :=
  let q : TenantQuota := { rowOf day 10 with dailyQuota := 1 }
  ⟨⟨some (quotaPayload day q), some q⟩, 0⟩

end Deeting.Quota
