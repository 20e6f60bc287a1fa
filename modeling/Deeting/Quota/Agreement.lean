import Deeting.Quota.Operations

/-! The two implementations of the deduction, `_deduct_quota_redis` with its script
and `_deduct_quota_db`, on a row whose hash is a faithful copy. They differ in three
guards (a zero amount, a zero increment, a row that was never reset) and in the
balance, which the script computes in doubles and the Redis path reads back from an integer
reply. -/
namespace Deeting.Quota

def PastDates (today : Date) (q : TenantQuota) : Prop :=
  (∀ d ∈ q.dailyResetAt, ¬ today.Before d) ∧ ∀ d ∈ q.monthlyResetAt, ¬ today.Before d

instance (today : Date) (q : TenantQuota) : Decidable (PastDates today q) :=
  inferInstanceAs (Decidable (_ ∧ _))

def faithfulCopy (today : Date) (q : TenantQuota) : Account := ⟨some (quotaPayload today q), some q⟩

/-- One verdict, and on acceptance one balance and one pair of counts in both rows
and in the hash. -/
def DeductionsAgree (env : Env) (amount : ℚ) (dailyRequests monthlyRequests : ℕ)
    (allowNegative : Bool) (q : TenantQuota) : Prop :=
  let a := faithfulCopy env.today q
  let redis := deductQuotaRedis env amount dailyRequests monthlyRequests allowNegative a
  let db := deductQuotaDb env amount dailyRequests monthlyRequests allowNegative a
  (redis.1.isOk = true ↔ db.1.isOk = true) ∧
    (db.1.isOk = true → ∃ viaRedis viaDb hash,
      redis.2.row = some viaRedis ∧ db.2.row = some viaDb ∧ redis.2.hash = some hash ∧
      viaRedis.balance = viaDb.balance ∧ viaRedis.dailyUsed = viaDb.dailyUsed ∧
      viaRedis.monthlyUsed = viaDb.monthlyUsed ∧ hash.balance = viaDb.balance ∧
      hash.dailyUsed = viaDb.dailyUsed ∧ hash.monthlyUsed = viaDb.monthlyUsed)

/-- What a request that passes the database guards needs for the script to do the same: reply and
hash can say the balance that is left, and its guards pass. -/
structure Transferable (env : Env) (amount : ℚ) (dailyRequests monthlyRequests : ℕ)
    (allowNegative : Bool) (q : TenantQuota) : Prop where
  replied : (Decimal.truncate (luaSub q.balance amount) : ℚ) = q.balance - amount
  kept : env.stored (luaSub q.balance amount) = q.balance - amount
  covered : allowNegative = true ∨ Decimal.double amount ≤ luaAdd q.balance q.creditLimit
  daily : dailyRequests = 0 → ((maybeResetQuotas env.today q).dailyUsed : ℤ) ≤ q.dailyQuota
  monthly : monthlyRequests = 0 → ((maybeResetQuotas env.today q).monthlyUsed : ℤ) ≤ q.monthlyQuota
  dailyDated : q.dailyResetAt = none → q.dailyUsed = 0
  monthlyDated : q.monthlyResetAt = none → q.monthlyUsed = 0

section Counts
variable {today : Date} {q : TenantQuota}

/-- The script's inequality of dates and the database's order agree on past dates;
a missing date counts as today for the one and as the past for the other. -/
theorem dailyUsedOn_quotaPayload (past : PastDates today q) :
    (quotaPayload today q).dailyUsedOn today =
      if q.dailyResetAt = none then q.dailyUsed else (maybeResetQuotas today q).dailyUsed := by
  cases dated : q.dailyResetAt with
  | none => simp [QuotaHash.dailyUsedOn, quotaPayload, dated]
  | some d =>
    have order := Date.before_iff_ne (past.1 d (by simp [dated]))
    simp [QuotaHash.dailyUsedOn, quotaPayload, maybeResetQuotas, dailyResetDue, dated, order]

theorem monthlyUsedIn_quotaPayload (past : PastDates today q) :
    (quotaPayload today q).monthlyUsedIn today.yearMonth =
      if q.monthlyResetAt = none then q.monthlyUsed
      else (maybeResetQuotas today q).monthlyUsed := by
  cases dated : q.monthlyResetAt with
  | none => simp [QuotaHash.monthlyUsedIn, quotaPayload, dated]
  | some d =>
    have order := Date.before_firstOfMonth_iff (past.2 d (by simp [dated]))
    simp [QuotaHash.monthlyUsedIn, quotaPayload, maybeResetQuotas, monthlyResetDue, dated, order]

theorem dailyUsedOn_eq_iff (past : PastDates today q) :
    (quotaPayload today q).dailyUsedOn today = (maybeResetQuotas today q).dailyUsed ↔
      (q.dailyResetAt = none → q.dailyUsed = 0) := by
  rw [dailyUsedOn_quotaPayload past]
  by_cases dated : q.dailyResetAt = none
  · simp [dated, maybeResetQuotas, dailyResetDue]
  · simp [dated]

theorem monthlyUsedIn_eq_iff (past : PastDates today q) :
    (quotaPayload today q).monthlyUsedIn today.yearMonth = (maybeResetQuotas today q).monthlyUsed ↔
      (q.monthlyResetAt = none → q.monthlyUsed = 0) := by
  rw [monthlyUsedIn_quotaPayload past]
  by_cases dated : q.monthlyResetAt = none
  · simp [dated, maybeResetQuotas, monthlyResetDue]
  · simp [dated]

end Counts

section Agreement
variable {env : Env} {amount : ℚ} {dailyRequests monthlyRequests : ℕ} {allowNegative : Bool}
  {q : TenantQuota}

theorem scriptAccepts_of_rowAccepts (past : PastDates env.today q)
    (transfers : Transferable env amount dailyRequests monthlyRequests allowNegative q)
    (accepts : RowAccepts (dbRequest amount dailyRequests monthlyRequests allowNegative)
      (maybeResetQuotas env.today q)) :
    ScriptAccepts (deductArgs env.today amount dailyRequests monthlyRequests allowNegative)
      (quotaPayload env.today q) := by
  obtain ⟨_, daily, monthly, _⟩ := accepts
  have dailyCount := (dailyUsedOn_eq_iff past).mpr transfers.dailyDated
  have monthlyCount := (monthlyUsedIn_eq_iff past).mpr transfers.monthlyDated
  simp only [dbRequest, maybeResetQuotas_dailyQuota, maybeResetQuotas_monthlyQuota] at daily monthly
  simp only [ScriptAccepts, deductArgs]
  rw [dailyCount, monthlyCount]
  refine ⟨transfers.covered, ?_, ?_⟩
  · have quota : (quotaPayload env.today q).dailyQuota = q.dailyQuota := rfl
    rw [quota]
    rcases Nat.eq_zero_or_pos dailyRequests with zero | positive
    · simpa [zero] using transfers.daily zero
    · exact_mod_cast daily positive
  · have quota : (quotaPayload env.today q).monthlyQuota = q.monthlyQuota := rfl
    rw [quota]
    rcases Nat.eq_zero_or_pos monthlyRequests with zero | positive
    · simpa [zero] using transfers.monthly zero
    · exact_mod_cast monthly positive

theorem transferable_of_accepts (past : PastDates env.today q)
    (accepts : ScriptAccepts (deductArgs env.today amount dailyRequests monthlyRequests allowNegative)
      (quotaPayload env.today q))
    (replied : (Decimal.truncate (luaSub q.balance amount) : ℚ) = q.balance - amount)
    (kept : env.stored (luaSub q.balance amount) = q.balance - amount)
    (daily : (quotaPayload env.today q).dailyUsedOn env.today =
      (maybeResetQuotas env.today q).dailyUsed)
    (monthly : (quotaPayload env.today q).monthlyUsedIn env.today.yearMonth =
      (maybeResetQuotas env.today q).monthlyUsed) :
    Transferable env amount dailyRequests monthlyRequests allowNegative q := by
  obtain ⟨funds, dailyGuard, monthlyGuard⟩ := accepts
  simp only [deductArgs] at funds dailyGuard monthlyGuard
  rw [daily] at dailyGuard
  rw [monthly] at monthlyGuard
  refine ⟨replied, kept, funds, fun zero => ?_, fun zero => ?_,
    (dailyUsedOn_eq_iff past).mp daily, (monthlyUsedIn_eq_iff past).mp monthly⟩
  · simpa [zero, quotaPayload] using dailyGuard
  · simpa [zero, quotaPayload] using monthlyGuard

/-- The two deductions agree exactly when the script accepts only what the database does, and what
the database accepts is `Transferable`. -/
theorem deductions_agree_iff (usable : env.usesScript = true) (past : PastDates env.today q) :
    DeductionsAgree env amount dailyRequests monthlyRequests allowNegative q ↔
      (ScriptAccepts (deductArgs env.today amount dailyRequests monthlyRequests allowNegative)
          (quotaPayload env.today q) →
        RowAccepts (dbRequest amount dailyRequests monthlyRequests allowNegative)
          (maybeResetQuotas env.today q)) ∧
      (RowAccepts (dbRequest amount dailyRequests monthlyRequests allowNegative)
          (maybeResetQuotas env.today q) →
        Transferable env amount dailyRequests monthlyRequests allowNegative q) := by
  have found : foundHash env (faithfulCopy env.today q) = quotaPayload env.today q := rfl
  by_cases script : ScriptAccepts
      (deductArgs env.today amount dailyRequests monthlyRequests allowNegative)
      (quotaPayload env.today q)
  · have redis := deductQuotaRedis_of_accepts (a := faithfulCopy env.today q) usable script
    by_cases row : RowAccepts (dbRequest amount dailyRequests monthlyRequests allowNegative)
        (maybeResetQuotas env.today q)
    · have db : deductQuotaDb env amount dailyRequests monthlyRequests allowNegative
          (faithfulCopy env.today q) = _ := checkAndDeduct_of_accepts row
      simp only [DeductionsAgree, redis, db, found]
      constructor
      · rintro ⟨_, agree⟩
        obtain ⟨_, _, _, viaRedis, viaDb, hash, balance, daily, monthly, kept, _⟩ := agree rfl
        cases viaRedis
        cases viaDb
        cases hash
        refine ⟨fun _ => row, fun _ => transferable_of_accepts past script balance kept ?_ ?_⟩
        · exact Nat.add_right_cancel daily
        · exact Nat.add_right_cancel monthly
      · rintro ⟨_, transfers⟩
        have transfers := transfers row
        have daily := (dailyUsedOn_eq_iff past).mpr transfers.dailyDated
        have monthly := (monthlyUsedIn_eq_iff past).mpr transfers.monthlyDated
        refine ⟨Iff.rfl, fun _ =>
          ⟨_, _, _, rfl, rfl, rfl, transfers.replied, ?_, ?_, transfers.kept, ?_, ?_⟩⟩
        all_goals
          simp only [charge, deductArgs, deductFrom, dbRequest, faithfulCopy, currentRow, daily,
            monthly]
    · obtain ⟨e', db⟩ : ∃ e', deductQuotaDb env amount dailyRequests monthlyRequests allowNegative
          (faithfulCopy env.today q) = (.error e', _) := checkAndDeduct_of_refuses row
      refine iff_of_false (fun agree => ?_) fun meets => row (meets.1 script)
      have verdict := agree.1
      simp [redis, db, Except.isOk, Except.toBool] at verdict
  · obtain ⟨e, redis⟩ :=
      deductQuotaRedis_of_refuses (a := faithfulCopy env.today q) usable script
    by_cases row : RowAccepts (dbRequest amount dailyRequests monthlyRequests allowNegative)
        (maybeResetQuotas env.today q)
    · have db : deductQuotaDb env amount dailyRequests monthlyRequests allowNegative
          (faithfulCopy env.today q) = _ := checkAndDeduct_of_accepts row
      refine iff_of_false (fun agree => ?_) fun meets =>
        script (scriptAccepts_of_rowAccepts past (meets.2 row) row)
      have verdict := agree.1
      simp [redis, db, Except.isOk, Except.toBool] at verdict
    · obtain ⟨e', db⟩ : ∃ e', deductQuotaDb env amount dailyRequests monthlyRequests allowNegative
          (faithfulCopy env.today q) = (.error e', _) := checkAndDeduct_of_refuses row
      refine iff_of_true ?_ ⟨fun accepts => absurd accepts script, fun accepts => absurd accepts row⟩
      simp [DeductionsAgree, redis, db, Except.isOk, Except.toBool]

end Agreement

theorem deductions_agree_on_whole_balance : DeductionsAgree scriptEnv 3 1 1 false (rowOf .june15 10) :=
  (deductions_agree_iff rfl (by decide)).mpr ⟨fun _ => by decide +kernel, fun _ =>
    ⟨by decide +kernel, by decide +kernel, by decide +kernel, nofun, nofun, nofun, nofun⟩⟩

/-- From 10.5 credits the script takes 0.25 and replies 10: the row keeps 10, the
database path 10.25. -/
theorem fractional_balance_disagrees :
    PastDates scriptEnv.today (rowOf .june15 (21 / 2)) ∧
      ¬ DeductionsAgree scriptEnv (1 / 4) 1 1 false (rowOf .june15 (21 / 2)) := by
  refine ⟨by decide, ?_⟩
  intro agree
  have redis : (deductQuotaRedis scriptEnv (1 / 4) 1 1 false
      (faithfulCopy scriptEnv.today (rowOf .june15 (21 / 2)))).2.row.map TenantQuota.balance =
        some 10 := by decide +kernel
  have db : (deductQuotaDb scriptEnv (1 / 4) 1 1 false
      (faithfulCopy scriptEnv.today (rowOf .june15 (21 / 2)))).2.row.map TenantQuota.balance =
        some (41 / 4) := by decide +kernel
  obtain ⟨viaRedis, viaDb, _, storedRedis, storedDb, _, balance, _⟩ := agree.2 (by decide +kernel)
  rw [storedRedis] at redis
  rw [storedDb] at db
  rw [Option.some.inj redis, Option.some.inj db] at balance
  norm_num at balance

end Deeting.Quota
