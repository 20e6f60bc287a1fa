import Deeting.Quota.Script

/-! The operations on one tenant's account: those of `QuotaRepository`, the
admission `quota_precheck` of the billing pipeline with its warm-up, and the two
deductions of `BillingRepository`. Each runs to its end without another writer, so
the optimistic lock of `check_and_deduct` never conflicts and the warming lock is
free. -/
namespace Deeting.Quota

structure InsufficientQuotaError where
  quotaType : String
  required : ℚ
  available : ℚ
  deriving DecidableEq, Repr

structure QuotaExceededError where
  quotaType : String
  required : ℚ
  available : ℚ
  deriving DecidableEq, Repr

structure DeductRequest where
  balanceAmount : ℚ := 0
  dailyRequests : ℕ := 0
  monthlyRequests : ℕ := 0
  tokens : ℕ := 0
  allowNegative : Bool := false

/-- The checks of `check_and_deduct`, in its order. -/
def checkQuota (req : DeductRequest) (q : TenantQuota) : Except InsufficientQuotaError Unit :=
  if 0 < req.balanceAmount ∧ req.allowNegative = false ∧
      q.balance + q.creditLimit < req.balanceAmount then
    .error ⟨"balance", req.balanceAmount, q.balance + q.creditLimit⟩
  else if 0 < req.dailyRequests ∧ q.dailyQuota - q.dailyUsed < req.dailyRequests then
    .error ⟨"daily_requests", req.dailyRequests, (q.dailyQuota - q.dailyUsed : ℤ)⟩
  else if 0 < req.monthlyRequests ∧ q.monthlyQuota - q.monthlyUsed < req.monthlyRequests then
    .error ⟨"monthly_requests", req.monthlyRequests, (q.monthlyQuota - q.monthlyUsed : ℤ)⟩
  else if 0 < req.tokens ∧ 0 < q.tokenQuota ∧ q.tokenQuota - q.tokenUsed < req.tokens then
    .error ⟨"tokens", req.tokens, (q.tokenQuota - q.tokenUsed : ℤ)⟩
  else .ok ()

def deductFrom (req : DeductRequest) (q : TenantQuota) : TenantQuota :=
  { q with
    balance := q.balance - req.balanceAmount
    dailyUsed := q.dailyUsed + req.dailyRequests
    monthlyUsed := q.monthlyUsed + req.monthlyRequests
    tokenUsed := q.tokenUsed + req.tokens
    version := q.version + 1 }

def checkAndDeduct (env : Env) (commit syncCache : Bool) (req : DeductRequest) (a : Account) :
    Except InsufficientQuotaError TenantQuota × Account :=
  let (q, a) := getOrCreate env false a
  match checkQuota req q with
  | .error e => (.error e, a)
  | .ok () =>
      let updated := deductFrom req q
      (.ok updated,
        ⟨if commit && syncCache then syncRedisHash env updated a.hash else a.hash, some updated⟩)

/-- The guards of `check_and_deduct`. -/
def RowAccepts (req : DeductRequest) (q : TenantQuota) : Prop :=
  (0 < req.balanceAmount → req.allowNegative = true ∨
      req.balanceAmount ≤ q.balance + q.creditLimit) ∧
    (0 < req.dailyRequests → (q.dailyUsed + req.dailyRequests : ℤ) ≤ q.dailyQuota) ∧
    (0 < req.monthlyRequests → (q.monthlyUsed + req.monthlyRequests : ℤ) ≤ q.monthlyQuota) ∧
    (0 < req.tokens → 0 < q.tokenQuota → (q.tokenUsed + req.tokens : ℤ) ≤ q.tokenQuota)

instance (req : DeductRequest) (q : TenantQuota) : Decidable (RowAccepts req q) :=
  inferInstanceAs (Decidable (_ ∧ _))

theorem checkQuota_eq_ok_iff (req : DeductRequest) (q : TenantQuota) :
    checkQuota req q = .ok () ↔ RowAccepts req q := by
  rw [checkQuota, RowAccepts]
  split
  · rename_i short
    refine iff_of_false (by simp) fun accepts => ?_
    rcases accepts.1 short.1 with free | covered
    · simp [short.2.1] at free
    · linarith [short.2.2]
  rename_i funds
  split
  · rename_i short
    exact iff_of_false (by simp) fun accepts => by have := accepts.2.1 short.1; omega
  rename_i daily
  split
  · rename_i short
    exact iff_of_false (by simp) fun accepts => by have := accepts.2.2.1 short.1; omega
  rename_i monthly
  split
  · rename_i short
    exact iff_of_false (by simp) fun accepts => by
      have := accepts.2.2.2 short.1 short.2.1; omega
  rename_i tokens
  refine iff_of_true rfl ⟨fun positive => ?_, fun _ => ?_, fun _ => ?_, fun _ _ => ?_⟩
  · by_cases free : req.allowNegative = true
    · exact .inl free
    · exact .inr (not_lt.mp fun short => funds ⟨positive, by simpa using free, short⟩)
  all_goals omega

theorem checkAndDeduct_of_accepts {env : Env} {commit syncCache : Bool} {req : DeductRequest}
    {a : Account} (accepts : RowAccepts req (currentRow env.today a.row)) :
    checkAndDeduct env commit syncCache req a =
      (.ok (deductFrom req (currentRow env.today a.row)),
        ⟨if commit && syncCache then
            syncRedisHash env (deductFrom req (currentRow env.today a.row)) a.hash else a.hash,
          some (deductFrom req (currentRow env.today a.row))⟩) := by
  have checked := (checkQuota_eq_ok_iff req (currentRow env.today a.row)).mpr accepts
  simp only [checkAndDeduct, getOrCreate_fst, checked, getOrCreate_false_hash]

theorem checkAndDeduct_of_refuses {env : Env} {commit syncCache : Bool} {req : DeductRequest}
    {a : Account} (refuses : ¬ RowAccepts req (currentRow env.today a.row)) :
    ∃ e, checkAndDeduct env commit syncCache req a =
      (.error e, (getOrCreate env false a).2) := by
  cases checked : checkQuota req (currentRow env.today a.row) with
  | ok => exact absurd ((checkQuota_eq_ok_iff req _).mp checked) refuses
  | error e => exact ⟨e, by simp only [checkAndDeduct, getOrCreate_fst, checked]⟩

def addBalance (env : Env) (amount : ℚ) (a : Account) : TenantQuota × Account :=
  let (q, a) := getOrCreate env true a
  let updated := { q with balance := q.balance + amount, version := q.version + 1 }
  (updated, ⟨syncRedisHash env updated a.hash, some updated⟩)

structure LimitUpdate where
  rpmLimit : Option ℤ := none
  tpmLimit : Option ℤ := none
  dailyQuota : Option ℤ := none
  monthlyQuota : Option ℤ := none
  tokenQuota : Option ℤ := none
  creditLimit : Option ℚ := none

def LimitUpdate.apply (u : LimitUpdate) (q : TenantQuota) : TenantQuota :=
  { q with
    rpmLimit := u.rpmLimit.getD q.rpmLimit
    tpmLimit := u.tpmLimit.getD q.tpmLimit
    dailyQuota := u.dailyQuota.getD q.dailyQuota
    monthlyQuota := u.monthlyQuota.getD q.monthlyQuota
    tokenQuota := u.tokenQuota.getD q.tokenQuota
    creditLimit := u.creditLimit.getD q.creditLimit }

def updateLimits (env : Env) (u : LimitUpdate) (a : Account) : TenantQuota × Account :=
  let (q, a) := getOrCreate env true a
  let updated := u.apply q
  (updated, ⟨syncRedisHash env updated a.hash, some updated⟩)

/-- `_warm_quota_cache` by the holder of the warming lock. -/
def warmQuotaCache (env : Env) (a : Account) : Account :=
  let (q, a) := getOrCreate env true a
  { a with hash := some (quotaPayload env.today q) }

/-- Replies come as bytes (`decode_responses=False`), which equal none of the
error strings they are compared with. -/
def decodeResponses : Bool := false

/-- What `_deduct_quota_redis` raises for a refusal. -/
def scriptError (reply : DeductReply) : InsufficientQuotaError :=
  if decodeResponses then
    match reply with
    | .insufficientBalance balance _ amount => ⟨"balance", balance, amount⟩
    | .dailyQuotaExceeded quota used => ⟨"daily", quota, used⟩
    | .monthlyQuotaExceeded quota used => ⟨"monthly", quota, used⟩
    | _ => ⟨"unknown", 0, 0⟩
  else ⟨"unknown", 0, 0⟩

/-- What `quota_precheck` raises for a refusal. -/
def precheckError (reply : DeductReply) : QuotaExceededError :=
  if decodeResponses then
    match reply with
    | .insufficientBalance balance creditLimit _ => ⟨"balance", balance, creditLimit⟩
    | .dailyQuotaExceeded quota used => ⟨"daily", quota, used⟩
    | .monthlyQuotaExceeded quota used => ⟨"monthly", quota, used⟩
    | _ => ⟨"unknown", 0, 0⟩
  else ⟨"unknown", 0, 0⟩

def deductArgs (today : Date) (amount : ℚ) (dailyRequests monthlyRequests : ℕ)
    (allowNegative : Bool) : DeductArgs :=
  ⟨amount, dailyRequests, monthlyRequests, today, today.yearMonth, allowNegative⟩

def dbRequest (amount : ℚ) (dailyRequests monthlyRequests : ℕ) (allowNegative : Bool) :
    DeductRequest :=
  { balanceAmount := amount, dailyRequests, monthlyRequests, allowNegative }

def deductQuotaDb (env : Env) (amount : ℚ) (dailyRequests monthlyRequests : ℕ)
    (allowNegative : Bool) (a : Account) : Except InsufficientQuotaError TenantQuota × Account :=
  checkAndDeduct env false false (dbRequest amount dailyRequests monthlyRequests allowNegative) a

def warmedForDeduct (env : Env) (a : Account) : Account :=
  match a.hash with
  | some _ => a
  | none =>
      let (q, a) := getOrCreate env false a
      { a with hash := syncRedisHash env q a.hash }

/-- `BillingRepository._deduct_quota_redis`. The row is overwritten with the reply. -/
def deductQuotaRedis (env : Env) (amount : ℚ) (dailyRequests monthlyRequests : ℕ)
    (allowNegative : Bool) (a : Account) : Except InsufficientQuotaError TenantQuota × Account :=
  if env.usesScript = false then
    deductQuotaDb env amount dailyRequests monthlyRequests allowNegative a
  else
    let a := warmedForDeduct env a
    let args := deductArgs env.today amount dailyRequests monthlyRequests allowNegative
    match quotaDeduct env.stored args a.hash with
    | (.ok newBalance newDailyUsed newMonthlyUsed version, hash) =>
        let (q, a) := getOrCreate env false { a with hash }
        let updated :=
          { q with
            balance := newBalance, dailyUsed := newDailyUsed, monthlyUsed := newMonthlyUsed,
            version }
        (.ok updated, { a with row := some updated })
    | (refused, hash) => (.error (scriptError refused), { a with hash })

def foundHash (env : Env) (a : Account) : QuotaHash :=
  a.hash.getD (quotaPayload env.today (currentRow env.today a.row))

section Script
variable {env : Env} {amount : ℚ} {dailyRequests monthlyRequests : ℕ} {allowNegative : Bool}
  {a : Account}

theorem warmedForDeduct_hash (usable : env.usesScript = true) (a : Account) :
    (warmedForDeduct env a).hash = some (foundHash env a) := by
  have redis : env.redis = true := (Bool.and_eq_true_iff.mp usable).1
  cases stored : a.hash with
  | none => simp [warmedForDeduct, foundHash, stored, syncRedisHash, redis]
  | some h => simp [warmedForDeduct, foundHash, stored]

theorem deductQuotaRedis_of_accepts (usable : env.usesScript = true)
    (accepts : ScriptAccepts
      (deductArgs env.today amount dailyRequests monthlyRequests allowNegative) (foundHash env a)) :
    let charged := charge env.stored
      (deductArgs env.today amount dailyRequests monthlyRequests allowNegative) (foundHash env a)
    let updated : TenantQuota :=
      { currentRow env.today (warmedForDeduct env a).row with
        balance := Decimal.truncate (luaSub (foundHash env a).balance amount)
        dailyUsed := charged.dailyUsed, monthlyUsed := charged.monthlyUsed
        version := charged.version }
    deductQuotaRedis env amount dailyRequests monthlyRequests allowNegative a =
      (.ok updated, ⟨some charged, some updated⟩) := by
  simp only [deductQuotaRedis, usable, warmedForDeduct_hash usable, quotaDeduct_of_accepts accepts,
    getOrCreate_fst, getOrCreate_false_hash, Bool.true_eq_false, if_false]
  rfl

theorem deductQuotaRedis_of_refuses (usable : env.usesScript = true)
    (refuses : ¬ ScriptAccepts
      (deductArgs env.today amount dailyRequests monthlyRequests allowNegative) (foundHash env a)) :
    ∃ e, deductQuotaRedis env amount dailyRequests monthlyRequests allowNegative a =
      (.error e, warmedForDeduct env a) := by
  obtain ⟨reply, kept⟩ := @quotaDeduct_of_refuses env.stored _ _ refuses
  have present := warmedForDeduct_hash usable a
  cases answered : quotaDeduct env.stored
      (deductArgs env.today amount dailyRequests monthlyRequests allowNegative)
      (some (foundHash env a)) with
  | mk verdict hash =>
    rw [answered] at reply kept
    refine ⟨scriptError verdict, ?_⟩
    have same : ({ warmedForDeduct env a with hash } : Account) = warmedForDeduct env a := by
      rw [show hash = some (foundHash env a) from kept, ← present]
    cases verdict with
    | ok => simp [DeductReply.accepted] at reply
    | _ =>
      simp only [deductQuotaRedis, usable, present, answered, same, Bool.true_eq_false, if_false]

end Script

structure QuotaInfo where
  balance : ℚ
  creditLimit : Option ℚ
  dailyRemaining : Option ℤ
  monthlyRemaining : Option ℤ
  dailyUsed : ℕ
  monthlyUsed : ℕ
  version : ℕ
  deriving DecidableEq, Repr

/-- `_deduct_quota_db` of the billing pipeline. -/
def precheckDb (env : Env) (estimatedCost : ℚ) (a : Account) :
    Except QuotaExceededError QuotaInfo × Account :=
  match checkAndDeduct env false false
      { balanceAmount := estimatedCost, dailyRequests := 1, monthlyRequests := 1 } a with
  | (.ok q, a) =>
      (.ok ⟨q.balance, some q.creditLimit, some (q.dailyQuota - q.dailyUsed),
        some (q.monthlyQuota - q.monthlyUsed), q.dailyUsed, q.monthlyUsed, q.version⟩, a)
  | (.error e, a) => (.error ⟨e.quotaType, e.required, e.available⟩, a)

/-- The account after the `EXISTS` check: an absent hash is warmed. -/
def warmed (env : Env) (a : Account) : Account :=
  if a.hash.isNone then warmQuotaCache env a else a

def quotaPrecheck (env : Env) (estimatedCost : ℚ) (a : Account) :
    Except QuotaExceededError QuotaInfo × Account :=
  if env.usesScript = false then precheckDb env estimatedCost a
  else
    let a := warmed env a
    match quotaDeduct env.stored (deductArgs env.today estimatedCost 1 1 false) a.hash with
    | (.ok newBalance newDailyUsed newMonthlyUsed version, hash) =>
        (.ok ⟨newBalance, none, none, none, newDailyUsed, newMonthlyUsed, version⟩, { a with hash })
    | (refused, hash) => (.error (precheckError refused), { a with hash })

section Admission
variable {env : Env} {estimatedCost : ℚ} {a : Account}

theorem warmed_hash (env : Env) (a : Account) : (warmed env a).hash = some (foundHash env a) := by
  cases stored : a.hash with
  | none => simp [warmed, foundHash, stored, warmQuotaCache]
  | some h => simp [warmed, foundHash, stored]

theorem warmed_row_of_stored {h : QuotaHash} (stored : a.hash = some h) : warmed env a = a := by
  simp [warmed, stored]

theorem quotaPrecheck_cases (usable : env.usesScript = true) (estimatedCost : ℚ) (a : Account) :
    let args := deductArgs env.today estimatedCost 1 1 false
    (ScriptAccepts args (foundHash env a) ∧ (quotaPrecheck env estimatedCost a).1.isOk = true ∧
      (quotaPrecheck env estimatedCost a).2 =
        ⟨some (charge env.stored args (foundHash env a)), (warmed env a).row⟩) ∨
    (¬ ScriptAccepts args (foundHash env a) ∧ (quotaPrecheck env estimatedCost a).1.isOk = false ∧
      (quotaPrecheck env estimatedCost a).2 = ⟨some (foundHash env a), (warmed env a).row⟩) := by
  intro args
  have present := warmed_hash env a
  by_cases accepts : ScriptAccepts args (foundHash env a)
  · refine .inl ⟨accepts, ?_⟩
    simp only [quotaPrecheck, usable, present, Bool.true_eq_false, if_false,
      show deductArgs env.today estimatedCost 1 1 false = args from rfl, quotaDeduct_of_accepts accepts]
    exact ⟨rfl, trivial⟩
  · refine .inr ⟨accepts, ?_⟩
    obtain ⟨reply, kept⟩ := @quotaDeduct_of_refuses env.stored _ _ accepts
    cases answered : quotaDeduct env.stored args (some (foundHash env a)) with
    | mk verdict hash =>
      rw [answered] at reply kept
      have kept : hash = some (foundHash env a) := kept
      simp only [quotaPrecheck, usable, present, Bool.true_eq_false, if_false,
        show deductArgs env.today estimatedCost 1 1 false = args from rfl, answered, kept]
      cases verdict with
      | ok => simp [DeductReply.accepted] at reply
      | _ => exact ⟨rfl, rfl⟩

end Admission

def adjustRedisBalance (env : Env) (amountDiff : ℚ) (a : Account) : Account :=
  if |amountDiff| < 1 / 1000000 then a
  else if env.redis = false then a
  else { a with hash := (adjustScript amountDiff a.hash).2 }

inductive SyncStatus where
  | skipped
  | synced
  | failed
  deriving DecidableEq, Repr

/-- `_sync_quota_row` with the values read from the hash, the balance as the column keeps it.
Neither the reset dates nor the limits are copied. -/
def syncQuotaRow (h : QuotaHash) (q : TenantQuota) : SyncStatus × TenantQuota :=
  if |h.balance - q.balance| < 1 / 1000000 ∧ h.dailyUsed = q.dailyUsed ∧
      h.monthlyUsed = q.monthlyUsed then (.skipped, q)
  else
    (.synced, { q with
      balance := Decimal.numeric6 h.balance, dailyUsed := h.dailyUsed, monthlyUsed := h.monthlyUsed,
      version := h.version })

def syncQuotaFromRedisToDb (env : Env) (a : Account) : SyncStatus × Account :=
  if env.redis = false then (.skipped, a)
  else
    match a.hash, a.row with
    | none, _ => (.skipped, a)
    | some _, none => (.failed, a)
    | some h, some q => ((syncQuotaRow h q).1, { a with row := some (syncQuotaRow h q).2 })

end Deeting.Quota
