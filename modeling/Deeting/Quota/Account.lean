import Deeting.Calendar
import Deeting.Decimal

/-! The two copies of one tenant's quota: the `tenant_quota` row and the Redis hash
the Lua scripts work on, with the row-level functions of `QuotaRepository` that
create, reset and copy them. `updated_at`, `is_active` and the generic read cache
are not modeled; the hash omits `rpm_limit` and `tpm_limit`, which nothing reads
from it. A number in the hash is the one its text says. -/
namespace Deeting.Quota

/-- A row of `tenant_quota`, with the column defaults. -/
structure TenantQuota where
  balance : ℚ := 0
  creditLimit : ℚ := 0
  dailyQuota : ℤ := 10000
  dailyUsed : ℕ := 0
  dailyResetAt : Option Date := none
  monthlyQuota : ℤ := 300000
  monthlyUsed : ℕ := 0
  monthlyResetAt : Option Date := none
  rpmLimit : ℤ := 60
  tpmLimit : ℤ := 100000
  tokenQuota : ℤ := 0
  tokenUsed : ℕ := 0
  version : ℕ := 1
  deriving DecidableEq, Repr

/-- The hash `gw:quota:tenant:{tenant_id}`. Every writer sets all of its fields. -/
structure QuotaHash where
  balance : ℚ
  creditLimit : ℚ
  dailyQuota : ℤ
  dailyUsed : ℕ
  dailyDate : Date
  monthlyQuota : ℤ
  monthlyUsed : ℕ
  monthlyMonth : Month
  version : ℕ
  deriving DecidableEq, Repr

structure Account where
  hash : Option QuotaHash
  row : Option TenantQuota
  deriving DecidableEq, Repr

/-- What the repositories find around them: whether `cache._redis` is set, whether
`quota_deduct` is among the loaded scripts, the date, the number that a text says which
Redis writes for a double given to `HSET`, and whether a `DELETE` is carried out, as
`CacheService.delete` swallows its failure. -/
structure Env where
  redis : Bool
  scriptSha : Bool
  today : Date
  stored : ℚ → ℚ
  deletes : Bool

def Env.usesScript (env : Env) : Bool := env.redis && env.scriptSha

def dailyResetDue (today : Date) (q : TenantQuota) : Bool :=
  match q.dailyResetAt with
  | none => true
  | some d => d.Before today

def monthlyResetDue (today : Date) (q : TenantQuota) : Bool :=
  match q.monthlyResetAt with
  | none => true
  | some d => d.Before today.firstOfMonth

/-- `needs_update` of `_maybe_reset_quotas`. -/
def resetDue (today : Date) (q : TenantQuota) : Bool :=
  dailyResetDue today q || monthlyResetDue today q

/-- The row `_maybe_reset_quotas` returns. -/
def maybeResetQuotas (today : Date) (q : TenantQuota) : TenantQuota :=
  { q with
    dailyUsed := if dailyResetDue today q then 0 else q.dailyUsed
    dailyResetAt := if dailyResetDue today q then some today else q.dailyResetAt
    monthlyUsed := if monthlyResetDue today q then 0 else q.monthlyUsed
    monthlyResetAt :=
      if monthlyResetDue today q then some today.firstOfMonth else q.monthlyResetAt }

/-- The hash fields that stand for a row. The three copying functions format the
balance differently and agree on its value. -/
def quotaPayload (today : Date) (q : TenantQuota) : QuotaHash where
  balance := q.balance
  creditLimit := q.creditLimit
  dailyQuota := q.dailyQuota
  dailyUsed := q.dailyUsed
  dailyDate := q.dailyResetAt.getD today
  monthlyQuota := q.monthlyQuota
  monthlyUsed := q.monthlyUsed
  monthlyMonth := (q.monthlyResetAt.map Date.yearMonth).getD today.yearMonth
  version := q.version

/-- `_sync_redis_hash`, of `QuotaRepository` and of `BillingRepository`. -/
def syncRedisHash (env : Env) (q : TenantQuota) (stored : Option QuotaHash) : Option QuotaHash :=
  if env.redis then some (quotaPayload env.today q) else stored

/-- The row `get_or_create` returns: the stored one after its reset, or a new one. -/
def currentRow (today : Date) : Option TenantQuota → TenantQuota
  | some q => maybeResetQuotas today q
  | none => {}

/-- `QuotaRepository.get_or_create`. Only a committed creation or reset is copied
to the hash. -/
def getOrCreate (env : Env) (commit : Bool) (a : Account) : TenantQuota × Account :=
  match a.row with
  | some q =>
      if resetDue env.today q then
        let q := maybeResetQuotas env.today q
        (q, ⟨if commit then syncRedisHash env q a.hash else a.hash, some q⟩)
      else (q, a)
  | none =>
      let q : TenantQuota := {}
      (q, ⟨if commit then syncRedisHash env q a.hash else a.hash, some q⟩)

theorem maybeResetQuotas_of_not_due {today : Date} {q : TenantQuota}
    (current : resetDue today q = false) : maybeResetQuotas today q = q := by
  simp only [resetDue, Bool.or_eq_false_iff] at current
  simp only [maybeResetQuotas, current.1, current.2, Bool.false_eq_true, if_false]

theorem resetDue_maybeResetQuotas (today : Date) (q : TenantQuota) :
    resetDue today (maybeResetQuotas today q) = false := by
  have daily : dailyResetDue today (maybeResetQuotas today q) = false := by
    cases due : dailyResetDue today q with
    | true =>
      have reset : (maybeResetQuotas today q).dailyResetAt = some today := by
        simp [maybeResetQuotas, due]
      simp [dailyResetDue, reset, Date.before_irrefl]
    | false =>
      have kept : (maybeResetQuotas today q).dailyResetAt = q.dailyResetAt := by
        simp [maybeResetQuotas, due]
      simpa only [dailyResetDue, kept] using due
  have monthly : monthlyResetDue today (maybeResetQuotas today q) = false := by
    cases due : monthlyResetDue today q with
    | true =>
      have reset : (maybeResetQuotas today q).monthlyResetAt = some today.firstOfMonth := by
        simp [maybeResetQuotas, due]
      simp [monthlyResetDue, reset, Date.before_irrefl]
    | false =>
      have kept : (maybeResetQuotas today q).monthlyResetAt = q.monthlyResetAt := by
        simp [maybeResetQuotas, due]
      simpa only [monthlyResetDue, kept] using due
  simp only [resetDue, daily, monthly, Bool.or_false]

theorem maybeResetQuotas_idem (today : Date) (q : TenantQuota) :
    maybeResetQuotas today (maybeResetQuotas today q) = maybeResetQuotas today q :=
  maybeResetQuotas_of_not_due (resetDue_maybeResetQuotas today q)

theorem maybeResetQuotas_dailyUsed_le (today : Date) (q : TenantQuota) :
    (maybeResetQuotas today q).dailyUsed ≤ q.dailyUsed := by
  simp only [maybeResetQuotas]
  split <;> omega

section Read
variable (env : Env) (commit : Bool) (a : Account)

@[simp] theorem getOrCreate_fst : (getOrCreate env commit a).1 = currentRow env.today a.row := by
  unfold getOrCreate currentRow
  cases a.row with
  | none => rfl
  | some q =>
    by_cases due : resetDue env.today q
    · simp [due]
    · simp [due, maybeResetQuotas_of_not_due]

@[simp] theorem getOrCreate_row :
    (getOrCreate env commit a).2.row = some (currentRow env.today a.row) := by
  unfold getOrCreate currentRow
  cases stored : a.row with
  | none => rfl
  | some q =>
    by_cases due : resetDue env.today q
    · simp [due]
    · simp [due, stored, maybeResetQuotas_of_not_due]

@[simp] theorem getOrCreate_false_hash : (getOrCreate env false a).2.hash = a.hash := by
  rw [getOrCreate]
  cases a.row with
  | none => rfl
  | some q => by_cases due : resetDue env.today q <;> simp [due]

theorem getOrCreate_of_current {q : TenantQuota} (stored : a.row = some q)
    (current : resetDue env.today q = false) : getOrCreate env commit a = (q, a) := by
  simp only [getOrCreate, stored, current, Bool.false_eq_true, if_false]

end Read

section Frame
variable (today : Date) (q : TenantQuota)

@[simp] theorem maybeResetQuotas_balance : (maybeResetQuotas today q).balance = q.balance := rfl
@[simp] theorem maybeResetQuotas_creditLimit :
    (maybeResetQuotas today q).creditLimit = q.creditLimit := rfl
@[simp] theorem maybeResetQuotas_dailyQuota :
    (maybeResetQuotas today q).dailyQuota = q.dailyQuota := rfl
@[simp] theorem maybeResetQuotas_monthlyQuota :
    (maybeResetQuotas today q).monthlyQuota = q.monthlyQuota := rfl
@[simp] theorem quotaPayload_balance : (quotaPayload today q).balance = q.balance := rfl
@[simp] theorem quotaPayload_dailyQuota : (quotaPayload today q).dailyQuota = q.dailyQuota := rfl
@[simp] theorem quotaPayload_dailyUsed : (quotaPayload today q).dailyUsed = q.dailyUsed := rfl

end Frame

def scriptEnv : Env := ⟨true, true, .june15, id, true⟩

def rowOf (day : Date) (balance : ℚ) : TenantQuota :=
  { balance, dailyResetAt := some day, monthlyResetAt := some day.firstOfMonth }

end Deeting.Quota
