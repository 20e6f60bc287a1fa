import Deeting.Quota.Account

/-! The two Lua scripts that change the quota hash: `quota_deduct.lua` and the
adjustment script of `BillingRepository.adjust_redis_balance`. A script runs
atomically, and computes in doubles. In a reply Redis keeps only the integer part of a Lua
number; a number given to `HSET` is stored in full, `tostring` keeps 14 digits of it. -/
namespace Deeting.Quota
open Decimal

def luaAdd (a b : ℚ) : ℚ := double (double a + double b)

def luaSub (a b : ℚ) : ℚ := double (double a - double b)

def tostring (q : ℚ) : ℚ := significant 10 14 q

def Env.less (env : Env) (balance amount : ℚ) : ℚ := env.stored (luaSub balance amount)

def adjusted (balance amountDiff : ℚ) : ℚ := tostring (luaSub balance amountDiff)

structure DeductArgs where
  amount : ℚ
  dailyRequests : ℕ
  monthlyRequests : ℕ
  today : Date
  month : Month
  allowNegative : Bool

inductive DeductReply where
  | quotaNotFound
  | insufficientBalance (balance creditLimit amount : ℤ)
  | dailyQuotaExceeded (dailyQuota : ℤ) (dailyUsed : ℕ)
  | monthlyQuotaExceeded (monthlyQuota : ℤ) (monthlyUsed : ℕ)
  | ok (newBalance : ℤ) (newDailyUsed newMonthlyUsed version : ℕ)
  deriving DecidableEq, Repr

def DeductReply.accepted : DeductReply → Bool
  | .ok .. => true
  | _ => false

def QuotaHash.dailyUsedOn (h : QuotaHash) (today : Date) : ℕ :=
  if h.dailyDate ≠ today then 0 else h.dailyUsed

def QuotaHash.monthlyUsedIn (h : QuotaHash) (month : Month) : ℕ :=
  if h.monthlyMonth ≠ month then 0 else h.monthlyUsed

def charge (stored : ℚ → ℚ) (args : DeductArgs) (h : QuotaHash) : QuotaHash :=
  { h with
    balance := stored (luaSub h.balance args.amount)
    dailyUsed := h.dailyUsedOn args.today + args.dailyRequests
    dailyDate := args.today
    monthlyUsed := h.monthlyUsedIn args.month + args.monthlyRequests
    monthlyMonth := args.month
    version := h.version + 1 }

/-- `quota_deduct.lua`. -/
def quotaDeduct (stored : ℚ → ℚ) (args : DeductArgs) :
    Option QuotaHash → DeductReply × Option QuotaHash
  | none => (.quotaNotFound, none)
  | some h =>
      if !args.allowNegative ∧ luaAdd h.balance h.creditLimit < double args.amount then
        (.insufficientBalance (truncate (double h.balance)) (truncate (double h.creditLimit))
          (truncate (double args.amount)), some h)
      else if h.dailyQuota < (h.dailyUsedOn args.today + args.dailyRequests : ℕ) then
        (.dailyQuotaExceeded h.dailyQuota (h.dailyUsedOn args.today), some h)
      else if h.monthlyQuota < (h.monthlyUsedIn args.month + args.monthlyRequests : ℕ) then
        (.monthlyQuotaExceeded h.monthlyQuota (h.monthlyUsedIn args.month), some h)
      else
        let charged := charge stored args h
        (.ok (truncate (luaSub h.balance args.amount)) charged.dailyUsed charged.monthlyUsed
          charged.version, some charged)

/-- The three guards of the script on a hash that exists. -/
def ScriptAccepts (args : DeductArgs) (h : QuotaHash) : Prop :=
  (args.allowNegative = true ∨ double args.amount ≤ luaAdd h.balance h.creditLimit) ∧
    ((h.dailyUsedOn args.today + args.dailyRequests : ℕ) : ℤ) ≤ h.dailyQuota ∧
    ((h.monthlyUsedIn args.month + args.monthlyRequests : ℕ) : ℤ) ≤ h.monthlyQuota

instance (args : DeductArgs) (h : QuotaHash) : Decidable (ScriptAccepts args h) :=
  inferInstanceAs (Decidable (_ ∧ _))

section Script

variable {stored : ℚ → ℚ} {args : DeductArgs} {h : QuotaHash}

theorem quotaDeduct_of_accepts (accepts : ScriptAccepts args h) :
    quotaDeduct stored args (some h) =
      (.ok (truncate (luaSub h.balance args.amount)) (charge stored args h).dailyUsed
        (charge stored args h).monthlyUsed (charge stored args h).version,
        some (charge stored args h)) := by
  obtain ⟨funds, daily, monthly⟩ := accepts
  have enough : ¬ ((!args.allowNegative) = true ∧
      luaAdd h.balance h.creditLimit < double args.amount) := by
    rintro ⟨strict, short⟩
    rcases funds with free | covered
    · simp [free] at strict
    · exact absurd covered (not_le.mpr short)
  simp only [quotaDeduct]
  rw [if_neg enough, if_neg (not_lt.mpr daily), if_neg (not_lt.mpr monthly)]

theorem quotaDeduct_of_refuses (refuses : ¬ ScriptAccepts args h) :
    (quotaDeduct stored args (some h)).1.accepted = false ∧
      (quotaDeduct stored args (some h)).2 = some h := by
  simp only [quotaDeduct]
  split
  · exact ⟨rfl, rfl⟩
  split
  · exact ⟨rfl, rfl⟩
  split
  · exact ⟨rfl, rfl⟩
  rename_i enough daily monthly
  refine absurd ⟨?_, not_lt.mp daily, not_lt.mp monthly⟩ refuses
  by_cases free : args.allowNegative = true
  · exact .inl free
  · exact .inr (not_lt.mp fun short => enough ⟨by simpa using free, short⟩)

theorem quotaDeduct_cases (stored : ℚ → ℚ) (args : DeductArgs) (found : Option QuotaHash) :
    (∃ h, found = some h ∧ ScriptAccepts args h ∧
      (quotaDeduct stored args found).1.accepted = true ∧
      (quotaDeduct stored args found).2 = some (charge stored args h)) ∨
    ((quotaDeduct stored args found).1.accepted = false ∧
      (quotaDeduct stored args found).2 = found) := by
  cases found with
  | none => exact .inr ⟨rfl, rfl⟩
  | some h =>
    by_cases accepts : ScriptAccepts args h
    · refine .inl ⟨h, rfl, accepts, ?_, ?_⟩ <;> rw [quotaDeduct_of_accepts accepts]
      rfl
    · exact .inr (quotaDeduct_of_refuses accepts)

@[simp] theorem dailyUsedOn_charge (stored : ℚ → ℚ) (args : DeductArgs) (h : QuotaHash) :
    (charge stored args h).dailyUsedOn args.today = h.dailyUsedOn args.today + args.dailyRequests := by
  simp [charge, QuotaHash.dailyUsedOn]

end Script

/-- The script inside `adjust_redis_balance`, with its result code. -/
def adjustScript (amountDiff : ℚ) : Option QuotaHash → Bool × Option QuotaHash
  | none => (false, none)
  | some h =>
      (true, some { h with
        balance := adjusted h.balance amountDiff, version := h.version + 1 })

end Deeting.Quota
