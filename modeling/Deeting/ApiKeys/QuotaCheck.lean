import Deeting.ApiKeys.Budget

/-! `apikey_quota_check.lua`: one loop over the quota types of an API key that resets, checks
and counts. Numbers are exact, and an integer of a field has 64 bits. -/
namespace Deeting.ApiKeys.QuotaCheck
open Decimal

inductive QuotaType where
  | request
  | token
  | cost
  deriving DecidableEq, Repr

inductive ResetPeriod where
  | daily
  | monthly
  | never
  deriving DecidableEq, Repr

/-- The fields `T:limit`, `T:used`, `T:period` and `T:date` of one type. -/
structure Quota where
  limit : Option ℚ := none
  used : Option ℚ := none
  period : Option ResetPeriod := none
  date : Option String := none
  deriving DecidableEq

abbrev QuotaHash := QuotaType → Quota

structure CheckArgs where
  increment : ℤ
  today : String
  month : String

/-- What the script returns; `scriptError` is a command of it that fails. -/
inductive CheckReply where
  | ok
  | quotaExceeded (type : QuotaType) (limit used : ℤ)
  | scriptError
  deriving DecidableEq, Repr

def newDate (args : CheckArgs) (q : Quota) : Option String :=
  match q.period.getD .never with
  | .daily => some args.today
  | .monthly => some args.month
  | .never => q.date

def needReset (args : CheckArgs) (q : Quota) : Bool :=
  q.date ≠ newDate args q

def Quota.reset (args : CheckArgs) (q : Quota) : Quota :=
  if needReset args q then { q with used := some 0, date := newDate args q } else q

/-- The used value, which is zero once the period has changed. -/
def usedNow (args : CheckArgs) (q : Quota) : ℚ :=
  if needReset args q then 0 else q.used.getD 0

def CheckArgs.incrementOf (args : CheckArgs) : QuotaType → ℤ
  | .request => args.increment
  | .token | .cost => 0

/-- `HINCRBY` on a field, which has to hold an integer. -/
def hincrbyField (used : ℚ) (increment : ℤ) : Option ℚ :=
  if used.den = 1 then (hincrby used.num increment).map Int.cast else none

/-- One turn of the loop; `none` goes on to the next type. -/
def checkType (args : CheckArgs) (h : QuotaHash) (t : QuotaType) : Option CheckReply × QuotaHash :=
  match (h t).limit with
  | none => (none, h)
  | some limit =>
    let used := usedNow args (h t)
    let h := Function.update h t ((h t).reset args)
    if 0 < limit ∧ limit < used + args.incrementOf t then
      (some (.quotaExceeded t (truncate limit) (truncate used)), h)
    else if 0 < args.incrementOf t then
      match hincrbyField used (args.incrementOf t) with
      | none => (some .scriptError, h)
      | some n => (none, Function.update h t { h t with used := some n })
    else (none, h)

def checkTypes (args : CheckArgs) : List QuotaType → QuotaHash → CheckReply × QuotaHash
  | [], h => (.ok, h)
  | t :: types, h =>
    match checkType args h t with
    | (some reply, h) => (reply, h)
    | (none, h) => checkTypes args types h

instance (h : QuotaHash) : Decidable (∀ t, h t = {}) :=
  decidable_of_iff (h .request = {} ∧ h .token = {} ∧ h .cost = {})
    ⟨fun ⟨request, token, cost⟩ t => by cases t <;> assumption, fun all => ⟨all _, all _, all _⟩⟩

def apikeyQuotaCheck (args : CheckArgs) (h : QuotaHash) : CheckReply × QuotaHash :=
  if ∀ t, h t = {} then (.ok, h) else checkTypes args [.request, .token, .cost] h

/-- A configured quota with a positive limit has room for its increment. -/
def Within (args : CheckArgs) (h : QuotaHash) (t : QuotaType) : Prop :=
  ∀ limit ∈ (h t).limit, 0 < limit → usedNow args (h t) + args.incrementOf t ≤ limit

def growth (args : CheckArgs) (h : QuotaHash) (t : QuotaType) : ℚ :=
  if (h t).limit.isSome then max 0 (args.incrementOf t : ℚ) else 0

structure AllOrNothing (args : CheckArgs) (h : QuotaHash) : Prop where
  accepts_iff : (apikeyQuotaCheck args h).1 = .ok ↔ ∀ t, Within args h t
  accepted : (apikeyQuotaCheck args h).1 = .ok →
    ∀ t, usedNow args ((apikeyQuotaCheck args h).2 t) = usedNow args (h t) + growth args h t
  refused : ∀ type limit used, (apikeyQuotaCheck args h).1 = .quotaExceeded type limit used →
    ∀ t, usedNow args ((apikeyQuotaCheck args h).2 t) ≤ usedNow args (h t)

section Turns
variable {args : CheckArgs} {h h' : QuotaHash} {t : QuotaType}

@[simp] theorem needReset_reset (q : Quota) : needReset args (q.reset args) = false := by
  unfold Quota.reset
  split
  · simp only [needReset, ne_eq, decide_eq_false_iff_not, not_not]
    cases period : q.period.getD .never <;> simp [newDate, period]
  · rename_i current
    simpa using current

@[simp] theorem limit_reset (q : Quota) : (q.reset args).limit = q.limit := by
  unfold Quota.reset
  split <;> rfl

@[simp] theorem usedNow_reset (q : Quota) : usedNow args (q.reset args) = usedNow args q := by
  rw [usedNow, needReset_reset]
  by_cases stale : needReset args q <;> simp [Quota.reset, usedNow, stale]

structure Current (args : CheckArgs) (h h' : QuotaHash) : Prop where
  limit : ∀ t, (h' t).limit = (h t).limit
  used : ∀ t, usedNow args (h' t) = usedNow args (h t)

theorem Current.refl (args : CheckArgs) (h : QuotaHash) : Current args h h :=
  ⟨fun _ => rfl, fun _ => rfl⟩

theorem Current.trans {h₁ h₂ h₃ : QuotaHash} (first : Current args h₁ h₂)
    (second : Current args h₂ h₃) : Current args h₁ h₃ :=
  ⟨fun t => (second.limit t).trans (first.limit t), fun t => (second.used t).trans (first.used t)⟩

theorem Current.within (current : Current args h h') : Within args h' t ↔ Within args h t := by
  simp only [Within, current.limit, current.used]

theorem current_reset (args : CheckArgs) (h : QuotaHash) (t : QuotaType) :
    Current args h (Function.update h t ((h t).reset args)) := by
  constructor <;> intro s <;> rcases eq_or_ne s t with rfl | other <;> simp [*]

def Idle (args : CheckArgs) (h : QuotaHash) (t : QuotaType) : Prop :=
  (h t).limit = none ∨ args.incrementOf t ≤ 0

theorem Current.idle (current : Current args h h') : Idle args h' t ↔ Idle args h t := by
  simp only [Idle, current.limit]

theorem checkType_refuses (beyond : ¬ Within args h t) :
    ∃ limit used h', checkType args h t = (some (.quotaExceeded t limit used), h') ∧
      Current args h h' := by
  simp only [Within, not_forall, not_le, Option.mem_def] at beyond
  obtain ⟨limit, configured, positive, exceeded⟩ := beyond
  refine ⟨truncate limit, truncate (usedNow args (h t)), _, ?_, current_reset args h t⟩
  simp only [checkType, configured]
  rw [if_pos ⟨positive, exceeded⟩]

theorem Within.not_exceeded {limit : ℚ} (within : Within args h t) (configured : (h t).limit = some limit) :
    ¬ (0 < limit ∧ limit < usedNow args (h t) + args.incrementOf t) :=
  fun ⟨positive, exceeded⟩ => (within limit configured positive).not_gt exceeded

theorem checkType_idle (within : Within args h t) (idle : Idle args h t) :
    ∃ h', checkType args h t = (none, h') ∧ Current args h h' := by
  cases configured : (h t).limit with
  | none => exact ⟨h, by simp only [checkType, configured], .refl args h⟩
  | some limit =>
    have nothing : ¬ 0 < args.incrementOf t := by
      rcases idle with missing | nothing
      · simp [configured] at missing
      · omega
    refine ⟨_, ?_, current_reset args h t⟩
    simp only [checkType, configured]
    rw [if_neg (within.not_exceeded configured), if_neg nothing]

/-- Types that count nothing are all checked before the loop accepts, and it writes only dates. -/
theorem checkTypes_idle {types : List QuotaType} (idle : ∀ t ∈ types, Idle args h t) :
    ∃ reply h', checkTypes args types h = (reply, h') ∧ Current args h h' ∧
      (reply = .ok ↔ ∀ t ∈ types, Within args h t) ∧ reply ≠ .scriptError := by
  induction types generalizing h with
  | nil => exact ⟨.ok, h, rfl, .refl args h, by simp⟩
  | cons t types ih =>
    rw [List.forall_mem_cons] at idle
    by_cases within : Within args h t
    · obtain ⟨h₁, turn, current⟩ := checkType_idle within idle.1
      obtain ⟨reply, h₂, rest, current', accepts, runs⟩ :=
        ih fun s member => current.idle.mpr (idle.2 s member)
      refine ⟨reply, h₂, by simp only [checkTypes, turn, rest], current.trans current', ?_, runs⟩
      simp only [accepts, current.within, List.forall_mem_cons, within, true_and]
    · obtain ⟨limit, used, h', turn, current⟩ := checkType_refuses within
      refine ⟨.quotaExceeded t limit used, h', by simp only [checkTypes, turn], current, ?_, by simp⟩
      simp [within]

theorem checkTypes_of_empty (empty : ∀ t, h t = {}) (types : List QuotaType) :
    checkTypes args types h = (.ok, h) := by
  induction types with
  | nil => rfl
  | cons t types ih => simpa only [checkTypes, checkType, empty] using ih

theorem apikeyQuotaCheck_eq (args : CheckArgs) (h : QuotaHash) :
    apikeyQuotaCheck args h = checkTypes args [.request, .token, .cost] h := by
  unfold apikeyQuotaCheck
  split
  · rename_i empty
    exact (checkTypes_of_empty empty _).symm
  · rfl

end Turns

section Script
variable {args : CheckArgs} {h : QuotaHash}

theorem forall_types {p : QuotaType → Prop} :
    (∀ t, p t) ↔ ∀ t ∈ [QuotaType.request, .token, .cost], p t :=
  ⟨fun all t _ => all t, fun all t => all t (by cases t <;> decide)⟩

/-- The request quota is configured, has room and counts this request. -/
structure RequestDue (args : CheckArgs) (h : QuotaHash) : Prop where
  configured : (h .request).limit.isSome
  positive : 0 < args.increment
  within : Within args h .request

theorem growth_of_idle {t : QuotaType} (idle : Idle args h t) : growth args h t = 0 := by
  unfold growth
  rcases idle with missing | nothing
  · simp [missing]
  · split
    · exact max_eq_left (by exact_mod_cast nothing)
    · rfl

theorem idle_of_ne {t : QuotaType} (other : t ≠ .request) : Idle args h t := by
  cases t with
  | request => exact absurd rfl other
  | token | cost => exact .inr le_rfl

theorem allOrNothing_of_current {reply : CheckReply} {h' : QuotaHash}
    (run : apikeyQuotaCheck args h = (reply, h')) (current : Current args h h')
    (accepts : reply = .ok ↔ ∀ t, Within args h t)
    (idle : reply = .ok → ∀ t, growth args h t = 0) : AllOrNothing args h := by
  refine ⟨?_, ?_, ?_⟩ <;> simp only [run]
  · exact accepts
  · intro accepted t
    rw [current.used, idle accepted, add_zero]
  · intro _ _ _ _ t
    exact (current.used t).le

theorem allOrNothing_of_not_due (undue : ¬ RequestDue args h) : AllOrNothing args h := by
  by_cases within : Within args h .request
  · have idle : ∀ t, Idle args h t := by
      intro t
      rcases eq_or_ne t .request with rfl | other
      · by_contra counts
        simp only [Idle, not_or, not_le] at counts
        exact undue ⟨Option.isSome_iff_ne_none.mpr counts.1, counts.2, within⟩
      · exact idle_of_ne other
    have loop := @checkTypes_idle args h [.request, .token, .cost] fun t _ => idle t
    obtain ⟨reply, h', run, current, accepts, -⟩ := loop
    refine allOrNothing_of_current ((apikeyQuotaCheck_eq args h).trans run) current ?_ ?_
    · exact accepts.trans forall_types.symm
    · exact fun _ t => growth_of_idle (idle t)
  · obtain ⟨limit, used, h', turn, current⟩ := checkType_refuses within
    refine @allOrNothing_of_current args h (.quotaExceeded .request limit used) h' ?_ current ?_ ?_
    · simp only [apikeyQuotaCheck_eq, checkTypes, turn]
    · simp only [reduceCtorEq, false_iff]
      exact fun all => within (all .request)
    · simp

def counted (args : CheckArgs) (h : QuotaHash) (n : ℚ) : QuotaHash :=
  Function.update h .request { (h .request).reset args with used := some n }

theorem checkType_due (due : RequestDue args h) :
    checkType args h .request =
      match hincrbyField (usedNow args (h .request)) args.increment with
      | none => (some .scriptError, Function.update h .request ((h .request).reset args))
      | some n => (none, counted args h n) := by
  obtain ⟨limit, configured⟩ := Option.isSome_iff_exists.mp due.configured
  have counts : 0 < args.incrementOf .request := due.positive
  simp only [checkType, configured]
  rw [if_neg (due.within.not_exceeded configured), if_pos counts]
  simp only [CheckArgs.incrementOf, counted, Function.update_idem, Function.update_self]

theorem hincrbyField_eq {used n : ℚ} {increment : ℤ} (counted : hincrbyField used increment = some n) :
    n = used + increment := by
  unfold hincrbyField hincrby at counted
  split at counted
  · rename_i whole
    split at counted
    · rw [← Option.some.inj counted, Int.cast_add, ← Rat.den_eq_one_iff used |>.mp whole]
      rfl
    · simp at counted
  · simp at counted

theorem usedNow_counted (n : ℚ) : usedNow args (counted args h n .request) = n := by
  have fresh : needReset args (counted args h n .request) = false := by
    rw [counted, Function.update_self]
    exact needReset_reset (h .request)
  rw [usedNow, fresh, counted, Function.update_self]
  rfl

theorem counted_of_ne {t : QuotaType} (other : t ≠ .request) (n : ℚ) : counted args h n t = h t :=
  Function.update_of_ne other _ _

theorem counted_within {t : QuotaType} (other : t ≠ .request) (n : ℚ) :
    Within args (counted args h n) t ↔ Within args h t := by
  simp only [Within, counted_of_ne other]

theorem growth_due (due : RequestDue args h) : growth args h .request = args.increment := by
  have counts : (0 : ℚ) ≤ args.increment := by exact_mod_cast due.positive.le
  rw [growth, if_pos due.configured]
  exact max_eq_right counts

theorem apikeyQuotaCheck_due {n : ℚ} (due : RequestDue args h)
    (written : hincrbyField (usedNow args (h .request)) args.increment = some n) :
    ∃ reply h', apikeyQuotaCheck args h = (reply, h') ∧ Current args (counted args h n) h' ∧
      (reply = .ok ↔ Within args h .token ∧ Within args h .cost) ∧ reply ≠ .scriptError := by
  have rest := @checkTypes_idle args (counted args h n) [.token, .cost]
    fun t member => idle_of_ne (by rintro rfl; simp at member)
  obtain ⟨reply, h', run, current, accepts, runs⟩ := rest
  refine ⟨reply, h', ?_, current, ?_, runs⟩
  · rw [apikeyQuotaCheck_eq, checkTypes, checkType_due due, written]
    exact run
  · rw [accepts]
    simp [counted_within]

theorem scriptError_of_due (due : RequestDue args h)
    (fails : hincrbyField (usedNow args (h .request)) args.increment = none) :
    (apikeyQuotaCheck args h).1 = .scriptError := by
  rw [apikeyQuotaCheck_eq, checkTypes, checkType_due due, fails]

theorem within_of_due (due : RequestDue args h) :
    (∀ t, Within args h t) ↔ Within args h .token ∧ Within args h .cost := by
  simp [forall_types, due.within]

/-- The script checks token and cost only after it has counted the request: it keeps its promise
where the counting fails or they would not have stopped it. -/
theorem allOrNothing_iff (args : CheckArgs) (h : QuotaHash) :
    AllOrNothing args h ↔ (RequestDue args h →
      ((hincrbyField (usedNow args (h .request)) args.increment).isSome ↔
        Within args h .token ∧ Within args h .cost)) := by
  by_cases due : RequestDue args h
  · simp only [due, forall_const]
    cases written : hincrbyField (usedNow args (h .request)) args.increment with
    | none =>
      have fails := scriptError_of_due due written
      constructor
      · intro promise
        simpa [fails, within_of_due due] using promise.accepts_iff
      · intro beyond
        refine ⟨?_, by simp [fails], by simp [fails]⟩
        simpa [fails, within_of_due due] using beyond
    | some n =>
      obtain ⟨reply, h', run, current, accepts, runs⟩ := apikeyQuotaCheck_due due written
      have grown : usedNow args (h' .request) = usedNow args (h .request) + args.increment := by
        rw [current.used, usedNow_counted, hincrbyField_eq written]
      have kept : ∀ t, t ≠ .request → usedNow args (h' t) = usedNow args (h t) := by
        intro t other
        rw [current.used, counted_of_ne other]
      simp only [Option.isSome_some, true_iff]
      constructor
      · intro promise
        by_contra beyond
        cases reply with
        | ok => exact beyond (accepts.mp rfl)
        | scriptError => exact runs rfl
        | quotaExceeded type limit used =>
          have refused := promise.refused type limit used (by rw [run]) .request
          rw [run, grown] at refused
          have counts : (0 : ℚ) < args.increment := by exact_mod_cast due.positive
          linarith
      · intro within
        obtain rfl := accepts.mpr within
        refine ⟨?_, ?_, by simp [run]⟩
        · simpa [run, within_of_due due] using within
        · intro _ t
          rw [run]
          rcases eq_or_ne t .request with rfl | other
          · rw [grown, growth_due due]
          · rw [kept t other, growth_of_idle (idle_of_ne other), add_zero]
  · simpa only [due, false_implies, iff_true] using allOrNothing_of_not_due due

/-- One request counts on a fresh quota although the token quota then stops it. -/
theorem grown_on_refusal :
    let h : QuotaHash := fun
      | .request => { limit := some 10, used := some 0 }
      | .token => { limit := some 100, used := some 101 }
      | .cost => {}
    let args : CheckArgs := ⟨1, "2025-06-14", "2025-06"⟩
    (apikeyQuotaCheck args h).1 = .quotaExceeded .token 100 101 ∧
      usedNow args ((apikeyQuotaCheck args h).2 .request) = 1 ∧ usedNow args (h .request) = 0 ∧
      ¬ AllOrNothing args h := by
  intro h args
  have reply : (apikeyQuotaCheck args h).1 = .quotaExceeded .token 100 101 := by decide +kernel
  have used : usedNow args ((apikeyQuotaCheck args h).2 .request) = 1 := by decide +kernel
  refine ⟨reply, used, rfl, fun promise => ?_⟩
  have refused := promise.refused _ _ _ reply .request
  rw [used] at refused
  exact absurd refused (by decide +kernel)

end Script

end Deeting.ApiKeys.QuotaCheck
