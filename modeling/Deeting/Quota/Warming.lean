import Deeting.Quota.Operations
import Deeting.Transition
import Mathlib.Logic.Function.Basic

/-! Concurrent `quota_precheck` calls for a tenant whose quota hash is absent. Each
Redis command, script run and database read is one step. A call that finds no hash
tries the warming lock; the holder reads the row, writes the hash and deletes the
lock, whoever holds it by then; a loser sleeps. All of them end in the script. The
expiry of the lock may come at any time, that of the hash is not modeled. -/
namespace Deeting.Quota
open Deeting.Transition

/-- Where a call stands. `copying` is the `_sync_redis_hash` inside `get_or_create`,
`loaded` the warm-up's own `HSET` to come. -/
inductive Call where
  | start
  | missing
  | waiting
  | holding
  | copying (q : TenantQuota)
  | loaded (q : TenantQuota)
  | written
  | ready
  | returned (accepted : Bool)

/-- `costs` are the estimates of the accepted calls, in their order. -/
structure Warming where
  account : Account
  lock : Bool
  call : ℕ → Call
  costs : List ℚ

inductive WarmAct where
  | exists (i : ℕ)
  | tryLock (i : ℕ)
  | wait (i : ℕ)
  | read (i : ℕ)
  | copy (i : ℕ)
  | write (i : ℕ)
  | unlock (i : ℕ)
  | deduct (i : ℕ) (estimatedCost : ℚ)
  | expireLock

def Warming.advance (s : Warming) (i : ℕ) (c : Call) : Warming :=
  { s with call := Function.update s.call i c }

def warmStep (env : Env) (s : Warming) : WarmAct → Option Warming
  | .exists i =>
      match s.call i with
      | .start => some (s.advance i (if s.account.hash.isSome then .ready else .missing))
      | _ => none
  | .tryLock i =>
      match s.call i with
      | .missing =>
          some (if s.lock then s.advance i .waiting else { s.advance i .holding with lock := true })
      | _ => none
  | .wait i =>
      match s.call i with
      | .waiting => some (s.advance i .ready)
      | _ => none
  | .read i =>
      match s.call i with
      | .holding =>
          let q := currentRow env.today s.account.row
          let changed := s.account.row.elim true fun q => resetDue env.today q
          some { s.advance i (if changed then .copying q else .loaded q) with
            account := { s.account with row := some q } }
      | _ => none
  | .copy i =>
      match s.call i with
      | .copying q =>
          some { s.advance i (.loaded q) with
            account := { s.account with hash := some (quotaPayload env.today q) } }
      | _ => none
  | .write i =>
      match s.call i with
      | .loaded q =>
          some { s.advance i .written with
            account := { s.account with hash := some (quotaPayload env.today q) } }
      | _ => none
  | .unlock i =>
      match s.call i with
      | .written => some { s.advance i .ready with lock := false }
      | _ => none
  | .deduct i estimatedCost =>
      match s.call i with
      | .ready =>
          let (reply, hash) :=
            quotaDeduct env.stored (deductArgs env.today estimatedCost 1 1 false) s.account.hash
          some { s.advance i (.returned reply.accepted) with
            account := { s.account with hash }
            costs := if reply.accepted then s.costs ++ [estimatedCost] else s.costs }
      | _ => none
  | .expireLock => some { s with lock := false }

inductive WarmSteps (env : Env) (s : Warming) : WarmAct → Warming → Prop where
  | found {i : ℕ} (called : s.call i = .start) (present : s.account.hash.isSome = true) :
      WarmSteps env s (.exists i) (s.advance i .ready)
  | absent {i : ℕ} (called : s.call i = .start) (absent : s.account.hash.isSome = false) :
      WarmSteps env s (.exists i) (s.advance i .missing)
  | locked {i : ℕ} (called : s.call i = .missing) (locked : s.lock = true) :
      WarmSteps env s (.tryLock i) (s.advance i .waiting)
  | acquired {i : ℕ} (called : s.call i = .missing) (unlocked : s.lock = false) :
      WarmSteps env s (.tryLock i) { s.advance i .holding with lock := true }
  | waited {i : ℕ} (called : s.call i = .waiting) : WarmSteps env s (.wait i) (s.advance i .ready)
  | read {i : ℕ} (called : s.call i = .holding) (changed : Bool) :
      WarmSteps env s (.read i)
        { s.advance i (if changed then .copying (currentRow env.today s.account.row)
            else .loaded (currentRow env.today s.account.row)) with
          account := { s.account with row := some (currentRow env.today s.account.row) } }
  | copied {i : ℕ} {q : TenantQuota} (called : s.call i = .copying q) :
      WarmSteps env s (.copy i)
        { s.advance i (.loaded q) with
          account := { s.account with hash := some (quotaPayload env.today q) } }
  | written {i : ℕ} {q : TenantQuota} (called : s.call i = .loaded q) :
      WarmSteps env s (.write i)
        { s.advance i .written with
          account := { s.account with hash := some (quotaPayload env.today q) } }
  | unlocked {i : ℕ} (called : s.call i = .written) :
      WarmSteps env s (.unlock i) { s.advance i .ready with lock := false }
  | deducted {i : ℕ} {estimatedCost : ℚ} {reply : DeductReply} {hash : Option QuotaHash}
      (called : s.call i = .ready)
      (answered : quotaDeduct env.stored (deductArgs env.today estimatedCost 1 1 false)
        s.account.hash = (reply, hash)) :
      WarmSteps env s (.deduct i estimatedCost)
        { s.advance i (.returned reply.accepted) with
          account := { s.account with hash }
          costs := if reply.accepted then s.costs ++ [estimatedCost] else s.costs }
  | expired : WarmSteps env s .expireLock { s with lock := false }

theorem WarmSteps.of_step {env : Env} {s t : Warming} {a : WarmAct}
    (taken : warmStep env s a = some t) : WarmSteps env s a t := by
  cases a with
  | expireLock =>
    cases taken
    exact .expired
  | «exists» i =>
    simp only [warmStep] at taken
    split at taken
    · rename_i called
      cases taken
      cases present : s.account.hash.isSome with
      | true => exact .found called present
      | false => exact .absent called present
    · cases taken
  | tryLock i =>
    simp only [warmStep] at taken
    split at taken
    · rename_i called
      cases taken
      cases locked : s.lock with
      | true => exact .locked called locked
      | false => exact .acquired called locked
    · cases taken
  | wait i =>
    simp only [warmStep] at taken
    split at taken
    · rename_i called
      cases taken
      exact .waited called
    · cases taken
  | read i =>
    simp only [warmStep] at taken
    split at taken
    · rename_i called
      cases taken
      exact .read called _
    · cases taken
  | copy i =>
    simp only [warmStep] at taken
    split at taken
    · rename_i called
      cases taken
      exact .copied called
    · cases taken
  | write i =>
    simp only [warmStep] at taken
    split at taken
    · rename_i called
      cases taken
      exact .written called
    · cases taken
  | unlock i =>
    simp only [warmStep] at taken
    split at taken
    · rename_i called
      cases taken
      exact .unlocked called
    · cases taken
  | deduct i estimatedCost =>
    simp only [warmStep] at taken
    split at taken
    · rename_i called
      cases taken
      exact .deducted called rfl
    · cases taken

/-- The hash is written from the row only while no call has been accepted. -/
def WarmsBeforeDeductions (s : Warming) : WarmAct → Prop
  | .copy _ | .write _ => s.costs = []
  | _ => True

instance (s : Warming) : (a : WarmAct) → Decidable (WarmsBeforeDeductions s a)
  | .copy _ | .write _ => inferInstanceAs (Decidable (s.costs = []))
  | .exists _ | .tryLock _ | .wait _ | .read _ | .unlock _ | .deduct .. | .expireLock =>
      instDecidableTrue

/-- No hash, no lock, no call under way, and a row that is not dated in the future. -/
structure Warming.Fresh (env : Env) (s : Warming) : Prop where
  absent : s.account.hash = none
  unlocked : s.lock = false
  start : ∀ i, s.call i = .start
  costs : s.costs = []
  past : ∀ q ∈ s.account.row, ∀ d ∈ q.dailyResetAt, ¬ env.today.Before d

/-- A row as `get_or_create` left it: the same balance and count, dated today. -/
structure Reread (env : Env) (row : Option TenantQuota) (q : TenantQuota) : Prop where
  balance : q.balance = (currentRow env.today row).balance
  dailyUsed : q.dailyUsed = (currentRow env.today row).dailyUsed
  dated : q.dailyResetAt.getD env.today = env.today

section Reread
variable {env : Env} {row : Option TenantQuota}

theorem currentRow_dated (past : ∀ q ∈ row, ∀ d ∈ q.dailyResetAt, ¬ env.today.Before d) :
    (currentRow env.today row).dailyResetAt.getD env.today = env.today := by
  cases row with
  | none => rfl
  | some q =>
    cases dated : q.dailyResetAt with
    | none => simp [currentRow, maybeResetQuotas, dailyResetDue, dated]
    | some d =>
      have order := Date.before_iff_ne (past q rfl d dated)
      by_cases before : d.Before env.today
      · simp [currentRow, maybeResetQuotas, dailyResetDue, dated, before]
      · have today : d = env.today := by simpa [order] using before
        simp [currentRow, maybeResetQuotas, dailyResetDue, dated, today, Date.before_irrefl]

theorem currentRow_idem_balance (row : Option TenantQuota) :
    (currentRow env.today (some (currentRow env.today row))).balance =
      (currentRow env.today row).balance := rfl

theorem currentRow_idem_dailyUsed (env : Env) (row : Option TenantQuota) :
    (currentRow env.today (some (currentRow env.today row))).dailyUsed =
      (currentRow env.today row).dailyUsed := by
  cases row with
  | none => exact Nat.le_zero.mp (maybeResetQuotas_dailyUsed_le env.today {})
  | some q => simp only [currentRow, maybeResetQuotas_idem]

theorem currentRow_past (past : ∀ q ∈ row, ∀ d ∈ q.dailyResetAt, ¬ env.today.Before d) :
    ∀ d ∈ (currentRow env.today row).dailyResetAt, ¬ env.today.Before d := by
  intro d stored
  have dated := currentRow_dated past
  rw [Option.mem_def.mp stored, Option.getD_some] at dated
  exact dated ▸ Date.before_irrefl d

end Reread

/-- The scripts take these costs from a balance without an error of rounding. -/
def Env.TakesExactly (env : Env) : ℚ → List ℚ → Prop
  | _, [] => True
  | balance, cost :: rest => env.less balance cost = balance - cost ∧
      env.TakesExactly (balance - cost) rest

instance instDecidableTakesExactly (env : Env) :
    (balance : ℚ) → (costs : List ℚ) → Decidable (env.TakesExactly balance costs)
  | _, [] => instDecidableTrue
  | balance, cost :: rest =>
      have := instDecidableTakesExactly env (balance - cost) rest
      inferInstanceAs (Decidable (_ ∧ _))

theorem foldl_less_of_exact {env : Env} {costs : List ℚ} {balance : ℚ}
    (takes : env.TakesExactly balance costs) : costs.foldl env.less balance = balance - costs.sum := by
  induction costs generalizing balance with
  | nil => simp
  | cons cost rest ih =>
    rw [List.foldl_cons, takes.1, ih takes.2, List.sum_cons]
    ring

structure Warm (env : Env) (s : Warming) : Prop where
  balance : ∀ h ∈ s.account.hash,
    h.balance = s.costs.foldl env.less (currentRow env.today s.account.row).balance
  count : ∀ h ∈ s.account.hash,
    h.dailyUsed = (currentRow env.today s.account.row).dailyUsed + s.costs.length
  dated : ∀ h ∈ s.account.hash, h.dailyDate = env.today
  snapshot : ∀ i q, s.call i = .copying q ∨ s.call i = .loaded q → Reread env s.account.row q
  past : ∀ q ∈ s.account.row, ∀ d ∈ q.dailyResetAt, ¬ env.today.Before d

namespace Warm
variable {env : Env} {s : Warming}

theorem of_fresh (fresh : s.Fresh env) : Warm env s := by
  have absent : ∀ h, h ∉ s.account.hash := by simp [fresh.absent]
  refine ⟨fun h stored => absurd stored (absent h), fun h stored => absurd stored (absent h),
    fun h stored => absurd stored (absent h), fun i q holds => ?_, fresh.past⟩
  rcases holds with holds | holds <;> simp [fresh.start i] at holds

theorem advance (warm : Warm env s) {i : ℕ} {c : Call} (lock : Bool)
    (rowless : ∀ q, c ≠ .copying q ∧ c ≠ .loaded q) :
    Warm env { s.advance i c with lock } := by
  refine ⟨warm.balance, warm.count, warm.dated, ?_, warm.past⟩
  intro j q holds
  simp only [Warming.advance] at holds
  by_cases same : j = i
  · subst same
    simp only [Function.update_self, (rowless q).1, (rowless q).2, or_self] at holds
  · simp only [Function.update_of_ne same] at holds
    exact warm.snapshot j q holds

theorem reread (warm : Warm env s) :
    Reread env s.account.row (currentRow env.today s.account.row) :=
  ⟨rfl, rfl, currentRow_dated warm.past⟩

theorem read (warm : Warm env s) (i : ℕ) (changed : Bool) :
    Warm env { s.advance i (if changed then .copying (currentRow env.today s.account.row)
        else .loaded (currentRow env.today s.account.row)) with
      account := { s.account with row := some (currentRow env.today s.account.row) } } := by
  have again := currentRow_idem_dailyUsed env s.account.row
  refine ⟨fun h stored => ?_, fun h stored => ?_, warm.dated, fun j q holds => ?_,
    fun q stored => ?_⟩
  · have balance := warm.balance h stored
    rwa [← currentRow_idem_balance] at balance
  · have count := warm.count h stored
    rwa [← again] at count
  · have held : Reread env s.account.row q := by
      simp only [Warming.advance] at holds
      by_cases same : j = i
      · subst same
        have current : q = currentRow env.today s.account.row := by
          cases changed <;> simpa [eq_comm] using holds
        exact current ▸ warm.reread
      · simp only [Function.update_of_ne same] at holds
        exact warm.snapshot j q holds
    exact ⟨held.balance, held.dailyUsed.trans again.symm, held.dated⟩
  · cases stored
    exact currentRow_past warm.past

theorem write (warm : Warm env s) {q : TenantQuota} (current : Reread env s.account.row q)
    (none : s.costs = []) {i : ℕ} {c : Call} (rowOf : ∀ p, c ≠ .copying p)
    (same : ∀ p, c = .loaded p → p = q) :
    Warm env { s.advance i c with
      account := { s.account with hash := some (quotaPayload env.today q) } } := by
  refine ⟨fun h stored => ?_, fun h stored => ?_, fun h stored => ?_, fun j p holds => ?_,
    warm.past⟩
  · cases stored
    simp [current.balance, none, Warming.advance]
  · cases stored
    simp [current.dailyUsed, none, Warming.advance]
  · cases stored
    exact current.dated
  · simp only [Warming.advance] at holds
    by_cases here : j = i
    · subst here
      simp only [Function.update_self, rowOf p, false_or] at holds
      exact same p holds ▸ current
    · simp only [Function.update_of_ne here] at holds
      exact warm.snapshot j p holds

theorem deduct (warm : Warm env s) (i : ℕ) {estimatedCost : ℚ} {reply : DeductReply}
    {hash : Option QuotaHash}
    (answered : quotaDeduct env.stored (deductArgs env.today estimatedCost 1 1 false)
      s.account.hash = (reply, hash)) :
    Warm env
      { s.advance i (.returned reply.accepted) with
        account := { s.account with hash }
        costs := if reply.accepted then s.costs ++ [estimatedCost] else s.costs } := by
  have moved : ∀ {account costs v}, Warm env ⟨account, s.lock, s.call, costs⟩ →
      Warm env ⟨account, s.lock, Function.update s.call i (.returned v), costs⟩ :=
    fun warm => warm.advance s.lock (by simp)
  refine moved ?_
  have charges := quotaDeduct_cases env.stored (deductArgs env.today estimatedCost 1 1 false)
    s.account.hash
  rw [answered] at charges
  obtain ⟨h, found, -, accepted, after⟩ | ⟨refused, after⟩ := charges
  · dsimp only at accepted after
    have balance := warm.balance h found
    have count := warm.count h found
    have dated := warm.dated h found
    simp only [accepted, after, if_true]
    refine ⟨fun h' stored => ?_, fun h' stored => ?_, fun h' stored => ?_, warm.snapshot, warm.past⟩
    · cases stored
      rw [List.foldl_concat, ← balance]
      rfl
    · cases stored
      simp only [charge, deductArgs, QuotaHash.dailyUsedOn, dated, ne_eq, not_true_eq_false, if_false,
        List.length_append, List.length_singleton]
      omega
    · cases stored
      rfl
  · dsimp only at refused after
    simp only [refused, after, Bool.false_eq_true, if_false]
    exact warm

theorem step {a : WarmAct} {t : Warming} (warm : Warm env s) (before : WarmsBeforeDeductions s a)
    (taken : warmStep env s a = some t) : Warm env t := by
  cases WarmSteps.of_step taken with
  | found | absent | locked | waited => exact warm.advance s.lock (by simp)
  | acquired => exact warm.advance true (by simp)
  | unlocked => exact warm.advance false (by simp)
  | @read i called changed => exact warm.read i changed
  | @copied i q called => exact warm.write (warm.snapshot i q (.inl called)) before (by simp) (by simp)
  | @written i q called =>
    exact warm.write (warm.snapshot i q (.inr called)) before (by simp) (by simp)
  | @deducted i _ _ _ _ answered => exact warm.deduct i answered
  | expired => exact ⟨warm.balance, warm.count, warm.dated, warm.snapshot, warm.past⟩

end Warm

def Call.fetching : Call → Bool
  | .holding | .copying _ | .loaded _ => true
  | _ => false

def Call.engaged : Call → Bool
  | .start | .missing => false
  | _ => true

def Served (s : Warming) : Prop :=
  (s.lock = true ∨ ∃ i, (s.call i).engaged = true) →
    s.account.hash.isSome = true ∨ ∃ i, (s.call i).fetching = true

namespace Served
variable {env : Env} {s : Warming}

theorem advance (served : Served s) {i : ℕ} {c : Call} {lock : Bool} {account : Account}
    {costs : List ℚ} (kept : account.hash.isSome = s.account.hash.isSome)
    (settled : (s.call i).fetching = false)
    (engaged : lock = true ∨ c.engaged = true → s.lock = true ∨ (s.call i).engaged = true) :
    Served ⟨account, lock, Function.update s.call i c, costs⟩ := by
  intro past
  have earlier : s.lock = true ∨ ∃ j, (s.call j).engaged = true := by
    rcases past with locked | ⟨j, past⟩
    · exact (engaged (.inl locked)).imp_right fun held => ⟨i, held⟩
    · by_cases same : j = i
      · subst same
        simp only [Function.update_self] at past
        exact (engaged (.inr past)).imp_right fun held => ⟨j, held⟩
      · simp only [Function.update_of_ne same] at past
        exact .inr ⟨j, past⟩
  rcases served earlier with present | ⟨j, fetching⟩
  · exact .inl (kept ▸ present)
  · have other : j ≠ i := by
      rintro rfl
      simp [settled] at fetching
    exact .inr ⟨j, by simpa only [Function.update_of_ne other] using fetching⟩

theorem of_fetching {account : Account} {lock : Bool} {i : ℕ} {c : Call} {costs : List ℚ}
    (fetching : c.fetching = true) : Served ⟨account, lock, Function.update s.call i c, costs⟩ :=
  fun _ => .inr ⟨i, by simpa only [Function.update_self] using fetching⟩

theorem step {a : WarmAct} {t : Warming} (served : Served s) (taken : warmStep env s a = some t) :
    Served t := by
  cases WarmSteps.of_step taken with
  | found called present => exact fun _ => .inl present
  | absent called =>
    exact served.advance rfl (by simp [called, Call.fetching])
      fun past => .inl (past.resolve_right (by simp [Call.engaged]))
  | locked called locked =>
    exact served.advance rfl (by simp [called, Call.fetching]) fun _ => .inl locked
  | acquired => exact of_fetching rfl
  | waited called =>
    exact served.advance rfl (by simp [called, Call.fetching]) (by simp [called, Call.engaged])
  | read called changed =>
    refine of_fetching ?_
    cases changed <;> rfl
  | copied | written => exact fun _ => .inl rfl
  | unlocked called =>
    exact served.advance rfl (by simp [called, Call.fetching]) (by simp [called, Call.engaged])
  | @deducted _ estimatedCost _ _ called answered =>
    refine served.advance ?_ (by simp [called, Call.fetching]) (by simp [called, Call.engaged])
    have charges := quotaDeduct_cases env.stored (deductArgs env.today estimatedCost 1 1 false)
      s.account.hash
    rw [answered] at charges
    obtain ⟨h, found, -, -, after⟩ | ⟨-, after⟩ := charges
    · dsimp only at after ⊢
      rw [after, found]
      rfl
    · exact congrArg Option.isSome after
  | expired => exact fun past => served (past.imp_left nofun)

end Served

def Call.settled : Call → Prop
  | .start | .returned _ => True
  | _ => False

/-- If the hash is only written before the first accepted deduction, it shows at the end the row's
balance with the accepted costs taken by one script after the other, which is the balance less
their sum where the scripts' doubles are exact, and the row's count plus one for each
accepted call. -/
theorem warming_keeps_deductions {env : Env} {s t : Warming} {acts : List WarmAct}
    (fresh : s.Fresh env) (before : Along (warmStep env) WarmsBeforeDeductions s acts)
    (reached : run (warmStep env) s acts = some t)
    (settled : ∀ i, (t.call i).settled) (called : ∃ i v, t.call i = .returned v) :
    ∃ h, t.account.hash = some h ∧
      h.balance = t.costs.foldl env.less (currentRow env.today t.account.row).balance ∧
      (env.TakesExactly (currentRow env.today t.account.row).balance t.costs →
        h.balance = (currentRow env.today t.account.row).balance - t.costs.sum) ∧
      h.dailyUsed = (currentRow env.today t.account.row).dailyUsed + t.costs.length := by
  have warm : Warm env t :=
    run_invariant (fun held ok taken => held.step ok taken) (Warm.of_fresh fresh) before reached
  have served : Served t := by
    refine run_preserves (fun held taken => held.step taken) ?_ reached
    rintro (locked | ⟨i, engaged⟩)
    · simp [fresh.unlocked] at locked
    · simp [fresh.start i, Call.engaged] at engaged
  obtain ⟨i, v, returned⟩ := called
  have present : t.account.hash.isSome = true := by
    rcases served (.inr ⟨i, by simp [returned, Call.engaged]⟩) with present | ⟨j, fetching⟩
    · exact present
    · have done := settled j
      cases call : t.call j <;> simp [call, Call.settled, Call.fetching] at done fetching
  obtain ⟨h, stored⟩ := Option.isSome_iff_exists.mp present
  have balance := warm.balance h stored
  exact ⟨h, stored, balance, fun takes => balance.trans (foldl_less_of_exact takes),
    warm.count h stored⟩

def coldTenant : Warming := ⟨⟨none, some (rowOf .june15 10)⟩, false, fun _ => .start, []⟩

theorem coldTenant_fresh : coldTenant.Fresh scriptEnv :=
  ⟨rfl, rfl, fun _ => rfl, rfl, by decide⟩

def loserWaits : List WarmAct :=
  [.exists 0, .exists 1, .tryLock 0, .tryLock 1, .read 0, .wait 1, .write 0, .unlock 0,
    .deduct 0 1, .deduct 1 2]

theorem warming_keeps_deductions_of_loser :
    ∃ t h, run (warmStep scriptEnv) coldTenant loserWaits = some t ∧ t.account.hash = some h ∧
      t.costs = [1, 2] ∧ h.balance = (currentRow .june15 t.account.row).balance - t.costs.sum := by
  have before : Along (warmStep scriptEnv) WarmsBeforeDeductions coldTenant loserWaits := by
    decide +kernel
  obtain ⟨h, stored, _, balance, _⟩ := warming_keeps_deductions coldTenant_fresh before rfl
    (fun | 0 | 1 | _ + 2 => trivial) ⟨0, _, rfl⟩
  exact ⟨_, h, rfl, stored, by decide +kernel, balance (by decide +kernel)⟩

/-- The second call found no hash, but tries the lock only after the first has
deleted it: its warm-up puts back the credit the first call was charged. -/
def lateWarmUp : List WarmAct :=
  [.exists 0, .exists 1, .tryLock 0, .read 0, .write 0, .unlock 0, .deduct 0 1,
    .tryLock 1, .read 1, .write 1, .unlock 1, .deduct 1 1]

theorem late_warm_up_restores_deduction :
    coldTenant.Fresh scriptEnv ∧
      ∃ t, run (warmStep scriptEnv) coldTenant lateWarmUp = some t ∧
        (∀ i, (t.call i).settled) ∧ t.costs = [1, 1] ∧
        (currentRow .june15 t.account.row).balance = 10 ∧
        t.account.hash.map QuotaHash.balance = some 9 := by
  refine ⟨coldTenant_fresh, _, rfl, fun | 0 | 1 | _ + 2 => trivial, ?_⟩
  decide +kernel

end Deeting.Quota
