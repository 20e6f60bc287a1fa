import Deeting.Billing.Ledger
import Deeting.Interruptible
import Deeting.Transition

/-! `BillingRepository.recharge` by what it writes, one commit or copy to the hash after the
other. What was flushed before is committed with the next commit, that is by `add_balance` or
by the reset that comes before its update. A call that dies leaves what it has written. -/
namespace Deeting.Billing.Crashes
open Deeting.Quota Interruptible Program Transition

def commitRow (tenant : TenantId) (quota : TenantQuota) (flushed : Ledger) (s : Store) : Store :=
  (s.setAccount tenant { s.account tenant with row := some quota }).setLedger flushed

def sync (env : Env) (tenant : TenantId) (quota : TenantQuota) (s : Store) : Store :=
  s.setAccount tenant
    { s.account tenant with hash := syncRedisHash env quota (s.account tenant).hash }

/-- `get_or_create` commits: a creation, or a reset that is due. -/
def Commits (today : Date) (row : Option TenantQuota) : Prop := ∀ q ∈ row, resetDue today q = true

instance (today : Date) (row : Option TenantQuota) : Decidable (Commits today row) :=
  inferInstanceAs (Decidable (∀ q ∈ row, _))

def getOrCreate (env : Env) (tenant : TenantId) (flushed : Ledger) :
    Program Store BillingError TenantQuota := do
  let s ← read
  let quota := currentRow env.today (s.account tenant).row
  if Commits env.today (s.account tenant).row then
    update (commitRow tenant quota flushed)
    update (sync env tenant quota)
    pure quota
  else
    pure quota

def addBalance (env : Env) (tenant : TenantId) (amount : ℚ) (flushed : Ledger) :
    Program Store BillingError TenantQuota := do
  let quota ← getOrCreate env tenant flushed
  let updated := { quota with balance := quota.balance + amount, version := quota.version + 1 }
  update (commitRow tenant updated flushed)
  update (sync env tenant updated)
  pure updated

/-- What a call finds around it, at its own `get_or_create` and later at that of
`add_balance`. -/
structure Call where
  env : Env
  later : Env
  description : Option String

/-- The transaction `recharge` creates. -/
def rechargeRow (tenant : TenantId) (amount : ℚ) (traceId : TraceId) (description : Option String)
    (quota : TenantQuota) : BillingTransaction :=
  { traceId, tenantId := tenant, type := .recharge, status := .pending, amount
    balanceBefore := quota.balance, balanceAfter := quota.balance + amount, description }

/-- What `recharge` does with its transaction: it is flushed, credited and committed. -/
def enter (later : Env) (transaction : BillingTransaction) (ledger : Ledger) :
    Program Store BillingError BillingTransaction :=
  match ledger.insert? transaction with
  | none => raise (.integrity transaction.traceId)
  | some flushed => do
      let _ ← addBalance later transaction.tenantId transaction.amount flushed
      update fun s => s.rewrite transaction.traceId commitStatus commitStatus_traceId
      pure (commitStatus transaction)

def recharge (tenant : TenantId) (amount : ℚ) (traceId : TraceId) (call : Call) :
    Program Store BillingError BillingTransaction := do
  let s ← read
  match s.ledger.find? traceId with
  | some existing =>
      match replayed traceId (some existing) with
      | .ok tx => pure tx
      | .error e => raise e
  | none =>
      let quota ← getOrCreate call.env tenant s.ledger
      enter call.later (rechargeRow tenant amount traceId call.description quota) s.ledger

structure Attempt extends Call where
  died : Option ℕ

structure World where
  store : Store
  returned : Bool

section Calls

variable (tenant : TenantId) (amount : ℚ) (traceId : TraceId)

def attempt (w : World) (a : Attempt) : World where
  store := (recharge tenant amount traceId a.toCall).leave a.died w.store
  returned := w.returned ||
    (a.died.isNone && (recharge tenant amount traceId a.toCall w.store).result.isOk)

def Credited (s t : Store) : Prop :=
  ∃ tx, t.ledger.rows = tx :: s.ledger.rows ∧ tx.traceId = traceId ∧ tx.tenantId = tenant ∧
    tx.type = .recharge ∧ tx.status = .committed ∧ tx.amount = amount ∧ Moves s t tenant amount

/-- What is asked of every state: after a call that returned the payment is credited once, and
a further call that does not die returns and leaves it so. -/
structure Settles (start : Store) (w : World) : Prop where
  once : w.returned = true → Credited tenant amount traceId start w.store
  returns : ∀ call, ∃ tx, (recharge tenant amount traceId call w.store).result = .ok tx ∧
    Credited tenant amount traceId start (recharge tenant amount traceId call w.store).final

def opening (call : Call) (s : Store) : ℕ :=
  if Commits call.env.today (s.account tenant).row then 2 else 0

def crediting (call : Call) (s : Store) : ℕ :=
  (if resetDue call.later.today (currentRow call.env.today (s.account tenant).row) then 2 else 0)
    + 2

/-- A call under an unused trace id does not die between the commit that stores the pending row
and the one that commits the transaction. -/
def Lasts (w : World) (a : Attempt) : Prop :=
  w.store.ledger.find? traceId = none → ∀ n ∈ a.died,
    n ≤ opening tenant a.toCall w.store ∨
      opening tenant a.toCall w.store + crediting tenant a.toCall w.store < n

end Calls

section Writes

variable {env : Env} {tenant : TenantId} {amount : ℚ} {traceId : TraceId} {quota : TenantQuota}
  {flushed : Ledger} {s t : Store}

theorem account_setAccount (a : Account) : (s.setAccount tenant a).account tenant = a :=
  Function.update_self ..

theorem row_commitRow : ((commitRow tenant quota flushed s).account tenant).row = some quota := by
  simp [commitRow, Store.setLedger, account_setAccount]

theorem row_sync : ((sync env tenant quota s).account tenant).row = (s.account tenant).row := by
  simp [sync, account_setAccount]

theorem balance_sync (x : TenantId) : (sync env tenant quota s).balance x = s.balance x := by
  apply balance_setAccount
  rfl

theorem moves_commitRow (moved : quota.balance = rowBalance (s.account tenant) + amount) :
    Moves s (commitRow tenant quota flushed s) tenant amount := by
  apply Moves.setAccount
  exact moved

theorem balance_commitRow (kept : quota.balance = rowBalance (s.account tenant)) (x : TenantId) :
    (commitRow tenant quota flushed s).balance x = s.balance x := by
  have moves : Moves s (commitRow tenant quota flushed s) tenant 0 :=
    moves_commitRow (by rw [add_zero]; exact kept)
  simpa [share_zero] using moves x

structure Uncredited (ledger : Ledger) (s t : Store) : Prop where
  ledger : t.ledger = ledger
  balance : ∀ x, t.balance x = s.balance x

theorem currentRow_of_not_commits {today : Date} {row : Option TenantQuota}
    (current : ¬ Commits today row) : row = some (currentRow today row) := by
  cases row with
  | none => exact absurd (fun q mem => absurd mem (Option.not_mem_none q)) current
  | some q =>
    have kept : resetDue today q = false := by
      rw [Bool.eq_false_iff]
      intro due
      refine current fun r mem => ?_
      rw [← Option.some.inj mem]
      exact due
    rw [currentRow, maybeResetQuotas_of_not_due kept]

/-- What `get_or_create` does: two writes or none, and no balance moves. -/
structure Opens (env : Env) (tenant : TenantId) (flushed : Ledger) (s : Store)
    (ran : Outcome Store BillingError TenantQuota) : Prop where
  result : ran.result = .ok (currentRow env.today (s.account tenant).row)
  row : (ran.final.account tenant).row = some (currentRow env.today (s.account tenant).row)
  balance : ∀ x, ran.final.balance x = s.balance x
  length : ran.passed.length = if Commits env.today (s.account tenant).row then 2 else 0
  passed : ∀ t ∈ ran.passed, Uncredited flushed s t

theorem getOrCreate_spec (env : Env) (tenant : TenantId) (flushed : Ledger) (s : Store) :
    Opens env tenant flushed s (getOrCreate env tenant flushed s) := by
  let quota := currentRow env.today (s.account tenant).row
  have same : quota.balance = rowBalance (s.account tenant) := rowBalance_currentRow ..
  by_cases commits : Commits env.today (s.account tenant).row
  · let first := commitRow tenant quota flushed s
    let second := sync env tenant quota first
    have ran : getOrCreate env tenant flushed s = ⟨[first, second], second, .ok quota⟩ := by
      simp [getOrCreate, commits, first, second, quota]
    have committed : Uncredited flushed s first := ⟨rfl, balance_commitRow same⟩
    have copied : Uncredited flushed s second :=
      ⟨rfl, fun x => (balance_sync x).trans (committed.balance x)⟩
    rw [ran]
    constructor
    · rfl
    · exact row_sync.trans row_commitRow
    · exact copied.balance
    · rw [if_pos commits]
      rfl
    · intro t mem
      simp only [List.mem_cons, List.not_mem_nil, or_false] at mem
      rcases mem with rfl | rfl
      · exact committed
      · exact copied
  · have ran : getOrCreate env tenant flushed s = ⟨[], s, .ok quota⟩ := by
      simp [getOrCreate, commits, quota]
    rw [ran]
    constructor
    · rfl
    · exact currentRow_of_not_commits commits
    · intro x
      rfl
    · rw [if_neg commits]
      rfl
    · simp

def Pending (traceId : TraceId) (s : Store) : Prop :=
  ∃ tx, s.ledger.find? traceId = some tx ∧ tx.status = .pending

/-- What `add_balance` does: one commit more, and the balance moves. -/
structure Adds (env : Env) (tenant : TenantId) (amount : ℚ) (flushed : Ledger) (s : Store)
    (ran : Outcome Store BillingError TenantQuota) : Prop where
  returns : ∃ updated, ran.result = .ok updated
  moves : Moves s ran.final tenant amount
  final : ran.final.ledger = flushed
  length : ran.passed.length =
    (if Commits env.today (s.account tenant).row then 2 else 0) + 2
  passed : ∀ t ∈ ran.passed, t.ledger = flushed

theorem addBalance_spec (env : Env) (tenant : TenantId) (amount : ℚ) (flushed : Ledger)
    (s : Store) : Adds env tenant amount flushed s (addBalance env tenant amount flushed s) := by
  let quota := currentRow env.today (s.account tenant).row
  let updated := { quota with balance := quota.balance + amount, version := quota.version + 1 }
  let opened := getOrCreate env tenant flushed s
  let first := commitRow tenant updated flushed opened.final
  let second := sync env tenant updated first
  have opens : Opens env tenant flushed s opened := getOrCreate_spec env tenant flushed s
  have ran : addBalance env tenant amount flushed s =
      ⟨opened.passed ++ [first, second], second, .ok updated⟩ := by
    rw [addBalance, bind_of_ok opens.result]
    rfl
  have credited : updated.balance = rowBalance (opened.final.account tenant) + amount := by
    simp [rowBalance, opens.row, updated, quota]
  rw [ran]
  constructor
  · exact ⟨updated, rfl⟩
  · intro x
    calc second.balance x = first.balance x := balance_sync x
      _ = opened.final.balance x + share x tenant amount := moves_commitRow credited x
      _ = s.balance x + share x tenant amount := by rw [opens.balance]
  · rfl
  · rw [List.length_append, opens.length]
    rfl
  · intro t mem
    simp only [List.mem_append, List.mem_cons, List.not_mem_nil, or_false] at mem
    rcases mem with early | rfl | rfl
    · exact (opens.passed t early).ledger
    · rfl
    · rfl

end Writes

section Recharge

variable {tenant : TenantId} {amount : ℚ} {traceId : TraceId} {call : Call} {s start : Store}

structure Recharges (tenant : TenantId) (amount : ℚ) (traceId : TraceId) (call : Call) (s : Store)
    (ran : Outcome Store BillingError BillingTransaction) (before during : List Store) :
    Prop where
  passed : ran.passed = before ++ during ++ [ran.final]
  before_length : before.length = opening tenant call s
  during_length : during.length = crediting tenant call s
  unused : ∀ t ∈ before, Uncredited s.ledger s t
  pending : ∀ t ∈ during, Pending traceId t
  returns : ∃ tx, ran.result = .ok tx
  credited : Credited tenant amount traceId s ran.final

theorem recharge_eq {flushed : Ledger} (fresh : s.ledger.find? traceId = none)
    (inserted : s.ledger.insert? (rechargeRow tenant amount traceId call.description
      (currentRow call.env.today (s.account tenant).row)) = some flushed) :
    let opened := getOrCreate call.env tenant s.ledger s
    let added := addBalance call.later tenant amount flushed opened.final
    let last := added.final.rewrite traceId commitStatus commitStatus_traceId
    recharge tenant amount traceId call s =
      ⟨opened.passed ++ added.passed ++ [last], last,
        .ok (commitStatus (rechargeRow tenant amount traceId call.description
          (currentRow call.env.today (s.account tenant).row)))⟩ := by
  intro opened added last
  let transaction := rechargeRow tenant amount traceId call.description
    (currentRow call.env.today (s.account tenant).row)
  have opens : Opens call.env tenant s.ledger s opened := getOrCreate_spec ..
  have adds : Adds call.later tenant amount flushed opened.final added := addBalance_spec ..
  obtain ⟨updated, returned⟩ := adds.returns
  have entered : enter call.later transaction s.ledger opened.final =
      ⟨added.passed ++ [last], last, .ok (commitStatus transaction)⟩ := by
    rw [enter, inserted]
    exact bind_of_ok returned
  simp only [recharge, read_bind, fresh]
  refine (bind_of_ok opens.result).trans ?_
  change (⟨opened.passed ++ (enter call.later transaction s.ledger opened.final).passed,
    (enter call.later transaction s.ledger opened.final).final,
    (enter call.later transaction s.ledger opened.final).result⟩ : Outcome _ _ _) = _
  rw [entered, List.append_assoc]

variable (tenant amount call) in
theorem recharge_unused (fresh : s.ledger.find? traceId = none) :
    ∃ before during, Recharges tenant amount traceId call s
      (recharge tenant amount traceId call s) before during := by
  let opened := getOrCreate call.env tenant s.ledger s
  have opens : Opens call.env tenant s.ledger s opened := getOrCreate_spec ..
  let transaction := rechargeRow tenant amount traceId call.description
    (currentRow call.env.today (s.account tenant).row)
  obtain ⟨flushed, inserted⟩ : ∃ flushed, s.ledger.insert? transaction = some flushed :=
    Table.insert?_of_fresh fresh
  let added := addBalance call.later tenant amount flushed opened.final
  have adds : Adds call.later tenant amount flushed opened.final added := addBalance_spec ..
  let last := added.final.rewrite traceId commitStatus commitStatus_traceId
  rw [recharge_eq fresh inserted]
  refine ⟨opened.passed, added.passed, rfl, opens.length, ?_, opens.passed, ?_, ⟨_, rfl⟩, ?_⟩
  · rw [adds.length, opens.row, crediting]
    simp [Commits]
  · intro t mem
    refine ⟨transaction, ?_, rfl⟩
    rw [adds.passed t mem]
    exact Table.find?_insert_self inserted
  · refine ⟨commitStatus transaction, ?_, rfl, rfl, rfl, rfl, rfl, ?_⟩
    · change (added.final.ledger.modify traceId commitStatus commitStatus_traceId).rows = _
      rw [adds.final]
      exact Table.rows_insert_modify commitStatus_traceId inserted
    · intro x
      calc last.balance x = opened.final.balance x + share x tenant amount := adds.moves x
        _ = s.balance x + share x tenant amount := by rw [opens.balance]

theorem recharge_committed {tx : BillingTransaction} (found : s.ledger.find? traceId = some tx)
    (committed : tx.status = .committed) :
    recharge tenant amount traceId call s = ⟨[], s, .ok tx⟩ := by
  simp [recharge, found, replayed, committed]

theorem recharge_pending (pending : Pending traceId s) :
    recharge tenant amount traceId call s = ⟨[], s, .error (.duplicateTransaction traceId)⟩ := by
  obtain ⟨tx, found, status⟩ := pending
  simp [recharge, found, replayed, status]

theorem Credited.found (credited : Credited tenant amount traceId s start) :
    ∃ tx, start.ledger.find? traceId = some tx ∧ tx.status = .committed := by
  obtain ⟨tx, rows, own, _, _, committed, _⟩ := credited
  refine ⟨tx, Table.find?_eq_some.mpr ⟨?_, own⟩, committed⟩
  rw [rows]
  exact List.mem_cons_self

theorem Credited.of_uncredited {t u : Store} (credited : Credited tenant amount traceId t u)
    (same : Uncredited s.ledger s t) : Credited tenant amount traceId s u := by
  obtain ⟨tx, rows, own, tenant, type, committed, paid, moves⟩ := credited
  refine ⟨tx, ?_, own, tenant, type, committed, paid, ?_⟩
  · rw [rows, same.ledger]
  · intro x
    rw [moves x, same.balance]

theorem Uncredited.trans {t u : Store} (first : Uncredited s.ledger s t)
    (second : Uncredited t.ledger t u) : Uncredited s.ledger s u :=
  ⟨second.ledger.trans first.ledger, fun x => (second.balance x).trans (first.balance x)⟩

def Steady (tenant : TenantId) (amount : ℚ) (traceId : TraceId) (start : Store) (w : World) :
    Prop :=
  w.returned = false ∧ Uncredited start.ledger start w.store ∨
    Credited tenant amount traceId start w.store

theorem Steady.settles {w : World} (fresh : start.ledger.find? traceId = none)
    (steady : Steady tenant amount traceId start w) : Settles tenant amount traceId start w := by
  rcases steady with ⟨unreturned, same⟩ | credited
  · constructor
    · intro returned
      rw [unreturned] at returned
      cases returned
    · intro call
      have unused : w.store.ledger.find? traceId = none := by
        rw [same.ledger]
        exact fresh
      obtain ⟨_, _, ran⟩ := recharge_unused tenant amount call unused
      obtain ⟨tx, returns⟩ := ran.returns
      exact ⟨tx, returns, ran.credited.of_uncredited same⟩
  · constructor
    · intro _
      exact credited
    · intro call
      obtain ⟨tx, found, committed⟩ := credited.found
      rw [recharge_committed found committed]
      exact ⟨tx, rfl, credited⟩

theorem Steady.next {w : World} {a : Attempt} (fresh : start.ledger.find? traceId = none)
    (steady : Steady tenant amount traceId start w) (lasts : Lasts tenant traceId w a) :
    Steady tenant amount traceId start (attempt tenant amount traceId w a) := by
  rcases steady with ⟨unreturned, same⟩ | credited
  · have unused : w.store.ledger.find? traceId = none := by
      rw [same.ledger]
      exact fresh
    obtain ⟨before, during, ran⟩ :=
      recharge_unused tenant amount a.toCall unused
    have finished := ran.credited.of_uncredited same
    cases died : a.died with
    | none =>
      apply Or.inr
      rw [attempt, died]
      exact finished
    | some n =>
      rcases lasts unused n (by rw [died]; rfl) with early | late
      · refine .inl ⟨by simp [attempt, unreturned, died], ?_⟩
        rw [← ran.before_length] at early
        have passed := ran.passed
        rw [List.append_assoc] at passed
        simp only [attempt, died]
        rcases leave_early passed early with none | left
        · rw [none]
          exact same
        · exact same.trans (ran.unused _ left)
      · apply Or.inr
        rw [← ran.before_length, ← ran.during_length, ← List.length_append] at late
        have left : Program.leave _ _ _ ∈ [_] := leave_mem ran.passed late
        simp only [attempt, died]
        rw [List.mem_singleton.mp left]
        exact finished
  · apply Or.inr
    obtain ⟨tx, found, committed⟩ := credited.found
    rw [attempt]
    cases a.died with
    | none =>
      rw [leave, recharge_committed found committed]
      exact credited
    | some n =>
      rw [leave, recharge_committed found committed]
      simpa using credited

theorem lasts_of_settles {w : World} {a : Attempt}
    (settles : Settles tenant amount traceId start (attempt tenant amount traceId w a)) :
    Lasts tenant traceId w a := by
  intro unused n died
  obtain ⟨before, during, ran⟩ :=
    recharge_unused tenant amount a.toCall unused
  by_contra between
  rw [not_or, not_le, not_lt, ← ran.before_length, ← ran.during_length] at between
  have left := leave_mem_middle ran.passed between.1 between.2
  have pending : Pending traceId (attempt tenant amount traceId w a).store := by
    rw [attempt, Option.mem_def.mp died]
    exact ran.pending _ left
  obtain ⟨tx, returns, _⟩ := settles.returns a.toCall
  rw [recharge_pending pending] at returns
  cases returns

/-- The runs of calls under an unused trace id that are settled all along are those in which no
call dies between the two commits. -/
theorem recharges_settle_iff (fresh : start.ledger.find? traceId = none) (attempts : List Attempt) :
    (∀ first, first <+: attempts → ∀ w,
      run (total (attempt tenant amount traceId)) ⟨start, false⟩ first = some w →
        Settles tenant amount traceId start w) ↔
      Along (total (attempt tenant amount traceId)) (Lasts tenant traceId) ⟨start, false⟩
        attempts := by
  apply forall_prefix_iff_along (P := Steady tenant amount traceId start)
  · exact Steady.settles fresh
  · intro w a u steady lasts taken
    cases taken
    exact steady.next fresh lasts
  · intro w a u _ taken settles
    cases taken
    exact lasts_of_settles settles
  · intro w a stuck
    cases stuck
  · exact .inl ⟨rfl, rfl, fun _ => rfl⟩

end Recharge

def daytime (description : Option String) : Call := ⟨scriptEnv, scriptEnv, description⟩

/-- The theorem on a run of two calls, the first of which dies before its first write. -/
theorem recharges_settle_dies_early :
    (storeOf 10).ledger.find? "trace" = none ∧
      ∀ first, first <+: [⟨daytime none, some 0⟩, ⟨daytime none, none⟩] → ∀ w,
        run (total (attempt 0 5 "trace")) ⟨storeOf 10, false⟩ first = some w →
          Settles 0 5 "trace" (storeOf 10) w := by
  refine ⟨rfl, (recharges_settle_iff rfl _).mpr ?_⟩
  refine ⟨fun _ n died => ?_, fun w _ => ⟨fun _ n died => ?_, fun _ _ => trivial⟩⟩
  · cases died
    exact .inl (Nat.zero_le _)
  · cases died

/-- A call that dies after its first write has credited the tenant; its transaction stays
pending, and the next call is refused. -/
theorem credit_left_pending :
    ∃ w, run (total (attempt 0 5 "trace")) ⟨storeOf 10, false⟩ [⟨daytime none, some 1⟩] = some w ∧
      w.store.balance 0 = 15 ∧ ¬ Settles 0 5 "trace" (storeOf 10) w ∧
      (recharge 0 5 "trace" (daytime none) w.store).result =
        .error (.duplicateTransaction "trace") := by
  have refused : (recharge 0 5 "trace" (daytime none)
      (attempt 0 5 "trace" ⟨storeOf 10, false⟩ ⟨daytime none, some 1⟩).store).result =
        .error (.duplicateTransaction "trace") := by rfl
  refine ⟨_, rfl, by decide +kernel, fun settles => ?_, refused⟩
  obtain ⟨tx, returns, _⟩ := settles.returns (daytime none)
  rw [refused] at returns
  cases returns

end Deeting.Billing.Crashes
