import Deeting.Billing.Repository
import Deeting.Transition

/-! `deduct` on the script path, at every point where a call can fail after it took
the idempotency key, and over any sequence of calls under one trace id. The key and
the quota hash are outside the transaction that the savepoint and the caller undo. -/
namespace Deeting.Billing
open Deeting.Quota Deeting.Transition

/-- A call of `deduct` with the point at which it fails, if any, and whether the
caller's transaction is rolled back afterwards. -/
structure Attempt where
  env : Env
  usable : env.usesScript = true
  request : Charge
  allowNegative : Bool
  fault : Fault
  rolledBack : Bool

namespace Attempt

def args (call : Attempt) : DeductArgs :=
  deductArgs call.env.today call.request.amount 1 1 call.allowNegative

def after (call : Attempt) (s : Store) : Store :=
  let (_, hook, t) := deduct call.env call.fault call.request call.allowNegative s
  if call.rolledBack then s.rollback t else t.commit call.env hook

def account (call : Attempt) (s : Store) : Account := s.account call.request.tenantId

def held (call : Attempt) (s : Store) : Bool :=
  s.deductKeys call.request.tenantId call.request.traceId

def found (call : Attempt) (s : Store) : Option BillingTransaction :=
  s.ledger.find? call.request.traceId

/-- The store at a later time, when the tenant's hash holds `h`. -/
def withHash (call : Attempt) (h : QuotaHash) (t : Store) : Store :=
  t.setAccount call.request.tenantId ⟨some h, (call.account t).row⟩

theorem account_withHash (call : Attempt) (h : QuotaHash) (t : Store) :
    call.account (call.withHash h t) = ⟨some h, (call.account t).row⟩ := by
  simp only [account, withHash, Store.setAccount, Function.update_self]

end Attempt

def redisState (env : Env) (a : Account) : ℚ × ℕ × ℕ :=
  let h := foundHash env a
  (h.balance, h.dailyUsedOn env.today, h.monthlyUsedIn env.today.yearMonth)

/-- A later call without a fault is decided by the script alone: whatever the hash
holds by then, if the script accepts, the charge is applied and committed. -/
def CanCharge (call : Attempt) (t : Store) : Prop :=
  ∀ h, ScriptAccepts call.args h → ∃ tx hook u,
    deduct call.env .none call.request call.allowNegative (call.withHash h t) = (.ok tx, hook, u) ∧
    tx.status = .committed ∧ (call.account u).hash = some (charge call.env.stored call.args h)

/-- If no committed transaction survives the call, it has left no trace in Redis and a
later one can charge. -/
def Recovers (call : Attempt) (s : Store) : Prop :=
  (∀ tx ∈ call.found (call.after s), tx.status ≠ .committed) →
    redisState call.env (call.account (call.after s)) = redisState call.env (call.account s) ∧
      CanCharge call (call.after s)

def Stopped (call : Attempt) (s : Store) : Prop :=
  call.fault = .beforeScript ∨ ¬ ScriptAccepts call.args (foundHash call.env (call.account s))

/-- The calls that recover: a committed transaction is there already; or key and trace
id are unused, the key's answer arrives and the lookup works, and either the script is not
reached or refuses and the key can be deleted, or it accepts and the caller commits. -/
def Safe (call : Attempt) (s : Store) : Prop :=
  (∃ tx ∈ call.found s, tx.status = .committed) ∨
    call.held s = false ∧ call.found s = none ∧ call.fault ≠ .key ∧ call.fault ≠ .lookup ∧
      (Stopped call s ∧ call.env.deletes = true ∨
        ¬ Stopped call s ∧ call.fault = .none ∧ call.rolledBack = false)

section Nested
variable {env : Env} {fault : Fault} {c : Charge} {allowNegative : Bool} {s : Store}

theorem foundHash_getOrCreate (env : Env) (a : Account) :
    foundHash env (getOrCreate env false a).2 = foundHash env a := by
  cases stored : a.hash with
  | some h => simp [foundHash, stored]
  | none =>
    simp only [foundHash, getOrCreate_false_hash, stored, getOrCreate_row, Option.getD_none]
    cases a.row with
    | some q => simp only [currentRow, maybeResetQuotas_idem]
    | none => rfl

theorem foundHash_of_stored {a : Account} {h : QuotaHash} (stored : a.hash = some h) :
    foundHash env a = h := by
  simp only [foundHash, stored, Option.getD_some]

theorem deductNested_released (usable : env.usesScript = true)
    (fresh : s.ledger.find? c.traceId = none)
    (stopped : fault = .beforeScript ∨ ¬ ScriptAccepts
      (deductArgs env.today c.amount 1 1 allowNegative) (foundHash env (s.account c.tenantId))) :
    ∃ e u, deductNested env fault c allowNegative s = (.error e, none, s.release env u c) ∧
      u.deductKeys = s.deductKeys ∧ foundHash env ⟨(u.account c.tenantId).hash, (s.account c.tenantId).row⟩ =
        foundHash env (s.account c.tenantId) := by
  obtain ⟨ledger, inserted⟩ := Table.insert?_of_fresh
    (r := pendingDeduct c (currentRow env.today (s.account c.tenantId).row)) fresh
  by_cases early : fault = .beforeScript
  · refine ⟨.fault, s.setAccount c.tenantId (getOrCreate env false (s.account c.tenantId)).2, ?_, rfl, ?_⟩
    · simp only [deductNested, getOrCreate_fst, inserted, early, if_true]
    · simp only [Store.setAccount, Function.update_self, getOrCreate_false_hash]
  · have refuses := stopped.resolve_left early
    rw [← foundHash_getOrCreate] at refuses
    obtain ⟨e, refused⟩ := deductQuotaRedis_of_refuses usable refuses
    refine ⟨.insufficientBalance c.amount e.available, s.setAccount c.tenantId
      (warmedForDeduct env (getOrCreate env false (s.account c.tenantId)).2), ?_, rfl, ?_⟩
    · simp only [deductNested, getOrCreate_fst, inserted, early, if_false, refused]
    · simp only [Store.setAccount, Function.update_self]
      rw [warmedForDeduct_hash usable, foundHash_of_stored rfl, foundHash_getOrCreate]

theorem deductNested_charged (usable : env.usesScript = true)
    (fresh : s.ledger.find? c.traceId = none) (reached : fault ≠ .beforeScript)
    (accepts : ScriptAccepts
      (deductArgs env.today c.amount 1 1 allowNegative) (foundHash env (s.account c.tenantId))) :
    let found := foundHash env (s.account c.tenantId)
    let charged := charge env.stored (deductArgs env.today c.amount 1 1 allowNegative) found
    (fault = .afterScript → ∃ u, deductNested env fault c allowNegative s =
        (.error .fault, none, s.release env u c) ∧ u.deductKeys = s.deductKeys ∧
        (u.account c.tenantId).hash = some charged) ∧
    (fault ≠ .afterScript → ∃ tx updated u, deductNested env fault c allowNegative s =
        (.ok tx, some (c.tenantId, updated), u) ∧ tx.status = .committed ∧
        (u.account c.tenantId).hash = some charged ∧ u.ledger.find? c.traceId = some tx ∧
        updated.balance = Decimal.truncate (luaSub found.balance c.amount)) := by
  intro found charged
  obtain ⟨ledger, inserted⟩ := Table.insert?_of_fresh
    (r := pendingDeduct c (currentRow env.today (s.account c.tenantId).row)) fresh
  rw [← foundHash_getOrCreate] at accepts
  obtain ⟨updated, deducted, balance⟩ : ∃ updated, deductQuotaRedis env c.amount 1 1 allowNegative
      (getOrCreate env false (s.account c.tenantId)).2 =
        (.ok updated, ⟨some charged, some updated⟩) ∧
      updated.balance = Decimal.truncate (luaSub found.balance c.amount) := by
    have deducted := deductQuotaRedis_of_accepts usable accepts
    rw [foundHash_getOrCreate] at deducted
    exact ⟨_, deducted, rfl⟩
  constructor
  · intro late
    refine ⟨(s.setAccount c.tenantId ⟨some charged, some updated⟩).setLedger ledger, ?_, rfl, ?_⟩
    · simp only [deductNested, getOrCreate_fst, inserted, deducted, late, reduceCtorEq, if_false,
        if_true]
    · simp only [Store.setLedger, Store.setAccount, Function.update_self]
  · intro kept
    have entered : ledger.find? c.traceId =
        some (pendingDeduct c (currentRow env.today (s.account c.tenantId).row)) :=
      Table.find?_insert_self inserted
    refine ⟨settleDeduct updated (pendingDeduct c (currentRow env.today (s.account c.tenantId).row)),
      updated,
      ((s.setAccount c.tenantId ⟨some charged, some updated⟩).setLedger ledger).rewrite c.traceId
        (settleDeduct updated) (settleDeduct_traceId updated), ?_, rfl, ?_, ?_, balance⟩
    · simp only [deductNested, getOrCreate_fst, inserted, reached, if_false, deducted, kept]
    · simp only [Store.rewrite, Store.setLedger, Store.setAccount, Function.update_self]
    · simp only [Store.rewrite, Store.setLedger, Table.find?_modify, entered, if_true,
        Option.map_some]

end Nested

section Deduct
variable {env : Env} {fault : Fault} {c : Charge} {allowNegative : Bool} {s : Store}

theorem deduct_held (held : s.deductKeys c.tenantId c.traceId = true) :
    deduct env fault c allowNegative s =
      (replayed c.traceId (s.ledger.find? c.traceId), none, s) := by
  simp only [deduct, held, or_true, if_true]

theorem deduct_free (usable : env.usesScript = true)
    (free : s.deductKeys c.tenantId c.traceId = false) :
    deduct env fault c allowNegative s =
      if fault = .key then (replayed c.traceId (s.ledger.find? c.traceId), none, s.takeKey c)
      else if fault = .lookup then (.error .fault, none, s.takeKey c)
      else
        match s.ledger.find? c.traceId with
        | some existing => (replayed c.traceId (some existing), none, s.takeKey c)
        | none => deductNested env fault c allowNegative (s.takeKey c) := by
  have redis : env.redis = true := (Bool.and_eq_true_iff.mp usable).1
  simp only [deduct, redis, free, Bool.true_eq_false, Bool.false_eq_true, or_self, if_false]
  rfl

theorem replayed_ok {traceId : TraceId} {found : Option BillingTransaction}
    {tx : BillingTransaction} (answered : replayed traceId found = .ok tx) : found ≠ none := by
  rintro rfl
  cases answered

/-- A call that returns a transaction has found it, or has made the charge and leaves the
truncated balance to the commit. -/
theorem deduct_ok {tx : BillingTransaction} {hook : Hook} {t : Store}
    (usable : env.usesScript = true)
    (called : deduct env fault c allowNegative s = (.ok tx, hook, t)) :
    (s.ledger.find? c.traceId ≠ none ∧ hook = none ∧ t.account = s.account) ∨
    (s.ledger.find? c.traceId = none ∧ ∃ updated, hook = some (c.tenantId, updated) ∧
      updated.balance =
        Decimal.truncate (luaSub (foundHash env (s.account c.tenantId)).balance c.amount)) := by
  cases free : s.deductKeys c.tenantId c.traceId with
  | true =>
    rw [deduct_held free] at called
    simp only [Prod.mk.injEq] at called
    obtain ⟨answered, rfl, rfl⟩ := called
    exact .inl ⟨replayed_ok answered, rfl, rfl⟩
  | false =>
    rw [deduct_free usable free] at called
    split at called
    · simp only [Prod.mk.injEq] at called
      obtain ⟨answered, rfl, rfl⟩ := called
      exact .inl ⟨replayed_ok answered, rfl, rfl⟩
    split at called
    · cases called
    split at called
    · rename_i existing found
      simp only [Prod.mk.injEq] at called
      obtain ⟨_, rfl, rfl⟩ := called
      exact .inl ⟨by simp [found], rfl, rfl⟩
    · rename_i fresh
      have fresh' : (s.takeKey c).ledger.find? c.traceId = none := fresh
      by_cases stopped : fault = .beforeScript ∨ ¬ ScriptAccepts
          (deductArgs env.today c.amount 1 1 allowNegative)
          (foundHash env ((s.takeKey c).account c.tenantId))
      · obtain ⟨e, u, nested, -⟩ := deductNested_released usable fresh' stopped
        rw [nested] at called
        cases called
      · obtain ⟨reached, accepts⟩ := not_or.mp stopped
        obtain ⟨lost, kept⟩ := deductNested_charged usable fresh' reached (not_not.mp accepts)
        by_cases late : fault = .afterScript
        · obtain ⟨u, nested, _⟩ := lost late
          rw [nested] at called
          cases called
        · obtain ⟨_, updated, u, nested, _, _, _, balance⟩ := kept late
          rw [nested] at called
          simp only [Prod.mk.injEq] at called
          exact .inr ⟨fresh, updated, called.2.1.symm, balance⟩

end Deduct

section CanCharge
variable {call : Attempt} {t : Store}

def acceptingHash (call : Attempt) : QuotaHash :=
  ⟨call.request.amount, 0, 1, 0, call.env.today, 1, 0, call.env.today.yearMonth, 0⟩

theorem acceptingHash_accepts (call : Attempt) : ScriptAccepts call.args (acceptingHash call) := by
  have same : luaAdd call.request.amount 0 = Decimal.double call.request.amount := by
    simp [luaAdd, Decimal.double_double]
  refine ⟨.inr ?_, ?_, ?_⟩ <;>
    simp [Attempt.args, deductArgs, acceptingHash, same, QuotaHash.dailyUsedOn,
      QuotaHash.monthlyUsedIn]

theorem charge_ne (stored : ℚ → ℚ) (args : DeductArgs) (h : QuotaHash) :
    some (charge stored args h) ≠ some h := by
  intro same
  have versions := congrArg QuotaHash.version (Option.some.inj same)
  simp [charge] at versions

theorem canCharge_iff :
    CanCharge call t ↔ call.held t = false ∧ call.found t = none := by
  constructor
  · intro able
    obtain ⟨tx, hook, u, called, _, charged⟩ := able _ (acceptingHash_accepts call)
    -- any early return leaves the hash as it was put there
    have untouched (kept : (call.account u).hash = some (acceptingHash call)) : False :=
      charge_ne _ call.args (acceptingHash call) (charged.symm.trans kept)
    have later := call.account_withHash (acceptingHash call) t
    by_contra taken
    cases held : call.held t with
    | true =>
      rw [deduct_held (s := call.withHash (acceptingHash call) t) held] at called
      obtain rfl : call.withHash (acceptingHash call) t = u := congrArg (fun r => r.2.2) called
      exact untouched (by rw [later])
    | false =>
      obtain ⟨existing, found⟩ := Option.ne_none_iff_exists'.mp fun none => taken ⟨held, none⟩
      have found : (call.withHash (acceptingHash call) t).ledger.find? call.request.traceId =
        some existing := found
      rw [deduct_free (s := call.withHash (acceptingHash call) t) call.usable held, found] at called
      obtain rfl : (call.withHash (acceptingHash call) t).takeKey call.request = u :=
        congrArg (fun r => r.2.2) called
      exact untouched (congrArg Account.hash later)
  · rintro ⟨free, none⟩ h accepts
    have later : foundHash call.env
        (((call.withHash h t).takeKey call.request).account call.request.tenantId) = h :=
      foundHash_of_stored (congrArg Account.hash (call.account_withHash h t))
    have fresh : (call.withHash h t).ledger.find? call.request.traceId = Option.none := none
    obtain ⟨_, committed⟩ := deductNested_charged
      (s := (call.withHash h t).takeKey call.request) call.usable fresh
      (show Fault.none ≠ .beforeScript by decide) (later.symm ▸ accepts)
    obtain ⟨tx, updated, u, called, status, hash, _⟩ := committed (by decide)
    refine ⟨tx, some (call.request.tenantId, updated), u, ?_, status, later ▸ hash⟩
    rw [deduct_free (s := call.withHash h t) call.usable free, fresh]
    exact called

end CanCharge

section Recovery
variable {call : Attempt} {s t : Store}

theorem after_of_undone {result : Except BillingError BillingTransaction}
    (called : deduct call.env call.fault call.request call.allowNegative s = (result, none, t))
    (ledger : t.ledger = s.ledger) (rows : ∀ x, (t.account x).row = (s.account x).row) :
    call.after s = t := by
  have undone : s.rollback t = t := by
    obtain ⟨account, ledger', keys⟩ := t
    simp only [Store.rollback, ← ledger, ← rows]
  simp only [Attempt.after, called, undone, Store.commit, ite_self]

theorem redisState_charge_ne {a b : Account}
    (charged : a.hash = some (charge call.env.stored call.args (foundHash call.env b))) :
    redisState call.env a ≠ redisState call.env b := by
  intro same
  have counts := congrArg (fun state => state.2.1) same
  have added :
      (charge call.env.stored call.args (foundHash call.env b)).dailyUsedOn call.env.today =
        (foundHash call.env b).dailyUsedOn call.env.today + 1 := dailyUsedOn_charge _ call.args _
  simp only [redisState, foundHash_of_stored charged, added] at counts
  omega

/-- A call that ends with the key in hand recovers only if a committed row was there. -/
theorem recovers_of_held (held : call.held (call.after s) = true)
    (found : call.found (call.after s) = call.found s) :
    Recovers call s ↔ ∃ tx ∈ call.found s, tx.status = .committed := by
  simp only [Recovers, found]
  constructor
  · intro recovers
    by_contra none
    obtain ⟨_, able⟩ := recovers fun tx mem committed => none ⟨tx, mem, committed⟩
    have free := (canCharge_iff.mp able).1
    exact Bool.noConfusion (held.symm.trans free)
  · rintro ⟨tx, mem, committed⟩ open_
    exact absurd committed (open_ tx mem)

theorem release_held (s u : Store) : call.held (s.release call.env u call.request) =
    if call.env.deletes then false else call.held u := by
  simp only [Attempt.held, Store.release]
  split
  · simp
  · rfl

theorem takeKey_held : call.held (s.takeKey call.request) = true := by
  simp [Attempt.held, Store.takeKey]

section Unused
variable (free : call.held s = false) (answered : call.fault ≠ .key)
  (lookup : call.fault ≠ .lookup) (unused : call.found s = none)
include free answered lookup unused

theorem deduct_unused :
    deduct call.env call.fault call.request call.allowNegative s =
      deductNested call.env call.fault call.request call.allowNegative
        (s.takeKey call.request) := by
  have unused : s.ledger.find? call.request.traceId = none := unused
  rw [deduct_free call.usable free, if_neg answered, if_neg lookup, unused]

theorem recovers_of_stopped (stopped : Stopped call s) :
    Recovers call s ↔ call.env.deletes = true := by
  obtain ⟨e, u, nested, keys, kept⟩ := deductNested_released (s := s.takeKey call.request)
    call.usable unused stopped
  have after := after_of_undone ((deduct_unused free answered lookup unused).trans nested) rfl
    fun _ => rfl
  have taken : call.held u = true := by
    rw [Attempt.held, keys]
    exact takeKey_held
  have held := @release_held call (s.takeKey call.request) u
  cases deletes : call.env.deletes with
  | true =>
    simp only [deletes, if_true] at held
    refine iff_of_true (fun _ => ?_) rfl
    rw [after]
    refine ⟨?_, canCharge_iff.mpr ⟨held, unused⟩⟩
    have same : foundHash call.env
        (call.account ((s.takeKey call.request).release call.env u call.request)) =
          foundHash call.env (call.account s) := kept
    simp only [redisState, same]
  | false =>
    simp only [deletes, Bool.false_eq_true, if_false, taken] at held
    rw [recovers_of_held (after.symm ▸ held) (after.symm ▸ rfl), unused]
    simp

theorem recovers_of_accepted (reached : call.fault ≠ .beforeScript)
    (accepts : ScriptAccepts call.args (foundHash call.env (call.account s))) :
    Recovers call s ↔ call.fault = .none ∧ call.rolledBack = false := by
  obtain ⟨lost, kept⟩ := deductNested_charged (s := s.takeKey call.request) call.usable unused
    reached accepts
  by_cases late : call.fault = .afterScript
  · obtain ⟨u, nested, -, charged⟩ := lost late
    have after := after_of_undone ((deduct_unused free answered lookup unused).trans nested) rfl
      fun _ => rfl
    let released := (s.takeKey call.request).release call.env u call.request
    refine iff_of_false (fun recovers => ?_) fun ok => by simp [late] at ok
    rw [Recovers] at recovers
    rw [after] at recovers
    have open_ : ∀ tx ∈ call.found released, tx.status ≠ .committed := fun tx mem => by
      rw [show call.found released = none from unused] at mem
      cases mem
    have charged : (call.account released).hash =
        some (charge call.env.stored call.args (foundHash call.env (call.account s))) := charged
    exact redisState_charge_ne charged (recovers open_).1
  · obtain ⟨tx, updated, u, nested, committed, charged, entered, _⟩ := kept late
    have called := (deduct_unused free answered lookup unused).trans nested
    have none : call.fault = .none := by
      cases fault : call.fault with
      | none => rfl
      | key => exact absurd fault answered
      | lookup => exact absurd fault lookup
      | beforeScript => exact absurd fault reached
      | afterScript => exact absurd fault late
    cases rolled : call.rolledBack with
    | true =>
      have after : call.after s = s.rollback u := by
        simp only [Attempt.after, called, rolled, if_true]
      refine iff_of_false (fun recovers => ?_) fun ok => by simp at ok
      rw [Recovers] at recovers
      rw [after] at recovers
      have open_ : ∀ tx ∈ call.found (s.rollback u), tx.status ≠ .committed := fun tx mem => by
        rw [show call.found (s.rollback u) = Option.none from unused] at mem
        cases mem
      have charged : (call.account (s.rollback u)).hash =
          some (charge call.env.stored call.args (foundHash call.env (call.account s))) := charged
      exact redisState_charge_ne charged (recovers open_).1
    | false =>
      have after : call.after s = u.commit call.env (some (call.request.tenantId, updated)) := by
        simp only [Attempt.after, called, rolled, Bool.false_eq_true, if_false]
      refine iff_of_true (fun open_ => ?_) ⟨none, rfl⟩
      rw [after] at open_
      exact absurd committed (open_ tx entered)

end Unused

theorem after_of_held (held : call.held s = true) : call.after s = s :=
  after_of_undone (deduct_held held) rfl fun _ => rfl

/-- A call that gets no further than the lookup leaves the key behind and nothing else. -/
theorem after_of_early (free : call.held s = false)
    (early : call.fault = .key ∨ call.fault = .lookup ∨ call.found s ≠ none) :
    call.after s = s.takeKey call.request := by
  have called : ∃ result, deduct call.env call.fault call.request call.allowNegative s =
      (result, none, s.takeKey call.request) := by
    rw [deduct_free call.usable free]
    split
    · exact ⟨_, rfl⟩
    rename_i answered
    split
    · exact ⟨_, rfl⟩
    rename_i lookup
    split
    · exact ⟨_, rfl⟩
    rename_i fresh
    exact absurd fresh ((early.resolve_left answered).resolve_left lookup)
  obtain ⟨result, called⟩ := called
  exact after_of_undone called rfl fun _ => rfl

theorem recovers_iff_safe : Recovers call s ↔ Safe call s := by
  rw [Safe]
  cases free : call.held s with
  | true =>
    have after := after_of_held free
    rw [recovers_of_held (after.symm ▸ free) (after.symm ▸ rfl)]
    simp
  | false =>
    by_cases early : call.fault = .key ∨ call.fault = .lookup ∨ call.found s ≠ none
    · have after := after_of_early free early
      rw [recovers_of_held (after.symm ▸ takeKey_held) (after.symm ▸ rfl)]
      refine ⟨.inl, fun safe => safe.resolve_right ?_⟩
      rintro ⟨-, unused, answered, lookup, -⟩
      exact ((early.resolve_left answered).resolve_left lookup) unused
    · obtain ⟨answered, rest⟩ := not_or.mp early
      obtain ⟨lookup, fresh⟩ := not_or.mp rest
      have unused := not_not.mp fresh
      by_cases stopped : Stopped call s
      · rw [recovers_of_stopped free answered lookup unused stopped]
        simp [unused, answered, lookup, stopped]
      · obtain ⟨reached, accepts⟩ := not_or.mp stopped
        rw [recovers_of_accepted free answered lookup unused reached (not_not.mp accepts)]
        simp [unused, answered, lookup, stopped]

theorem after_of_committed (call : Attempt) {tx : BillingTransaction} (found : call.found s = some tx) :
    (call.after s).account = s.account ∧ (call.after s).ledger = s.ledger := by
  cases free : call.held s with
  | true => exact (after_of_held free).symm ▸ ⟨rfl, rfl⟩
  | false => exact (after_of_early free (.inr (.inr (by simp [found])))).symm ▸ ⟨rfl, rfl⟩

end Recovery

/-- A sequence of calls with the number of those that changed what the script sees. -/
structure Sequence where
  store : Store
  applied : ℕ

def Applies (call : Attempt) (s : Store) : Prop :=
  redisState call.env (call.account (call.after s)) ≠ redisState call.env (call.account s)

instance (call : Attempt) (s : Store) : Decidable (Applies call s) :=
  inferInstanceAs (Decidable (_ ≠ _))

def Sequence.next (q : Sequence) (call : Attempt) : Sequence where
  store := call.after q.store
  applied := q.applied + if Applies call q.store then 1 else 0

def AtMostOne (trace : TraceId) (q : Sequence) : Prop :=
  q.applied = 0 ∨
    q.applied = 1 ∧ ∃ tx ∈ q.store.ledger.find? trace, tx.status = .committed

theorem next_atMostOne {trace : TraceId} {q : Sequence} {call : Attempt}
    (once : AtMostOne trace q) (same : call.request.traceId = trace) (safe : Safe call q.store) :
    AtMostOne trace (q.next call) := by
  cases same
  rcases once with none | ⟨one, tx, found, committed⟩
  · by_cases applies : Applies call q.store
    · right
      refine ⟨by simp [Sequence.next, none, applies], ?_⟩
      by_contra open_
      exact applies (recovers_iff_safe.mpr safe fun tx mem committed =>
        open_ ⟨tx, mem, committed⟩).1
    · exact .inl (by simp [Sequence.next, none, applies])
  · obtain ⟨account, ledger⟩ := after_of_committed call found
    have idle : ¬ Applies call q.store := by
      simp [Applies, Attempt.account, account]
    refine .inr ⟨by simp [Sequence.next, one, idle], tx, ?_, committed⟩
    simpa only [Sequence.next, ledger] using found

/-- A call of the sequence is for the trace id and meets the condition. -/
def SafeFor (trace : TraceId) (q : Sequence) (call : Attempt) : Prop :=
  call.request.traceId = trace ∧ Safe call q.store

/-- `deduct` is undone or committed as a whole exactly for the `Safe` calls, and a
sequence of them under one trace id applies at most one deduction. -/
theorem deduct_exactly_once (trace : TraceId) :
    (∀ call s, Recovers call s ↔ Safe call s) ∧
      ∀ s calls q, Along (total Sequence.next) (SafeFor trace) ⟨s, 0⟩ calls →
        run (total Sequence.next) ⟨s, 0⟩ calls = some q → q.applied ≤ 1 := by
  refine ⟨fun call s => recovers_iff_safe, ?_⟩
  intro s calls q safe reached
  have once : AtMostOne trace q := by
    refine run_invariant (fun once ok taken => ?_) (.inl rfl) safe reached
    cases taken
    exact next_atMostOne once ok.1 ok.2
  rcases once with none | one
  · omega
  · exact one.1.le

def threeCredits (fault : Fault) : Attempt :=
  ⟨scriptEnv, rfl, { tenantId := 1, amount := 3, traceId := "trace" }, false, fault, false⟩

/-- A call that fails before the script, and its retry. -/
theorem deduct_once_after_retry :
    ∃ q, run (total Sequence.next) ⟨storeOf 10, 0⟩ [threeCredits .beforeScript, threeCredits .none] =
      some q ∧ q.applied ≤ 1 := by
  have failed : SafeFor "trace" ⟨storeOf 10, 0⟩ (threeCredits .beforeScript) :=
    ⟨rfl, .inr ⟨rfl, rfl, by decide, by decide, .inl ⟨.inl rfl, rfl⟩⟩⟩
  have accepts : ¬ Stopped (threeCredits .none)
      (Sequence.next ⟨storeOf 10, 0⟩ (threeCredits .beforeScript)).store := by
    rintro (early | refuses)
    · cases early
    · exact refuses (by decide +kernel)
  have retried : SafeFor "trace" (Sequence.next ⟨storeOf 10, 0⟩ (threeCredits .beforeScript))
      (threeCredits .none) :=
    ⟨rfl, .inr ⟨by decide +kernel, by decide +kernel, by decide, by decide,
      .inr ⟨accepts, rfl, rfl⟩⟩⟩
  have safe : Along (total Sequence.next) (SafeFor "trace") ⟨storeOf 10, 0⟩
      [threeCredits .beforeScript, threeCredits .none] :=
    ⟨failed, fun _ taken => Option.some.inj taken ▸ ⟨retried, fun _ _ => trivial⟩⟩
  exact ⟨_, rfl, (deduct_exactly_once "trace").2 (storeOf 10) _ _ safe rfl⟩

/-- The charge of a call that fails at its last flush stays in the hash, and the retry
charges again. -/
theorem failed_flush_keeps_charge :
    ¬ Recovers (threeCredits .afterScript) (storeOf 10) ∧
      ∃ q, run (total Sequence.next) ⟨storeOf 10, 0⟩
          [threeCredits .afterScript, threeCredits .none] = some q ∧
        q.applied = 2 ∧ ((q.store.account 1).hash.map QuotaHash.balance) = some 4 := by
  constructor
  · intro recovers
    have gone : (threeCredits .afterScript).found
      ((threeCredits .afterScript).after (storeOf 10)) = none := by decide +kernel
    have kept := (recovers fun tx mem => by simp [gone] at mem).1
    have changed : Applies (threeCredits .afterScript) (storeOf 10) := by decide +kernel
    exact changed kept
  · refine ⟨_, rfl, ?_⟩
    decide +kernel

end Deeting.Billing
