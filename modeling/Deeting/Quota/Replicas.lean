import Deeting.Quota.Operations
import Deeting.Transition
import Mathlib.Logic.Function.Basic

/-! The two replicas of a balance under concurrent writers. A Redis command, a
script and a committed SQL statement are one step each; between the steps of one
call any others may happen. The hash is where deductions and settlements are
applied, until its time to live ends; the row is where top-ups are applied and then copied over
the hash, as the session's object shows it: `expire_on_commit` is off, a `SELECT` gives a held
object back, and an update is carried out on the object as on the row. Beside the replicas run the
totals a balance should show. -/
namespace Deeting.Quota
open Deeting.Transition Deeting.Decimal

/-- What a session holds; it `warms` when its `EXISTS` has found no hash. -/
inductive Proc where
  | idle
  | missing
  | holding (q : TenantQuota) (warms : Bool)
  | pushing (q : TenantQuota) (amount : ℚ) (warms : Bool)
  | syncing (h : QuotaHash)
  | syncLoaded (h : QuotaHash) (q : TenantQuota)

/-- `pending` is for the statements: the top-ups that are committed and not yet copied to the hash.
So is `lastBalance`, the balance of a hash that has come to its end. -/
structure Replicas where
  hash : Option QuotaHash
  row : TenantQuota
  proc : ℕ → Proc
  topUps : ℚ
  charged : ℚ
  pending : ℚ
  lastBalance : ℚ

def Replicas.balance (s : Replicas) : ℚ := s.hash.elim s.lastBalance QuotaHash.balance

/-- `select` is the first select of `get_or_create` in a session, `reset` the committed update of
`_maybe_reset_quotas`, `credit` that of `add_balance`, `exists` the `EXISTS` of a warm-up, `warm` its
turn to copy, `push` the `HSET` of `_sync_redis_hash` or of the warm-up, which is `written` or fails
silently. A session that `leave`s has no object any more. -/
inductive ReplicaAct where
  | deduct (today : Date) (estimatedCost : ℚ)
  | settle (amountDiff : ℚ)
  | expire
  | exists (i : ℕ)
  | select (i : ℕ)
  | warm (i : ℕ) (today : Date)
  | leave (i : ℕ)
  | reset (i : ℕ) (today : Date)
  | credit (i : ℕ) (amount : ℚ)
  | push (i : ℕ) (today : Date) (written : Bool)
  | syncRead (i : ℕ)
  | syncSelect (i : ℕ)
  | syncCommit (i : ℕ)

/-- The flush of `_sync_quota_row`: an attribute that was assigned the value it was
loaded with is not part of the update. -/
def flushSync (h : QuotaHash) (q current : TenantQuota) : TenantQuota :=
  if (syncQuotaRow h q).1 = .skipped then current
  else
    { current with
      balance := if h.balance = q.balance then current.balance else numeric6 h.balance
      dailyUsed := if h.dailyUsed = q.dailyUsed then current.dailyUsed else h.dailyUsed
      monthlyUsed := if h.monthlyUsed = q.monthlyUsed then current.monthlyUsed else h.monthlyUsed
      version := if h.version = q.version then current.version else h.version }

/-- The update of `_maybe_reset_quotas`, of what is due on the object. -/
def TenantQuota.reset (today : Date) (q current : TenantQuota) : TenantQuota :=
  { current with
    dailyUsed := if dailyResetDue today q then 0 else current.dailyUsed
    dailyResetAt := if dailyResetDue today q then some today else current.dailyResetAt
    monthlyUsed := if monthlyResetDue today q then 0 else current.monthlyUsed
    monthlyResetAt :=
      if monthlyResetDue today q then some today.firstOfMonth else current.monthlyResetAt }

/-- The update of `add_balance`, on the row, where the column rounds, or on the object. -/
def TenantQuota.credit (column : ℚ → ℚ) (q : TenantQuota) (amount : ℚ) : TenantQuota :=
  { q with balance := column (q.balance + amount), version := q.version + 1 }

section Machine
variable {stored : ℚ → ℚ} {s t : Replicas} {a : ReplicaAct} {initial : ℚ}

def Replicas.advance (s : Replicas) (i : ℕ) (p : Proc) : Replicas :=
  { s with proc := Function.update s.proc i p }

def replicaStep (stored : ℚ → ℚ) (s : Replicas) : ReplicaAct → Option Replicas
  | .deduct today estimatedCost =>
      let (reply, hash) := quotaDeduct stored (deductArgs today estimatedCost 1 1 false) s.hash
      some { s with
        hash, charged := if reply.accepted then s.charged + estimatedCost else s.charged }
  | .settle amountDiff =>
      if |amountDiff| < 1 / 1000000 then some s
      else
        some { s with
          hash := (adjustScript amountDiff s.hash).2, charged := s.charged + amountDiff }
  | .expire => some { s with hash := none, lastBalance := s.balance }
  | .exists i =>
      match s.proc i, s.hash with
      | .idle, none => some (s.advance i .missing)
      | .holding q _, none => some (s.advance i (.holding q true))
      | _, _ => none
  | .select i =>
      match s.proc i with
      | .idle => some (s.advance i (.holding s.row false))
      | .missing => some (s.advance i (.holding s.row true))
      | _ => none
  | .warm i today =>
      match s.proc i with
      | .holding q true => if resetDue today q then none else some (s.advance i (.pushing q 0 false))
      | _ => none
  | .leave i =>
      match s.proc i with
      | .holding .. => some (s.advance i .idle)
      | _ => none
  | .reset i today =>
      match s.proc i with
      | .holding q warms =>
          if resetDue today q then
            some { s.advance i (.pushing (q.reset today q) 0 warms) with
              row := q.reset today s.row }
          else none
      | _ => none
  | .credit i amount =>
      match s.proc i with
      | .holding q false =>
          some { s.advance i (.pushing (q.credit id amount) amount false) with
            row := s.row.credit numeric6 amount, pending := s.pending + amount }
      | _ => none
  | .push i today written =>
      match s.proc i with
      | .pushing q amount warms =>
          some { s.advance i (.holding q warms) with
            hash := if written then some (quotaPayload today q) else s.hash
            topUps := s.topUps + amount
            pending := s.pending - amount }
      | _ => none
  | .syncRead i =>
      match s.proc i, s.hash with
      | .idle, some h => some (s.advance i (.syncing h))
      | _, _ => none
  | .syncSelect i =>
      match s.proc i with
      | .syncing h => some (s.advance i (.syncLoaded h s.row))
      | _ => none
  | .syncCommit i =>
      match s.proc i with
      | .syncLoaded h q => some { s.advance i .idle with row := flushSync h q s.row }
      | _ => none

inductive ReplicaSteps (stored : ℚ → ℚ) (s : Replicas) : ReplicaAct → Replicas → Prop where
  | deduct (today : Date) (estimatedCost : ℚ) {reply : DeductReply} {hash : Option QuotaHash}
      (answered : quotaDeduct stored (deductArgs today estimatedCost 1 1 false) s.hash =
        (reply, hash)) :
      ReplicaSteps stored s (.deduct today estimatedCost)
        { s with
          hash, charged := if reply.accepted then s.charged + estimatedCost else s.charged }
  | settleNothing {amountDiff : ℚ} (small : |amountDiff| < 1 / 1000000) :
      ReplicaSteps stored s (.settle amountDiff) s
  | settle {amountDiff : ℚ} (large : ¬ |amountDiff| < 1 / 1000000) :
      ReplicaSteps stored s (.settle amountDiff)
        { s with
          hash := (adjustScript amountDiff s.hash).2, charged := s.charged + amountDiff }
  | expire : ReplicaSteps stored s .expire { s with hash := none, lastBalance := s.balance }
  | advance {a : ReplicaAct} (i : ℕ) (p : Proc) (waits : ∀ i today written, a ≠ .push i today written)
      (kept : a ≠ .expire) : ReplicaSteps stored s a (s.advance i p)
  | reset {i : ℕ} {today : Date} (q : TenantQuota) (warms : Bool) :
      ReplicaSteps stored s (.reset i today)
        { s.advance i (.pushing (q.reset today q) 0 warms) with row := q.reset today s.row }
  | credit {i : ℕ} (q : TenantQuota) (amount : ℚ) :
      ReplicaSteps stored s (.credit i amount)
        { s.advance i (.pushing (q.credit id amount) amount false) with
          row := s.row.credit numeric6 amount, pending := s.pending + amount }
  | push {i : ℕ} {q : TenantQuota} {amount : ℚ} {warms : Bool} (today : Date) (written : Bool)
      (called : s.proc i = .pushing q amount warms) :
      ReplicaSteps stored s (.push i today written)
        { s.advance i (.holding q warms) with
          hash := if written then some (quotaPayload today q) else s.hash
          topUps := s.topUps + amount
          pending := s.pending - amount }
  | syncCommit {i : ℕ} {h : QuotaHash} {q : TenantQuota} (called : s.proc i = .syncLoaded h q) :
      ReplicaSteps stored s (.syncCommit i)
        { s.advance i .idle with row := flushSync h q s.row }

theorem ReplicaSteps.of_step (taken : replicaStep stored s a = some t) : ReplicaSteps stored s a t := by
  cases a with
  | deduct today estimatedCost =>
    cases taken
    exact .deduct today estimatedCost rfl
  | settle amountDiff =>
    rw [replicaStep] at taken
    split at taken <;> cases taken
    · exact .settleNothing ‹_›
    · exact .settle ‹_›
  | expire =>
    cases taken
    exact .expire
  | «exists» i | select i =>
    rw [replicaStep] at taken
    split at taken <;> cases taken
    · exact .advance i _ (by simp) (by simp)
    · exact .advance i _ (by simp) (by simp)
  | leave i | syncRead i | syncSelect i =>
    rw [replicaStep] at taken
    split at taken <;> cases taken
    exact .advance i _ (by simp) (by simp)
  | warm i today =>
    rw [replicaStep] at taken
    split at taken
    · split at taken <;> cases taken
      exact .advance i _ (by simp) (by simp)
    · cases taken
  | reset i today =>
    rw [replicaStep] at taken
    split at taken
    · split at taken <;> cases taken
      exact .reset _ _
    · cases taken
  | credit i amount =>
    rw [replicaStep] at taken
    split at taken <;> cases taken
    exact .credit _ amount
  | push i today written =>
    rw [replicaStep] at taken
    split at taken <;> cases taken
    exact .push today written ‹_›
  | syncCommit i =>
    rw [replicaStep] at taken
    split at taken <;> cases taken
    exact .syncCommit ‹_›

def Proc.PushSound (balance : ℚ) (written : Bool) : Proc → Prop
  | .pushing q amount _ => if written then q.balance = balance + amount else amount = 0
  | _ => True

def Proc.CommitSound (row : TenantQuota) : Proc → Prop
  | .syncLoaded h q => (flushSync h q row).balance = row.balance
  | _ => True

/-- No rounding by a script or the column, no settlement on a hash that is not there, and no row
behind the hash where it takes its place. -/
def KeepsBalance (stored : ℚ → ℚ) (s : Replicas) : ReplicaAct → Prop
  | .deduct today cost => ∀ h ∈ s.hash, ScriptAccepts (deductArgs today cost 1 1 false) h →
      stored (luaSub h.balance cost) = h.balance - cost
  | .settle amountDiff => |amountDiff| < 1 / 1000000 ∨
      s.hash.elim False fun h => adjusted h.balance amountDiff = h.balance - amountDiff
  | .expire => s.row.balance = s.balance + s.pending
  | .credit _ amount => numeric6 (s.row.balance + amount) = s.row.balance + amount
  | .push i _ written => (s.proc i).PushSound s.balance written
  | .syncCommit i => s.hash = none → (s.proc i).CommitSound s.row
  | _ => True

section Instances

instance (balance : ℚ) (written : Bool) : (p : Proc) → Decidable (p.PushSound balance written)
  | .pushing q amount _ =>
      inferInstanceAs (Decidable (if written then q.balance = balance + amount else amount = 0))
  | .idle | .missing | .holding .. | .syncing _ | .syncLoaded .. => instDecidableTrue

instance (row : TenantQuota) : (p : Proc) → Decidable (p.CommitSound row)
  | .syncLoaded h q => inferInstanceAs (Decidable ((flushSync h q row).balance = row.balance))
  | .idle | .missing | .holding .. | .syncing _ | .pushing .. => instDecidableTrue

instance (hash : Option QuotaHash) (p : QuotaHash → Prop) [DecidablePred p] :
    Decidable (hash.elim False p) :=
  match hash with
  | none => instDecidableFalse
  | some h => inferInstanceAs (Decidable (p h))

instance (stored : ℚ → ℚ) (s : Replicas) : (a : ReplicaAct) → Decidable (KeepsBalance stored s a)
  | .deduct .. => inferInstanceAs (Decidable (∀ h ∈ s.hash, _ → _ = _))
  | .settle _ => inferInstanceAs (Decidable (_ ∨ s.hash.elim False _))
  | .expire | .credit .. => inferInstanceAs (Decidable (_ = _))
  | .push i _ written => inferInstanceAs (Decidable ((s.proc i).PushSound s.balance written))
  | .syncCommit i => inferInstanceAs (Decidable (_ → (s.proc i).CommitSound s.row))
  | .exists _ | .select _ | .warm .. | .leave _ | .reset .. | .syncRead _ | .syncSelect _ =>
    instDecidableTrue

end Instances

structure Replicas.Fresh (s : Replicas) : Prop where
  equal : s.hash.map QuotaHash.balance = some s.row.balance
  idle : ∀ i, s.proc i = .idle
  topUps : s.topUps = 0
  charged : s.charged = 0
  pending : s.pending = 0

/-- What the balance should be, given the one the run started with. -/
def Replicas.expected (s : Replicas) (initial : ℚ) : ℚ := initial + s.topUps - s.charged

structure Replicas.InLine (s : Replicas) (initial : ℚ) : Prop where
  balance : s.balance = s.expected initial
  row : s.hash = none → s.row.balance = s.balance + s.pending

/-- A push leaves the balance in line with the totals exactly when it carries what it should. -/
theorem push_balanced_iff {i : ℕ} {q : TenantQuota} {amount : ℚ} {warms : Bool} {today : Date}
    {written : Bool} (balanced : s.balance = s.expected initial)
    (called : s.proc i = .pushing q amount warms) :
    (if written then some (quotaPayload today q) else s.hash).elim s.lastBalance
        QuotaHash.balance = initial + (s.topUps + amount) - s.charged ↔
      KeepsBalance stored s (.push i today written) := by
  unfold Replicas.expected at balanced
  simp only [KeepsBalance, called, Proc.PushSound]
  cases written with
  | true =>
    simp only [if_true, Option.elim_some, quotaPayload_balance]
    constructor
    · intro inLine
      linarith
    · intro carried
      linarith
  | false =>
    rw [Replicas.balance] at balanced
    simp only [Bool.false_eq_true, if_false]
    constructor
    · intro inLine
      linarith
    · intro carried
      linarith

theorem replicaStep_balanced (balanced : s.balance = s.expected initial)
    (keeps : KeepsBalance stored s a) (taken : replicaStep stored s a = some t) :
    t.balance = t.expected initial := by
  cases ReplicaSteps.of_step taken with
  | deduct today estimatedCost answered =>
    have charges := quotaDeduct_cases stored (deductArgs today estimatedCost 1 1 false) s.hash
    rw [answered] at charges
    obtain ⟨h, found, accepts, accepted, after⟩ | ⟨refused, after⟩ := charges
    · have exact_ := keeps h found accepts
      unfold Replicas.expected Replicas.balance at balanced ⊢
      dsimp only at accepted after
      simp only [found, accepted, after, if_true, Option.elim_some, charge, deductArgs,
        exact_] at balanced ⊢
      linarith
    · dsimp only at refused after
      simpa only [Replicas.expected, Replicas.balance, refused, after, Bool.false_eq_true,
        if_false] using balanced
  | settle large =>
    have exact_ := keeps.resolve_left large
    unfold Replicas.expected Replicas.balance at balanced ⊢
    cases found : s.hash with
    | none => simp [found] at exact_
    | some h =>
      simp only [found, Option.elim_some] at exact_ balanced
      simp only [adjustScript, Option.elim_some, exact_]
      linarith
  | push today written called => exact (push_balanced_iff balanced called).mpr keeps
  | _ => exact balanced

theorem Replicas.InLine.step (held : s.InLine initial) (keeps : KeepsBalance stored s a)
    (taken : replicaStep stored s a = some t) : t.InLine initial := by
  refine ⟨replicaStep_balanced held.balance keeps taken, fun absent => ?_⟩
  cases ReplicaSteps.of_step taken with
  | @deduct today estimatedCost reply hash answered =>
    obtain rfl : hash = none := absent
    have charges := quotaDeduct_cases stored (deductArgs today estimatedCost 1 1 false) s.hash
    rw [answered] at charges
    obtain ⟨h, -, -, -, after⟩ | ⟨-, after⟩ := charges
    · cases after
    · have row := held.row after.symm
      rw [Replicas.balance, ← show none = s.hash from after] at row
      exact row
  | settle large =>
    have exact_ := keeps.resolve_left large
    cases found : s.hash with
    | none => simp [found] at exact_
    | some h => simp [adjustScript, found] at absent
  | settleNothing small => exact held.row absent
  | expire => exact keeps
  | advance i p => exact held.row absent
  | reset => exact held.row absent
  | credit q amount =>
    have row := held.row absent
    have kept : (s.row.credit numeric6 amount).balance = s.row.balance + amount := keeps
    change (s.row.credit numeric6 amount).balance = s.balance + (s.pending + amount)
    rw [kept, row, add_assoc]
  | @push i q amount warms today written called =>
    cases written with
    | true => cases absent
    | false =>
      have nothing := keeps
      rw [KeepsBalance, called, Proc.PushSound, if_neg Bool.false_ne_true] at nothing
      have row := held.row absent
      change s.row.balance = s.balance + (s.pending - amount)
      rw [nothing, sub_zero]
      exact row
  | @syncCommit i h q called =>
    have kept := keeps absent
    rw [called, Proc.CommitSound] at kept
    exact kept.trans (held.row absent)

theorem flushSync_close (h : QuotaHash) (q : TenantQuota) :
    |(flushSync h q q).balance - h.balance| < 1 / 1000000 := by
  rw [flushSync]
  split
  · rename_i skipped
    rw [syncQuotaRow] at skipped
    split at skipped
    · rename_i close
      rw [abs_sub_comm]
      exact close.1
    · cases skipped
  · dsimp only
    split
    · rename_i same
      rw [same, sub_self, abs_zero]
      norm_num
    · exact abs_numeric6_sub_lt h.balance

theorem flushSync_micro {h : QuotaHash} {q current : TenantQuota} (micro : Micro current.balance) :
    Micro (flushSync h q current).balance := by
  rw [flushSync]
  split
  · exact micro
  · dsimp only
    split
    · exact micro
    · exact .numeric6 h.balance

/-- The column keeps six decimals. -/
theorem replicaStep_micro (micro : Micro s.row.balance) (taken : replicaStep stored s a = some t) :
    Micro t.row.balance := by
  cases ReplicaSteps.of_step taken with
  | credit q amount => exact .numeric6 _
  | syncCommit called => exact flushSync_micro micro
  | _ => exact micro

theorem sync_run {j : ℕ}
    (synced : run (replicaStep stored) s [.syncRead j, .syncSelect j, .syncCommit j] = some t) :
    ∃ h, s.hash = some h ∧ t.row = flushSync h s.row s.row := by
  obtain ⟨u, read, synced⟩ := run_cons_eq_some.mp synced
  obtain ⟨v, selected, synced⟩ := run_cons_eq_some.mp synced
  obtain ⟨w, committed, synced⟩ := run_cons_eq_some.mp synced
  cases synced
  simp only [replicaStep] at read
  split at read
  · rename_i h called found
    cases read
    simp only [replicaStep, Replicas.advance, Function.update_self] at selected
    cases selected
    simp only [replicaStep, Replicas.advance, Function.update_self] at committed
    cases committed
    exact ⟨h, found, rfl⟩
  · cases read

/-- In a run whose steps keep the balance no change of it is lost: the hash shows the initial
balance with all completed top-ups and charges, or the row does when the hash has come to its
end, with the top-ups under way; and the row shows it after one more synchronisation, up to the
tolerance of the synchronisation, and exactly when the column can. -/
theorem no_balance_change_lost {acts : List ReplicaAct} (fresh : s.Fresh)
    (keeps : Along (replicaStep stored) (KeepsBalance stored) s acts)
    (reached : run (replicaStep stored) s acts = some t) :
    (∀ h ∈ t.hash, h.balance = t.expected s.row.balance) ∧
      (t.hash = none → t.row.balance = t.expected s.row.balance + t.pending) ∧
      ∀ j u, run (replicaStep stored) t [.syncRead j, .syncSelect j, .syncCommit j] = some u →
        |u.row.balance - t.expected s.row.balance| < 1 / 1000000 ∧
        (Micro s.row.balance →
          (u.row.balance = t.expected s.row.balance ↔ Micro (t.expected s.row.balance))) := by
  obtain ⟨first, there, equal⟩ := Option.map_eq_some_iff.mp fresh.equal
  have start : s.InLine s.row.balance := by
    refine ⟨?_, fun absent => ?_⟩
    · simp [Replicas.balance, Replicas.expected, there, equal, fresh.topUps, fresh.charged]
    · simp [there] at absent
  have held : t.InLine s.row.balance :=
    run_invariant (P := fun u => u.InLine s.row.balance)
      (fun held ok taken => held.step ok taken) start keeps reached
  have shown : ∀ h ∈ t.hash, h.balance = t.expected s.row.balance := fun h found => by
    rw [← held.balance, Replicas.balance, Option.mem_def.mp found]
    rfl
  refine ⟨shown, fun absent => held.balance ▸ held.row absent, fun j u synced => ?_⟩
  obtain ⟨h, found, row⟩ := sync_run synced
  rw [row, ← shown h found]
  refine ⟨flushSync_close h t.row, fun micro => ?_⟩
  have kept : Micro t.row.balance :=
    run_preserves (P := fun u => Micro u.row.balance) replicaStep_micro micro reached
  have column : Micro (flushSync h t.row t.row).balance := flushSync_micro kept
  constructor
  · intro same
    exact same ▸ column
  · intro exact_
    exact column.eq_of_abs_sub_lt exact_ (flushSync_close h t.row)

end Machine

def tenCredits : Replicas :=
  ⟨some (quotaPayload .june15 (rowOf .june15 10)), rowOf .june15 10, fun _ => .idle, 0, 0, 0, 0⟩

theorem tenCredits_fresh : tenCredits.Fresh := ⟨rfl, fun _ => rfl, rfl, rfl, rfl⟩

/-- The hash ends after a synchronisation, and is written again by a top-up and a warm-up. -/
def syncedFirst : List ReplicaAct :=
  [.deduct .june15 1, .syncRead 0, .syncSelect 0, .syncCommit 0, .expire, .select 0, .credit 0 5,
    .exists 1, .select 1, .warm 1 .june15, .push 0 .june15 true, .push 1 .june15 true, .settle 2]

theorem no_change_lost_when_synced_first :
    ∃ t h, run (replicaStep id) tenCredits syncedFirst = some t ∧ t.hash = some h ∧
      h.balance = t.expected 10 ∧ t.expected 10 = 12 := by
  have keeps : Along (replicaStep id) (KeepsBalance id) tenCredits syncedFirst := by
    decide +kernel
  have ends : (run (replicaStep id) tenCredits syncedFirst).map
      (fun t => (t.hash.isSome, t.expected 10)) = some (true, 12) := by decide +kernel
  obtain ⟨t, reached, last⟩ := Option.map_eq_some_iff.mp ends
  obtain ⟨present, expected⟩ := Prod.mk.inj last
  obtain ⟨h, found⟩ := Option.isSome_iff_exists.mp present
  have lost := no_balance_change_lost tenCredits_fresh keeps reached
  exact ⟨t, h, reached, found, lost.1 h found, expected⟩

/-- A top-up between a deduction and the next synchronisation: the row's 15 credits
replace the hash's 9, where 14 are due. And two top-ups by sessions that have both read the row:
the second copies its own, where both are due. -/
theorem top_up_restores_deduction :
    tenCredits.Fresh ∧
      (∃ t, run (replicaStep id) tenCredits
          [.deduct .june15 1, .select 0, .credit 0 5, .push 0 .june15 true] = some t ∧
        t.hash.map QuotaHash.balance = some 15 ∧ t.expected 10 = 14) ∧
      ∃ t, run (replicaStep id) tenCredits [.select 0, .select 1, .credit 0 5, .push 0 .june15 true,
          .credit 1 3, .push 1 .june15 true] = some t ∧
        t.hash.map QuotaHash.balance = some 13 ∧ t.expected 10 = 18 := by
  refine ⟨tenCredits_fresh, ⟨_, rfl, ?_⟩, _, rfl, ?_⟩
  · decide +kernel
  · decide +kernel

end Deeting.Quota
