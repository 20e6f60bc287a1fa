import Deeting.Quota.Operations

/-! `check_and_deduct` with `commit=False` in the open transaction of a caller, beside other
transactions that change the row between its reads and its guarded UPDATE. A transaction that
has written the row holds it until it ends. -/
namespace Deeting.Quota

/-- A session: the row of the tenant as the others have committed it and as the open transaction
has written it, and the transaction's other writes. In a block of `begin_nested()` no statement
is accepted any more once the transaction has been rolled back. -/
structure Session (W : Type) where
  committed : Option TenantQuota
  written : Option TenantQuota := none
  pending : List W := []
  inBlock : Bool := false
  deriving DecidableEq

/-- One attempt beside the others: the row as the session has it loaded, and as the attempt's
first UPDATE finds it. -/
structure Attempt where
  loaded : TenantQuota
  found : TenantQuota
  deriving DecidableEq

inductive DeductError where
  | insufficient (e : InsufficientQuotaError)
  | closedTransaction
  deriving DecidableEq

def resetCounts (today : Date) (daily monthly : Bool) (q : TenantQuota) : TenantQuota :=
  { q with
    dailyUsed := if daily then 0 else q.dailyUsed
    dailyResetAt := if daily then some today else q.dailyResetAt
    monthlyUsed := if monthly then 0 else q.monthlyUsed
    monthlyResetAt := if monthly then some today.firstOfMonth else q.monthlyResetAt }

namespace Session

variable {W : Type} (today : Date) (req : DeductRequest) (attempt : Attempt) (s : Session W)

def row : Option TenantQuota := s.written <|> s.committed

def rollback : Session W := { s with written := none, pending := [] }

/-- `get_or_create` with `commit=False`, with the object it returns. What is due is decided on
the object; the UPDATE of a reset goes to the row. -/
def getOrCreate : TenantQuota × Session W :=
  match s.written, s.committed with
  | some q, _ =>
    (maybeResetQuotas today q, { s with written := some (maybeResetQuotas today q) })
  | none, none => ({}, { s with written := some {} })
  | none, some _ =>
    let q := attempt.loaded
    let reset := resetCounts today (dailyResetDue today q) (monthlyResetDue today q) attempt.found
    (maybeResetQuotas today q,
      { s with
        committed := some attempt.found
        written := if resetDue today q then some reset else none })

/-- The UPDATE guarded by the version of the object; `none` where it matches no row. -/
def guardedUpdate (version : ℕ) : Option (TenantQuota × Session W) :=
  s.row.bind fun q =>
    if q.version = version then
      some (deductFrom req q, { s with written := some (deductFrom req q) })
    else none

/-- `check_and_deduct`, one attempt after the other; `none` while it is still trying. -/
def checkAndDeduct : List Attempt → Session W → Option (Except DeductError TenantQuota × Session W)
  | [], _ => none
  | attempt :: rest, s =>
    let (quota, s) := s.getOrCreate today attempt
    match checkQuota req quota with
    | .error e => some (.error (.insufficient e), s)
    | .ok () =>
      match s.guardedUpdate req quota.version with
      | some (updated, s) => some (.ok updated, s)
      | none =>
        if s.inBlock then some (.error .closedTransaction, s.rollback)
        else checkAndDeduct rest s.rollback

def baseRow (s t : Session W) : TenantQuota := (s.written <|> t.committed).getD {}

def Judged (attempts : List Attempt) (judged : TenantQuota) : Prop :=
  match s.written, s.committed with
  | some q, _ => judged = maybeResetQuotas today q
  | none, none => judged = {}
  | none, some _ => ∃ attempt ∈ attempts, judged = maybeResetQuotas today attempt.loaded

/-- The deduction is made once, on the row as it stands but for a reset of its counts, and has
passed the checks on a row of the same version. -/
def Deducted (attempts : List Attempt) (t : Session W) (updated : TenantQuota) : Prop :=
  ∃ daily monthly judged,
    t.written = some (deductFrom req (resetCounts today daily monthly (s.baseRow t))) ∧
      updated = deductFrom req (resetCounts today daily monthly (s.baseRow t)) ∧
      s.Judged today attempts judged ∧ RowAccepts req judged ∧
      judged.version = (s.baseRow t).version

def Undeducted (t : Session W) : Prop :=
  ∃ daily monthly, t.row = some (resetCounts today daily monthly (s.baseRow t))

/-- The call does with the row what it says, and leaves the caller's writes in place. -/
def Sound (attempts : List Attempt) : Except DeductError TenantQuota × Session W → Prop
  | (.ok updated, t) => s.Deducted today req attempts t updated ∧ t.pending = s.pending
  | (.error (.insufficient _), t) => s.Undeducted today t ∧ t.pending = s.pending
  | (.error .closedTransaction, _) => False

/-- Between the read and the UPDATE another transaction has committed a new version. -/
def Conflicts : Prop :=
  s.written = none ∧ s.committed.isSome ∧ RowAccepts req (maybeResetQuotas today attempt.loaded) ∧
    attempt.found.version ≠ attempt.loaded.version

instance : Decidable (s.Conflicts today req attempt) := inferInstanceAs (Decidable (_ ∧ _))

end Session

section Attempts

open Session

variable {W : Type} {today : Date} {req : DeductRequest} {attempt : Attempt}
  {attempts rest : List Attempt} {s t : Session W} {quota : TenantQuota}

theorem resetCounts_none (today : Date) (q : TenantQuota) : resetCounts today false false q = q := rfl

/-- What `get_or_create` gives an attempt to go on with. -/
structure Prepared (today : Date) (attempt : Attempt) (s t : Session W) (quota : TenantQuota) :
    Prop where
  row : s.Undeducted today t
  judged : s.Judged today [attempt] quota
  pending : t.pending = s.pending
  inBlock : t.inBlock = s.inBlock

theorem getOrCreate_prepared (today : Date) (attempt : Attempt) (s : Session W) :
    Prepared today attempt s (s.getOrCreate today attempt).2 (s.getOrCreate today attempt).1 := by
  obtain ⟨committed, written, pending, inBlock⟩ := s
  cases written with
  | some q => exact ⟨⟨dailyResetDue today q, monthlyResetDue today q, rfl⟩, rfl, rfl, rfl⟩
  | none =>
    cases committed with
    | none => exact ⟨⟨false, false, rfl⟩, rfl, rfl, rfl⟩
    | some q =>
      refine ⟨?_, ⟨attempt, by simp, rfl⟩, rfl, rfl⟩
      by_cases due : resetDue today attempt.loaded = true
      · exact ⟨dailyResetDue today attempt.loaded, monthlyResetDue today attempt.loaded, by
          simp [Session.getOrCreate, Session.row, baseRow, due]⟩
      · exact ⟨false, false, by
          simp [Session.getOrCreate, Session.row, baseRow, due, resetCounts_none]⟩

theorem conflicts_iff : s.Conflicts today req attempt ↔
    RowAccepts req (s.getOrCreate today attempt).1 ∧
      (s.baseRow (s.getOrCreate today attempt).2).version ≠
        (s.getOrCreate today attempt).1.version := by
  obtain ⟨committed, written, pending, inBlock⟩ := s
  cases written with
  | some q => simp [Conflicts, Session.getOrCreate, baseRow, maybeResetQuotas]
  | none =>
    cases committed with
    | none => simp [Conflicts, Session.getOrCreate, baseRow]
    | some q =>
      simp [Conflicts, Session.getOrCreate, baseRow, maybeResetQuotas]

theorem rollback_getOrCreate (conflict : s.Conflicts today req attempt) :
    (s.getOrCreate today attempt).2.rollback =
      { s.rollback with committed := some attempt.found } := by
  obtain ⟨committed, written, pending, inBlock⟩ := s
  obtain ⟨fresh, present, -, -⟩ := conflict
  cases fresh
  obtain ⟨q, rfl⟩ := Option.isSome_iff_exists.mp present
  rfl

theorem guardedUpdate_eq {base : TenantQuota} {version : ℕ} (row : t.row = some base) :
    t.guardedUpdate req version =
      if base.version = version then
        some (deductFrom req base, { t with written := some (deductFrom req base) })
      else none := by
  rw [guardedUpdate, row]
  rfl

theorem checkAndDeduct_of_conflict (conflict : s.Conflicts today req attempt) :
    Session.checkAndDeduct today req (attempt :: rest) s =
      if s.inBlock then
        some (.error .closedTransaction, { s.rollback with committed := some attempt.found })
      else
        Session.checkAndDeduct today req rest { s.rollback with committed := some attempt.found } := by
  have prepared := getOrCreate_prepared today attempt s
  obtain ⟨daily, monthly, row⟩ := prepared.row
  obtain ⟨accepts, changed⟩ := conflicts_iff.mp conflict
  have checked := (checkQuota_eq_ok_iff req _).mpr accepts
  simp only [Session.checkAndDeduct, checked, guardedUpdate_eq row, resetCounts, changed, if_false,
    prepared.inBlock, rollback_getOrCreate conflict]

theorem checkAndDeduct_of_refused {e : InsufficientQuotaError}
    (checked : checkQuota req (s.getOrCreate today attempt).1 = .error e) :
    Session.checkAndDeduct today req (attempt :: rest) s =
      some (.error (.insufficient e), (s.getOrCreate today attempt).2) := by
  simp only [Session.checkAndDeduct, checked]

theorem checkAndDeduct_of_same_version {base : TenantQuota}
    (checked : checkQuota req (s.getOrCreate today attempt).1 = .ok ())
    (row : (s.getOrCreate today attempt).2.row = some base)
    (same : base.version = (s.getOrCreate today attempt).1.version) :
    Session.checkAndDeduct today req (attempt :: rest) s =
      some (.ok (deductFrom req base),
        { (s.getOrCreate today attempt).2 with written := some (deductFrom req base) }) := by
  simp only [Session.checkAndDeduct, checked, guardedUpdate_eq row, same, if_true]

theorem Session.Judged.of_head {judged : TenantQuota}
    (own : s.Judged today [attempt] judged) : s.Judged today (attempt :: rest) judged := by
  unfold Judged at own ⊢
  split at own
  · exact own
  · exact own
  · obtain ⟨only, mem, loaded⟩ := own
    exact ⟨only, List.mem_cons.mpr (.inl (List.mem_singleton.mp mem)), loaded⟩

theorem checkAndDeduct_of_smooth (rest : List Attempt)
    (smooth : ¬ s.Conflicts today req attempt) :
    ∃ result, Session.checkAndDeduct today req (attempt :: rest) s = some result ∧
      s.Sound today req (attempt :: rest) result := by
  have prepared := getOrCreate_prepared today attempt s
  obtain ⟨daily, monthly, row⟩ := prepared.row
  cases checked : checkQuota req (s.getOrCreate today attempt).1 with
  | error e =>
    exact ⟨_, checkAndDeduct_of_refused checked, ⟨daily, monthly, row⟩, prepared.pending⟩
  | ok =>
    have accepts := (checkQuota_eq_ok_iff req _).mp checked
    have same : (s.baseRow (s.getOrCreate today attempt).2).version =
        (s.getOrCreate today attempt).1.version :=
      not_not.mp fun changed => smooth (conflicts_iff.mpr ⟨accepts, changed⟩)
    refine ⟨_, checkAndDeduct_of_same_version checked row same, ?_, prepared.pending⟩
    exact ⟨daily, monthly, _, rfl, rfl, prepared.judged.of_head, accepts, same.symm⟩

theorem Session.Sound.of_conflict (conflict : s.Conflicts today req attempt)
    {result : Except DeductError TenantQuota × Session W}
    (sound : { s.rollback with committed := some attempt.found }.Sound today req rest result) :
    ({ s with pending := [] } : Session W).Sound today req (attempt :: rest) result := by
  obtain ⟨committed, written, pending, inBlock⟩ := s
  obtain ⟨fresh, present, -, -⟩ := conflict
  cases fresh
  obtain ⟨q, rfl⟩ := Option.isSome_iff_exists.mp present
  rcases result with ⟨(_ | _) | updated, t⟩
  · exact sound
  · exact sound
  · obtain ⟨⟨daily, monthly, judged, written, same, ⟨read, mem, loaded⟩, rest⟩, pending⟩ := sound
    exact ⟨⟨daily, monthly, judged, written, same,
      ⟨read, List.mem_cons_of_mem _ mem, loaded⟩, rest⟩, pending⟩

theorem sound_of_nothing_pending {result : Except DeductError TenantQuota × Session W}
    (nothing : s.pending = []) (free : s.inBlock = false)
    (ended : Session.checkAndDeduct today req attempts s = some result) :
    s.Sound today req attempts result := by
  induction attempts generalizing s with
  | nil => cases ended
  | cons attempt rest ih =>
    by_cases conflict : s.Conflicts today req attempt
    · rw [checkAndDeduct_of_conflict conflict, if_neg (by simp [free])] at ended
      have sound := ih (s := { s.rollback with committed := some attempt.found }) rfl free ended
      have sound := sound.of_conflict conflict
      rwa [← nothing] at sound
    · obtain ⟨other, ends, sound⟩ := checkAndDeduct_of_smooth rest conflict
      obtain rfl := Option.some.inj (ends.symm.trans ended)
      exact sound

theorem pending_of_sound {clean : Session W} {result : Except DeductError TenantQuota × Session W}
    (sound : s.Sound today req attempts result)
    (cleared : clean.Sound today req attempts result) : s.pending = clean.pending := by
  rcases result with ⟨(_ | _) | updated, t⟩
  · exact sound.2.symm.trans cleared.2
  · exact sound.elim
  · exact sound.2.symm.trans cleared.2

theorem checkAndDeduct_ends (quiet : attempt.found = attempt.loaded) :
    ∃ result, Session.checkAndDeduct today req (attempt :: rest) s = some result :=
  have smooth : ¬ s.Conflicts today req attempt :=
    fun conflict => conflict.2.2.2 (congrArg TenantQuota.version quiet)
  (checkAndDeduct_of_smooth rest smooth).imp fun _ => And.left

end Attempts

/-- A call deducts once or not at all, and leaves the caller's other writes pending, exactly
where no conflict occurs or there is nothing pending and no block to close. -/
theorem conflicts_keep_pending_iff {W : Type} (today : Date) (req : DeductRequest)
    (first : Attempt) (rest : List Attempt) (s : Session W)
    (result : Except DeductError TenantQuota × Session W)
    (ended : Session.checkAndDeduct today req (first :: rest) s = some result) :
    s.Sound today req (first :: rest) result ↔
      (s.Conflicts today req first → s.pending = [] ∧ s.inBlock = false) := by
  by_cases conflict : s.Conflicts today req first
  · cases block : s.inBlock with
    | true =>
      rw [checkAndDeduct_of_conflict conflict, if_pos block] at ended
      obtain rfl := Option.some.inj ended
      exact iff_of_false id fun free => Bool.noConfusion (free conflict).2
    | false =>
      rw [checkAndDeduct_of_conflict conflict, if_neg (by simp [block])] at ended
      have cleared := sound_of_nothing_pending
        (s := { s.rollback with committed := some first.found }) rfl block ended
      have cleared := cleared.of_conflict conflict
      constructor
      · exact fun sound _ => ⟨pending_of_sound sound cleared, rfl⟩
      · intro nothing
        have empty := (nothing conflict).1
        rwa [← empty] at cleared
  · obtain ⟨other, ends, sound⟩ := checkAndDeduct_of_smooth rest conflict
    obtain rfl := Option.some.inj (ends.symm.trans ended)
    exact iff_of_true sound fun present => absurd present conflict

def laterRow : TenantQuota := { rowOf .june15 9 with version := 2 }

/-- The transaction of a request, flushed and not committed. -/
def openSession : Session String := { committed := some (rowOf .june15 10), pending := ["PENDING"] }

theorem deduction_beside_pending : ∃ result,
    Session.checkAndDeduct .june15 { balanceAmount := 1 } [⟨rowOf .june15 10, rowOf .june15 10⟩]
        openSession = some result ∧
      openSession.Sound .june15 { balanceAmount := 1 } [⟨rowOf .june15 10, rowOf .june15 10⟩]
        result := by
  obtain ⟨result, ends⟩ : ∃ result, Session.checkAndDeduct .june15 { balanceAmount := 1 }
      [⟨rowOf .june15 10, rowOf .june15 10⟩] openSession = some result := checkAndDeduct_ends rfl
  refine ⟨result, ends, (conflicts_keep_pending_iff _ _ _ _ _ _ ends).mpr fun conflict => ?_⟩
  exact absurd conflict (by decide +kernel)

/-- One conflict: the deduction is made, the caller's transaction is gone. -/
theorem conflict_drops_pending : ∃ result,
    Session.checkAndDeduct .june15 { balanceAmount := 1 }
        [⟨rowOf .june15 10, laterRow⟩, ⟨laterRow, laterRow⟩] openSession = some result ∧
      ¬ openSession.Sound .june15 { balanceAmount := 1 }
        [⟨rowOf .june15 10, laterRow⟩, ⟨laterRow, laterRow⟩] result := by
  have conflict : openSession.Conflicts .june15 { balanceAmount := 1 }
      ⟨rowOf .june15 10, laterRow⟩ := by decide +kernel
  obtain ⟨result, ends⟩ : ∃ result, Session.checkAndDeduct .june15 { balanceAmount := 1 }
      [⟨laterRow, laterRow⟩] { openSession.rollback with committed := some laterRow } =
        some result := checkAndDeduct_ends rfl
  have cleared := (sound_of_nothing_pending (by rfl) (by rfl) ends).of_conflict conflict
  refine ⟨result, (checkAndDeduct_of_conflict conflict).trans ends, fun sound => ?_⟩
  exact absurd (pending_of_sound sound cleared) (by decide)

end Deeting.Quota
