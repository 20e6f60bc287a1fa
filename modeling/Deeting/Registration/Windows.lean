import Deeting.Registration.Enrolments

/-! What is asked of the windows and their codes, and the requests that keep it: those that
claim no slot for a user who is yet to log in. -/
namespace Deeting.Registration
open Expiry Interruptible Program Transition

def RegistrationWindow.Open (now : ℤ) (x : RegistrationWindow) : Prop :=
  x.status = .active ∧ x.startTime ≤ now ∧ now ≤ x.endTime ∧ x.registeredCount < x.maxRegistrations

instance (now : ℤ) (x : RegistrationWindow) : Decidable (x.Open now) :=
  inferInstanceAs (Decidable (_ ∧ _ ∧ _ ∧ _))

namespace Registry

/-- The code is unused and unexpired, and its window is open with a free slot. -/
def Acceptable (w : Registry) (code : String) : Prop :=
  ∃ invite ∈ w.invites code, invite.status = .unused ∧ (∀ e ∈ invite.expiresAt, w.now ≤ e) ∧
    ∃ x ∈ w.windows invite.windowId, (syncWindow w.now x).Open w.now

/-- A new user has presented a code to `send_login_code` and was sent a verification code; the
hand-over, the verification code and the invite code are not expired, nor is the window over. -/
structure Presented (w : Registry) (email : Email) (invite verification : String) : Prop where
  new : w.findUser email = none
  handedOver : ∃ id, Has w.now (w.tempInvite email) ⟨invite, id⟩
  verifiable : Has w.now (w.loginCode email) verification
  valid : ∃ x ∈ w.invites invite, (∀ e ∈ x.expiresAt, w.now ≤ e) ∧
    ∃ y ∈ w.windows x.windowId, y.startTime ≤ w.now ∧ w.now ≤ y.endTime

def Completes (w : Registry) : Prop :=
  ∀ email invite verification, w.Presented email invite verification →
    ∀ again ∈ [none, some invite],
      let after := (loginWithCode ⟨email, verification, again, false, false, true⟩ w).final
      ∃ user ∈ after.users email, ∃ x ∈ after.invites invite,
        x.status = .used ∧ x.usedBy = some user.id

def InProgress (w : Registry) : Prop :=
  ∃ email invite verification, w.Presented email invite verification

def registeredThrough (w : Registry) (id : WindowId) : ℕ :=
  w.registered.countP fun r => r.window = id

def Counted (w : Registry) : Prop :=
  ∀ id, ∀ x ∈ w.windows id, x.registeredCount = w.registeredThrough id

structure Orderly (w : Registry) : Prop where
  completes : w.Completes
  once : (w.registered.map Enrolment.code).Nodup
  counted : ¬ w.InProgress → w.Counted

/-- No new user's call of `send_login_code` gets as far as the slot of an acceptable code,
which is its third update. -/
def Spares (w : Registry) : RegistryAction → Prop
  | .send r updates => ¬ r.limited → w.findUser r.email = none →
      ∀ invite ∈ given r.inviteCode, w.Acceptable invite → ∃ n ∈ updates, n < 3
  | _ => True

structure Clear (w : Registry) : Prop where
  counted : w.Counted
  known : ∀ email, w.findUser email = none → live w.now (w.loginCode email) = none

end Registry

section Clear

open Registry

variable {w : Registry} {code : String} {email : Email}

theorem syncWindow_count (now : ℤ) (x : RegistrationWindow) :
    (syncWindow now x).registeredCount = x.registeredCount := by
  simp only [syncWindow]
  split
  · rfl
  · split
    · rfl
    · rfl

theorem Counted.sync (counted : w.Counted) : w.sync.Counted := by
  intro id x mem
  obtain ⟨y, there, rfl⟩ := Option.map_eq_some_iff.mp mem
  rw [syncWindow_count]
  exact counted id y there

/-- A claim is granted by a window that is open, and refused without a trace in its count. -/
theorem RegistrationWindow.claim_spec (now : ℤ) (x : RegistrationWindow) :
    (x.Open now ∧ (x.claim now).1.registeredCount = x.registeredCount + 1 ∧
      (x.claim now).2 = .ok ()) ∨
    (¬ x.Open now ∧ (x.claim now).1.registeredCount = x.registeredCount ∧
      ∃ e, (x.claim now).2 = .error e) := by
  simp only [RegistrationWindow.claim, RegistrationWindow.Open]
  split
  · rename_i inactive
    exact .inr ⟨fun opened => inactive opened.1, rfl, _, rfl⟩
  · rename_i active
    split
    · rename_i outside
      exact .inr ⟨fun opened => outside ⟨opened.2.1, opened.2.2.1⟩, rfl, _, rfl⟩
    · rename_i inside
      split
      · rename_i full
        exact .inr ⟨fun opened => by omega, rfl, _, rfl⟩
      · rename_i free
        exact .inl ⟨⟨not_not.mp active, (not_not.mp inside).1, (not_not.mp inside).2,
          not_le.mp free⟩, rfl, rfl⟩

theorem claim_eq {id : WindowId} {x : RegistrationWindow} (there : w.windows id = some x) :
    Registry.claim id w =
      ({ w with windows := Function.update w.windows id (some (x.claim w.now).1) },
        (x.claim w.now).2.map fun _ => (x.claim w.now).1) := by
  rw [Registry.claim, there]

theorem claim_refused {id : WindowId} (closed : ∀ x ∈ w.windows id, ¬ x.Open w.now)
    (counted : w.Counted) :
    ∃ windows e, Registry.claim id w = ({ w with windows := windows }, .error e) ∧
      Counted { w with windows := windows } := by
  cases there : w.windows id with
  | none => exact ⟨w.windows, _, by rw [Registry.claim, there], counted⟩
  | some x =>
    rw [claim_eq there]
    rcases RegistrationWindow.claim_spec w.now x with ⟨opened, -⟩ | ⟨-, count, e, refused⟩
    · exact absurd opened (closed x there)
    · rw [refused]
      refine ⟨_, e, rfl, fun key y mem => ?_⟩
      simp only [Function.update_apply] at mem
      split at mem
      · rename_i own
        obtain rfl := Option.some.inj mem
        rw [count, own]
        exact counted id x there
      · exact counted key y mem

theorem RegistrationWindow.claim_times (now : ℤ) (x : RegistrationWindow) :
    (x.claim now).1.startTime = x.startTime ∧ (x.claim now).1.endTime = x.endTime := by
  simp only [RegistrationWindow.claim]
  split
  · exact ⟨rfl, rfl⟩
  · split
    · exact ⟨rfl, rfl⟩
    · split
      · exact ⟨rfl, rfl⟩
      · exact ⟨rfl, rfl⟩

theorem claim_granted {id : WindowId} {x : RegistrationWindow} (there : x ∈ w.windows id)
    (opened : x.Open w.now) :
    ∃ y, Registry.claim id w =
        ({ w with windows := Function.update w.windows id (some y) }, .ok y) ∧
      y.registeredCount = x.registeredCount + 1 ∧ y.startTime = x.startTime ∧
      y.endTime = x.endTime := by
  rcases RegistrationWindow.claim_spec w.now x with ⟨-, count, granted⟩ | ⟨closed, -⟩
  · refine ⟨(x.claim w.now).1, ?_, count, RegistrationWindow.claim_times w.now x⟩
    rw [claim_eq there, granted]
    rfl
  · exact absurd opened closed

theorem updateInvite_eq (w : Registry) (code : String) (allowed : InviteCodeStatus → Bool) (change : InviteCode → InviteCode) :
    ∃ invites, (Registry.updateInvite code allowed change w).1 = { w with invites := invites } := by
  rw [Registry.updateInvite]
  split
  · split
    · exact ⟨_, rfl⟩
    · exact ⟨w.invites, rfl⟩
  · exact ⟨w.invites, rfl⟩

theorem Registry.Clear.invites (clear : w.Clear) (invites : String → Option InviteCode) :
    Clear { w with invites := invites } :=
  ⟨clear.counted, clear.known⟩

theorem Registry.Clear.updateInvite (clear : w.Clear) {allowed : InviteCodeStatus → Bool}
    {change : InviteCode → InviteCode} : (Registry.updateInvite code allowed change w).1.Clear := by
  obtain ⟨invites, same⟩ := updateInvite_eq w code allowed change
  exact same ▸ clear.invites invites

theorem Registry.Clear.windows (clear : w.Clear) {windows : WindowId → Option RegistrationWindow}
    (counted : Counted { w with windows := windows }) : Clear { w with windows := windows } :=
  ⟨counted, clear.known⟩

theorem Registry.Clear.sync (clear : w.Clear) : w.sync.Clear :=
  clear.windows (Counted.sync clear.counted)

theorem Registry.Clear.activate (clear : w.Clear) (user : User) : (w.activate user).Clear := by
  refine ⟨clear.counted, fun email new => clear.known email ?_⟩
  have fewer (key : Email) (absent : (w.activate user).users key = none) : w.users key = none := by
    simp only [Registry.activate, Function.update_apply] at absent
    split at absent
    · cases absent
    · exact absent
  rw [findUser, Option.orElse_eq_none, Option.bind_eq_none_iff] at new ⊢
  exact ⟨fun key named => fewer key (new.1 key named), fewer email new.2⟩

theorem Registry.Clear.setLoginCode (clear : w.Clear) (known : w.findUser email ≠ none) (verification : String) :
    (w.setLoginCode email verification).Clear := by
  refine ⟨clear.counted, fun key new => ?_⟩
  have other : key ≠ email := fun same => known (same ▸ new)
  simp only [Registry.setLoginCode, Function.update_of_ne other]
  exact clear.known key new

theorem Registry.Clear.dropLoginCode (clear : w.Clear) : (w.dropLoginCode email).Clear := by
  refine ⟨clear.counted, fun key new => ?_⟩
  simp only [Registry.dropLoginCode, Function.update_apply]
  split
  · rfl
  · exact clear.known key new

theorem Registry.Clear.tick (clear : w.Clear) (seconds : ℕ) :
    Clear { w with now := w.now + seconds } := by
  refine ⟨clear.counted, fun email new => ?_⟩
  rw [Option.eq_none_iff_forall_ne_some]
  intro e found
  have before := live_earlier (by omega : w.now ≤ w.now + seconds) found
  exact Option.some_ne_none e (before.symm.trans (clear.known email new))

end Clear

section Spared

open Registry

variable {email : Email}

/-- Codes that are not acceptable are refused before a slot is claimed, or without a slot. -/
theorem clear_consume (code : String) :
    Ensures (fun w => w.Clear ∧ ¬ w.Acceptable code) (consume code) Registry.Clear
      fun _ _ => False := by
  have refused {α : Type} {e : RequestError} :
      Ensures Registry.Clear (raise e : Request α) Registry.Clear fun _ _ => False :=
    ensures_raise fun _ => id
  refine (ensures_act (Q := fun found w => w.Clear ∧ ∀ invite ∈ found,
    (∀ e ∈ invite.expiresAt, w.now ≤ e) →
      ∀ x ∈ w.windows invite.windowId, ¬ (syncWindow w.now x).Open w.now)
    fun w held => ⟨held.1.updateInvite, held.1.updateInvite, ?_⟩).bind ?_
  · intro invite found unexpired x there opened
    obtain ⟨row, stored, unused, rfl⟩ := reserve_returns found
    rw [reserve_eq stored unused] at unexpired there opened
    exact held.2 ⟨row, stored, unused, unexpired, x, there, opened⟩
  rintro (_ | invite)
  · exact refused.of_imp fun _ held => held.1
  refine (ensures_read (R := fun (v w : Registry) => v = w ∧ w.Clear ∧ ((∀ e ∈ invite.expiresAt, w.now ≤ e) →
      ∀ x ∈ w.windows invite.windowId, ¬ (syncWindow w.now x).Open w.now))
    fun w held => ⟨held.1, rfl, held.1, held.2 invite rfl⟩).bind fun v =>
      ensures_ite (fun _ => ?_) fun unexpired => ?_
  · refine (ensures_act (Q := fun _ => Registry.Clear) fun w held => ?_).bind fun _ => refused
    exact ⟨held.2.1.updateInvite, held.2.1.updateInvite⟩
  · refine (ensures_act (Q := fun _ w => w.Clear ∧ ∀ x ∈ w.windows invite.windowId,
      ¬ x.Open w.now) fun w held => ⟨held.2.1.sync, held.2.1.sync, ?_⟩).bind fun _ => ?_
    · obtain ⟨rfl, -, closed⟩ := held
      intro x there
      obtain ⟨y, stored, rfl⟩ := Option.map_eq_some_iff.mp there
      refine closed (fun e ends => ?_) y stored
      simp only [Option.any_eq_true, not_exists, not_and, decide_eq_true_eq] at unexpired
      exact not_lt.mp (unexpired e ends)
    refine (ensures_act (Q := fun claimed w => w.Clear ∧ ∃ e, claimed = .error e)
      fun w held => ?_).bind ?_
    · obtain ⟨windows, e, same, counted⟩ := claim_refused held.2 held.1.counted
      rw [same]
      exact ⟨held.1.windows counted, held.1.windows counted, e, rfl⟩
    rintro (e | window)
    · refine (ensures_act (Q := fun _ => Registry.Clear) fun w held => ?_).bind fun _ => refused
      exact ⟨held.1.updateInvite, held.1.updateInvite⟩
    · refine ensures_of_false fun w held => ?_
      obtain ⟨e, same⟩ := held.2
      cases same

theorem clear_preRegister (r : SendRequest) :
    Ensures (fun w => w.Clear ∧ (w.findUser r.email = none →
        ∀ invite ∈ given r.inviteCode, ¬ w.Acceptable invite))
      (preRegister r) Registry.Clear fun _ w => w.Clear ∧ w.findUser r.email ≠ none := by
  refine (ensures_read (R := fun (v w : Registry) => v = w ∧ w.Clear ∧ (w.findUser r.email = none →
      ∀ invite ∈ given r.inviteCode, ¬ w.Acceptable invite))
    fun w held => ⟨held.1, rfl, held⟩).bind fun v => ensures_ite (fun known => ?_) fun new => ?_
  · refine ensures_pure fun w held => ⟨held.2.1, held.2.1, ?_⟩
    rw [← held.1]
    exact Option.isSome_iff_ne_none.mp known
  · cases named : given r.inviteCode with
    | none => exact ensures_raise fun w held => held.2.1
    | some invite =>
      refine Ensures.bind (Ensures.of_imp (clear_consume invite) fun w held => ?_) fun _ =>
        ensures_of_false fun _ => id
      obtain ⟨rfl, clear, spares⟩ := held
      exact ⟨clear, spares (Option.not_isSome_iff_eq_none.mp new) invite rfl⟩

theorem clear_sendVerificationCode (r : SendRequest) :
    Ensures (fun w => w.Clear ∧ w.findUser r.email ≠ none) (sendVerificationCode r)
      Registry.Clear fun _ _ => True := by
  refine (ensures_act (Q := fun _ => Registry.Clear) fun w held => ?_).bind fun _ =>
    ensures_ite (fun _ => ensures_pure fun _ clear => ⟨clear, trivial⟩) fun _ => ?_
  · exact ⟨held.1.setLoginCode held.2 r.code, held.1.setLoginCode held.2 r.code⟩
  · refine (ensures_act (Q := fun _ => Registry.Clear) fun w clear => ?_).bind fun _ =>
      ensures_raise fun _ => id
    exact ⟨clear.dropLoginCode, clear.dropLoginCode⟩

theorem clear_sendLoginCode (r : SendRequest) :
    Ensures (fun w => w.Clear ∧ (¬ r.limited → w.findUser r.email = none →
        ∀ invite ∈ given r.inviteCode, ¬ w.Acceptable invite))
      (sendLoginCode r) Registry.Clear fun _ _ => True := by
  refine ensures_ite (fun _ => ensures_raise fun _ held => held.1) fun admitted => ?_
  refine Ensures.bind (Ensures.of_imp (clear_preRegister r) fun w held => ?_) fun _ =>
    clear_sendVerificationCode r
  exact ⟨held.1, held.2 admitted⟩

theorem clear_verifyCode (r : LoginRequest) :
    Ensures Registry.Clear (verifyCode r) Registry.Clear
      fun _ w => w.Clear ∧ w.findUser r.email ≠ none := by
  refine (ensures_read (R := fun (v w : Registry) => v = w ∧ w.Clear)
    fun w clear => ⟨clear, rfl, clear⟩).bind fun v =>
      ensures_ite (fun passed => ?_) fun _ => ensures_raise fun w held => held.2
  refine (ensures_act (Q := fun _ w => w.Clear ∧ (¬ r.exhausted → w.findUser r.email ≠ none))
    fun w held => ?_).bind fun _ => ensures_ite (fun _ => ensures_raise fun w held => held.1)
      fun attempts => ensures_pure fun w held => ⟨held.1, held.1, held.2 attempts⟩
  obtain ⟨rfl, clear⟩ := held
  refine ⟨clear.dropLoginCode, clear.dropLoginCode, fun attempts new => ?_⟩
  obtain ⟨e, found, -⟩ := has_iff.mp (passed.resolve_left attempts)
  exact Option.some_ne_none e (found.symm.trans (clear.known r.email new))

theorem clear_loginWithCode (r : LoginRequest) :
    Ensures Registry.Clear (loginWithCode r) Registry.Clear fun _ _ => True := by
  refine ensures_ite (fun _ => ensures_raise fun _ => id) fun _ =>
    Ensures.bind (clear_verifyCode r) fun _ => ?_
  refine (ensures_read (R := fun (v w : Registry) => v = w ∧ w.Clear ∧ w.findUser r.email ≠ none)
    fun w held => ⟨held.1, rfl, held⟩).bind fun v => ?_
  cases found : v.findUser r.email with
  | some user => exact ensures_act fun w held => ⟨held.2.1.activate user, trivial⟩
  | none => exact ensures_of_false fun w held => held.2.2 (held.1 ▸ found)

end Spared

end Deeting.Registration
