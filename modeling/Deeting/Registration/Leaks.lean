import Deeting.Registration.Windows

/-! The slot that `send_login_code` claims is lost: `login_with_code` asks for another, by a
code that is no longer unused. -/
namespace Deeting.Registration
open Expiry Interruptible Program Transition

section Leaks

open Registry

variable {w v : Registry} {email : Email} {code verification : String} {invite : InviteCode}
  {x : RegistrationWindow}

def claimedState (w : Registry) (code : String) (id : WindowId) (y : RegistrationWindow) : Registry :=
  let reserved := (reserve code w).1
  { reserved.sync with windows := Function.update reserved.sync.windows id (some y) }

theorem consume_granted (stored : w.invites code = some invite) (unused : invite.status = .unused)
    (unexpired : ∀ e ∈ invite.expiresAt, w.now ≤ e) (there : w.windows invite.windowId = some x)
    (opened : (syncWindow w.now x).Open w.now) :
    ∃ y, y.registeredCount = x.registeredCount + 1 ∧ y.startTime ≤ w.now ∧ w.now ≤ y.endTime ∧
      consume code w =
        ⟨[(reserve code w).1, (reserve code w).1.sync, claimedState w code invite.windowId y],
          claimedState w code invite.windowId y, .ok (invite.windowId, y)⟩ := by
  have synced : syncWindow w.now x ∈ (reserve code w).1.sync.windows invite.windowId := by
    rw [reserve_eq stored unused]
    simp [Registry.sync, there]
  have now : (reserve code w).1.sync.now = w.now := by
    rw [reserve_eq stored unused]
    rfl
  obtain ⟨y, granted, count, begins, ends⟩ := claim_granted synced (by rw [now]; exact opened)
  refine ⟨y, by rw [count, syncWindow_count], ?_, ?_, ?_⟩
  · rw [begins]
    exact opened.2.1
  · rw [ends]
    exact opened.2.2.1
  · have valid : ¬ invite.expiresAt.any (· < w.now) = true := by
      simp only [Option.any_eq_true, not_exists, not_and, decide_eq_true_eq, not_lt]
      exact unexpired
    rw [reserve_eq stored unused] at granted
    simp [consume, claimedState, reserve_eq stored unused, valid, granted]

/-- What a call of `send_login_code` leaves from `w` once the slot of its code is claimed. -/
structure Leaked (w : Registry) (email : Email) (code : String) (v : Registry) : Prop where
  registered : v.registered = w.registered
  users : v.findUser email = none
  strangers : ∀ key, v.findUser key = none → key ≠ email → live v.now (v.loginCode key) = none
  invite : ∃ invite ∈ v.invites code, invite.status = .reserved ∧
    (∀ e ∈ invite.expiresAt, v.now ≤ e) ∧ ∃ y ∈ v.windows invite.windowId,
      y.registeredCount = w.registeredThrough invite.windowId + 1 ∧
      y.startTime ≤ v.now ∧ v.now ≤ y.endTime
  sent : (live v.now (v.loginCode email)).isSome →
    ∃ id, Has v.now (v.tempInvite email) ⟨code, id⟩

theorem Leaked.handOver (leaked : Leaked w email code v) (id : WindowId) :
    Leaked w email code (v.handOver email ⟨code, id⟩) where
  registered := leaked.registered
  users := leaked.users
  strangers := leaked.strangers
  invite := leaked.invite
  sent _ := ⟨id, by simp [Registry.handOver, Has, live, Entry.alive]⟩

theorem Leaked.setLoginCode (leaked : Leaked w email code v) (verification : String)
    (handed : ∃ id, Has v.now (v.tempInvite email) ⟨code, id⟩) :
    Leaked w email code (v.setLoginCode email verification) where
  registered := leaked.registered
  users := leaked.users
  strangers key new other := by
    simp only [Registry.setLoginCode, Function.update_of_ne other]
    exact leaked.strangers key new other
  invite := leaked.invite
  sent _ := handed

theorem Leaked.dropLoginCode (leaked : Leaked w email code v) :
    Leaked w email code (v.dropLoginCode email) where
  registered := leaked.registered
  users := leaked.users
  strangers key new other := by
    simp only [Registry.dropLoginCode, Function.update_of_ne other]
    exact leaked.strangers key new other
  invite := leaked.invite
  sent there := by simp [Registry.dropLoginCode] at there

theorem leaked_claimed (clear : w.Clear) (new : w.findUser email = none)
    (stored : w.invites code = some invite) (unused : invite.status = .unused)
    (unexpired : ∀ e ∈ invite.expiresAt, w.now ≤ e) (there : w.windows invite.windowId = some x)
    {y : RegistrationWindow} (count : y.registeredCount = x.registeredCount + 1)
    (begins : y.startTime ≤ w.now) (ends : w.now ≤ y.endTime) :
    Leaked w email code (claimedState w code invite.windowId y) := by
  simp only [claimedState, reserve_eq stored unused]
  refine ⟨rfl, new, fun key stranger _ => clear.known key stranger, ?_, fun sent => ?_⟩
  · refine ⟨{ invite with status := .reserved }, by simp [Registry.sync], rfl, unexpired, y, ?_⟩
    exact ⟨by simp, by rw [count, clear.counted _ x there], begins, ends⟩
  · have known := clear.known email new
    simp [Registry.sync, known] at sent

theorem send_granted {r : SendRequest} (clear : w.Clear) (admitted : ¬ r.limited)
    (new : w.findUser r.email = none) (named : given r.inviteCode = some code)
    (acceptable : w.Acceptable code) :
    ∃ claimed rest, (sendLoginCode r w).passed =
        [(reserve code w).1, (reserve code w).1.sync] ++ claimed :: rest ∧
      (∀ t ∈ claimed :: rest, Leaked w r.email code t) ∧
      Leaked w r.email code (sendLoginCode r w).final := by
  obtain ⟨invite, stored, unused, unexpired, x, there, opened⟩ := acceptable
  obtain ⟨y, count, begins, ends, consumed⟩ :=
    consume_granted stored unused unexpired there opened
  have claimed := leaked_claimed clear new stored unused unexpired there count begins ends
  have handed := claimed.handOver invite.windowId
  have coded := handed.setLoginCode r.code
    ⟨invite.windowId, by simp [Registry.handOver, Has, live, Entry.alive]⟩
  have pre : preRegister r w =
      ⟨[(reserve code w).1, (reserve code w).1.sync, claimedState w code invite.windowId y,
          (claimedState w code invite.windowId y).handOver r.email ⟨code, invite.windowId⟩],
        (claimedState w code invite.windowId y).handOver r.email ⟨code, invite.windowId⟩,
        .ok ()⟩ := by
    simp only [preRegister, read_bind, new, Option.isSome_none, Bool.false_eq_true, if_false, named]
    rw [bind_of_ok (a := (invite.windowId, y)) (by rw [consumed]), consumed]
    rfl
  rw [sendLoginCode, if_neg admitted, bind_of_ok (a := ()) (by rw [pre]), pre]
  refine ⟨claimedState w code invite.windowId y, _, rfl, ?_⟩
  by_cases delivered : r.delivered
  · simp [sendVerificationCode, delivered, claimed, handed, coded]
  · simp [sendVerificationCode, delivered, claimed, handed, coded, coded.dropLoginCode]

theorem consume_reserved (there : ∃ invite ∈ v.invites code, invite.status = .reserved) :
    consume code v = ⟨[v], v, .error .invalidInvite⟩ := by
  obtain ⟨invite, stored, reserved⟩ := there
  have refused : reserve code v = (v, none) := by
    simp [reserve, Registry.updateInvite, Option.mem_def.mp stored, reserved]
  simp [consume, refused]

theorem provision_refused {r : LoginRequest} {id : WindowId} (asked : given r.inviteCode = none)
    (handed : Has v.now (v.tempInvite r.email) ⟨code, id⟩)
    (there : ∃ invite ∈ v.invites code, invite.status = .reserved) :
    provisionLoginUser r v = ⟨[v], v, .error .invalidInvite⟩ := by
  have refused (r : LoginRequest) :
      provisionUser r (some code) v = ⟨[v], v, .error .invalidInvite⟩ := by
    rw [provisionUser, bind_of_error (by rw [consume_reserved there]), consume_reserved there]
  have cached : (live v.now (v.tempInvite r.email)).map Entry.value = some ⟨code, id⟩ := handed
  have asks : (none <|> (some ⟨code, id⟩ : Option TempInvite).map TempInvite.code) = some code := rfl
  simp only [provisionLoginUser, read_bind, asked, cached, asks]
  rw [bind_of_error (by rw [refused]), refused]

/-- The login that should complete the registration is refused: its code is not unused. -/
theorem login_refused (presented : v.Presented email code verification)
    (there : ∃ invite ∈ v.invites code, invite.status = .reserved) :
    loginWithCode ⟨email, verification, none, false, false, true⟩ v =
      ⟨[v.dropLoginCode email, v.dropLoginCode email], v.dropLoginCode email,
        .error .invalidInvite⟩ := by
  obtain ⟨id, handed⟩ := presented.handedOver
  have new : (v.dropLoginCode email).findUser email = none := presented.new
  have refused := provision_refused (r := ⟨email, verification, none, false, false, true⟩)
    (v := v.dropLoginCode email) rfl handed there
  have verified : verifyCode ⟨email, verification, none, false, false, true⟩ v =
      ⟨[v.dropLoginCode email], v.dropLoginCode email, .ok ()⟩ := by
    simp [verifyCode, presented.verifiable]
  rw [loginWithCode, if_neg (by simp), bind_of_ok (a := ()) (by rw [verified]), verified]
  simp [new, refused]

/-- A slot that has leaked is a registration that cannot complete, or a count that is wrong. -/
theorem not_orderly_of_leaked (leaked : Leaked w email code v) : ¬ v.Orderly := by
  intro orderly
  obtain ⟨invite, stored, reserved, unexpired, y, there, count, begins, ends⟩ := leaked.invite
  by_cases sent : (live v.now (v.loginCode email)).isSome
  · obtain ⟨e, found⟩ := Option.isSome_iff_exists.mp sent
    have presented : v.Presented email code e.value :=
      ⟨leaked.users, leaked.sent sent, has_of_live found,
        invite, stored, unexpired, y, there, begins, ends⟩
    obtain ⟨user, registered, -⟩ :=
      orderly.completes email code e.value presented none (by simp)
    rw [login_refused presented ⟨invite, stored, reserved⟩] at registered
    have absent := leaked.users
    rw [findUser, Option.orElse_eq_none] at absent
    replace absent := absent.2
    exact Option.some_ne_none user (registered.symm.trans absent)
  · have idle : ¬ v.InProgress := by
      rintro ⟨key, _, _, presented⟩
      obtain ⟨e, found, -⟩ := has_iff.mp presented.verifiable
      by_cases own : key = email
      · rw [own] at found
        simp [found] at sent
      · exact Option.some_ne_none e (found.symm.trans (leaked.strangers key presented.new own))
    have right := orderly.counted idle _ y there
    rw [count, registeredThrough, registeredThrough, leaked.registered] at right
    omega

end Leaks

section Steps

open Registry

variable {w : Registry} {a : RegistryAction}

theorem Registry.Clear.registryStep (clear : w.Clear) (spares : w.Spares a) :
    (registryStep w a).Clear := by
  cases a with
  | tick seconds => exact clear.tick seconds
  | login r updates => exact (clear_loginWithCode r).leave clear clear updates
  | send r updates =>
    by_cases accepted : ¬ r.limited ∧ w.findUser r.email = none ∧
      ∃ code, given r.inviteCode = some code ∧ w.Acceptable code
    · obtain ⟨admitted, new, code, named, acceptable⟩ := accepted
      obtain ⟨n, rfl, early⟩ := spares admitted new code named acceptable
      obtain ⟨claimed, rest, passed, -⟩ := send_granted clear admitted new named acceptable
      have reserved : (reserve code w).1.Clear := clear.updateInvite
      -- the code is reserved and the windows are synchronised before the slot is claimed
      rw [Registration.registryStep, leave, passed]
      rcases n with _ | _ | _ | n
      · exact clear
      · exact reserved
      · exact reserved.sync
      · omega
    · refine (clear_sendLoginCode r).leave ⟨clear, fun admitted new code named acceptable => ?_⟩
        clear updates
      exact accepted ⟨admitted, new, code, named, acceptable⟩

theorem spares_of_orderly (clear : w.Clear) (orderly : (registryStep w a).Orderly) : w.Spares a := by
  cases a with
  | tick | login => trivial
  | send r updates =>
    intro admitted new code named acceptable
    by_contra late
    obtain ⟨claimed, rest, passed, leaked, final⟩ :=
      send_granted clear admitted new named acceptable
    have left : Leaked w r.email code ((sendLoginCode r).leave updates w) := by
      cases updates with
      | none => exact final
      | some n =>
        refine leaked _ (leave_mem passed (not_le.mp fun early => ?_))
        exact late ⟨n, rfl, Nat.lt_succ_of_le early⟩
    exact not_orderly_of_leaked left orderly

theorem orderly_of_clear (clear : w.Clear) (once : Once w) : w.Orderly where
  completes email invite verification presented := by
    obtain ⟨e, found, -⟩ := has_iff.mp presented.verifiable
    cases found.symm.trans (clear.known email presented.new)
  once := once.nodup
  counted _ := clear.counted

def Registry.start (now : ℤ) (invites : String → Option InviteCode)
    (windows : WindowId → Option RegistrationWindow) (users : Email → Option User)
    (aliases : Email → Option Email) (nextUser : UserId) : Registry where
  now := now
  invites := invites
  windows := fun id => (windows id).map fun x => { x with registeredCount := 0 }
  users := users
  aliases := aliases
  nextUser := nextUser

variable (now : ℤ) (invites : String → Option InviteCode)
  (windows : WindowId → Option RegistrationWindow) (users : Email → Option User)
  (aliases : Email → Option Email) (nextUser : UserId)

theorem clear_start : (start now invites windows users aliases nextUser).Clear := by
  refine ⟨fun id x there => ?_, fun email _ => rfl⟩
  obtain ⟨y, -, rfl⟩ := Option.map_eq_some_iff.mp there
  rfl

theorem once_start : Once (start now invites windows users aliases nextUser) where
  nodup := List.nodup_nil
  spent r mem := by cases mem

/-- In every run a code registers one user at most; and every state is orderly just when no
call of `send_login_code` claims a slot. -/
theorem enrolled_throughout (actions : List RegistryAction) :
    (∀ w, run (total registryStep) (start now invites windows users aliases nextUser) actions =
      some w → (w.registered.map Enrolment.code).Nodup) ∧
    ((∀ first, first <+: actions → ∀ w,
        run (total registryStep) (start now invites windows users aliases nextUser) first = some w →
          w.Orderly) ↔
      Along (total registryStep) Spares (start now invites windows users aliases nextUser)
        actions) := by
  constructor
  · intro w reached
    refine (run_preserves (P := Once) ?_ (once_start ..) reached).nodup
    intro s a t once taken
    cases taken
    exact once.registryStep a
  · apply forall_prefix_iff_along (P := fun w => w.Clear ∧ Once w)
    · exact fun held => orderly_of_clear held.1 held.2
    · intro s a t held spares taken
      cases taken
      exact ⟨held.1.registryStep spares, held.2.registryStep a⟩
    · intro s a t held taken orderly
      cases taken
      exact spares_of_orderly held.1 orderly
    · intro s a stuck
      cases stuck
    · exact ⟨clear_start .., once_start ..⟩

def oneWindow : Registry :=
  start 0 (fun code => if code = "INVITE" then some ⟨.unused, "w1", none, none⟩ else none)
    (fun id => if id = "w1" then some ⟨0, 86400, 2, 0, true, .active⟩ else none)
    (fun _ => none) (fun _ => none) 0

/-- A new user presents a valid code and then the verification code, and is told that the code
is used; when the hand-over has expired, the window counts a user that does not exist. -/
theorem invite_lost :
    ∃ w later, run (total registryStep) oneWindow
        [.send ⟨"ann@x.org", some "INVITE", "123456", false, true⟩ none] = some w ∧
      run (total registryStep) w [.tick 601] = some later ∧
      oneWindow.Acceptable "INVITE" ∧ w.Presented "ann@x.org" "INVITE" "123456" ∧
      (loginWithCode ⟨"ann@x.org", "123456", some "INVITE", false, false, true⟩ w).result.mapError
        RequestError.response = .error (some (400, "Invalid or used invite code")) ∧
      (later.windows "w1").map RegistrationWindow.registeredCount = some 1 ∧
      later.registered = [] ∧ ¬ w.Orderly ∧ ¬ later.InProgress := by
  have acceptable : oneWindow.Acceptable "INVITE" :=
    ⟨⟨.unused, "w1", none, none⟩, rfl, rfl, by simp, ⟨0, 86400, 2, 0, true, .active⟩, rfl, by decide⟩
  have presented : (registryStep oneWindow
      (.send ⟨"ann@x.org", some "INVITE", "123456", false, true⟩ none)).Presented
        "ann@x.org" "INVITE" "123456" :=
    ⟨rfl, ⟨"w1", rfl⟩, rfl, _, rfl, by simp, _, rfl, by decide, by decide⟩
  refine ⟨_, _, rfl, rfl, acceptable, presented, rfl, rfl, rfl, fun orderly => ?_, ?_⟩
  · obtain ⟨user, registered, -⟩ := orderly.completes _ _ _ presented none (by simp)
    cases registered
  · rintro ⟨email, _, verification, wrong⟩
    obtain ⟨e, found, -⟩ := has_iff.mp wrong.verifiable
    obtain ⟨stored, alive⟩ := live_eq_some.mp found
    by_cases own : email = "ann@x.org"
    · rw [own] at stored
      cases stored
      cases alive
    · have absent := (Function.update_of_ne own _ _).symm.trans stored
      cases absent

end Steps

end Deeting.Registration
