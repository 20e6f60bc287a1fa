import Deeting.Expiry
import Deeting.Interruptible
import Mathlib.Data.Int.Order.Basic
import Mathlib.Logic.Function.Basic

/-! Registration by invite code: `send_login_code` and `login_with_code` with registration
control on, outside the test and development environments. Each database commit and each cache
command is an update that other requests see. Emails are as normalised; times are seconds. -/
namespace Deeting.Registration
open Expiry Interruptible Program

abbrev Email := String

abbrev WindowId := String

abbrev UserId := ℕ

inductive InviteCodeStatus where
  | unused
  | reserved
  | used
  | revoked
  deriving DecidableEq

structure InviteCode where
  status : InviteCodeStatus
  windowId : WindowId
  expiresAt : Option ℤ
  usedBy : Option UserId
  deriving DecidableEq

inductive RegistrationWindowStatus where
  | scheduled
  | active
  | closed
  deriving DecidableEq

structure RegistrationWindow where
  startTime : ℤ
  endTime : ℤ
  maxRegistrations : ℕ
  registeredCount : ℕ
  autoActivate : Bool
  status : RegistrationWindowStatus
  deriving DecidableEq

structure User where
  id : UserId
  email : Email
  isActive : Bool
  deriving DecidableEq

/-- The hand-over from `send_login_code` to `login_with_code`. -/
structure TempInvite where
  code : String
  windowId : WindowId
  deriving DecidableEq

/-- A user that was created by consuming a code of a window. -/
structure Enrolment where
  user : UserId
  code : String
  window : WindowId
  deriving DecidableEq

/-- The rows and cache entries that a registration touches, and the registrations so far. An
alias is an `email_code` identity, under the email of its user. -/
structure Registry where
  now : ℤ
  invites : String → Option InviteCode
  windows : WindowId → Option RegistrationWindow
  users : Email → Option User
  aliases : Email → Option Email
  nextUser : UserId
  tempInvite : Email → Option (Entry ℤ TempInvite) := fun _ => none
  loginCode : Email → Option (Entry ℤ String) := fun _ => none
  registered : List Enrolment := []

inductive ClaimError where
  | notFound
  | notOpen
  | closed
  | outside
  | ended
  | quotaExceeded
  deriving DecidableEq

inductive RequestError where
  | limited
  | inviteRequired
  | invalidInvite
  | inviteExpired
  | claim (e : ClaimError)
  | deliveryFailed
  | wrongCode
  | storage
  deriving DecidableEq

def ClaimError.message : ClaimError → String
  | .notFound => "指定注册窗口不存在"
  | .notOpen => "当前未开放注册窗口"
  | .closed => "注册窗口未激活或已关闭"
  | .outside => "注册时间不在有效范围内"
  | .ended => "注册时间已结束"
  | .quotaExceeded => "注册名额已满"

def RequestError.response : RequestError → Option (ℕ × String)
  | .limited => some (429, "Too many failed login attempts, please try again later")
  | .inviteRequired => some (403, "Registration requires invite code")
  | .invalidInvite => some (400, "Invalid or used invite code")
  | .inviteExpired => some (410, "Invite code expired")
  | .claim e => some (403, e.message)
  | .deliveryFailed => some (503, "Verification email delivery failed")
  | .wrongCode => some (401, "Invalid or expired code")
  | .storage => none

abbrev Request (α : Type) := Program Registry RequestError α

namespace Registry

/-- `UPDATE .. WHERE code = .. AND status = .. RETURNING`. -/
def updateInvite (code : String) (allowed : InviteCodeStatus → Bool)
    (change : InviteCode → InviteCode) (w : Registry) : Registry × Option InviteCode :=
  match w.invites code with
  | some invite =>
    if allowed invite.status then
      ({ w with invites := Function.update w.invites code (some (change invite)) },
        some (change invite))
    else (w, none)
  | none => (w, none)

def reserve (code : String) : Registry → Registry × Option InviteCode :=
  updateInvite code (· = .unused) fun invite => { invite with status := .reserved }

def markUsed (code : String) (user : UserId) : Registry → Registry × Option InviteCode :=
  updateInvite code (· = .reserved) fun invite =>
    { invite with status := .used, usedBy := some user }

def rollback (code : String) : Registry → Registry × Option InviteCode :=
  updateInvite code (· = .reserved) fun invite => { invite with status := .unused }

def revoke (code : String) : Registry → Registry × Option InviteCode :=
  updateInvite code (fun s => s = .unused ∨ s = .reserved) fun invite =>
    { invite with status := .revoked }

end Registry

/-- `_sync_window_states`, for one window. -/
def syncWindow (now : ℤ) (x : RegistrationWindow) : RegistrationWindow :=
  if x.status = .scheduled ∧ x.startTime ≤ now ∧ now ≤ x.endTime then
    { x with status := .active }
  else if x.status = .active ∧ x.endTime < now then { x with status := .closed }
  else x

namespace RegistrationWindow

def claim (now : ℤ) (x : RegistrationWindow) : RegistrationWindow × Except ClaimError Unit :=
  if x.status ≠ .active then (x, .error .closed)
  else if ¬ (x.startTime ≤ now ∧ now ≤ x.endTime) then (x, .error .outside)
  else if x.maxRegistrations ≤ x.registeredCount then
    ({ x with status := .closed }, .error .quotaExceeded)
  else
    let count := x.registeredCount + 1
    ({ x with
      registeredCount := count
      status := if x.maxRegistrations ≤ count then .closed else x.status }, .ok ())

def rollbackSlot (now : ℤ) (x : RegistrationWindow) : RegistrationWindow :=
  let count := x.registeredCount - 1
  { x with
    registeredCount := count
    status := if x.status = .closed ∧ count < x.maxRegistrations ∧ x.startTime ≤ now ∧
      now ≤ x.endTime then .active else x.status }

end RegistrationWindow

namespace Registry

def sync (w : Registry) : Registry :=
  { w with windows := fun id => (w.windows id).map (syncWindow w.now) }

/-- `claim_registration_slot_for_window`, after `_sync_window_states`. -/
def claim (id : WindowId) (w : Registry) : Registry × Except ClaimError RegistrationWindow :=
  match w.windows id with
  | none => (w, .error .notFound)
  | some x =>
    let (x, claimed) := x.claim w.now
    ({ w with windows := Function.update w.windows id (some x) }, claimed.map fun _ => x)

def rollbackSlot (id : WindowId) (w : Registry) : Registry :=
  { w with
    windows := Function.update w.windows id ((w.windows id).map fun x => x.rollbackSlot w.now) }

/-- `_get_user_by_login_email`. -/
def findUser (w : Registry) (email : Email) : Option User :=
  (w.aliases email).bind w.users <|> w.users email

def activate (user : User) (w : Registry) : Registry :=
  { w with users := Function.update w.users user.email (some { user with isActive := true }) }

/-- `create_user`, for the user of a code. -/
def createUser (email : Email) (isActive : Bool) (code : String) (window : WindowId)
    (w : Registry) : Registry × User :=
  let user : User := ⟨w.nextUser, email, isActive⟩
  ({ w with
    users := Function.update w.users email (some user)
    nextUser := w.nextUser + 1
    registered := ⟨user.id, code, window⟩ :: w.registered }, user)

def handOver (email : Email) (temp : TempInvite) (w : Registry) : Registry :=
  { w with tempInvite := Function.update w.tempInvite email (some ⟨temp, some (w.now + 600)⟩) }

def dropTemp (email : Email) (w : Registry) : Registry :=
  { w with tempInvite := Function.update w.tempInvite email none }

def setLoginCode (email : Email) (code : String) (w : Registry) : Registry :=
  { w with loginCode := Function.update w.loginCode email (some ⟨code, some (w.now + 600)⟩) }

def dropLoginCode (email : Email) (w : Registry) : Registry :=
  { w with loginCode := Function.update w.loginCode email none }

end Registry

def given (code : Option String) : Option String := code.filter (· ≠ "")

/-- `InviteCodeService.consume`. The window is the one of the code, so the last check of the
source cannot fail. -/
def consume (code : String) : Request (WindowId × RegistrationWindow) := do
  match ← act (Registry.reserve code) with
  | none => raise .invalidInvite
  | some invite =>
    let w ← read
    if invite.expiresAt.any (· < w.now) then
      let _ ← act (Registry.revoke code)
      raise .inviteExpired
    else
      update Registry.sync
      match ← act (Registry.claim invite.windowId) with
      | .error e =>
        let _ ← act (Registry.rollback code)
        raise (.claim e)
      | .ok window => return (invite.windowId, window)

structure SendRequest where
  email : Email
  inviteCode : Option String
  /-- The random verification code. -/
  code : String
  /-- `check_login_rate_limit` refuses. -/
  limited : Bool := false
  delivered : Bool := true

/-- `send_login_code` before the verification code: a new user's code is consumed. -/
def preRegister (r : SendRequest) : Request Unit := do
  let w ← read
  if (w.findUser r.email).isSome then return
  else
    match given r.inviteCode with
    | none => raise .inviteRequired
    | some invite =>
      let (windowId, _) ← consume invite
      update (Registry.handOver r.email ⟨invite, windowId⟩)

def sendVerificationCode (r : SendRequest) : Request Unit := do
  update (Registry.setLoginCode r.email r.code)
  if r.delivered then return
  else
    update (Registry.dropLoginCode r.email)
    raise .deliveryFailed

def sendLoginCode (r : SendRequest) : Request Unit :=
  if r.limited then raise .limited
  else do
    preRegister r
    sendVerificationCode r

structure LoginRequest where
  email : Email
  code : String
  inviteCode : Option String
  limited : Bool := false
  /-- The attempts of `verify_code` are used up. -/
  exhausted : Bool := false
  /-- The database takes the new user. -/
  stored : Bool := true

/-- `verify_code` for the purpose `login`. -/
def verifyCode (r : LoginRequest) : Request Unit := do
  let w ← read
  if r.exhausted ∨ Has w.now (w.loginCode r.email) r.code then
    update (Registry.dropLoginCode r.email)
    if r.exhausted then raise .wrongCode
  else raise .wrongCode

/-- `provision_user` for an email that has no user, with the code that the policy asks for. -/
def provisionUser (r : LoginRequest) (inviteCode : Option String) : Request User :=
  match inviteCode with
  | none => raise .inviteRequired
  | some invite => do
    let (windowId, window) ← consume invite
    if r.stored then
      let user ← act (Registry.createUser r.email window.autoActivate invite windowId)
      let _ ← act (Registry.markUsed invite user.id)
      return user
    else
      let _ ← act (Registry.rollback invite)
      update (Registry.rollbackSlot windowId)
      raise .storage

/-- The second `finalize`, of `_provision_login_user`. -/
def finalizeHandedOver (inviteCode : Option String) (cached : Option TempInvite) (user : User) :
    Request Unit :=
  match inviteCode, cached with
  | some invite, some _ => do
    let _ ← act (Registry.markUsed invite user.id)
  | _, _ => return

def provisionLoginUser (r : LoginRequest) : Request Unit := do
  let w ← read
  let cached := (live w.now (w.tempInvite r.email)).map Entry.value
  let inviteCode := given r.inviteCode <|> cached.map TempInvite.code
  let user ← provisionUser r inviteCode
  update (Registry.activate user)
  finalizeHandedOver inviteCode cached user
  update (Registry.dropTemp r.email)

def loginWithCode (r : LoginRequest) : Request Unit :=
  if r.limited then raise .limited
  else do
    verifyCode r
    let w ← read
    match w.findUser r.email with
    | some user => update (Registry.activate user)
    | none => provisionLoginUser r

/-- Time passes, or a request runs to its end or is left off after so many updates. -/
inductive RegistryAction where
  | tick (seconds : ℕ)
  | send (r : SendRequest) (updates : Option ℕ)
  | login (r : LoginRequest) (updates : Option ℕ)

def registryStep (w : Registry) : RegistryAction → Registry
  | .tick seconds => { w with now := w.now + seconds }
  | .send r updates => (sendLoginCode r).leave updates w
  | .login r updates => (loginWithCode r).leave updates w

end Deeting.Registration
