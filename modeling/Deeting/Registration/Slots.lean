import Deeting.Counting
import Deeting.Registration.Windows
import Deeting.Transition

/-! The slots of the registration windows, as `claim_registration_slot`,
`claim_registration_slot_for_window`, `rollback_registration_slot` and `close_window_by_id` take
and return them. Every query and every commit is a step, and the calls take theirs in any order.
A commit writes the columns in which a row differs from what its session has read. -/
namespace Deeting.Registration
open Transition Counting

namespace RegistrationWindow

/-- `claim_registration_slot`, for the window that it has selected. -/
def claimSelected (now : ℤ) (x : RegistrationWindow) :
    RegistrationWindow × Except ClaimError Unit :=
  if x.endTime < now then ({ x with status := .closed }, .error .ended)
  else if x.maxRegistrations ≤ x.registeredCount then
    ({ x with status := .closed }, .error .quotaExceeded)
  else
    let count := x.registeredCount + 1
    ({ x with
      registeredCount := count
      status := if x.maxRegistrations ≤ count then .closed else x.status }, .ok ())

/-- The row that a commit leaves of `x`, where its session has read `old` and made it `new`. -/
def flush (x old new : RegistrationWindow) : RegistrationWindow :=
  { x with
    registeredCount :=
      if new.registeredCount = old.registeredCount then x.registeredCount
      else new.registeredCount
    status := if new.status = old.status then x.status else new.status }

end RegistrationWindow

inductive Purpose where
  | claim
  | refuse (e : ClaimError)
  | rollback
  | close
  deriving DecidableEq

inductive SlotCall where
  | sync (now : ℤ) (window : Option WindowId)
  | find (now : ℤ) (window : Option WindowId)
  | undo (id : WindowId) (now : ℤ)
  | close (id : WindowId)
  | commit (id : WindowId) (old new : RegistrationWindow) (purpose : Purpose)
  | refresh (id : WindowId)
  | claimed (id : WindowId) (window : RegistrationWindow) (givenUp : Bool)
  | raised (e : ClaimError)
  | undone (id : WindowId)
  | closed (id : WindowId)
  | missed
  deriving DecidableEq

def Purpose.claims : Purpose → Bool
  | .claim | .refuse _ => true
  | _ => false

def Purpose.next (id : WindowId) : Purpose → SlotCall
  | .claim => .refresh id
  | .refuse e => .raised e
  | .rollback => .undone id
  | .close => .closed id

def claimOf (id : WindowId) (old : RegistrationWindow) :
    RegistrationWindow × Except ClaimError Unit → SlotCall
  | (new, .ok ()) => .commit id old new .claim
  | (new, .error e) => if new = old then .raised e else .commit id old new (.refuse e)

/-- The windows, the calls, and the windows whose closing an administrator was answered. -/
structure Desk where
  ids : List WindowId := []
  windows : WindowId → Option RegistrationWindow := fun _ => none
  calls : List SlotCall := []
  shut : List WindowId := []

/-- A rollback is that of a claim: in its own session, if that still holds the row, it finds the
row as the claim left it. The database selects any of the windows that start first. -/
inductive SlotAction where
  | create (id : WindowId) (startTime endTime now : ℤ) (maxRegistrations : ℕ) (autoActivate : Bool)
  | claim (now : ℤ) (window : Option WindowId)
  | rollback (claim : ℕ) (own : Bool) (now : ℤ)
  | close (id : WindowId)
  | advance (call : ℕ)
  | select (call : ℕ) (found : Option WindowId)

namespace Desk

def begin (w : Desk) (c : SlotCall) : Desk := { w with calls := w.calls ++ [c] }

def goOn (w : Desk) (i : ℕ) (c : SlotCall) : Desk := { w with calls := w.calls.set i c }

/-- `create_registration_window`. -/
def create (w : Desk) (id : WindowId) (startTime endTime now : ℤ) (maxRegistrations : ℕ)
    (autoActivate : Bool) : Desk :=
  { w with
    ids := id :: w.ids
    windows := Function.update w.windows id (some ⟨startTime, endTime, maxRegistrations, 0,
      autoActivate, if startTime ≤ now then .active else .scheduled⟩) }

def sync (w : Desk) (now : ℤ) : Desk :=
  { w with windows := fun id => (w.windows id).map (syncWindow now) }

def commit (w : Desk) (id : WindowId) (old new : RegistrationWindow) (purpose : Purpose) : Desk :=
  { w with
    windows := Function.update w.windows id ((w.windows id).map fun x => x.flush old new)
    shut := if purpose = .close then id :: w.shut else w.shut }

def Selects (w : Desk) (now : ℤ) (id : WindowId) : Prop :=
  ∃ x ∈ w.windows id, x.Open now ∧
    ∀ other ∈ w.ids, ∀ y ∈ w.windows other, y.Open now → x.startTime ≤ y.startTime

instance (w : Desk) (now : ℤ) (id : WindowId) : Decidable (w.Selects now id) :=
  inferInstanceAs (Decidable (∃ x ∈ w.windows id, _))

def advance (w : Desk) (i : ℕ) : SlotCall → Option Desk
  | .sync now window => some ((w.sync now).goOn i (.find now window))
  | .find now (some id) =>
    match w.windows id with
    | none => some (w.goOn i (.raised .notFound))
    | some x => some (w.goOn i (claimOf id x (x.claim now)))
  | .undo id now =>
    match w.windows id with
    | none => some (w.goOn i .missed)
    | some x => some (w.goOn i (.commit id x (x.rollbackSlot now) .rollback))
  | .close id =>
    match w.windows id with
    | none => some (w.goOn i .missed)
    | some x =>
      if x.status = .closed then some ({ w with shut := id :: w.shut }.goOn i (.closed id))
      else some (w.goOn i (.commit id x { x with status := .closed } .close))
  | .commit id old new purpose => some ((w.commit id old new purpose).goOn i (purpose.next id))
  | .refresh id => (w.windows id).map fun x => w.goOn i (.claimed id x false)
  | _ => none

/-- `claim_registration_slot` gets its answer from the database. -/
def select (w : Desk) (i : ℕ) (now : ℤ) : Option WindowId → Option Desk
  | none =>
    if ∀ id ∈ w.ids, ∀ x ∈ w.windows id, ¬ x.Open now then some (w.goOn i (.raised .notOpen))
    else none
  | some id =>
    if w.Selects now id then
      (w.windows id).map fun x => w.goOn i (claimOf id x (x.claimSelected now))
    else none

end Desk

def slotStep (w : Desk) : SlotAction → Option Desk
  | .create id startTime endTime now maxRegistrations autoActivate =>
    if 0 < maxRegistrations ∧ startTime < endTime ∧ w.windows id = none then
      some (w.create id startTime endTime now maxRegistrations autoActivate)
    else none
  | .claim now window => some (w.begin (.sync now window))
  | .rollback claim own now =>
    match w.calls[claim]? with
    | some (.claimed id x false) =>
      some ((w.goOn claim (.claimed id x true)).begin
        (if own then .commit id x (x.rollbackSlot now) .rollback else .undo id now))
    | _ => none
  | .close id => some (w.begin (.close id))
  | .advance i => w.calls[i]?.bind fun c => w.advance i c
  | .select i found =>
    match w.calls[i]? with
    | some (.find now none) => w.select i now found
    | _ => none

/-- What a commit for the purpose makes of the row that was read. -/
structure Purpose.Fits (purpose : Purpose) (old new : RegistrationWindow) : Prop where
  count : new.registeredCount =
    match purpose with
    | .claim => old.registeredCount + 1
    | .rollback => old.registeredCount - 1
    | _ => old.registeredCount
  status : new.status = old.status ∨
    if purpose = .rollback then old.status = .closed ∧ new.status = .active
    else new.status = .closed
  free : purpose = .claim → old.registeredCount < old.maxRegistrations
  closes : purpose = .close → new.status = .closed ∧ old.status ≠ .closed

inductive Desk.Reads (w : Desk) : SlotCall → SlotCall → Prop
  | raised {now : ℤ} {window : Option WindowId} (e : ClaimError) :
      Reads w (.find now window) (.raised e)
  | claim {now : ℤ} {window : Option WindowId} {id : WindowId} {old new : RegistrationWindow}
      {purpose : Purpose} (there : w.windows id = some old) (fits : purpose.Fits old new)
      (claims : purpose.claims = true) : Reads w (.find now window) (.commit id old new purpose)
  | undo {now : ℤ} {id : WindowId} {old new : RegistrationWindow} (there : w.windows id = some old)
      (fits : Purpose.rollback.Fits old new) : Reads w (.undo id now) (.commit id old new .rollback)
  | close {id : WindowId} {old new : RegistrationWindow} (there : w.windows id = some old)
      (fits : Purpose.close.Fits old new) : Reads w (.close id) (.commit id old new .close)
  | refresh {id : WindowId} {x : RegistrationWindow} (there : w.windows id = some x) :
      Reads w (.refresh id) (.claimed id x false)
  | unknown {id : WindowId} : Reads w (.close id) .missed
  | gone {now : ℤ} {id : WindowId} (absent : w.windows id = none) : Reads w (.undo id now) .missed

inductive Desk.Moves (w : Desk) : SlotAction → Desk → Prop
  | created {id : WindowId} {startTime endTime now : ℤ} {maxRegistrations : ℕ}
      {autoActivate : Bool} (fresh : w.windows id = none) :
      Moves w (.create id startTime endTime now maxRegistrations autoActivate)
        (w.create id startTime endTime now maxRegistrations autoActivate)
  | claimed (now : ℤ) (window : Option WindowId) :
      Moves w (.claim now window) (w.begin (.sync now window))
  | closing (id : WindowId) : Moves w (.close id) (w.begin (.close id))
  | undoing {i : ℕ} {own : Bool} {now : ℤ} {id : WindowId} {x : RegistrationWindow}
      (at_ : w.calls[i]? = some (.claimed id x false)) :
      Moves w (.rollback i own now) ((w.goOn i (.claimed id x true)).begin
        (if own then .commit id x (x.rollbackSlot now) .rollback else .undo id now))
  | synced {i : ℕ} {now : ℤ} {window : Option WindowId}
      (at_ : w.calls[i]? = some (.sync now window)) :
      Moves w (.advance i) ((w.sync now).goOn i (.find now window))
  | read {a : SlotAction} {i : ℕ} {c next : SlotCall} (at_ : w.calls[i]? = some c)
      (own : a = .advance i ∨ ∃ found, a = .select i found) (reads : w.Reads c next) :
      Moves w a (w.goOn i next)
  | already {i : ℕ} {id : WindowId} {x : RegistrationWindow} (at_ : w.calls[i]? = some (.close id))
      (there : w.windows id = some x) (closed : x.status = .closed) :
      Moves w (.advance i) ({ w with shut := id :: w.shut }.goOn i (.closed id))
  | committed {i : ℕ} {id : WindowId} {old new : RegistrationWindow} {purpose : Purpose}
      (at_ : w.calls[i]? = some (.commit id old new purpose)) :
      Moves w (.advance i) ((w.commit id old new purpose).goOn i (purpose.next id))

section Inversion

variable {w t : Desk} {id : WindowId} {now : ℤ} {x old new : RegistrationWindow}

theorem fits_refuse (e : ClaimError) (x : RegistrationWindow) :
    (Purpose.refuse e).Fits x { x with status := .closed } where
  count := rfl
  status := .inr rfl
  free same := by cases same
  closes same := by cases same

theorem fits_claim (free : x.registeredCount < x.maxRegistrations) :
    Purpose.claim.Fits x { x with
      registeredCount := x.registeredCount + 1
      status := if x.maxRegistrations ≤ x.registeredCount + 1 then .closed else x.status } where
  count := rfl
  status := by
    dsimp only
    split
    · exact .inr rfl
    · exact .inl rfl
  free _ := free
  closes same := by cases same

theorem fits_rollback (now : ℤ) (x : RegistrationWindow) :
    Purpose.rollback.Fits x (x.rollbackSlot now) where
  count := rfl
  status := by
    dsimp only [RegistrationWindow.rollbackSlot]
    split
    · rename_i opens
      exact .inr ⟨opens.1, rfl⟩
    · exact .inl rfl
  free same := by cases same
  closes same := by cases same

theorem fits_close (opened : x.status ≠ .closed) :
    Purpose.close.Fits x { x with status := .closed } where
  count := rfl
  status := .inr rfl
  free same := by cases same
  closes _ := ⟨rfl, opened⟩

theorem Desk.Reads.refused (there : w.windows id = some x) (window : Option WindowId)
    (e : ClaimError) :
    w.Reads (.find now window) (claimOf id x ({ x with status := .closed }, .error e)) := by
  rw [claimOf]
  split
  · exact .raised e
  · exact .claim there (fits_refuse e x) rfl

theorem Desk.Reads.claims (there : w.windows id = some x) (window : Option WindowId) :
    w.Reads (.find now window) (claimOf id x (x.claim now)) := by
  have unchanged (e : ClaimError) : claimOf id x (x, .error e) = .raised e := if_pos rfl
  rw [RegistrationWindow.claim]
  split
  · rw [unchanged]
    exact .raised _
  · split
    · rw [unchanged]
      exact .raised _
    · split
      · exact .refused there window _
      · rename_i free
        exact .claim there (fits_claim (not_le.mp free)) rfl

theorem Desk.Reads.claimsSelected (there : w.windows id = some x) (window : Option WindowId) :
    w.Reads (.find now window) (claimOf id x (x.claimSelected now)) := by
  rw [RegistrationWindow.claimSelected]
  split
  · exact .refused there window _
  · split
    · exact .refused there window _
    · rename_i free
      exact .claim there (fits_claim (not_le.mp free)) rfl

theorem Desk.Moves.of_advance {i : ℕ} {c : SlotCall} (at_ : w.calls[i]? = some c)
    (taken : w.advance i c = some t) : w.Moves (.advance i) t := by
  cases c with
  | sync now window =>
    cases taken
    exact .synced at_
  | find now window =>
    cases window with
    | none => cases taken
    | some id =>
      simp only [Desk.advance] at taken
      cases there : w.windows id with
      | none =>
        rw [there] at taken
        cases taken
        exact .read at_ (.inl rfl) (.raised _)
      | some x =>
        rw [there] at taken
        cases taken
        exact .read at_ (.inl rfl) (.claims there _)
  | undo id now =>
    simp only [Desk.advance] at taken
    cases there : w.windows id with
    | none =>
      rw [there] at taken
      cases taken
      exact .read at_ (.inl rfl) (.gone there)
    | some x =>
      rw [there] at taken
      cases taken
      exact .read at_ (.inl rfl) (.undo there (fits_rollback now x))
  | close id =>
    simp only [Desk.advance] at taken
    cases there : w.windows id with
    | none =>
      rw [there] at taken
      cases taken
      exact .read at_ (.inl rfl) .unknown
    | some x =>
      rw [there] at taken
      dsimp only at taken
      split at taken
      · rename_i closed
        cases taken
        exact .already at_ there closed
      · rename_i opened
        cases taken
        exact .read at_ (.inl rfl) (.close there (fits_close opened))
  | commit id old new purpose =>
    cases taken
    exact .committed at_
  | refresh id =>
    obtain ⟨x, there, rfl⟩ := Option.map_eq_some_iff.mp taken
    exact .read at_ (.inl rfl) (.refresh there)
  | claimed | raised | undone | closed | missed => cases taken

theorem Desk.Moves.of_select {i : ℕ} {found : Option WindowId}
    (at_ : w.calls[i]? = some (.find now none)) (taken : w.select i now found = some t) :
    w.Moves (.select i found) t := by
  cases found with
  | none =>
    obtain ⟨-, same⟩ := Option.ite_none_right_eq_some.mp taken
    cases same
    exact .read at_ (.inr ⟨_, rfl⟩) (.raised _)
  | some id =>
    obtain ⟨-, read⟩ := Option.ite_none_right_eq_some.mp taken
    obtain ⟨x, there, rfl⟩ := Option.map_eq_some_iff.mp read
    exact .read at_ (.inr ⟨_, rfl⟩) (.claimsSelected there _)

theorem Desk.Moves.of_step {a : SlotAction} (taken : slotStep w a = some t) : w.Moves a t := by
  cases a with
  | create id startTime endTime now maxRegistrations autoActivate =>
    obtain ⟨⟨-, -, fresh⟩, same⟩ := Option.ite_none_right_eq_some.mp taken
    cases same
    exact .created fresh
  | claim now window =>
    cases taken
    exact .claimed now window
  | rollback i own now =>
    simp only [slotStep] at taken
    split at taken
    · rename_i id x at_
      cases taken
      exact .undoing at_
    · cases taken
  | close id =>
    cases taken
    exact .closing id
  | advance i =>
    obtain ⟨c, at_, taken⟩ := Option.bind_eq_some_iff.mp taken
    exact .of_advance at_ taken
  | select i found =>
    simp only [slotStep] at taken
    split at taken
    · rename_i now at_
      exact .of_select at_ taken
    · cases taken

end Inversion

end Deeting.Registration
