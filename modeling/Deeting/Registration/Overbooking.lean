import Deeting.Registration.Slots

/-! When the slots of the windows add up: in the runs in which no claim or rollback writes a
count over one that it has not read, and no rollback opens a window that an administrator shut. -/
namespace Deeting.Registration
open Transition Counting

namespace SlotCall

def granted (id : WindowId) : SlotCall → Bool
  | .refresh own | .claimed own _ _ => own = id
  | _ => false

def rolledBack (id : WindowId) : SlotCall → Bool
  | .undone own => own = id
  | _ => false

def undoing (id : WindowId) : SlotCall → Bool
  | .undo own _ | .commit own _ _ .rollback => own = id
  | _ => false

def givenUp (id : WindowId) : SlotCall → Bool
  | .claimed own _ true => own = id
  | _ => false

end SlotCall

namespace Desk

def granted (w : Desk) (id : WindowId) : ℕ := w.calls.countP (SlotCall.granted id)

def rolledBack (w : Desk) (id : WindowId) : ℕ := w.calls.countP (SlotCall.rolledBack id)

structure Booked (w : Desk) : Prop where
  counted : ∀ id, ∀ x ∈ w.windows id, w.granted id = x.registeredCount + w.rolledBack id
  bounded : ∀ id, ∀ x ∈ w.windows id, x.registeredCount ≤ x.maxRegistrations
  final : ∀ id ∈ w.shut, ∀ x ∈ w.windows id, x.status ≠ .active

/-- The commit of a claim or a rollback meets the count that its session has read, and that of
a rollback does not open a window that is shut. -/
def Undisturbed (w : Desk) : SlotCall → Prop
  | .commit id old new purpose =>
    (purpose = .claim ∨ purpose = .rollback →
      ∀ x ∈ w.windows id, x.registeredCount = old.registeredCount) ∧
    (new.status = .active → old.status = .closed → id ∉ w.shut)
  | _ => True

def Meets (w : Desk) : SlotAction → Prop
  | .advance i => ∀ c ∈ w.calls[i]?, w.Undisturbed c
  | _ => True

def capacity (w : Desk) (id : WindowId) : Option ℕ :=
  (w.windows id).map RegistrationWindow.maxRegistrations

end Desk

/-- A call is about a window that is there, and holds a row with its maximum. -/
def SlotCall.Fits (capacity : WindowId → Option ℕ) : SlotCall → Prop
  | .commit id old new purpose =>
    capacity id = some old.maxRegistrations ∧ purpose.Fits old new
  | .claimed id x _ => capacity id = some x.maxRegistrations
  | .refresh id | .undo id _ | .undone id | .closed id => (capacity id).isSome
  | _ => True

namespace Desk

structure Linked (w : Desk) : Prop where
  fits : ∀ c ∈ w.calls, c.Fits w.capacity
  known : ∀ id ∈ w.shut, (w.capacity id).isSome
  givenUp : ∀ id, w.calls.countP (SlotCall.givenUp id) =
    w.calls.countP (SlotCall.undoing id) + w.rolledBack id

structure Settled (w : Desk) : Prop where
  counted : ∀ id, ∀ x ∈ w.windows id, w.granted id = x.registeredCount + w.rolledBack id
  bounded : ∀ id, ∀ x ∈ w.windows id, x.registeredCount ≤ x.maxRegistrations
  closed : ∀ id ∈ w.shut, ∀ x ∈ w.windows id, x.status = .closed

theorem Settled.booked {w : Desk} (settled : w.Settled) : w.Booked where
  counted := settled.counted
  bounded := settled.bounded
  final id mem x there := by
    rw [settled.closed id mem x there]
    decide

end Desk

section Linked

open Desk

variable {w t : Desk} {a : SlotAction} {i : ℕ} {id : WindowId} {c next : SlotCall}
  {x old new : RegistrationWindow} {purpose : Purpose}

theorem syncWindow_max (now : ℤ) (x : RegistrationWindow) :
    (syncWindow now x).maxRegistrations = x.maxRegistrations := by
  simp only [syncWindow]
  split
  · rfl
  · split
    · rfl
    · rfl

theorem capacity_commit (purpose : Purpose) : (w.commit id old new purpose).capacity = w.capacity := by
  funext key
  simp only [capacity, Desk.commit, Function.update_apply]
  split
  · rename_i same
    rw [same, Option.map_map]
    rfl
  · rfl

theorem capacity_sync (now : ℤ) : (w.sync now).capacity = w.capacity := by
  funext key
  simp only [capacity, Desk.sync, Option.map_map]
  congr 1
  funext x
  exact syncWindow_max now x

theorem capacity_step (moves : w.Moves a t) {m : ℕ} (had : w.capacity id = some m) :
    t.capacity id = some m := by
  cases moves with
  | @created fresh_id start end_ now max auto fresh =>
    have other : id ≠ fresh_id := by
      rintro rfl
      rw [capacity, fresh] at had
      cases had
    simpa only [capacity, Desk.create, Function.update_of_ne other] using had
  | claimed | closing | undoing | read | already => exact had
  | synced at_ => exact (congrFun (capacity_sync _) id).trans had
  | @committed _ _ _ _ purpose at_ => exact (congrFun (capacity_commit purpose) id).trans had

theorem capacity_isSome_step (moves : w.Moves a t) (had : (w.capacity id).isSome) :
    (t.capacity id).isSome := by
  obtain ⟨m, had⟩ := Option.isSome_iff_exists.mp had
  exact Option.isSome_iff_exists.mpr ⟨m, capacity_step moves had⟩

theorem SlotCall.Fits.step (moves : w.Moves a t) (fits : c.Fits w.capacity) :
    c.Fits t.capacity := by
  cases c with
  | commit => exact ⟨capacity_step moves fits.1, fits.2⟩
  | claimed => exact capacity_step moves fits
  | refresh | undo | undone | closed => exact capacity_isSome_step moves fits
  | sync | find | close | raised | missed => trivial

theorem capacity_of_there (there : w.windows id = some x) :
    w.capacity id = some x.maxRegistrations := by
  rw [capacity, there, Option.map_some]

theorem Desk.Reads.fits (reads : w.Reads c next) : next.Fits w.capacity := by
  cases reads with
  | raised | unknown | gone => trivial
  | claim there fits => exact ⟨capacity_of_there there, fits⟩
  | undo there fits => exact ⟨capacity_of_there there, fits⟩
  | close there fits => exact ⟨capacity_of_there there, fits⟩
  | refresh there => exact capacity_of_there there

theorem Desk.Reads.same (reads : w.Reads c next) (fits : c.Fits w.capacity) (id : WindowId) :
    next.granted id = c.granted id ∧ next.rolledBack id = c.rolledBack id ∧
      next.undoing id = c.undoing id ∧ next.givenUp id = c.givenUp id := by
  cases reads with
  | raised | undo | close | refresh | unknown => exact ⟨rfl, rfl, rfl, rfl⟩
  | @claim _ _ _ _ _ purpose _ _ claims =>
    refine ⟨rfl, rfl, ?_, rfl⟩
    cases purpose with
    | claim | refuse => rfl
    | rollback | close => cases claims
  | gone absent =>
    rw [SlotCall.Fits, capacity, absent] at fits
    cases fits

theorem countP_goOn (p : SlotCall → Bool) (at_ : w.calls[i]? = some c) (same : p next = p c) :
    (w.goOn i next).calls.countP p = w.calls.countP p := by
  have set := countP_set_add p next at_
  rw [same] at set
  exact Nat.add_right_cancel set

theorem Desk.Linked.of_frame (linked : w.Linked) (capacity : t.capacity = w.capacity)
    (calls : t.calls = w.calls) (known : ∀ id ∈ t.shut, (w.capacity id).isSome) : t.Linked := by
  refine ⟨?_, ?_, ?_⟩
  · rw [capacity, calls]
    exact linked.fits
  · rw [capacity]
    exact known
  · simp only [Desk.rolledBack, calls]
    exact linked.givenUp

theorem Desk.Linked.goOn (linked : w.Linked) (at_ : w.calls[i]? = some c)
    (fits : next.Fits w.capacity) (balance : ∀ id,
      (if next.givenUp id then 1 else 0) + (if c.undoing id then 1 else 0) +
          (if c.rolledBack id then 1 else 0) =
        (if c.givenUp id then 1 else 0) + (if next.undoing id then 1 else 0) +
          if next.rolledBack id then 1 else 0) : (w.goOn i next).Linked := by
  refine ⟨forall_mem_set linked.fits fits, linked.known, fun id => ?_⟩
  have given := countP_set_add (SlotCall.givenUp id) next at_
  have undoing := countP_set_add (SlotCall.undoing id) next at_
  have rolledBack := countP_set_add (SlotCall.rolledBack id) next at_
  have before := linked.givenUp id
  have balance := balance id
  simp only [Desk.rolledBack, Desk.goOn] at *
  omega

theorem Desk.Linked.begin (linked : w.Linked) (fits : c.Fits w.capacity)
    (idle : ∀ id, c.givenUp id = false ∧ c.undoing id = false ∧ c.rolledBack id = false) :
    (w.begin c).Linked := by
  refine ⟨forall_mem_concat linked.fits fits, linked.known, fun id => ?_⟩
  obtain ⟨given, undoing, rolledBack⟩ := idle id
  simp only [Desk.begin, Desk.rolledBack, countP_concat, given, undoing, rolledBack]
  exact linked.givenUp id

theorem Desk.Linked.undo (linked : w.Linked) (at_ : w.calls[i]? = some (.claimed id x false))
    (fits : c.Fits w.capacity) (undoes : ∀ key, c.undoing key = decide (id = key))
    (idle : ∀ key, c.givenUp key = false ∧ c.rolledBack key = false) :
    ((w.goOn i (.claimed id x true)).begin c).Linked := by
  have claimed := linked.fits _ (List.mem_of_getElem? at_)
  refine ⟨forall_mem_concat (forall_mem_set linked.fits claimed) fits, linked.known, fun key => ?_⟩
  have given := countP_set_add (SlotCall.givenUp key) (.claimed id x true) at_
  have undoing := countP_set_add (SlotCall.undoing key) (.claimed id x true) at_
  have rolledBack := countP_set_add (SlotCall.rolledBack key) (.claimed id x true) at_
  have before := linked.givenUp key
  simp only [SlotCall.givenUp, SlotCall.undoing, SlotCall.rolledBack, Bool.false_eq_true,
    if_false, decide_eq_true_eq] at given undoing rolledBack
  simp only [Desk.begin, Desk.rolledBack, countP_concat, idle, undoes, decide_eq_true_eq,
    Bool.false_eq_true, if_false, Desk.goOn] at before ⊢
  omega

theorem Desk.Linked.step (linked : w.Linked) (moves : w.Moves a t) : t.Linked := by
  cases moves with
  | created =>
    refine ⟨fun c mem => (linked.fits c mem).step (.created ‹_›), fun id mem =>
      capacity_isSome_step (.created ‹_›) (linked.known id mem), linked.givenUp⟩
  | claimed => exact linked.begin trivial fun _ => ⟨rfl, rfl, rfl⟩
  | closing => exact linked.begin trivial fun _ => ⟨rfl, rfl, rfl⟩
  | @undoing i own now id x at_ =>
    have claimed : w.capacity id = some x.maxRegistrations :=
      linked.fits _ (List.mem_of_getElem? at_)
    cases own with
    | true =>
      exact linked.undo at_ ⟨claimed, fits_rollback now x⟩ (fun _ => rfl) fun _ => ⟨rfl, rfl⟩
    | false =>
      exact linked.undo at_ (Option.isSome_of_eq_some claimed) (fun _ => rfl) fun _ => ⟨rfl, rfl⟩
  | @synced i now window at_ =>
    have synced : (w.sync now).Linked := linked.of_frame (capacity_sync now) rfl linked.known
    exact synced.goOn at_ trivial fun _ => rfl
  | read at_ _ reads =>
    refine linked.goOn at_ reads.fits fun id => ?_
    obtain ⟨-, rolledBack, undoing, given⟩ := reads.same (linked.fits _ (List.mem_of_getElem? at_)) id
    rw [rolledBack, undoing, given]
  | @already i id x at_ there closed =>
    have opened : (w.capacity id).isSome := Option.isSome_of_eq_some (capacity_of_there there)
    have shut : Desk.Linked { w with shut := id :: w.shut } :=
      linked.of_frame rfl rfl (List.forall_mem_cons.mpr ⟨opened, linked.known⟩)
    exact shut.goOn at_ opened fun _ => rfl
  | @committed i id old new purpose at_ =>
    have there : (w.capacity id).isSome :=
      Option.isSome_of_eq_some (linked.fits _ (List.mem_of_getElem? at_)).1
    have committed : (w.commit id old new purpose).Linked := by
      refine linked.of_frame (capacity_commit purpose) rfl fun key mem => ?_
      simp only [Desk.commit] at mem
      split at mem
      · rcases List.mem_cons.mp mem with rfl | earlier
        · exact there
        · exact linked.known key earlier
      · exact linked.known key mem
    refine committed.goOn at_ ?_ fun key => ?_
    · rw [capacity_commit]
      cases purpose with
      | claim | rollback | close => exact there
      | refuse => trivial
    · cases purpose <;> rfl

end Linked

section Settled

open Desk

variable {w t : Desk} {a : SlotAction} {i : ℕ} {id : WindowId} {c next : SlotCall}
  {x old new : RegistrationWindow} {purpose : Purpose}

theorem Desk.Settled.of_counts (settled : w.Settled) (windows : t.windows = w.windows)
    (shut : t.shut = w.shut) (granted : ∀ id, t.granted id = w.granted id)
    (rolledBack : ∀ id, t.rolledBack id = w.rolledBack id) : t.Settled := by
  refine ⟨fun id x there => ?_, fun id x there => ?_, fun id mem x there => ?_⟩
  · rw [granted, rolledBack]
    exact settled.counted id x (windows ▸ there)
  · exact settled.bounded id x (windows ▸ there)
  · exact settled.closed id (shut ▸ mem) x (windows ▸ there)

theorem granted_goOn (at_ : w.calls[i]? = some c)
    (same : ∀ id, next.granted id = c.granted id) (id : WindowId) :
    (w.goOn i next).granted id = w.granted id :=
  countP_goOn (SlotCall.granted id) at_ (same id)

theorem rolledBack_goOn (at_ : w.calls[i]? = some c)
    (same : ∀ id, next.rolledBack id = c.rolledBack id) (id : WindowId) :
    (w.goOn i next).rolledBack id = w.rolledBack id :=
  countP_goOn (SlotCall.rolledBack id) at_ (same id)

theorem Desk.Settled.goOn (settled : w.Settled) (at_ : w.calls[i]? = some c)
    (granted : ∀ id, next.granted id = c.granted id)
    (rolledBack : ∀ id, next.rolledBack id = c.rolledBack id) : (w.goOn i next).Settled :=
  settled.of_counts rfl rfl (granted_goOn at_ granted) (rolledBack_goOn at_ rolledBack)

theorem Desk.Settled.begin (settled : w.Settled)
    (idle : ∀ id, c.granted id = false ∧ c.rolledBack id = false) : (w.begin c).Settled := by
  refine settled.of_counts rfl rfl (fun id => ?_) fun id => ?_
  · simp only [Desk.granted, Desk.begin, countP_concat, idle, Bool.false_eq_true, if_false,
      Nat.add_zero]
  · simp only [Desk.rolledBack, Desk.begin, countP_concat, idle, Bool.false_eq_true, if_false,
      Nat.add_zero]

theorem Desk.Settled.sync (settled : w.Settled) (now : ℤ) : (w.sync now).Settled := by
  refine ⟨fun id x there => ?_, fun id x there => ?_, fun id mem x there => ?_⟩
  · obtain ⟨y, stored, rfl⟩ := Option.map_eq_some_iff.mp there
    rw [syncWindow_count]
    exact settled.counted id y stored
  · obtain ⟨y, stored, rfl⟩ := Option.map_eq_some_iff.mp there
    rw [syncWindow_count, syncWindow_max]
    exact settled.bounded id y stored
  · obtain ⟨y, stored, rfl⟩ := Option.map_eq_some_iff.mp there
    have closed := settled.closed id mem y stored
    simp only [syncWindow, closed, reduceCtorEq, false_and, if_false]

theorem idle_of_fresh (linked : w.Linked) (fresh : w.windows id = none) :
    w.granted id = 0 ∧ w.rolledBack id = 0 ∧ id ∉ w.shut := by
  have absent : ¬ (w.capacity id).isSome := by
    rw [capacity, fresh]
    exact Bool.false_ne_true
  refine ⟨List.countP_eq_zero.mpr fun c mem granted => absent ?_,
    List.countP_eq_zero.mpr fun c mem rolledBack => absent ?_, fun mem => absent (linked.known id mem)⟩
  · have fits := linked.fits c mem
    cases c <;> simp only [SlotCall.granted, Bool.false_eq_true, decide_eq_true_eq] at granted
    · exact granted ▸ fits
    · exact Option.isSome_of_eq_some (granted ▸ fits)
  · have fits := linked.fits c mem
    cases c <;> simp only [SlotCall.rolledBack, Bool.false_eq_true, decide_eq_true_eq] at rolledBack
    exact rolledBack ▸ fits

theorem Desk.Settled.create (settled : w.Settled) (linked : w.Linked)
    (fresh : w.windows id = none) (startTime endTime now : ℤ) (maxRegistrations : ℕ)
    (autoActivate : Bool) :
    (w.create id startTime endTime now maxRegistrations autoActivate).Settled := by
  obtain ⟨granted, rolledBack, opened⟩ := idle_of_fresh linked fresh
  refine ⟨fun key x there => ?_, fun key x there => ?_, fun key mem x there => ?_⟩
  · simp only [Desk.create, Function.update_apply] at there
    split at there
    · rename_i same
      cases there
      rw [same]
      exact granted.trans rolledBack.symm |>.trans (Nat.zero_add _).symm
    · exact settled.counted key x there
  · simp only [Desk.create, Function.update_apply] at there
    split at there
    · cases there
      exact Nat.zero_le _
    · exact settled.bounded key x there
  · simp only [Desk.create, Function.update_apply] at there
    split at there
    · rename_i same
      exact absurd (same ▸ mem) opened
    · exact settled.closed key mem x there

theorem countP_committed (p : SlotCall → Bool) (at_ : w.calls[i]? = some (.commit id old new purpose))
    (before : p (.commit id old new purpose) = false) :
    ((w.commit id old new purpose).goOn i (purpose.next id)).calls.countP p =
      w.calls.countP p + if p (purpose.next id) then 1 else 0 := by
  have set := countP_set_add p (purpose.next id) at_
  rw [before, if_neg Bool.false_ne_true, Nat.add_zero] at set
  exact set

theorem granted_committed (at_ : w.calls[i]? = some (.commit id old new purpose)) (key : WindowId) :
    ((w.commit id old new purpose).goOn i (purpose.next id)).granted key =
      w.granted key + if purpose = .claim ∧ id = key then 1 else 0 := by
  refine (countP_committed (SlotCall.granted key) at_ rfl).trans ?_
  cases purpose <;> simp [Purpose.next, SlotCall.granted, Desk.granted]

theorem rolledBack_committed (at_ : w.calls[i]? = some (.commit id old new purpose))
    (key : WindowId) :
    ((w.commit id old new purpose).goOn i (purpose.next id)).rolledBack key =
      w.rolledBack key + if purpose = .rollback ∧ id = key then 1 else 0 := by
  refine (countP_committed (SlotCall.rolledBack key) at_ rfl).trans ?_
  cases purpose <;> simp [Purpose.next, SlotCall.rolledBack, Desk.rolledBack]

theorem held_of_undoing (linked : w.Linked) (settled : w.Settled)
    (at_ : w.calls[i]? = some (.commit id old new .rollback)) (there : w.windows id = some x) :
    0 < x.registeredCount := by
  have undoing : 0 < w.calls.countP (SlotCall.undoing id) :=
    countP_pos_of_getElem? _ at_ (decide_eq_true rfl)
  have given : w.calls.countP (SlotCall.givenUp id) ≤ w.granted id := by
    refine List.countP_mono_left fun c _ given => ?_
    cases c with
    | claimed own x givenUp =>
      cases givenUp with
      | true => exact given
      | false => cases given
    | _ => cases given
  have balance := linked.givenUp id
  have counted := settled.counted id x there
  omega

/-- The count that a commit leaves is right exactly when it has read the one that it meets. -/
theorem flush_count_iff (fits : purpose.Fits old new)
    (held : purpose = .rollback → 0 < x.registeredCount) :
    (x.flush old new).registeredCount + (if purpose = .rollback then 1 else 0) =
        x.registeredCount + (if purpose = .claim then 1 else 0) ↔
      (purpose = .claim ∨ purpose = .rollback → x.registeredCount = old.registeredCount) := by
  have count := fits.count
  simp only [RegistrationWindow.flush]
  cases purpose with
  | claim =>
    simp only [reduceCtorEq, if_false, if_true, true_or, forall_const] at count ⊢
    split
    · omega
    · omega
  | rollback =>
    have held := held rfl
    simp only [reduceCtorEq, if_false, if_true, or_true, forall_const] at count ⊢
    split
    · omega
    · omega
  | refuse | close =>
    simp only [reduceCtorEq, if_false, or_self, false_implies, iff_true] at count ⊢
    rw [if_pos count]

theorem flush_closed_iff (fits : purpose.Fits old new) (closed : x.status = .closed) :
    (x.flush old new).status = .closed ↔ (new.status = .active → old.status ≠ .closed) := by
  simp only [RegistrationWindow.flush, closed]
  rcases fits.status with same | changed
  · rw [if_pos same, same]
    simp +contextual
  · split at changed
    · obtain ⟨shut, active⟩ := changed
      simp [shut, active]
    · rename_i other
      simp [changed]

theorem commit_windows (purpose : Purpose) {key : WindowId} {y : RegistrationWindow}
    (there : y ∈ (w.commit id old new purpose).windows key) :
    (key ≠ id ∧ y ∈ w.windows key) ∨
      (key = id ∧ ∃ x, w.windows id = some x ∧ y = x.flush old new) := by
  simp only [Desk.commit, Function.update_apply] at there
  split at there
  · rename_i same
    obtain ⟨x, stored, rfl⟩ := Option.map_eq_some_iff.mp there
    exact .inr ⟨same, x, stored, rfl⟩
  · rename_i other
    exact .inl ⟨other, there⟩

section Committed

variable (settled : w.Settled) (linked : w.Linked)
  (at_ : w.calls[i]? = some (.commit id old new purpose))
  (undisturbed : w.Undisturbed (.commit id old new purpose))
include settled linked at_ undisturbed

theorem balance_commit (stored : w.windows id = some x) :
    (x.flush old new).registeredCount + (if purpose = .rollback then 1 else 0) =
      x.registeredCount + if purpose = .claim then 1 else 0 := by
  have fits := (linked.fits _ (List.mem_of_getElem? at_)).2
  refine (flush_count_iff fits fun same => ?_).mpr fun writes => undisturbed.1 writes x stored
  subst same
  exact held_of_undoing linked settled at_ stored

theorem bounded_commit (stored : w.windows id = some x) :
    (x.flush old new).registeredCount ≤ (x.flush old new).maxRegistrations := by
  obtain ⟨capacity, fits⟩ := linked.fits _ (List.mem_of_getElem? at_)
  have bounded := settled.bounded id x stored
  have balance := balance_commit settled linked at_ undisturbed stored
  have max : x.maxRegistrations = old.maxRegistrations :=
    Option.some.inj ((capacity_of_there stored).symm.trans capacity)
  by_cases claim : purpose = .claim
  · have free := fits.free claim
    have same := undisturbed.1 (.inl claim) x stored
    rw [if_pos claim] at balance
    simp only [RegistrationWindow.flush] at balance ⊢
    omega
  · rw [if_neg claim] at balance
    simp only [RegistrationWindow.flush] at balance ⊢
    omega

theorem closed_commit (stored : w.windows id = some x)
    (mem : id ∈ (w.commit id old new purpose).shut) : (x.flush old new).status = .closed := by
  have fits := (linked.fits _ (List.mem_of_getElem? at_)).2
  simp only [Desk.commit] at mem
  split at mem
  · rename_i closing
    obtain ⟨shut, opened⟩ := fits.closes closing
    simp only [RegistrationWindow.flush]
    rw [if_neg fun same : new.status = old.status => opened (same ▸ shut), shut]
  · exact (flush_closed_iff fits (settled.closed id mem x stored)).mpr
      fun active closed => undisturbed.2 active closed mem

theorem Desk.Settled.commit : ((w.commit id old new purpose).goOn i (purpose.next id)).Settled := by
  refine ⟨fun key y there => ?_, fun key y there => ?_, fun key mem y there => ?_⟩
  · rw [granted_committed at_, rolledBack_committed at_]
    rcases commit_windows purpose there with ⟨other, stored⟩ | ⟨rfl, x, stored, rfl⟩
    · simp only [Ne.symm other, and_false, if_false]
      exact settled.counted key y stored
    · have counted := settled.counted key x stored
      have balance := balance_commit settled linked at_ undisturbed stored
      simp only [and_true]
      omega
  · rcases commit_windows purpose there with ⟨-, stored⟩ | ⟨rfl, x, stored, rfl⟩
    · exact settled.bounded key y stored
    · exact bounded_commit settled linked at_ undisturbed stored
  · rcases commit_windows purpose there with ⟨other, stored⟩ | ⟨rfl, x, stored, rfl⟩
    · refine settled.closed key ?_ y stored
      simp only [Desk.goOn, Desk.commit] at mem
      split at mem
      · exact (List.mem_cons.mp mem).resolve_left other
      · exact mem
    · exact closed_commit settled linked at_ undisturbed stored mem

end Committed

theorem Desk.Settled.step (settled : w.Settled) (linked : w.Linked) (moves : w.Moves a t)
    (meets : w.Meets a) : t.Settled := by
  cases moves with
  | created fresh => exact settled.create linked fresh _ _ _ _ _
  | claimed => exact settled.begin fun _ => ⟨rfl, rfl⟩
  | closing => exact settled.begin fun _ => ⟨rfl, rfl⟩
  | @undoing i own now id x at_ =>
    have given : (w.goOn i (.claimed id x true)).Settled :=
      settled.goOn at_ (fun _ => rfl) fun _ => rfl
    cases own with
    | true => exact given.begin fun _ => ⟨rfl, rfl⟩
    | false => exact given.begin fun _ => ⟨rfl, rfl⟩
  | @synced i now window at_ =>
    have synced : (w.sync now).Settled := settled.sync now
    exact synced.goOn at_ (fun _ => rfl) fun _ => rfl
  | read at_ _ reads =>
    have same := reads.same (linked.fits _ (List.mem_of_getElem? at_))
    exact settled.goOn at_ (fun id => (same id).1) fun id => (same id).2.1
  | @already i id x at_ there closed =>
    have shut : Desk.Settled { w with shut := id :: w.shut } := by
      refine ⟨settled.counted, settled.bounded, fun key mem y stored => ?_⟩
      rcases List.mem_cons.mp mem with rfl | earlier
      · rw [Option.some.inj (there.symm.trans stored)] at closed
        exact closed
      · exact settled.closed key earlier y stored
    exact shut.goOn at_ (fun _ => rfl) fun _ => rfl
  | @committed i id old new purpose at_ => exact settled.commit linked at_ (meets _ at_)

theorem Desk.Settled.back (settled : w.Settled) (linked : w.Linked)
    (taken : slotStep w a = some t) (booked : t.Booked) : w.Meets a := by
  cases a with
  | create | claim | rollback | close | select => trivial
  | advance i =>
    intro c at_
    cases c with
    | sync | find | undo | close | refresh | claimed | raised | undone | closed | missed => trivial
    | commit id old new purpose =>
      rw [slotStep, Option.mem_def.mp at_] at taken
      cases taken
      obtain ⟨capacity, fits⟩ := linked.fits _ (List.mem_of_getElem? at_)
      have after {x : RegistrationWindow} (stored : w.windows id = some x) :
          x.flush old new ∈ (w.commit id old new purpose).windows id := by
        simp only [Desk.commit, Function.update_self, stored, Option.map_some, Option.mem_def]
      constructor
      · intro writes x stored
        refine (flush_count_iff fits fun same => ?_).mp ?_ writes
        · subst same
          exact held_of_undoing linked settled at_ stored
        · have counted := booked.counted id _ (after stored)
          have before := settled.counted id x stored
          rw [granted_committed at_, rolledBack_committed at_] at counted
          simp only [and_true] at counted
          omega
      · intro active closed mem
        obtain ⟨x, stored, -⟩ := Option.map_eq_some_iff.mp capacity
        have shut : id ∈ ((w.commit id old new purpose).goOn i (purpose.next id)).shut := by
          simp only [Desk.goOn, Desk.commit]
          split
          · exact List.mem_cons_self
          · exact mem
        refine booked.final id shut _ (after stored) ?_
        rw [RegistrationWindow.flush, active, closed]
        rfl

end Settled

section Runs

open Desk

/-- The bookings add up in every state of a run, that is claims less rollbacks are the count of
the window, it is within the maximum, and what an administrator shut is not open, exactly when all
the steps of the run meet the condition. -/
theorem booked_throughout (actions : List SlotAction) :
    (∀ first, first <+: actions → ∀ w, run slotStep {} first = some w → w.Booked) ↔
      Along slotStep Meets {} actions := by
  refine forall_prefix_iff_along (P := fun w => w.Linked ∧ w.Settled) (fun held => held.2.booked)
    (fun held meets taken => ?_) (fun held taken booked => held.2.back held.1 taken booked)
    (fun {w a} stuck => ?_) ⟨⟨?_, ?_, fun _ => rfl⟩, ⟨?_, ?_, ?_⟩⟩
  · have moves := Desk.Moves.of_step taken
    exact ⟨held.1.step moves, held.2.step held.1 moves meets⟩
  · cases a with
    | create | claim | rollback | close | select => trivial
    | advance i =>
      intro c at_
      cases c with
      | commit =>
        rw [slotStep, Option.mem_def.mp at_] at stuck
        cases stuck
      | _ => trivial
  all_goals simp

/-- Two claims of a window with one slot read it before either commits, and both are granted.
A window that an administrator shut is open again once a claim on it is rolled back. -/
theorem overbooked :
    (∃ w, run slotStep {} [.create "beta" 0 100 1 1 true, .claim 2 (some "beta"),
        .claim 2 (some "beta"), .advance 0, .advance 1, .advance 0, .advance 1, .advance 0,
        .advance 1, .advance 0, .advance 1] = some w ∧
      w.granted "beta" = 2 ∧ w.rolledBack "beta" = 0 ∧
      (∀ x ∈ w.windows "beta", x.registeredCount = 1 ∧ x.maxRegistrations = 1) ∧ ¬ w.Booked) ∧
    ∃ w, run slotStep {} [.create "beta" 0 100 1 2 true, .claim 2 (some "beta"), .advance 0,
        .advance 0, .advance 0, .advance 0, .close "beta", .advance 1, .advance 1,
        .rollback 0 false 3, .advance 2, .advance 2] = some w ∧
      w.calls[1]? = some (.closed "beta") ∧
      (∀ x ∈ w.windows "beta", x.status = .active) ∧ ¬ w.Booked := by
  constructor
  · refine ⟨_, rfl, by decide, by decide, by decide, fun booked => ?_⟩
    have counted := booked.counted "beta" _ rfl
    revert counted
    decide
  · refine ⟨_, rfl, by decide, by decide, fun booked => ?_⟩
    have final := booked.final "beta" (by decide) _ rfl
    revert final
    decide

end Runs

end Deeting.Registration
