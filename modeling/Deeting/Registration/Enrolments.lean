import Deeting.Registration.Invites
import Deeting.Transition
import Mathlib.Algebra.Order.Ring.Int

/-! A code registers one user at most, in every run of requests, left off or not. -/
namespace Deeting.Registration
open Expiry Interruptible Program Transition

structure Once (w : Registry) : Prop where
  nodup : (w.registered.map Enrolment.code).Nodup
  spent : ∀ r ∈ w.registered, ∃ invite ∈ w.invites r.code, invite.status ≠ .unused

structure Reserved (code : String) (w : Registry) : Prop where
  reserved : ∃ invite ∈ w.invites code, invite.status = .reserved
  free : code ∉ w.registered.map Enrolment.code

section Codes

variable {w : Registry} {code : String} {allowed : InviteCodeStatus → Bool}
  {change : InviteCode → InviteCode}

theorem Once.updateInvite (once : Once w)
    (stays : code ∈ w.registered.map Enrolment.code → ∀ invite, (change invite).status ≠ .unused) :
    Once (Registry.updateInvite code allowed change w).1 := by
  rw [Registry.updateInvite]
  split
  · split
    · refine ⟨once.nodup, fun r mem => ?_⟩
      rename_i invite _ _
      by_cases own : r.code = code
      · refine ⟨change invite, ?_, stays (own ▸ List.mem_map_of_mem mem) invite⟩
        simp [own]
      · simpa [Function.update_of_ne own] using once.spent r mem
    · exact once
  · exact once

theorem reserve_eq {row : InviteCode} (stored : w.invites code = some row)
    (unused : row.status = .unused) :
    Registry.reserve code w =
      ({ w with invites := Function.update w.invites code (some { row with status := .reserved }) },
        some { row with status := .reserved }) := by
  rw [Registry.reserve, Registry.updateInvite, stored]
  exact if_pos (decide_eq_true unused)

theorem reserve_returns {invite : InviteCode} (found : invite ∈ (Registry.reserve code w).2) :
    ∃ row ∈ w.invites code, row.status = .unused ∧ invite = { row with status := .reserved } := by
  simp only [Registry.reserve, Registry.updateInvite] at found
  split at found
  · rename_i row stored
    split at found
    · rename_i unused
      exact ⟨row, stored, of_decide_eq_true unused, (Option.some.inj found).symm⟩
    · cases found
  · cases found

theorem reserve_spec (once : Once w) :
    Once (Registry.reserve code w).1 ∧
      ∀ invite ∈ (Registry.reserve code w).2, Reserved code (Registry.reserve code w).1 := by
  refine ⟨once.updateInvite fun _ _ => by simp, fun invite returned => ?_⟩
  obtain ⟨row, stored, unused, rfl⟩ := reserve_returns returned
  rw [reserve_eq stored unused]
  refine ⟨⟨{ row with status := .reserved }, by simp, rfl⟩, fun mem => ?_⟩
  obtain ⟨r, mem, rfl⟩ := List.mem_map.mp mem
  obtain ⟨same, there, used⟩ := once.spent r mem
  obtain rfl := Option.some.inj (stored.symm.trans there)
  exact used unused

theorem Once.rollback (once : Once w) (reserved : Reserved code w) :
    Once (Registry.rollback code w).1 :=
  once.updateInvite fun mem => absurd mem reserved.free

theorem Once.createUser {email : Email} {isActive : Bool} {window : WindowId} (once : Once w)
    (reserved : Reserved code w) :
    Once (Registry.createUser email isActive code window w).1 := by
  refine ⟨List.nodup_cons.mpr ⟨reserved.free, once.nodup⟩, fun r mem => ?_⟩
  rcases List.mem_cons.mp mem with rfl | old
  · obtain ⟨invite, there, status⟩ := reserved.reserved
    exact ⟨invite, there, by simp [status]⟩
  · exact once.spent r old

theorem claim_frame {id : WindowId} :
    (Registry.claim id w).1.invites = w.invites ∧
      (Registry.claim id w).1.registered = w.registered := by
  rw [Registry.claim]
  split
  · exact ⟨rfl, rfl⟩
  · exact ⟨rfl, rfl⟩

theorem Once.of_frame {v : Registry} (once : Once w)
    (frame : v.invites = w.invites ∧ v.registered = w.registered) : Once v := by
  obtain ⟨invites, registered⟩ := frame
  refine ⟨registered ▸ once.nodup, fun r mem => ?_⟩
  rw [invites]
  exact once.spent r (registered ▸ mem)

theorem Reserved.of_frame {v : Registry} (reserved : Reserved code w)
    (frame : v.invites = w.invites ∧ v.registered = w.registered) : Reserved code v := by
  obtain ⟨invites, registered⟩ := frame
  exact ⟨by rw [invites]; exact reserved.reserved, by rw [registered]; exact reserved.free⟩

end Codes

section Requests

variable {code : String}

theorem Once.revoke {w : Registry} (once : Once w) : Once (Registry.revoke code w).1 :=
  once.updateInvite fun _ _ => by simp

theorem Once.markUsed {w : Registry} {user : UserId} (once : Once w) :
    Once (Registry.markUsed code user w).1 :=
  once.updateInvite fun _ _ => by simp

theorem once_update {f : Registry → Registry}
    (frame : ∀ w, (f w).invites = w.invites ∧ (f w).registered = w.registered) :
    Ensures Once (update f : Request Unit) Once fun _ => Once :=
  ensures_act fun w once => ⟨once.of_frame (frame w), once.of_frame (frame w)⟩

theorem once_markUsed {user : UserId} :
    Ensures Once (act (Registry.markUsed code user) : Request _) Once fun _ => Once :=
  ensures_act fun _ once => ⟨once.markUsed, once.markUsed⟩

theorem once_raise {α : Type} {e : RequestError} {Q : α → Registry → Prop} :
    Ensures Once (raise e : Request α) Once Q :=
  ensures_raise fun _ => id

theorem once_read : Ensures Once (read : Request Registry) Once fun _ => Once :=
  ensures_read fun _ once => ⟨once, once⟩

theorem once_consume (code : String) :
    Ensures Once (consume code) Once fun _ w => Once w ∧ Reserved code w := by
  have gives (w : Registry) (held : Once w ∧ Reserved code w) : Once w := held.1
  refine (ensures_act (Q := fun found w => Once w ∧ ∀ invite ∈ found, Reserved code w)
    fun w once => ⟨(reserve_spec once).1, reserve_spec once⟩).bind ?_
  rintro (_ | invite)
  · exact once_raise.of_imp fun _ held => held.1
  refine (ensures_read (R := fun _ w => Once w ∧ Reserved code w) fun w held =>
    ⟨held.1, held.1, held.2 invite rfl⟩).bind fun now => ensures_ite (fun _ => ?_) fun _ => ?_
  · refine (ensures_act (Q := fun _ => Once) fun w held => ?_).bind fun _ => once_raise
    exact ⟨held.1.revoke, held.1.revoke⟩
  · refine (ensures_act (Q := fun _ w => Once w ∧ Reserved code w) fun w held => ?_).bind
      fun _ => ?_
    · have frame : w.sync.invites = w.invites ∧ w.sync.registered = w.registered := ⟨rfl, rfl⟩
      exact ⟨held.1.of_frame frame, held.1.of_frame frame, held.2.of_frame frame⟩
    refine (ensures_act (Q := fun _ w => Once w ∧ Reserved code w) fun w held => ?_).bind ?_
    · exact ⟨held.1.of_frame claim_frame, held.1.of_frame claim_frame,
        held.2.of_frame claim_frame⟩
    rintro (e | window)
    · refine (ensures_act (Q := fun _ => Once) fun w held => ?_).bind fun _ => once_raise
      exact ⟨held.1.rollback held.2, held.1.rollback held.2⟩
    · exact ensures_pure fun w held => ⟨held.1, held⟩

theorem once_provisionUser (r : LoginRequest) (inviteCode : Option String) :
    Ensures Once (provisionUser r inviteCode) Once fun _ => Once := by
  cases inviteCode with
  | none => exact once_raise
  | some invite =>
    refine (once_consume invite).bind fun (windowId, window) => ensures_ite (fun _ => ?_) fun _ => ?_
    · refine (ensures_act (Q := fun _ => Once) fun w held => ?_).bind fun user => ?_
      · exact ⟨held.1.createUser held.2, held.1.createUser held.2⟩
      · exact once_markUsed.bind fun _ => ensures_pure fun w once => ⟨once, once⟩
    · refine (ensures_act (Q := fun _ => Once) fun w held => ?_).bind fun _ => ?_
      · exact ⟨held.1.rollback held.2, held.1.rollback held.2⟩
      · exact (once_update (f := Registry.rollbackSlot windowId) fun w => ⟨rfl, rfl⟩).bind
          fun _ => once_raise

theorem once_finalize (inviteCode : Option String) (cached : Option TempInvite) (user : User) :
    Ensures Once (finalizeHandedOver inviteCode cached user) Once fun _ => Once := by
  rcases inviteCode with _ | invite
  · exact ensures_pure fun w once => ⟨once, once⟩
  · rcases cached with _ | temp
    · exact ensures_pure fun w once => ⟨once, once⟩
    · exact once_markUsed.bind fun _ => ensures_pure fun w once => ⟨once, once⟩

theorem once_provisionLoginUser (r : LoginRequest) :
    Ensures Once (provisionLoginUser r) Once fun _ => Once := by
  refine once_read.bind fun w => (once_provisionUser r _).bind fun user => ?_
  refine (once_update (f := Registry.activate user) fun w => ⟨rfl, rfl⟩).bind fun _ => ?_
  refine Ensures.bind (once_finalize _ _ _) fun _ => ?_
  exact once_update (f := Registry.dropTemp r.email) fun w => ⟨rfl, rfl⟩

theorem once_verifyCode (r : LoginRequest) : Ensures Once (verifyCode r) Once fun _ => Once := by
  refine once_read.bind fun w => ensures_ite (fun _ => ?_) fun _ => once_raise
  refine (once_update (f := Registry.dropLoginCode r.email) fun w => ⟨rfl, rfl⟩).bind fun _ => ?_
  exact ensures_ite (fun _ => once_raise) fun _ => ensures_pure fun w once => ⟨once, once⟩

theorem once_loginWithCode (r : LoginRequest) :
    Ensures Once (loginWithCode r) Once fun _ => Once := by
  refine ensures_ite (fun _ => once_raise) fun _ => (once_verifyCode r).bind fun _ =>
    once_read.bind fun w => ?_
  cases w.findUser r.email with
  | some user => exact once_update (f := Registry.activate user) fun w => ⟨rfl, rfl⟩
  | none => exact once_provisionLoginUser r

theorem once_preRegister (r : SendRequest) : Ensures Once (preRegister r) Once fun _ => Once := by
  refine once_read.bind fun w => ensures_ite (fun _ => ?_) fun _ => ?_
  · exact ensures_pure fun w once => ⟨once, once⟩
  · cases given r.inviteCode with
    | none => exact once_raise
    | some invite =>
      refine (once_consume invite).bind fun (windowId, _) => ?_
      refine (once_update (f := Registry.handOver r.email ⟨invite, windowId⟩)
        fun w => ⟨rfl, rfl⟩).of_imp fun w held => held.1

theorem once_sendVerificationCode (r : SendRequest) :
    Ensures Once (sendVerificationCode r) Once fun _ => Once := by
  refine (once_update (f := Registry.setLoginCode r.email r.code) fun w => ⟨rfl, rfl⟩).bind
    fun _ => ensures_ite (fun _ => ensures_pure fun w once => ⟨once, once⟩) fun _ => ?_
  exact (once_update (f := Registry.dropLoginCode r.email) fun w => ⟨rfl, rfl⟩).bind
    fun _ => once_raise

theorem once_sendLoginCode (r : SendRequest) :
    Ensures Once (sendLoginCode r) Once fun _ => Once :=
  ensures_ite (fun _ => once_raise) fun _ =>
    (once_preRegister r).bind fun _ => once_sendVerificationCode r

theorem Once.registryStep {w : Registry} (once : Once w) (a : RegistryAction) :
    Once (registryStep w a) := by
  cases a with
  | tick seconds => exact once.of_frame ⟨rfl, rfl⟩
  | send r updates => exact (once_sendLoginCode r).leave once once updates
  | login r updates => exact (once_loginWithCode r).leave once once updates

end Requests

end Deeting.Registration
