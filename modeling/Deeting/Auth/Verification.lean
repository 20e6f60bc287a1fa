import Deeting.Counting
import Deeting.Expiry
import Deeting.Transition
import Mathlib.Algebra.Order.Ring.Int
import Mathlib.Logic.Function.Basic

/-! Verification codes: `send_verification_code` and `verify_code` with a stop after each cache
command, which may fail: the cache service logs the error and goes on with a default. A code is known by its number among those sent to its target. Times are seconds. -/
namespace Deeting.Auth
open Transition Expiry Counting

def verificationCodeTtlSeconds : ℤ := 600

def verificationCodeMaxAttempts : ℕ := 3

structure Target where
  email : String
  purpose : String
  deriving DecidableEq

structure SentCode where
  serial : ℕ
  code : String
  deriving DecidableEq

/-- The next command of a call of `verify_code`. A call that deletes has won by the code with
that number, or was one attempt too many. -/
inductive VerifyStage where
  | expire
  | incrIp (attempts : ℕ)
  | expireIp (attempts attemptsIp : ℕ)
  | get
  | dropCode (won : Option ℕ)
  | dropAttempts (won : Option ℕ)
  | dropAttemptsIp (won : Option ℕ)
  | done (result : Bool)
  deriving DecidableEq

structure VerifyCall where
  target : Target
  clientIp : Option String
  guess : String
  stage : VerifyStage
  deriving DecidableEq

/-- The cache, the calls, and of every target how many codes were sent to it and how often each
of these was compared and accepted. -/
structure CodeWorld where
  now : ℤ
  code : Target → Option (Entry ℤ SentCode) := fun _ => none
  attempts : Target → Option (Entry ℤ ℕ) := fun _ => none
  attemptsIp : String × String → Option (Entry ℤ ℕ) := fun _ => none
  calls : List VerifyCall := []
  sent : Target → ℕ := fun _ => 0
  compared : Target → ℕ → ℕ := fun _ _ => 0
  succeeded : Target → ℕ → ℕ := fun _ _ => 0

/-- A code is sent, a code that was not delivered is deleted, `verify_code` is called, or a call
does its next command. Its first or its next command may also fail, before or after Redis has
`done` it. -/
inductive CodeAction where
  | tick (seconds : ℕ)
  | send (target : Target) (code : String)
  | undelivered (target : Target)
  | verify (target : Target) (guess : String) (clientIp : Option String)
  | verifyFails (target : Target) (guess : String) (clientIp : Option String) (done : Bool)
  | advance (call : ℕ)
  | fail (call : ℕ) (done : Bool)

/-- `INCR`; a key that is not there counts from zero and has no lifetime. -/
def incr (now : ℤ) (slot : Option (Entry ℤ ℕ)) : Entry ℤ ℕ :=
  match live now slot with
  | some e => ⟨e.value + 1, e.deadline⟩
  | none => ⟨1, none⟩

def expire (now : ℤ) (slot : Option (Entry ℤ ℕ)) : Option (Entry ℤ ℕ) :=
  match live now slot with
  | some e => some ⟨e.value, some (now + verificationCodeTtlSeconds)⟩
  | none => slot

namespace VerifyCall

def ipKey (c : VerifyCall) (ip : String) : String × String := (ip, c.target.purpose)

def judged (attempts attemptsIp : ℕ) : VerifyStage :=
  if verificationCodeMaxAttempts < attempts ∨ verificationCodeMaxAttempts < attemptsIp then
    .dropCode none
  else .get

def afterEmail (clientIp : Option String) (attempts : ℕ) : VerifyStage :=
  if clientIp.isSome then .incrIp attempts else judged attempts 0

/-- The command after the first `INCR`: the lifetime is given to a new counter only. -/
def counted (clientIp : Option String) (attempts : ℕ) : VerifyStage :=
  if attempts = 1 then .expire else afterEmail clientIp attempts

end VerifyCall

def bump (f : Target → ℕ → ℕ) (t : Target) (serial : ℕ) : Target → ℕ → ℕ :=
  Function.update f t (Function.update (f t) serial (f t serial + 1))

namespace CodeWorld

def send (w : CodeWorld) (t : Target) (code : String) : CodeWorld :=
  { w with
    code := Function.update w.code t
      (some ⟨⟨w.sent t, code⟩, some (w.now + verificationCodeTtlSeconds)⟩)
    sent := Function.update w.sent t (w.sent t + 1) }

def verify (w : CodeWorld) (t : Target) (guess : String) (clientIp : Option String) : CodeWorld :=
  let counter := incr w.now (w.attempts t)
  { w with
    attempts := Function.update w.attempts t (some counter)
    calls := w.calls ++ [⟨t, clientIp, guess, VerifyCall.counted clientIp counter.value⟩] }

/-- An `INCR` that fails counts as zero. -/
def verifyFails (w : CodeWorld) (t : Target) (guess : String) (clientIp : Option String)
    (done : Bool) : CodeWorld :=
  { w with
    attempts :=
      if done then Function.update w.attempts t (some (incr w.now (w.attempts t))) else w.attempts
    calls := w.calls ++ [⟨t, clientIp, guess, VerifyCall.afterEmail clientIp 0⟩] }

def goOn (w : CodeWorld) (i : ℕ) (c : VerifyCall) (stage : VerifyStage) : CodeWorld :=
  { w with calls := w.calls.set i { c with stage } }

/-- `cache.get` of the code and the comparison; a code that was sent is not empty. -/
def compare (w : CodeWorld) (i : ℕ) (c : VerifyCall) : CodeWorld :=
  match live w.now (w.code c.target) with
  | none => w.goOn i c (.done false)
  | some e =>
    let w := { w with compared := bump w.compared c.target e.value.serial }
    if e.value.code = c.guess then
      { w with succeeded := bump w.succeeded c.target e.value.serial }.goOn i c
        (.dropCode (some e.value.serial))
    else w.goOn i c (.done false)

def advance (w : CodeWorld) (i : ℕ) (c : VerifyCall) : Option CodeWorld :=
  match c.stage, c.clientIp with
  | .expire, ip =>
    some ({ w with
      attempts := Function.update w.attempts c.target (expire w.now (w.attempts c.target)) }.goOn
        i c (VerifyCall.afterEmail ip 1))
  | .incrIp attempts, some ip =>
    let counter := incr w.now (w.attemptsIp (c.ipKey ip))
    some ({ w with
      attemptsIp := Function.update w.attemptsIp (c.ipKey ip) (some counter) }.goOn i c
        (if counter.value = 1 then .expireIp attempts counter.value
        else VerifyCall.judged attempts counter.value))
  | .expireIp attempts attemptsIp, some ip =>
    some ({ w with
      attemptsIp := Function.update w.attemptsIp (c.ipKey ip)
        (expire w.now (w.attemptsIp (c.ipKey ip))) }.goOn i c
          (VerifyCall.judged attempts attemptsIp))
  | .get, _ => some (w.compare i c)
  | .dropCode won, _ =>
    some ({ w with code := Function.update w.code c.target none }.goOn i c (.dropAttempts won))
  | .dropAttempts won, ip =>
    some ({ w with attempts := Function.update w.attempts c.target none }.goOn i c
      (if ip.isSome then .dropAttemptsIp won else .done won.isSome))
  | .dropAttemptsIp won, some ip =>
    some ({ w with attemptsIp := Function.update w.attemptsIp (c.ipKey ip) none }.goOn i c
      (.done won.isSome))
  | _, _ => none

def fail (w : CodeWorld) (i : ℕ) (c : VerifyCall) (done : Bool) : Option CodeWorld :=
  let after : Option CodeWorld := if done then w.advance i c else some w
  match c.stage, c.clientIp with
  | .expire, ip =>
    after.map fun u => { w with attempts := u.attempts }.goOn i c (VerifyCall.afterEmail ip 0)
  | .incrIp attempts, some _ | .expireIp attempts _, some _ =>
    after.map fun u => { w with attemptsIp := u.attemptsIp }.goOn i c (VerifyCall.judged attempts 0)
  | .get, _ => some (w.goOn i c (.done false))
  | .dropCode won, _ => after.map fun u => { w with code := u.code }.goOn i c (.dropAttempts won)
  | .dropAttempts won, ip =>
    after.map fun u => { w with attempts := u.attempts }.goOn i c
      (if ip.isSome then .dropAttemptsIp won else .done won.isSome)
  | .dropAttemptsIp won, some _ =>
    after.map fun u => { w with attemptsIp := u.attemptsIp }.goOn i c (.done won.isSome)
  | _, _ => none

end CodeWorld

def codeStep (w : CodeWorld) : CodeAction → Option CodeWorld
  | .tick seconds => some { w with now := w.now + seconds }
  | .send t code => some (w.send t code)
  | .undelivered t => some { w with code := Function.update w.code t none }
  | .verify t guess clientIp => some (w.verify t guess clientIp)
  | .verifyFails t guess clientIp done => some (w.verifyFails t guess clientIp done)
  | .advance i => w.calls[i]?.bind fun c => w.advance i c
  | .fail i done => w.calls[i]?.bind fun c => w.fail i c done

namespace CodeWorld

def start (now : ℤ) : CodeWorld where
  now := now

/-- No code is compared more often than the attempts allow, or accepted twice. -/
def Lawful (w : CodeWorld) : Prop :=
  ∀ t serial, w.compared t serial ≤ verificationCodeMaxAttempts ∧ w.succeeded t serial ≤ 1

def comparedAt (w : CodeWorld) (time : ℤ) (t : Target) : ℕ :=
  (live time (w.code t)).elim 0 fun e => w.compared t e.value.serial

end CodeWorld

/-- The call is counted among the attempts that are allowed, and still to compare. -/
def VerifyStage.pending : VerifyStage → Bool
  | .incrIp attempts | .expireIp attempts _ => attempts ≤ verificationCodeMaxAttempts
  | .expire | .get => true
  | _ => false

namespace CodeWorld

def pending (w : CodeWorld) (t : Target) : ℕ :=
  w.calls.countP fun c => c.target = t ∧ c.stage.pending

def countAt (w : CodeWorld) (time : ℤ) (t : Target) : ℕ :=
  (live time (w.attempts t)).elim 0 Entry.value

/-- No attempt is lost with the counter: the code that is there has not been compared, and no
call that was counted is still to compare. -/
def Settled (w : CodeWorld) (time : ℤ) (t : Target) : Prop :=
  w.comparedAt time t = 0 ∧ w.pending t = 0

/-- When the counter of a target expires or is deleted, no attempt is lost with it; a call that
could not be counted leaves room for the attempts before it. No call compares the right code that
another has compared and is yet to delete, and no deletion of it fails. -/
def Keeps (w : CodeWorld) : CodeAction → Prop
  | .tick seconds =>
    ∀ t, 0 < w.countAt w.now t → w.countAt (w.now + seconds) t = 0 →
      w.Settled (w.now + seconds) t
  | .advance i =>
    ∀ c ∈ w.calls[i]?, match c.stage with
      | .dropAttempts _ => w.Settled w.now c.target
      | .get => ∀ e ∈ live w.now (w.code c.target), e.value.code = c.guess →
          ∀ d ∈ w.calls, d.target = c.target → d.stage ≠ .dropCode (some e.value.serial)
      | _ => True
  | .verifyFails t _ _ done =>
    w.comparedAt w.now t + w.pending t <
      min verificationCodeMaxAttempts (w.countAt w.now t + if done then 1 else 0)
  | .fail i done =>
    ∀ c ∈ w.calls[i]?, match c.stage, done with
      | .dropAttempts _, true => w.Settled w.now c.target
      | .dropCode (some won), false => ∀ e ∈ live w.now (w.code c.target), e.value.serial ≠ won
      | _, _ => True
  | _ => True

end CodeWorld

section Counters

variable {now : ℤ} {slot : Option (Entry ℤ ℕ)}

theorem incr_spec : (live now (some (incr now slot))).elim 0 Entry.value =
    (live now slot).elim 0 Entry.value + 1 := by
  cases found : live now slot with
  | none =>
    simp only [incr, found]
    rfl
  | some e =>
    obtain ⟨-, alive⟩ := live_eq_some.mp found
    have stays : live now (some ⟨e.value + 1, e.deadline⟩) = some ⟨e.value + 1, e.deadline⟩ :=
      live_eq_some.mpr ⟨rfl, alive⟩
    simp only [incr, found, stays, Option.elim_some]

theorem incr_value : (incr now slot).value = (live now slot).elim 0 Entry.value + 1 := by
  cases found : live now slot with
  | none => simp [incr, found]
  | some e => simp [incr, found]

theorem expire_spec : (live now (expire now slot)).elim 0 Entry.value =
    (live now slot).elim 0 Entry.value := by
  cases found : live now slot with
  | none => simp [expire, found]
  | some e =>
    have lasts : now < now + verificationCodeTtlSeconds := by
      rw [verificationCodeTtlSeconds]
      omega
    have stays : live now (some (⟨e.value, some (now + verificationCodeTtlSeconds)⟩ : Entry ℤ ℕ)) =
        some ⟨e.value, some (now + verificationCodeTtlSeconds)⟩ :=
      live_eq_some.mpr ⟨rfl, alive_some.mpr lasts⟩
    simp only [expire, found, stays, Option.elim_some]

end Counters

namespace CodeWorld

/-- The comparisons that a code has had, and those still to come of the calls that are counted,
are attempts that the counter knows of; a code that was accepted is about to be deleted. -/
structure Guarded (w : CodeWorld) : Prop where
  fresh : ∀ t serial, w.sent t ≤ serial → w.compared t serial = 0 ∧ w.succeeded t serial = 0
  stored : ∀ t, ∀ e ∈ w.code t, e.value.serial < w.sent t
  admitted : ∀ t, w.comparedAt w.now t + w.pending t ≤
    min verificationCodeMaxAttempts (w.countAt w.now t)
  lawful : w.Lawful
  winner : ∀ t, ∀ e ∈ live w.now (w.code t), 0 < w.succeeded t e.value.serial →
    ∃ d ∈ w.calls, d.target = t ∧ d.stage = .dropCode (some e.value.serial)

end CodeWorld

section Steps

open CodeWorld

variable {w : CodeWorld} {i : ℕ} {c : VerifyCall} {t : Target} {stage : VerifyStage}

theorem pending_goOn (there : w.calls[i]? = some c) (t : Target) (stage : VerifyStage) :
    (w.goOn i c stage).pending t + (if c.target = t ∧ c.stage.pending then 1 else 0) =
      w.pending t + (if c.target = t ∧ stage.pending then 1 else 0) := by
  have set := countP_set_add (fun c => decide (c.target = t ∧ c.stage.pending))
    { c with stage } there
  simp only [decide_eq_true_eq] at set
  exact set

/-- A call goes on, counted no more than before, when its code is gone if it has won. -/
theorem CodeWorld.Guarded.goOn (guarded : w.Guarded) (there : w.calls[i]? = some c)
    (spent : ∀ serial, c.stage = .dropCode (some serial) →
      ∀ e ∈ live w.now (w.code c.target), e.value.serial ≠ serial)
    (fewer : stage.pending → c.stage.pending) : (w.goOn i c stage).Guarded where
  fresh := guarded.fresh
  stored := guarded.stored
  admitted t := by
    have count := pending_goOn there t stage
    have admitted := guarded.admitted t
    have less : (if c.target = t ∧ stage.pending then 1 else 0) ≤
        if c.target = t ∧ c.stage.pending then 1 else 0 := by
      split
      · rename_i pends
        rw [if_pos ⟨pends.1, fewer pends.2⟩]
      · exact Nat.zero_le _
    change w.comparedAt w.now t + (w.goOn i c stage).pending t ≤ min _ (w.countAt w.now t)
    omega
  lawful := guarded.lawful
  winner t e stored accepted := by
    obtain ⟨d, mem, target, wins⟩ := guarded.winner t e stored accepted
    refine ⟨d, mem_set_of_ne _ there mem ?_, target, wins⟩
    rintro rfl
    exact spent _ wins e (target ▸ stored) rfl

theorem CodeWorld.Guarded.attemptsIp (guarded : w.Guarded)
    (counters : String × String → Option (Entry ℤ ℕ)) :
    Guarded { w with attemptsIp := counters } :=
  ⟨guarded.fresh, guarded.stored, guarded.admitted, guarded.lawful, guarded.winner⟩

theorem CodeWorld.Guarded.attempts (guarded : w.Guarded) (slot : Option (Entry ℤ ℕ))
    (enough : w.comparedAt w.now t + w.pending t ≤
      min verificationCodeMaxAttempts ((live w.now slot).elim 0 Entry.value)) :
    Guarded { w with attempts := Function.update w.attempts t slot } where
  fresh := guarded.fresh
  stored := guarded.stored
  admitted s := by
    by_cases own : s = t
    · rw [own]
      simpa [countAt, comparedAt, CodeWorld.pending] using enough
    · simpa [countAt, comparedAt, CodeWorld.pending, Function.update_of_ne own] using
        guarded.admitted s
  lawful := guarded.lawful
  winner := guarded.winner

theorem CodeWorld.Guarded.expire (guarded : w.Guarded) (t : Target) :
    Guarded { w with attempts := Function.update w.attempts t (Auth.expire w.now (w.attempts t)) } :=
  guarded.attempts _ <| by
    rw [expire_spec]
    exact guarded.admitted t

theorem CodeWorld.Guarded.dropAttempts (guarded : w.Guarded) (settled : w.Settled w.now t) :
    Guarded { w with attempts := Function.update w.attempts t none } := by
  obtain ⟨unseen, idle⟩ := settled
  refine guarded.attempts none ?_
  rw [unseen, idle]
  exact Nat.zero_le _

theorem CodeWorld.Guarded.dropCode (guarded : w.Guarded) (t : Target) :
    Guarded { w with code := Function.update w.code t none } where
  fresh := guarded.fresh
  stored s e mem := by
    simp only [Function.update_apply] at mem
    split at mem
    · cases mem
    · exact guarded.stored s e mem
  admitted s := by
    by_cases own : s = t
    · have admitted := guarded.admitted s
      simp only [comparedAt, own, Function.update_self, live_none, Option.elim_none, Nat.zero_add]
      rw [own] at admitted
      exact (Nat.le_add_left _ _).trans admitted
    · simpa [countAt, comparedAt, CodeWorld.pending, Function.update_of_ne own] using
        guarded.admitted s
  lawful := guarded.lawful
  winner s e mem accepted := by
    simp only [Function.update_apply] at mem
    split at mem
    · simp at mem
    · exact guarded.winner s e mem accepted

theorem comparedAt_later (w : CodeWorld) (seconds : ℕ) (t : Target) :
    w.comparedAt (w.now + seconds) t ≤ w.comparedAt w.now t := by
  cases found : live (w.now + seconds) (w.code t) with
  | none => simp [comparedAt, found]
  | some e =>
    have before := live_earlier (by omega : w.now ≤ w.now + seconds) found
    simp [comparedAt, found, before]

theorem countAt_later (w : CodeWorld) (seconds : ℕ) (t : Target) :
    w.countAt (w.now + seconds) t = 0 ∨ w.countAt (w.now + seconds) t = w.countAt w.now t := by
  cases found : live (w.now + seconds) (w.attempts t) with
  | none => exact .inl (by simp [countAt, found])
  | some e =>
    have before := live_earlier (by omega : w.now ≤ w.now + seconds) found
    exact .inr (by simp [countAt, found, before])

theorem CodeWorld.Guarded.tick (guarded : w.Guarded) {seconds : ℕ}
    (keeps : w.Keeps (.tick seconds)) : Guarded { w with now := w.now + seconds } where
  fresh := guarded.fresh
  stored := guarded.stored
  admitted t := by
    have admitted := guarded.admitted t
    have compared := comparedAt_later w seconds t
    change w.comparedAt (w.now + seconds) t + w.pending t ≤
      min _ (w.countAt (w.now + seconds) t)
    rcases countAt_later w seconds t with lost | same
    · by_cases counted : 0 < w.countAt w.now t
      · obtain ⟨none, idle⟩ := keeps t counted lost
        omega
      · omega
    · omega
  lawful := guarded.lawful
  winner t e found := guarded.winner t e (live_earlier (by omega : w.now ≤ w.now + seconds) found)

theorem CodeWorld.Guarded.send (guarded : w.Guarded) (t : Target) (code : String) :
    (w.send t code).Guarded where
  fresh s serial later := by
    simp only [CodeWorld.send, Function.update_apply] at later
    split at later
    · rename_i own
      rw [own]
      exact guarded.fresh t serial (by omega)
    · exact guarded.fresh s serial later
  stored s e mem := by
    simp only [CodeWorld.send, Function.update_apply] at mem ⊢
    split at mem
    · rename_i own
      cases mem
      simp [own]
    · rename_i other
      rw [if_neg other]
      exact guarded.stored s e mem
  admitted s := by
    have admitted := guarded.admitted s
    by_cases own : s = t
    · subst own
      have none : (w.send s code).comparedAt w.now s = 0 := by
        rw [comparedAt]
        cases found : live w.now ((w.send s code).code s) with
        | none => rfl
        | some e =>
          obtain ⟨stored, -⟩ := live_eq_some.mp found
          simp only [CodeWorld.send, Function.update_self] at stored
          cases stored
          exact (guarded.fresh s (w.sent s) le_rfl).1
      change (w.send s code).comparedAt w.now s + w.pending s ≤ min _ (w.countAt w.now s)
      omega
    · simpa [CodeWorld.send, countAt, comparedAt, CodeWorld.pending, Function.update_of_ne own] using
        admitted
  lawful := guarded.lawful
  winner s e mem accepted := by
    simp only [CodeWorld.send, Function.update_apply] at mem accepted
    split at mem
    · rename_i own
      obtain ⟨stored, -⟩ := live_eq_some.mp mem
      cases stored
      rw [own, (guarded.fresh t (w.sent t) le_rfl).2] at accepted
      cases accepted
    · exact guarded.winner s e mem accepted

theorem pending_judged {attempts attemptsIp : ℕ}
    (pends : (VerifyCall.judged attempts attemptsIp).pending) :
    attempts ≤ verificationCodeMaxAttempts := by
  simp only [VerifyCall.judged] at pends
  split at pends
  · cases pends
  · omega

theorem pending_afterEmail {clientIp : Option String} {attempts : ℕ}
    (pends : (VerifyCall.afterEmail clientIp attempts).pending) :
    attempts ≤ verificationCodeMaxAttempts := by
  simp only [VerifyCall.afterEmail] at pends
  split at pends
  · exact of_decide_eq_true pends
  · exact pending_judged pends

theorem pending_counted {clientIp : Option String} {attempts : ℕ}
    (pends : (VerifyCall.counted clientIp attempts).pending) :
    attempts ≤ verificationCodeMaxAttempts := by
  simp only [VerifyCall.counted] at pends
  split at pends
  · rename_i first
    rw [first, verificationCodeMaxAttempts]
    omega
  · exact pending_afterEmail pends

theorem CodeWorld.Guarded.verify (guarded : w.Guarded) (t : Target) (guess : String)
    (clientIp : Option String) : (w.verify t guess clientIp).Guarded where
  fresh := guarded.fresh
  stored := guarded.stored
  admitted s := by
    have admitted := guarded.admitted s
    have count : (w.verify t guess clientIp).pending s = w.pending s +
        if t = s ∧ (VerifyCall.counted clientIp (incr w.now (w.attempts t)).value).pending then 1
        else 0 := by
      simp [CodeWorld.pending, CodeWorld.verify, List.countP_append]
    change w.comparedAt w.now s + (w.verify t guess clientIp).pending s ≤
      min _ ((w.verify t guess clientIp).countAt w.now s)
    rw [count]
    by_cases own : t = s
    · have counter : (w.verify t guess clientIp).countAt w.now s = w.countAt w.now s + 1 := by
        simp only [countAt, CodeWorld.verify, own, Function.update_self]
        exact incr_spec
      rw [counter]
      split
      · rename_i pends
        have allowed := pending_counted pends.2
        rw [incr_value, own] at allowed
        change w.countAt w.now s + 1 ≤ _ at allowed
        omega
      · omega
    · have counter : (w.verify t guess clientIp).countAt w.now s = w.countAt w.now s := by
        simp [countAt, CodeWorld.verify, Function.update_of_ne (Ne.symm own)]
      simpa [own, counter] using admitted
  lawful := guarded.lawful
  winner s e mem accepted := by
    obtain ⟨d, there, target, wins⟩ := guarded.winner s e mem accepted
    exact ⟨d, List.mem_append_left _ there, target, wins⟩

theorem bump_apply (f : Target → ℕ → ℕ) (t s : Target) (serial n : ℕ) :
    bump f t serial s n = f s n + if s = t ∧ n = serial then 1 else 0 := by
  by_cases own : s = t
  · subst own
    by_cases same : n = serial
    · simp [bump, same]
    · simp [bump, same]
  · simp [bump, own]

theorem bump_le {f : Target → ℕ → ℕ} {t : Target} {serial most : ℕ} (room : f t serial + 1 ≤ most)
    {s : Target} {n : ℕ} (bound : f s n ≤ most) : bump f t serial s n ≤ most := by
  rw [bump_apply]
  split
  · rename_i same
    rw [same.1, same.2]
    exact room
  · exact bound

theorem bump_eq_zero {f : Target → ℕ → ℕ} {t s : Target} {serial n : ℕ} (zero : f s n = 0)
    (other : s = t → serial < n) : bump f t serial s n = 0 := by
  rw [bump_apply, zero, if_neg]
  rintro ⟨same, rfl⟩
  exact absurd (other same) (lt_irrefl _)

theorem comparedAt_compare {e : Entry ℤ SentCode} (found : live w.now (w.code c.target) = some e)
    (t : Target) : (w.compare i c).comparedAt w.now t =
      w.comparedAt w.now t + if c.target = t then 1 else 0 := by
  have code : (w.compare i c).code = w.code := by
    simp only [CodeWorld.compare, found]
    split
    · rfl
    · rfl
  have compared : (w.compare i c).compared = bump w.compared c.target e.value.serial := by
    simp only [CodeWorld.compare, found]
    split
    · rfl
    · rfl
  rw [comparedAt, comparedAt, code, compared]
  by_cases own : c.target = t
  · subst own
    simp [found, bump_apply]
  · simp [own, Ne.symm own, bump_apply]

/-- The call that compares a code is one of those still to compare, and is none from then on. -/
theorem pending_compare {e : Entry ℤ SentCode} (there : w.calls[i]? = some c)
    (gets : c.stage = .get) (found : live w.now (w.code c.target) = some e) (t : Target) :
    (w.compare i c).pending t + (if c.target = t then 1 else 0) = w.pending t := by
  have goes (u : CodeWorld) (stage : VerifyStage) (same : u.calls = w.calls)
      (idle : stage.pending = false) :
      (u.goOn i c stage).pending t + (if c.target = t then 1 else 0) = w.pending t := by
    have count := pending_goOn (w := u) (same ▸ there) t stage
    have before : u.pending t = w.pending t := by rw [CodeWorld.pending, same, CodeWorld.pending]
    have pends : c.stage.pending = true := by rw [gets, VerifyStage.pending]
    simpa only [pends, idle, before, and_true, and_false, Bool.false_eq_true, if_false, add_zero]
      using count
  simp only [CodeWorld.compare, found]
  split
  · exact goes _ _ rfl rfl
  · exact goes _ _ rfl rfl

theorem winner_stays {d : VerifyCall} {won : ℕ} (there : w.calls[i]? = some c)
    (gets : c.stage = .get) (mem : d ∈ w.calls) (wins : d.stage = .dropCode (some won)) :
    d ∈ w.calls.set i { c with stage } := by
  apply mem_set_of_ne _ there mem
  rintro rfl
  cases gets.symm.trans wins

theorem CodeWorld.Guarded.compare (guarded : w.Guarded) (there : w.calls[i]? = some c)
    (gets : c.stage = .get) (keeps : ∀ e ∈ live w.now (w.code c.target), e.value.code = c.guess →
      ∀ d ∈ w.calls, d.target = c.target → d.stage ≠ .dropCode (some e.value.serial)) :
    (w.compare i c).Guarded := by
  cases found : live w.now (w.code c.target) with
  | none =>
    rw [CodeWorld.compare, found]
    exact guarded.goOn there (fun serial wins => by simp [gets] at wins) fun pends => by
      cases pends
  | some e =>
    obtain ⟨stored, -⟩ := live_eq_some.mp found
    have old := guarded.stored c.target e stored
    have own : w.comparedAt w.now c.target = w.compared c.target e.value.serial := by
      simp [comparedAt, found]
    have admitted (t : Target) : (w.compare i c).comparedAt w.now t + (w.compare i c).pending t ≤
        min verificationCodeMaxAttempts (w.countAt w.now t) := by
      have bound := guarded.admitted t
      have left := pending_compare there gets found t
      have compared := comparedAt_compare (i := i) found t
      omega
    have room : w.compared c.target e.value.serial + 1 ≤ verificationCodeMaxAttempts := by
      have bound := guarded.admitted c.target
      have left := pending_compare there gets found c.target
      rw [if_pos rfl] at left
      omega
    have sent {t : Target} {n : ℕ} (later : w.sent t ≤ n) : t = c.target → e.value.serial < n := by
      rintro rfl
      omega
    by_cases right : e.value.code = c.guess
    · have first : w.succeeded c.target e.value.serial = 0 := by
        by_contra again
        obtain ⟨d, mem, target, wins⟩ :=
          guarded.winner c.target e found (Nat.pos_of_ne_zero again)
        exact keeps e found right d mem target wins
      simp only [CodeWorld.compare, found, if_pos right] at admitted ⊢
      refine ⟨fun t n later => ?_, guarded.stored, admitted, fun t n => ?_, ?_⟩
      · obtain ⟨none, never⟩ := guarded.fresh t n later
        exact ⟨bump_eq_zero none (sent later), bump_eq_zero never (sent later)⟩
      · obtain ⟨compared, succeeded⟩ := guarded.lawful t n
        exact ⟨bump_le room compared, bump_le (by omega) succeeded⟩
      · intro t f kept accepted
        by_cases same : t = c.target
        · subst same
          cases found.symm.trans kept
          exact ⟨{ c with stage := .dropCode (some e.value.serial) }, mem_set_self there, rfl, rfl⟩
        · change 0 < bump w.succeeded c.target e.value.serial t f.value.serial at accepted
          rw [bump_apply, if_neg fun both => same both.1] at accepted
          obtain ⟨d, mem, target, wins⟩ := guarded.winner t f kept accepted
          exact ⟨d, winner_stays there gets mem wins, target, wins⟩
    · simp only [CodeWorld.compare, found, if_neg right] at admitted ⊢
      refine ⟨fun t n later => ?_, guarded.stored, admitted, fun t n => ?_, ?_⟩
      · obtain ⟨none, never⟩ := guarded.fresh t n later
        exact ⟨bump_eq_zero none (sent later), never⟩
      · obtain ⟨compared, succeeded⟩ := guarded.lawful t n
        exact ⟨bump_le room compared, succeeded⟩
      · intro t f kept accepted
        obtain ⟨d, mem, target, wins⟩ := guarded.winner t f kept accepted
        exact ⟨d, winner_stays there gets mem wins, target, wins⟩

theorem CodeWorld.Guarded.advance {next : CodeWorld} (guarded : w.Guarded)
    (there : w.calls[i]? = some c) (keeps : w.Keeps (.advance i))
    (taken : w.advance i c = some next) : next.Guarded := by
  have kept := keeps c there
  obtain ⟨target, clientIp, guess, stage⟩ := c
  cases stage with
  | expire =>
    cases taken
    exact (guarded.expire target).goOn there (fun serial wins => by cases wins) fun _ => rfl
  | incrIp attempts =>
    cases clientIp with
    | none => cases taken
    | some ip =>
      cases taken
      refine (guarded.attemptsIp _).goOn there (fun serial wins => by cases wins) fun pends => ?_
      split at pends
      · exact pends
      · exact decide_eq_true (pending_judged pends)
  | expireIp attempts attemptsIp =>
    cases clientIp with
    | none => cases taken
    | some ip =>
      cases taken
      exact (guarded.attemptsIp _).goOn there (fun serial wins => by cases wins) fun pends =>
        decide_eq_true (pending_judged pends)
  | get =>
    cases taken
    exact guarded.compare there rfl kept
  | dropCode won =>
    cases taken
    exact (guarded.dropCode target).goOn there (fun serial wins e mem => by simp at mem)
      fun pends => by cases pends
  | dropAttempts won =>
    cases taken
    refine (guarded.dropAttempts kept).goOn there (fun serial wins => by cases wins) fun pends => ?_
    split at pends
    · cases pends
    · cases pends
  | dropAttemptsIp won =>
    cases clientIp with
    | none => cases taken
    | some ip =>
      cases taken
      exact (guarded.attemptsIp _).goOn there (fun serial wins => by cases wins) fun pends => by
        cases pends
  | done result => cases taken

/-- The command has failed, and what it did is done or not. -/
theorem CodeWorld.Guarded.fail {next : CodeWorld} {done : Bool} (guarded : w.Guarded)
    (there : w.calls[i]? = some c) (keeps : w.Keeps (.fail i done))
    (taken : w.fail i c done = some next) : next.Guarded := by
  have kept := keeps c there
  obtain ⟨target, clientIp, guess, stage⟩ := c
  cases stage with
  | expire =>
    have goes : (VerifyCall.afterEmail clientIp 0).pending → VerifyStage.expire.pending := fun _ => rfl
    cases done with
    | false =>
      cases taken
      exact guarded.goOn there (fun serial wins => by cases wins) goes
    | true =>
      cases taken
      exact (guarded.expire target).goOn there (fun serial wins => by cases wins) goes
  | incrIp | expireIp =>
    cases clientIp with
    | none => cases taken
    | some ip =>
      obtain ⟨u, -, rfl⟩ := Option.map_eq_some_iff.mp taken
      exact (guarded.attemptsIp _).goOn there (fun serial wins => by cases wins) fun pends =>
        decide_eq_true (pending_judged pends)
  | get =>
    cases taken
    exact guarded.goOn there (fun serial wins => by cases wins) fun pends => by cases pends
  | dropCode won =>
    cases done with
    | false =>
      cases taken
      refine guarded.goOn there (fun serial wins => ?_) fun pends => by cases pends
      cases wins
      exact kept
    | true =>
      cases taken
      exact (guarded.dropCode target).goOn there (fun serial wins e mem => by simp at mem)
        fun pends => by cases pends
  | dropAttempts won =>
    have goes : (if clientIp.isSome then VerifyStage.dropAttemptsIp won
        else .done won.isSome).pending → (VerifyStage.dropAttempts won).pending := fun pends => by
      split at pends
      · cases pends
      · cases pends
    cases done with
    | false =>
      cases taken
      exact guarded.goOn there (fun serial wins => by cases wins) goes
    | true =>
      cases taken
      exact (guarded.dropAttempts kept).goOn there (fun serial wins => by cases wins) goes
  | dropAttemptsIp won =>
    cases clientIp with
    | none => cases taken
    | some ip =>
      obtain ⟨u, -, rfl⟩ := Option.map_eq_some_iff.mp taken
      exact (guarded.attemptsIp _).goOn there (fun serial wins => by cases wins) fun pends => by
        cases pends
  | done result => cases taken

/-- There is room for a call that could not be counted. -/
theorem CodeWorld.Guarded.verifyFails {done : Bool} (guarded : w.Guarded) (t : Target)
    (guess : String) (clientIp : Option String)
    (keeps : w.Keeps (.verifyFails t guess clientIp done)) :
    (w.verifyFails t guess clientIp done).Guarded where
  fresh := guarded.fresh
  stored := guarded.stored
  admitted s := by
    have admitted := guarded.admitted s
    have count : (w.verifyFails t guess clientIp done).pending s ≤
        w.pending s + if t = s then 1 else 0 := by
      simp only [CodeWorld.pending, CodeWorld.verifyFails, List.countP_append, List.countP_singleton]
      split <;> split <;> simp_all
    change w.comparedAt w.now s + (w.verifyFails t guess clientIp done).pending s ≤
      min _ ((w.verifyFails t guess clientIp done).countAt w.now s)
    by_cases own : t = s
    · subst own
      have counter : (w.verifyFails t guess clientIp done).countAt w.now t =
          w.countAt w.now t + if done then 1 else 0 := by
        cases done with
        | false => rfl
        | true =>
          simp only [countAt, CodeWorld.verifyFails, if_true, Function.update_self]
          exact incr_spec
      simp only [CodeWorld.Keeps] at keeps
      rw [if_pos rfl] at count
      omega
    · have counter : (w.verifyFails t guess clientIp done).countAt w.now s = w.countAt w.now s := by
        cases done with
        | false => rfl
        | true => simp [countAt, CodeWorld.verifyFails, Function.update_of_ne (Ne.symm own)]
      rw [if_neg own] at count
      omega
  lawful := guarded.lawful
  winner s e found accepted := by
    obtain ⟨d, mem, target, wins⟩ := guarded.winner s e found accepted
    exact ⟨d, List.mem_append_left _ mem, target, wins⟩

theorem guarded_step {next : CodeWorld} {a : CodeAction} (guarded : w.Guarded) (keeps : w.Keeps a)
    (taken : codeStep w a = some next) : next.Guarded := by
  cases a with
  | tick seconds =>
    cases taken
    exact guarded.tick keeps
  | send t code =>
    cases taken
    exact guarded.send t code
  | undelivered t =>
    cases taken
    exact guarded.dropCode t
  | verify t guess clientIp =>
    cases taken
    exact guarded.verify t guess clientIp
  | verifyFails t guess clientIp done =>
    cases taken
    exact guarded.verifyFails t guess clientIp keeps
  | advance i =>
    obtain ⟨c, there, taken⟩ := Option.bind_eq_some_iff.mp taken
    exact guarded.advance there keeps taken
  | fail i done =>
    obtain ⟨c, there, taken⟩ := Option.bind_eq_some_iff.mp taken
    exact guarded.fail there keeps taken

theorem guarded_start (now : ℤ) : (CodeWorld.start now).Guarded where
  fresh _ _ _ := ⟨rfl, rfl⟩
  stored _ _ stored := by cases stored
  admitted _ := Nat.zero_le _
  lawful _ _ := ⟨Nat.zero_le _, Nat.zero_le _⟩
  winner _ _ stored := by cases stored

end Steps

section Runs

open CodeWorld

/-- While no attempt is lost with a counter, and no code is accepted that waits to be deleted,
every code is compared at most three times and accepted at most once. -/
theorem lawful_codes (now : ℤ) (actions : List CodeAction)
    (keeps : Along codeStep Keeps (start now) actions) :
    ∀ first, first <+: actions → ∀ w, run codeStep (start now) first = some w → w.Lawful := by
  intro first part w reached
  obtain ⟨rest, rfl⟩ := part
  exact (run_invariant guarded_step (guarded_start now) (along_append keeps).1 reached).lawful

/-- A guess that is wrong and one that is right. -/
theorem lawful_codes_guessed :
    ∃ w, run codeStep (start 0)
        [.send ⟨"ann@x.org", "login"⟩ "123456",
          .verify ⟨"ann@x.org", "login"⟩ "000000" none, .advance 0, .advance 0,
          .verify ⟨"ann@x.org", "login"⟩ "123456" none, .advance 1, .advance 1, .advance 1] = some w ∧
      w.Lawful := by
  obtain ⟨w, reached⟩ : ∃ w, run codeStep (start 0)
      [.send ⟨"ann@x.org", "login"⟩ "123456",
        .verify ⟨"ann@x.org", "login"⟩ "000000" none, .advance 0, .advance 0,
        .verify ⟨"ann@x.org", "login"⟩ "123456" none, .advance 1, .advance 1, .advance 1] =
      some w := ⟨_, rfl⟩
  refine ⟨w, reached, lawful_codes 0 _ ?_ _ List.prefix_rfl w reached⟩
  have passes {w : CodeWorld} {a : CodeAction} {rest : List CodeAction} {next : CodeWorld}
      (taken : codeStep w a = some next) (keeps : w.Keeps a)
      (tail : Along codeStep Keeps next rest) : Along codeStep Keeps w (a :: rest) :=
    (along_cons_of_step taken).mpr ⟨keeps, tail⟩
  refine passes rfl ?_ (passes rfl ?_ (passes rfl ?_ (passes rfl ?_ (passes rfl ?_
    (passes rfl ?_ (passes rfl ?_ (passes rfl ?_ trivial)))))))
  · trivial
  · trivial
  · intro c there
    cases there
    trivial
  · intro c there
    cases there
    intro e found right
    cases found
    exact absurd right (by decide)
  · trivial
  · intro c there
    cases there
    intro e found right
    cases found
    decide
  · intro c there
    cases there
    trivial
  · intro c there
    cases there
    exact ⟨by decide, by decide⟩

/-- The counter of an early guess ends while the code sent after it lives on, and that code is
compared four times; one that two calls read before either deletes it is accepted twice. -/
theorem codes_guessed :
    (∃ w, run codeStep (start 0)
        ([.verify ⟨"ann@x.org", "login"⟩ "000000" none, .advance 0, .advance 0, .tick 300,
          .send ⟨"ann@x.org", "login"⟩ "123456",
          .verify ⟨"ann@x.org", "login"⟩ "000001" none, .advance 1,
          .verify ⟨"ann@x.org", "login"⟩ "000002" none, .advance 2, .tick 300,
          .verify ⟨"ann@x.org", "login"⟩ "000003" none, .advance 3, .advance 3,
          .verify ⟨"ann@x.org", "login"⟩ "000004" none, .advance 4]) = some w ∧
        w.compared ⟨"ann@x.org", "login"⟩ 0 = 4 ∧ ¬ w.Lawful) ∧
      ∃ w, run codeStep (start 0)
        [.send ⟨"ann@x.org", "login"⟩ "123456",
          .verify ⟨"ann@x.org", "login"⟩ "123456" none, .advance 0,
          .verify ⟨"ann@x.org", "login"⟩ "123456" none, .advance 0, .advance 1,
          .advance 0, .advance 0, .advance 1, .advance 1] = some w ∧
        (∀ d ∈ w.calls, d.stage = .done true) ∧
        w.succeeded ⟨"ann@x.org", "login"⟩ 0 = 2 ∧ ¬ w.Lawful := by
  refine ⟨⟨_, rfl, by decide, fun lawful => ?_⟩, _, rfl, by decide, by decide, fun lawful => ?_⟩
  · exact absurd (lawful ⟨"ann@x.org", "login"⟩ 0).1 (by decide)
  · exact absurd (lawful ⟨"ann@x.org", "login"⟩ 0).2 (by decide)

end Runs

end Deeting.Auth
