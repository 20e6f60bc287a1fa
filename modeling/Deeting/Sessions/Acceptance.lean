import Deeting.Sessions.Exchanges
import Deeting.Sessions.Sweeps

/-! Which tokens are accepted: a refresh token when a call that presents it and is left alone
returns a pair, an access token when `_get_user_from_jwt` does not refuse it. -/
namespace Deeting.Sessions
open Transition Expiry

namespace World

def Finishes (w : World) (i : ℕ) (token : Token) (commands : ℕ) : Prop :=
  ∃ t, run sessionStep w (List.replicate commands (.advance i)) = some t ∧
    ∃ pair time, t.calls i = some (.refresh token (.returned pair time))

/-- `refresh_tokens`, called now and left alone, exchanges the token. -/
def Accepts (w : World) (token : Token) : Prop :=
  ∃ t, run sessionStep w (.refreshTokens token :: List.replicate 7 (.advance w.started)) = some t ∧
    ∃ pair time, t.calls w.started = some (.refresh token (.returned pair time))

structure Welcomes (w : World) (token : Token) : Prop where
  session : w.Admits token
  user : ∃ row, w.users token.sub = some row ∧ row.isActive = true ∧
    row.tokenVersion = token.version.getD 0
  free : live w.now (w.bans token.sub) = none

end World

section Alone

variable {w t u : World} {i : ℕ} {c : Call} {token : Token} {stage : RefreshStage} {n : ℕ}

theorem step_advance (at_ : w.calls i = some (.refresh token stage))
    (idle : (Call.refresh token stage).sweeping = none) :
    sessionStep w (.advance i) = w.exchange i token stage := by
  simp only [sessionStep, at_, Option.bind_some, World.advance, idle]

theorem finishes_step (at_ : w.calls i = some (.refresh token stage))
    (idle : (Call.refresh token stage).sweeping = none)
    (taken : w.exchange i token stage = some t) (rest : t.Finishes i token n) :
    w.Finishes i token (n + 1) := by
  obtain ⟨u, reached, returned⟩ := rest
  refine ⟨u, ?_, returned⟩
  rw [List.replicate_succ, run_cons_eq_some]
  exact ⟨t, (step_advance at_ idle).trans taken, reached⟩

theorem calls_goOn : (w.goOn i c).calls i = some c :=
  Function.update_self ..

theorem finishes_rotate {pair : TokenPair} (at_ : w.calls i = some (.refresh token (.rotate pair))) :
    w.Finishes i token 1 :=
  finishes_step (n := 0) at_ rfl rfl ⟨_, rfl, pair, _, calls_goOn⟩

theorem finishes_find {pair : TokenPair} (at_ : w.calls i = some (.refresh token (.find pair)))
    (admits : w.Admits token) : w.Finishes i token 2 := by
  obtain ⟨row, found, -⟩ := admits
  have goes : w.exchange i token (.find pair) = some (w.goOn i (.refresh token (.rotate pair))) := by
    rw [World.exchange, if_pos (Option.isSome_of_mem found)]
  exact finishes_step at_ rfl goes (finishes_rotate calls_goOn)

theorem finishes_create {version : ℕ} (at_ : w.calls i = some (.refresh token (.create version)))
    (admits : w.Admits token) : w.Finishes i token 3 :=
  finishes_step at_ rfl rfl (finishes_find calls_goOn admits)

theorem finishes_ban (at_ : w.calls i = some (.refresh token (.ban (token.version.getD 0))))
    (welcomes : w.Welcomes token) : w.Finishes i token 4 := by
  have goes : w.exchange i token (.ban (token.version.getD 0)) =
      some (w.goOn i (.refresh token (.create (token.version.getD 0)))) := by
    rw [World.exchange, welcomes.free, if_neg (by simp), if_neg (by simp)]
  exact finishes_step at_ rfl goes (finishes_create calls_goOn welcomes.session)

theorem finishes_user (at_ : w.calls i = some (.refresh token .user))
    (welcomes : w.Welcomes token) : w.Finishes i token 5 := by
  obtain ⟨row, found, active, version⟩ := welcomes.user
  have goes : w.exchange i token .user =
      some (w.goOn i (.refresh token (.ban (token.version.getD 0)))) := by
    have known : (w.users token.sub).filter UserRow.isActive = some row :=
      Option.filter_eq_some_iff.mpr ⟨found, active⟩
    simp only [World.exchange, known, version]
  exact finishes_step at_ rfl goes (finishes_ban calls_goOn
    ⟨welcomes.session, welcomes.user, welcomes.free⟩)

theorem finishes_mark {data : RefreshData} (at_ : w.calls i = some (.refresh token (.mark data)))
    (welcomes : w.Welcomes token) : w.Finishes i token 6 :=
  finishes_step at_ rfl rfl (finishes_user calls_goOn
    ⟨welcomes.session, welcomes.user, welcomes.free⟩)

theorem finishes_check {data : RefreshData} (at_ : w.calls i = some (.refresh token (.check data)))
    (welcomes : w.Welcomes token) : w.Finishes i token 7 := by
  have goes : w.exchange i token (.check data) = some (w.goOn i (.refresh token (.mark data))) := by
    have admits := welcomes.session
    rw [World.Admits] at admits
    rw [World.exchange, if_pos admits]
  exact finishes_step at_ rfl goes (finishes_mark calls_goOn
    ⟨welcomes.session, welcomes.user, welcomes.free⟩)

/-- A refresh token that is stored unused is accepted where the tables let it through. -/
theorem accepts_of_welcomes {e : Entry ℤ RefreshData} (welcomes : w.Welcomes token)
    (decodes : w.decode token = some token) (type : token.jti.type = .refresh)
    (found : live w.now (w.refresh token.jti) = some e) (unused : e.value.used = false) :
    w.Accepts token := by
  have checks : w.presented token = .check e.value := by
    simp [World.presented, decodes, type, found, unused]
  have at_ : (w.begin (.refresh token (w.presented token))).calls w.started =
      some (.refresh token (.check e.value)) := by
    rw [checks]
    exact Function.update_self ..
  obtain ⟨t, reached, returned⟩ := finishes_check at_
    ⟨welcomes.session, welcomes.user, welcomes.free⟩
  exact ⟨t, run_cons_eq_some.mpr ⟨_, rfl, reached⟩, returned⟩

def World.Aside (w : World) (i : ℕ) (token : Token) : Prop :=
  ∃ stage, w.calls i = some (.refresh token stage) ∧ (Call.refresh token stage).trading = none

theorem World.Aside.advance (aside : w.Aside i token)
    (taken : sessionStep w (.advance i) = some t) : t.Aside i token := by
  obtain ⟨stage, at_, idle⟩ := aside
  cases stage with
  | refused refusal =>
    rw [step_advance at_ rfl] at taken
    cases taken
  | revoking s =>
    simp only [sessionStep, at_, Option.bind_some, World.advance, Call.sweeping] at taken
    cases taken
    exact ⟨_, Function.update_self .., (Call.bystander_resume (c := .refresh token (.revoking s))
      (w.sweepStep s).2 rfl).trading⟩
  | _ => cases idle

theorem World.Aside.run (aside : w.Aside i token) :
    ∀ n t, run sessionStep w (List.replicate n (.advance i)) = some t → t.Aside i token := by
  intro n
  induction n generalizing w with
  | zero =>
    intro t reached
    cases reached
    exact aside
  | succ n ih =>
    intro t reached
    obtain ⟨u, taken, reached⟩ := run_cons_eq_some.mp reached
    exact ih (aside.advance taken) t reached

theorem presented_of_accepts (accepts : w.Accepts token) :
    ∃ data, w.presented token = .check data := by
  obtain ⟨t, reached, pair, time, returned⟩ := accepts
  obtain ⟨u, taken, reached⟩ := run_cons_eq_some.mp reached
  cases taken
  have never (aside : World.Aside (w.begin (.refresh token (w.presented token))) w.started token) :
      False := by
    obtain ⟨stage, at_, idle⟩ := aside.run _ t reached
    cases returned.symm.trans at_
    cases idle
  have begun : (w.begin (.refresh token (w.presented token))).calls w.started =
      some (.refresh token (w.presented token)) := Function.update_self ..
  rcases w.presented_spec token with ⟨refusal, stage⟩ | stage | ⟨data, stage, -⟩
  · exact absurd ⟨_, begun, by rw [stage]; rfl⟩ never
  · exact absurd ⟨_, begun, by rw [stage]; rfl⟩ never
  · exact ⟨data, stage⟩

theorem admits_of_accepts (accepts : w.Accepts token) : w.Admits token := by
  obtain ⟨data, stage⟩ := presented_of_accepts accepts
  obtain ⟨t, reached, pair, time, returned⟩ := accepts
  obtain ⟨u, taken, reached⟩ := run_cons_eq_some.mp reached
  cases taken
  have begun : (w.begin (.refresh token (w.presented token))).calls w.started =
      some (.refresh token (w.presented token)) := Function.update_self ..
  rw [List.replicate_succ] at reached
  obtain ⟨v, taken, reached⟩ := run_cons_eq_some.mp reached
  rw [stage] at begun taken
  rw [step_advance begun rfl] at taken
  by_contra refused
  have asks : ¬ (w.begin (.refresh token (.check data))).Admits token := refused
  rw [World.Admits] at asks
  rw [World.exchange, if_neg asks] at taken
  cases taken
  obtain ⟨later, at_, idle⟩ := World.Aside.run (i := w.started)
    ⟨.refused ⟨401, "Refresh token expired or invalid"⟩, calls_goOn, rfl⟩ _ t reached
  cases returned.symm.trans at_
  cases idle

end Alone

end Deeting.Sessions
