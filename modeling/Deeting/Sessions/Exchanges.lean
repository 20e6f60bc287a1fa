import Deeting.Sessions.Origins

/-! One exchange at a time: what holds of the tokens while no two calls of `refresh_tokens`
with one token are between the check of its session and their return. -/
namespace Deeting.Sessions
open Transition Expiry

def Call.claims (c : Call) : Option Token :=
  c.exchanging.or c.exchanged

namespace World

def Admits (w : World) (token : Token) : Prop :=
  ∃ row ∈ w.activeSession token.sid, row.userId = token.sub ∧ row.currentRefreshJti = token.jti

def Exclusive (w : World) : Action → Prop
  | .advance i => ∀ token data, w.calls i = some (.refresh token (.check data)) → w.Admits token →
      ∀ j other, w.view Call.exchanging j = some other → other.jti ≠ token.jti
  | _ => True

/-- A token is exchanged by one call while its session names it; from then on the session names
the pair that was returned last, the only refresh token of the session not yet presented. -/
structure Orderly (w : World) : Prop where
  held : ∀ i token, w.view Call.exchanging i = some token →
    ∃ row, w.sessions token.sid = some row ∧ row.currentRefreshJti = token.jti
  single : ∀ i j token other, w.view Call.claims i = some token →
    w.view Call.claims j = some other → token.jti = other.jti → i = j
  spent : ∀ i token row, w.view Call.exchanged i = some token →
    w.activeSession token.sid = some row → row.currentRefreshJti ≠ token.jti
  latest : ∀ key row, w.activeSession key = some row →
    w.last key = some row.currentRefreshJti.call
  unspent : ∀ n pair row, w.returned n = some pair → w.activeSession pair.refresh.sid = some row →
    ¬ w.Presented pair.refresh → row.currentRefreshJti = pair.refresh.jti

end World

section Tokens

variable {w t : World} {i n : ℕ} {c d : Call} {token : Token} {pair : TokenPair}

theorem trading_of_claims (claims : c.claims = some token) : c.trading = some token := by
  cases c with
  | refresh other stage =>
    cases stage with
    | _ => cases claims <;> rfl
  | _ => cases claims

theorem World.Formed.claimed (formed : w.Formed) (claims : w.view Call.claims i = some token) :
    w.Issued token ∧ token.jti.type = .refresh := by
  obtain ⟨c, at_, claims⟩ := Option.bind_eq_some_iff.mp claims
  exact (formed.fits i c at_).issued token (trading_of_claims claims)

theorem claims_of_exchanging (exchanging : w.view Call.exchanging i = some token) :
    w.view Call.claims i = some token := by
  obtain ⟨c, at_, exchanging⟩ := Option.bind_eq_some_iff.mp exchanging
  rw [view_eq at_, Call.claims, exchanging, Option.some_or]

theorem claims_of_exchanged (exchanged : w.view Call.exchanged i = some token) :
    w.view Call.claims i = some token := by
  obtain ⟨c, at_, exchanged⟩ := Option.bind_eq_some_iff.mp exchanged
  rw [view_eq at_]
  cases c with
  | refresh other stage =>
    cases stage with
    | returned pair time => exact exchanged
    | _ => cases exchanged
  | _ => cases exchanged

theorem exchanged_of_open (open_ : c.returned = none) : c.exchanged = none := by
  cases c with
  | refresh other stage =>
    cases stage with
    | returned pair time => cases open_
    | _ => rfl
  | _ => rfl

end Tokens

section Order

variable {w t : World} {i n : ℕ} {c d : Call} {token : Token} {pair : TokenPair}

theorem World.Orderly.single_of (orderly : w.Orderly)
    (claims : ∀ {j token}, t.view Call.claims j = some token → w.view Call.claims j = some token) :
    ∀ j k one other, t.view Call.claims j = some one → t.view Call.claims k = some other →
      one.jti = other.jti → j = k :=
  fun j k one other first second same =>
    orderly.single j k one other (claims first) (claims second) same

theorem World.Orderly.of_quiet (orderly : w.Orderly) (extends_ : w.Extends t)
    (calls : t.calls = Function.update w.calls i (some d)) (sessions : t.sessions = w.sessions)
    (last : t.last = w.last) (closed : d.returned = none)
    (holds : ∀ token, d.exchanging = some token → w.view Call.exchanging i = some token) :
    t.Orderly where
  held j token exchanging := by
    rw [sessions]
    rw [view_update calls] at exchanging
    split at exchanging
    · exact orderly.held i token (holds token exchanging)
    · exact orderly.held j token exchanging
  single := by
    refine orderly.single_of fun claims => ?_
    rw [view_update calls] at claims
    split at claims
    · rename_i own
      rw [Call.claims, exchanged_of_open closed, Option.or_none] at claims
      rw [own]
      exact claims_of_exchanging (holds _ claims)
    · exact claims
  spent j token row exchanged active := by
    rw [World.activeSession, sessions] at active
    rw [view_update calls] at exchanged
    split at exchanged
    · rw [exchanged_of_open closed] at exchanged
      cases exchanged
    · exact orderly.spent j token row exchanged active
  latest key row active := by
    rw [World.activeSession, sessions] at active
    rw [last]
    exact orderly.latest key row active
  unspent n pair row returned active unpresented := by
    rw [World.activeSession, sessions] at active
    rw [returned_update calls] at returned
    split at returned
    · cases closed.symm.trans returned
    · exact orderly.unspent n pair row returned active fun presented =>
        unpresented (extends_.presented presented)

/-- The session of a call that has made its pair names the pair when the call returns. -/
theorem active_rotateTokens {key : ℕ} {row : SessionRow} (active : t.activeSession key = some row)
    (sessions : t.sessions = (w.rotateTokens token.sid pair).sessions) :
    ∃ old, w.activeSession key = some old ∧
      (key = token.sid ∧ row.currentRefreshJti = pair.refresh.jti ∨ key ≠ token.sid ∧ row = old) := by
  obtain ⟨found, alive⟩ := activeSession_eq_some.mp active
  rw [sessions] at found
  simp only [World.rotateTokens, Function.update_apply] at found
  split at found
  · rename_i own
    obtain ⟨old, there, rfl⟩ := Option.map_eq_some_iff.mp found
    rw [own]
    exact ⟨old, activeSession_eq_some.mpr ⟨there, alive⟩, .inl ⟨rfl, rfl⟩⟩
  · rename_i other
    exact ⟨row, activeSession_eq_some.mpr ⟨found, alive⟩, .inr ⟨other, rfl⟩⟩

theorem active_commit {s : Sweep} {keys : List ℕ} {key : ℕ} {row : SessionRow}
    (active : t.activeSession key = some row) (sessions : t.sessions = (w.commit s keys).sessions) :
    w.activeSession key = some row ∧ key ∉ keys := by
  obtain ⟨found, alive⟩ := activeSession_eq_some.mp active
  rw [sessions, commit_sessions] at found
  split at found
  · obtain ⟨old, -, rfl⟩ := Option.map_eq_some_iff.mp found
    cases alive
  · rename_i other
    exact ⟨activeSession_eq_some.mpr ⟨found, alive⟩, other⟩

theorem World.Orderly.began {a : Action} (orderly : w.Orderly) (opens : w.Opens a c)
    (extends_ : w.Extends (w.begin c)) : (w.begin c).Orderly := by
  refine orderly.of_quiet (i := w.started) extends_ rfl rfl rfl (fits_opens opens).2 ?_
  intro token exchanging
  rcases opens.forms with
    ⟨_, _, rfl⟩ | ⟨_, _, rfl⟩ | ⟨_, _, rfl⟩ | ⟨_, _, rfl⟩ | rfl | ⟨_, rfl⟩
  all_goals cases exchanging

theorem World.Orderly.admitted {data : RefreshData} {row : SessionRow} (orderly : w.Orderly)
    (formed : w.Formed) (at_ : w.calls i = some (.refresh token (.check data)))
    (exclusive : w.Exclusive (.advance i))
    (extends_ : w.Extends (w.goOn i (.refresh token (.mark data))))
    (found : w.activeSession token.sid = some row) (own : row.userId = token.sub)
    (current : row.currentRefreshJti = token.jti) :
    (w.goOn i (.refresh token (.mark data))).Orderly where
  held j other exchanging := by
    rw [view_goOn] at exchanging
    split at exchanging
    · cases exchanging
      exact ⟨row, (activeSession_eq_some.mp found).1, current⟩
    · exact orderly.held j other exchanging
  single := by
    -- No call had this token before: none exchanges it, and the session would name another.
    have free {j : ℕ} {other : Token} (claims : w.view Call.claims j = some other) :
        other.jti ≠ token.jti := by
      intro same
      have valid := (formed.fits i _ at_).issued token rfl
      have equal := formed.eq_of_jti (formed.claimed claims) valid same
      obtain ⟨c, there, claims⟩ := Option.bind_eq_some_iff.mp claims
      cases exchanging : c.exchanging with
      | some held =>
        rw [Call.claims, exchanging, Option.some_or] at claims
        cases claims
        exact exclusive token data at_ ⟨row, found, own, current⟩ j other
          ((view_eq there).trans exchanging) same
      | none =>
        rw [Call.claims, exchanging, Option.none_or, equal] at claims
        exact orderly.spent j token row ((view_eq there).trans claims) found current
    intro j k first second one two same
    rw [view_goOn] at one two
    split at one
    · split at two
      · rename_i here also
        rw [here, also]
      · cases one
        exact absurd same.symm (free two)
    · split at two
      · cases two
        exact absurd same (free one)
      · exact orderly.single j k first second one two same
  spent j other later exchanged active := by
    rw [view_goOn] at exchanged
    split at exchanged
    · cases exchanged
    · exact orderly.spent j other later exchanged active
  latest := orderly.latest
  unspent n pair later returned active unpresented := by
    rw [returned_update (i := i) rfl] at returned
    split at returned
    · cases returned
    · exact orderly.unspent n pair later returned active fun presented =>
        unpresented (extends_.presented presented)

theorem World.Orderly.returned_single {time : ℤ} {stage : RefreshStage} (orderly : w.Orderly)
    (at_ : w.calls i = some (.refresh token stage))
    (exchanging : (Call.refresh token stage).exchanging = some token)
    (calls : t.calls = Function.update w.calls i (some (.refresh token (.returned pair time)))) :
    ∀ j k one other, t.view Call.claims j = some one → t.view Call.claims k = some other →
      one.jti = other.jti → j = k := by
  refine orderly.single_of fun claims => ?_
  rw [view_update calls] at claims
  split at claims
  · rename_i own
    cases claims
    rw [own]
    exact claims_of_exchanging ((view_eq at_).trans exchanging)
  · exact claims

theorem World.Orderly.missed (orderly : w.Orderly)
    (at_ : w.calls i = some (.refresh token (.find pair))) (formed : w.Formed)
    (extends_ : w.Extends (w.returns i token pair)) (gone : w.activeSession token.sid = none) :
    (w.returns i token pair).Orderly where
  held j other exchanging := by
    rw [view_update (i := i) rfl] at exchanging
    split at exchanging
    · cases exchanging
    · exact orderly.held j other exchanging
  single := orderly.returned_single at_ rfl rfl
  spent j other row exchanged active := by
    rw [view_update (i := i) rfl] at exchanged
    split at exchanged
    · cases exchanged
      cases gone.symm.trans active
    · exact orderly.spent j other row exchanged active
  latest key row active := by
    simp only [World.returns, Function.update_apply]
    split
    · rename_i own
      rw [own] at active
      cases gone.symm.trans active
    · exact orderly.latest key row active
  unspent n given row returned active unpresented := by
    rw [returned_update (i := i) rfl] at returned
    split at returned
    · cases returned
      obtain ⟨time, version, -, made⟩ := (formed.fits i _ at_).traded _ _ rfl
      rw [made] at active
      cases gone.symm.trans active
    · exact orderly.unspent n given row returned active fun presented =>
        unpresented (extends_.presented presented)

theorem World.Orderly.rotated (orderly : w.Orderly) (formed : w.Formed)
    (at_ : w.calls i = some (.refresh token (.rotate pair)))
    (extends_ : w.Extends ((w.rotateTokens token.sid pair).returns i token pair)) :
    ((w.rotateTokens token.sid pair).returns i token pair).Orderly := by
  have claims : w.view Call.claims i = some token := view_eq at_
  obtain ⟨issued, type⟩ := formed.claimed claims
  obtain ⟨time, version, -, made⟩ := (formed.fits i _ at_).traded _ _ rfl
  have jti : pair.refresh.jti = ⟨.refresh, i⟩ := by rw [made]; rfl
  obtain ⟨held, there, current⟩ := orderly.held i token (view_eq at_)
  refine ⟨fun j other exchanging => ?_, orderly.returned_single at_ rfl rfl,
    fun j other row exchanged active => ?_, fun key row active => ?_,
    fun n given row returned active unpresented => ?_⟩
  · rw [view_update (w := w) (i := i) rfl] at exchanging
    split at exchanging
    · cases exchanging
    · rename_i different
      obtain ⟨row, found, names⟩ := orderly.held j other exchanging
      refine ⟨row, (Function.update_of_ne ?_ _ _).trans found, names⟩
      -- Of this session no other token is exchanged: it would be the same.
      intro same
      rw [same] at found
      cases there.symm.trans found
      exact different (orderly.single j i other token (claims_of_exchanging exchanging) claims
        (names.symm.trans current))
  · obtain ⟨old, before, cases_⟩ := active_rotateTokens active rfl
    rcases cases_ with ⟨own, names⟩ | ⟨other_, rfl⟩
    · intro same
      have valid : w.Issued other := by
        rw [view_update (w := w) (i := i) rfl] at exchanged
        split at exchanged
        · cases exchanged
          exact issued
        · exact (formed.claimed (claims_of_exchanged exchanged)).1
      apply valid.ne at_ rfl
      rw [← same, names, jti]
    · rw [view_update (w := w) (i := i) rfl] at exchanged
      split at exchanged
      · cases exchanged
        exact absurd rfl other_
      · exact orderly.spent j other row exchanged before
  · obtain ⟨old, before, cases_⟩ := active_rotateTokens active rfl
    rcases cases_ with ⟨own, names⟩ | ⟨other_, rfl⟩
    · rw [own, names, jti]
      exact Function.update_self ..
    · exact (Function.update_of_ne other_ _ _).trans (orderly.latest key row before)
  · obtain ⟨old, before, cases_⟩ := active_rotateTokens active rfl
    rw [returned_update (w := w) (i := i) rfl] at returned
    split at returned
    · cases returned
      rcases cases_ with ⟨own, names⟩ | ⟨other_, rfl⟩
      · exact names
      · rw [made] at other_
        exact absurd rfl other_
    · have names := orderly.unspent n given old returned before fun presented =>
        unpresented (extends_.presented presented)
      rcases cases_ with ⟨own, -⟩ | ⟨other_, rfl⟩
      · -- The session named this pair, so its token is the one that was presented.
        rw [own] at before
        cases there.symm.trans (activeSession_eq_some.mp before).1
        have same := formed.eq_refresh issued type returned (current.symm.trans names)
        exact absurd (extends_.presented ⟨i, (view_eq at_).trans (congrArg some same)⟩) unpresented
      · exact names

theorem World.Orderly.inserted (orderly : w.Orderly) (formed : w.Formed)
    (at_ : w.calls i = some (.insert pair))
    (extends_ : w.Extends ((w.insertSession pair).goOn i (.loggedIn pair))) :
    ((w.insertSession pair).goOn i (.loggedIn pair)).Orderly := by
  have new := formed.new at_
  have old {key : ℕ} {row : SessionRow} (there : w.sessions key = some row) :
      key ≠ pair.refresh.sid := by
    rintro rfl
    cases new.symm.trans there
  have active_old {key : ℕ} {row : SessionRow} (other : key ≠ pair.refresh.sid)
      (active : ((w.insertSession pair).goOn i (.loggedIn pair)).activeSession key = some row) :
      w.activeSession key = some row := by
    obtain ⟨found, alive⟩ := activeSession_eq_some.mp active
    exact activeSession_eq_some.mpr ⟨(Function.update_of_ne other _ _).symm.trans found, alive⟩
  refine ⟨fun j other exchanging => ?_, fun j k one other first second same => ?_,
    fun j other row exchanged active => ?_, fun key row active => ?_,
    fun n given row returned active unpresented => ?_⟩
  · rw [view_update (w := w) (i := i) rfl] at exchanging
    split at exchanging
    · cases exchanging
    · obtain ⟨row, found, names⟩ := orderly.held j other exchanging
      exact ⟨row, (Function.update_of_ne (old found) _ _).trans found, names⟩
  · rw [view_update (w := w) (i := i) rfl] at first second
    split at first
    · cases first
    · split at second
      · cases second
      · exact orderly.single j k one other first second same
  · rw [view_update (w := w) (i := i) rfl] at exchanged
    split at exchanged
    · cases exchanged
    · obtain ⟨issued, -⟩ := formed.claimed (claims_of_exchanged exchanged)
      obtain ⟨⟨before, there, -⟩, -⟩ := formed.home issued
      exact orderly.spent j other row exchanged (active_old (old there) active)
  · by_cases own : key = pair.refresh.sid
    · rw [own] at active ⊢
      obtain ⟨found, -⟩ := activeSession_eq_some.mp active
      cases (Function.update_self _ _ _).symm.trans found
      exact Function.update_self ..
    · exact (Function.update_of_ne own _ _).trans (orderly.latest key row (active_old own active))
  · rw [returned_update (w := w) (i := i) rfl] at returned
    split at returned
    · cases returned
      obtain ⟨found, -⟩ := activeSession_eq_some.mp active
      cases (Function.update_self _ _ _).symm.trans found
      rfl
    · obtain ⟨⟨before, there, -⟩, -⟩ := formed.housed n given returned
      exact orderly.unspent n given row returned (active_old (old there) active) fun presented =>
        unpresented (extends_.presented presented)

theorem World.Orderly.committed {s : Sweep} {keys : List ℕ} (orderly : w.Orderly)
    (apart : d.Bystander) (extends_ : w.Extends ((w.commit s keys).goOn i d)) :
    ((w.commit s keys).goOn i d).Orderly := by
  refine ⟨fun j other exchanging => ?_, orderly.single_of fun claims => ?_,
    fun j other row exchanged active => ?_, fun key row active => ?_,
    fun n given row returned active unpresented => ?_⟩
  · rw [view_update (commit_calls s keys)] at exchanging
    split at exchanging
    · cases apart.exchanging.symm.trans exchanging
    · obtain ⟨row, found, names⟩ := orderly.held j other exchanging
      simp only [World.goOn, commit_sessions, found]
      split
      · exact ⟨_, rfl, names⟩
      · exact ⟨row, rfl, names⟩
  · rw [view_update (commit_calls s keys)] at claims
    split at claims
    · rw [Call.claims, apart.exchanging, apart.exchanged] at claims
      cases claims
    · exact claims
  · rw [view_update (commit_calls s keys)] at exchanged
    split at exchanged
    · cases apart.exchanged.symm.trans exchanged
    · exact orderly.spent j other row exchanged (active_commit active rfl).1
  · have before := orderly.latest key row (active_commit active rfl).1
    rw [← before]
    simp only [World.goOn, World.commit, World.revoke]
    split
    · rfl
    · rfl
  · rw [returned_update (commit_calls s keys)] at returned
    split at returned
    · cases apart.returned.symm.trans returned
    · exact orderly.unspent n given row returned (active_commit active rfl).1 fun presented =>
        unpresented (extends_.presented presented)

theorem perform_last (command : CacheCommand) : (w.perform command).last = w.last := by
  cases command with
  | _ => rfl

theorem World.Orderly.step {a : Action} (orderly : w.Orderly) (formed : w.Formed)
    (exclusive : w.Exclusive a) (moves : w.Moves a t) : t.Orderly := by
  have extends_ := formed.extends moves
  cases moves with
  | ticked seconds =>
    exact ⟨orderly.held, orderly.single, orderly.spent, orderly.latest, orderly.unspent⟩
  | began opens => exact orderly.began opens extends_
  | drawn at_ => exact orderly.of_quiet extends_ rfl rfl rfl rfl fun _ holds => (by cases holds)
  | inserted at_ => exact orderly.inserted formed at_ extends_
  | led at_ leads =>
    cases leads with
    | admitted found own current => exact orderly.admitted formed at_ exclusive extends_ found own current
    | refused asks =>
      exact orderly.of_quiet extends_ rfl rfl rfl rfl fun _ holds => (by cases holds)
    | _ => exact orderly.of_quiet extends_ rfl rfl rfl rfl fun _ holds => (view_eq at_).trans holds
  | marked at_ =>
    exact orderly.of_quiet extends_ rfl rfl rfl rfl fun _ holds => (view_eq at_).trans holds
  | created at_ =>
    exact orderly.of_quiet extends_ rfl rfl rfl rfl fun _ holds => (view_eq at_).trans holds
  | missed at_ gone => exact orderly.missed at_ formed extends_ gone
  | rotated at_ => exact orderly.rotated formed at_ extends_
  | @performed i c s command rest at_ sweeping commands =>
    have apart := Call.bystander_resume (some { s with commands := rest }) sweeping
    exact orderly.of_quiet extends_ (perform_calls _) (perform_sessions _) (perform_last _)
      apart.returned fun _ holds => (by cases apart.exchanging.symm.trans holds)
  | @selected i c s at_ sweeping commands unread =>
    have apart := Call.bystander_resume (some { s with
      selected := some ((w.select s).map Prod.fst)
      commands := (w.select s).flatMap fun found => s.invalidate found.2 }) sweeping
    exact orderly.of_quiet extends_ rfl rfl rfl apart.returned fun _ holds =>
      (by cases apart.exchanging.symm.trans holds)
  | nothing at_ sweeping unread one absent =>
    have apart := Call.bystander_resume none sweeping
    exact orderly.of_quiet extends_ rfl rfl rfl apart.returned fun _ holds =>
      (by cases apart.exchanging.symm.trans holds)
  | committed at_ sweeping commands read =>
    exact orderly.committed (Call.bystander_resume none sweeping) extends_

end Order

end Deeting.Sessions
