import Deeting.Sessions.Origins

/-! What the cache holds: a refresh token that was handed out stays as it was stored until it is
presented or its session revoked, and what is on the blacklist is of a session that is revoked or
about to be. This needs of `logout_with_tokens` that its tokens are of one session. -/
namespace Deeting.Sessions
open Transition Expiry

def CacheCommand.jti : CacheCommand → Option Jti
  | .deleteRefresh jti | .blacklist jti => some jti
  | .ban .. => none

def TokenPair.entry (pair : TokenPair) : Entry ℤ RefreshData :=
  ⟨⟨pair.refresh.sub, pair.refresh.version.getD 0, pair.refresh.sid, false, none⟩,
    some pair.refresh.exp⟩

def Sweep.About (s : Sweep) (w : World) (key : ℕ) : Prop :=
  match s.selected with
  | some keys => key ∈ keys
  | none => s.session = some key ∧ ∃ row, w.sessions key = some row ∧ row.userId = s.user

structure Sweep.Clean (s : Sweep) (w : World) : Prop where
  commands : ∀ command ∈ s.commands, ∀ jti ∈ command.jti, ∃ pair,
    w.returned jti.call = some pair ∧ s.About w pair.refresh.sid
  owned : ∀ keys ∈ s.selected, ∀ key ∈ keys, ∃ row, w.sessions key = some row ∧ row.userId = s.user
  access : ∀ jti ∈ s.accessJti, ∃ pair, w.returned jti.call = some pair ∧
    s.session = some pair.refresh.sid

namespace World

def BeingRevoked (w : World) (key : ℕ) : Prop :=
  ∃ i s, w.view Call.sweeping i = some s ∧ s.About w key

def OneSession (w : World) : Action → Prop
  | .logoutWithTokens user authorization refreshToken =>
    ∀ access ∈ authorization.bind w.decode, access.sub = user ∧
      ∀ refresh ∈ refreshToken.bind w.decode, refresh.sid = access.sid
  | _ => True

structure Cached (w : World) : Prop where
  clean : ∀ i s, w.view Call.sweeping i = some s → s.Clean w
  listed : ∀ jti, w.blacklist jti ≠ none → ∃ pair, w.returned jti.call = some pair ∧
    (w.Revoked pair.refresh.sid ∨ w.BeingRevoked pair.refresh.sid)
  stored : ∀ i pair, w.view Call.made i = some pair →
    w.refresh pair.refresh.jti = some pair.entry
  kept : ∀ n pair row, w.returned n = some pair → w.activeSession pair.refresh.sid = some row →
    ¬ w.BeingRevoked pair.refresh.sid → ¬ w.Presented pair.refresh →
    w.refresh pair.refresh.jti = some pair.entry

end World

section Keeping

variable {w t : World} {i n : ℕ} {c d : Call} {s : Sweep} {token : Token} {pair : TokenPair}
  {key : ℕ} {row : SessionRow}

theorem World.Extends.revoked (extends_ : w.Extends t) (revoked : w.Revoked key) :
    t.Revoked key := by
  obtain ⟨row, found, gone⟩ := revoked
  obtain ⟨later, there, -, kept⟩ := extends_.sessions key row found
  exact ⟨later, there, kept gone⟩

theorem World.Revoked.not_active (revoked : w.Revoked key) : w.activeSession key = none := by
  obtain ⟨row, found, gone⟩ := revoked
  rw [World.activeSession, found, Option.filter_eq_none_iff]
  rintro _ ⟨⟩ alive
  rw [Option.isNone_iff_eq_none.mp alive] at gone
  cases gone

theorem revoked_of_not_active (found : w.sessions key = some row)
    (absent : w.activeSession key = none) : w.Revoked key := by
  refine ⟨row, found, ?_⟩
  by_contra alive
  cases absent.symm.trans
    (activeSession_eq_some.mpr ⟨found, Option.not_isSome_iff_eq_none.mp alive⟩)

theorem World.Extends.active {old : SessionRow} (extends_ : w.Extends t)
    (active : t.activeSession key = some row) (there : w.sessions key = some old) :
    w.activeSession key = some old := by
  cases before : w.activeSession key with
  | some other =>
    cases there.symm.trans (activeSession_eq_some.mp before).1
    rfl
  | none =>
    have gone := (extends_.revoked (revoked_of_not_active there before)).not_active
    cases gone.symm.trans active

theorem Sweep.About.extends (about : s.About w key) (extends_ : w.Extends t) : s.About t key := by
  rw [Sweep.About] at about ⊢
  split at about
  · exact about
  · obtain ⟨one, row, found, own⟩ := about
    obtain ⟨later, there, user, -⟩ := extends_.sessions key row found
    exact ⟨one, later, there, user.trans own⟩

theorem Sweep.Clean.extends (clean : s.Clean w) (extends_ : w.Extends t) : s.Clean t where
  commands command mem jti drops := by
    obtain ⟨pair, returned, about⟩ := clean.commands command mem jti drops
    exact ⟨pair, extends_.returned_of returned, about.extends extends_⟩
  owned keys read key mem := by
    obtain ⟨row, found, own⟩ := clean.owned keys read key mem
    obtain ⟨later, there, user, -⟩ := extends_.sessions key row found
    exact ⟨later, there, user.trans own⟩
  access jti given := by
    obtain ⟨pair, returned, one⟩ := clean.access jti given
    exact ⟨pair, extends_.returned_of returned, one⟩

/-- One call changes. The revocations go on with what they are about, or have revoked it, and the
entries that matter are not touched. -/
theorem World.Cached.of_update (cached : w.Cached) (formed : w.Formed) (extends_ : w.Extends t)
    (calls : t.calls = Function.update w.calls i (some d))
    (carries : ∀ key, w.BeingRevoked key → t.Revoked key ∨ t.BeingRevoked key)
    (clean : ∀ s, d.sweeping = some s → s.Clean t)
    (listed : ∀ jti, t.blacklist jti ≠ none → w.blacklist jti ≠ none ∨
      ∃ pair, t.returned jti.call = some pair ∧ t.BeingRevoked pair.refresh.sid)
    (making : ∀ n pair, n ≠ i → w.view Call.made n = some pair →
      t.refresh pair.refresh.jti = w.refresh pair.refresh.jti)
    (handed : ∀ n pair, w.returned n = some pair → ¬ t.BeingRevoked pair.refresh.sid →
      ¬ t.Presented pair.refresh → t.refresh pair.refresh.jti = w.refresh pair.refresh.jti)
    (own : ∀ pair, d.made = some pair ∨ d.returned = some pair →
      t.refresh pair.refresh.jti = some pair.entry) : t.Cached where
  clean j s sweeps := by
    rw [view_update calls] at sweeps
    split at sweeps
    · exact clean s sweeps
    · exact (cached.clean j s sweeps).extends extends_
  listed jti present := by
    rcases listed jti present with before | now
    · obtain ⟨pair, returned, session⟩ := cached.listed jti before
      refine ⟨pair, extends_.returned_of returned, ?_⟩
      rcases session with revoked | under
      · exact .inl (extends_.revoked revoked)
      · exact carries _ under
    · obtain ⟨pair, returned, under⟩ := now
      exact ⟨pair, returned, .inr under⟩
  stored j pair made := by
    rw [view_update calls] at made
    split at made
    · exact own pair (.inl made)
    · rename_i other
      rw [making j pair other made]
      exact cached.stored j pair made
  kept n pair row returned active free unpresented := by
    rw [returned_update calls] at returned
    split at returned
    · exact own pair (.inr returned)
    · obtain ⟨⟨old, there, -⟩, -⟩ := formed.housed n pair returned
      rw [handed n pair returned free unpresented]
      refine cached.kept n pair old returned (extends_.active active there) (fun under => ?_)
        fun presented => unpresented (extends_.presented presented)
      rcases carries _ under with revoked | under
      · cases revoked.not_active.symm.trans active
      · exact free under

theorem World.Formed.origin (formed : w.Formed) (issued : w.Issued token) :
    ∃ pair, w.returned token.jti.call = some pair ∧ pair.refresh.sid = token.sid := by
  obtain ⟨pair, returned, one⟩ := issued
  refine ⟨pair, returned, ?_⟩
  generalize token.jti.call = n at returned
  obtain ⟨time, user, version, session, rfl⟩ := formed.minted returned
  rcases one with rfl | rfl
  · rfl
  · rfl

theorem mem_select : (key, row) ∈ w.select s ↔
    key ∈ s.session.elim (List.range w.started) (fun key => [key]) ∧
      w.activeSession key = some row ∧ row.userId = s.user := by
  simp only [World.select, List.mem_filterMap, Option.map_eq_some_iff, Option.filter_eq_some_iff,
    decide_eq_true_eq, Prod.mk.injEq]
  constructor
  · rintro ⟨_, among, _, found, rfl, rfl⟩
    exact ⟨among, found⟩
  · rintro ⟨among, found⟩
    exact ⟨key, among, row, found, rfl, rfl⟩

theorem carries_of_idle (extends_ : w.Extends t)
    (calls : t.calls = Function.update w.calls i (some d)) (idle : w.view Call.sweeping i = none) :
    ∀ key, w.BeingRevoked key → t.Revoked key ∨ t.BeingRevoked key := by
  rintro key ⟨j, s, sweeps, about⟩
  refine .inr ⟨j, s, ?_, about.extends extends_⟩
  rw [view_update calls, if_neg, sweeps]
  rintro rfl
  cases idle.symm.trans sweeps

theorem carries_of_sweep (extends_ : w.Extends t)
    (calls : t.calls = Function.update w.calls i (some d)) (sweeps : w.view Call.sweeping i = some s)
    (next : ∀ key, s.About w key → t.Revoked key ∨ ∃ left, d.sweeping = some left ∧ left.About t key) :
    ∀ key, w.BeingRevoked key → t.Revoked key ∨ t.BeingRevoked key := by
  rintro key ⟨j, other, others, about⟩
  by_cases own : j = i
  · subst own
    cases sweeps.symm.trans others
    rcases next key about with revoked | ⟨left, goes, about⟩
    · exact .inl revoked
    · exact .inr ⟨j, left, by rw [view_update calls, if_pos rfl, goes], about⟩
  · exact .inr ⟨j, other, by rw [view_update calls, if_neg own, others], about.extends extends_⟩

theorem Sweep.Clean.selected (clean : s.Clean w) (formed : w.Formed) : Sweep.Clean { s with
    selected := some ((w.select s).map Prod.fst)
    commands := (w.select s).flatMap fun found => s.invalidate found.2 } w where
  commands command mem jti drops := by
    obtain ⟨⟨key, row⟩, found, mem⟩ := List.mem_flatMap.mp mem
    obtain ⟨among, active, own⟩ := mem_select.mp found
    have listed : key ∈ (w.select s).map Prod.fst := List.mem_map.mpr ⟨_, found, rfl⟩
    obtain ⟨n, pair, access, refresh, returned, home⟩ :=
      formed.rows key row (activeSession_eq_some.mp active).1
    simp only [Sweep.invalidate, List.cons_append, List.nil_append, List.mem_cons] at mem
    rcases mem with rfl | rfl | mem
    · cases drops
      rw [refresh]
      exact ⟨pair, returned, home ▸ listed⟩
    · cases drops
      rw [access]
      exact ⟨pair, returned, home ▸ listed⟩
    · obtain ⟨given, there, rfl⟩ := Option.map_eq_some_iff.mp (Option.mem_toList.mp mem)
      cases drops
      obtain ⟨pair, returned, one⟩ := clean.access _ (Option.filter_eq_some_iff.mp there).1
      rw [one, Option.elim_some, List.mem_singleton] at among
      exact ⟨pair, returned, among ▸ listed⟩
  owned keys read key mem := by
    cases read
    obtain ⟨⟨_, row⟩, found, rfl⟩ := List.mem_map.mp mem
    obtain ⟨-, active, own⟩ := mem_select.mp found
    exact ⟨row, (activeSession_eq_some.mp active).1, own⟩
  access := clean.access

theorem clean_of_empty (access : s.accessJti = none) (unread : s.selected = none)
    (drops : ∀ command ∈ s.commands, command.jti = none) : s.Clean w where
  commands command mem jti drop := by cases (drops command mem).symm.trans drop
  owned keys read := by cases unread.symm.trans read
  access jti given := by cases access.symm.trans given

theorem clean_logout {user : String} {authorization refreshToken : Option Token} (formed : w.Formed)
    (one : w.OneSession (.logoutWithTokens user authorization refreshToken))
    (sweeps : (w.logout user authorization refreshToken).sweeping = some s) : s.Clean w := by
  have valid {token : Option Token} {decoded : Token} (found : token.bind w.decode = some decoded) :
      w.Issued decoded := by
    obtain ⟨given, -, decodes⟩ := Option.bind_eq_some_iff.mp found
    obtain ⟨rfl, issued, -⟩ := decode_eq_some.mp decodes
    exact issued
  rw [World.logout] at sweeps
  cases found : authorization.bind w.decode with
  | none =>
    simp only [found, Option.none_or] at sweeps
    split at sweeps
    · cases sweeps
    · cases sweeps
      exact clean_of_empty rfl rfl (by simp)
  | some access =>
    obtain ⟨own, same⟩ := one access found
    obtain ⟨first, returned, session⟩ := formed.origin (valid found)
    obtain ⟨⟨row, there, user_⟩, -⟩ := formed.home (valid found)
    simp only [found, Option.some_or, Option.map_some, Call.sweeping, Option.some.injEq] at sweeps
    subst sweeps
    refine ⟨fun command mem jti drops => ?_, fun keys read => (by cases read), fun jti given => ?_⟩
    · rcases List.mem_cons.mp mem with rfl | mem
      · cases drops
        exact ⟨first, returned, by rw [session], row, session ▸ there, user_.trans own⟩
      · obtain ⟨refresh, given, rfl⟩ := Option.map_eq_some_iff.mp (Option.mem_toList.mp mem)
        cases drops
        obtain ⟨second, handed, home⟩ := formed.origin (valid given)
        rw [same refresh given] at home
        exact ⟨second, handed, by rw [home], row, home ▸ there, user_.trans own⟩
    · cases given
      exact ⟨first, returned, by rw [session]⟩

theorem clean_opens {a : Action} (formed : w.Formed) (one : w.OneSession a) (opens : w.Opens a c)
    (sweeps : c.sweeping = some s) : s.Clean w := by
  cases opens with
  | login found active => cases sweeps
  | presented token =>
    rcases w.presented_spec token with ⟨refusal, stage⟩ | stage | ⟨data, stage, -⟩
    · rw [stage] at sweeps
      cases sweeps
    · rw [stage] at sweeps
      cases sweeps
      exact clean_of_empty rfl rfl (by simp)
    · rw [stage] at sweeps
      cases sweeps
  | logout user authorization refreshToken => exact clean_logout formed one sweeps
  | one user session =>
    cases sweeps
    exact clean_of_empty rfl rfl (by simp)
  | all user =>
    cases sweeps
    exact clean_of_empty rfl rfl (by simp)
  | ban user reason durationHours ttl =>
    cases sweeps
    exact clean_of_empty rfl rfl (by simp [CacheCommand.jti])

theorem made_opens {a : Action} (opens : w.Opens a c) : c.made = none := by
  rcases opens.forms with
    ⟨_, _, rfl⟩ | ⟨_, _, rfl⟩ | ⟨_, _, rfl⟩ | ⟨_, _, rfl⟩ | rfl | ⟨_, rfl⟩
  all_goals rfl

theorem open_of_made (made : c.made = some pair) : c.returned = none := by
  cases c with
  | insert pair => rfl
  | refresh token stage =>
    cases stage with
    | find pair => rfl
    | rotate pair => rfl
    | _ => cases made
  | _ => cases made

theorem World.Formed.made_jti (formed : w.Formed) (made : w.view Call.made n = some pair) :
    pair.refresh.jti = ⟨.refresh, n⟩ := by
  obtain ⟨c, at_, made⟩ := Option.bind_eq_some_iff.mp made
  have fits := formed.fits n c at_
  cases c with
  | insert pair =>
    cases made
    obtain ⟨time, user, version, rfl⟩ := fits.entered pair rfl
    rfl
  | refresh token stage =>
    cases stage with
    | find pair =>
      cases made
      obtain ⟨time, version, -, rfl⟩ := fits.traded token pair rfl
      rfl
    | rotate pair =>
      cases made
      obtain ⟨time, version, -, rfl⟩ := fits.traded token pair rfl
      rfl
    | _ => cases made
  | _ => cases made

theorem World.Cached.tick (cached : w.Cached) (seconds : ℕ) :
    World.Cached { w with now := w.now + seconds } where
  clean i s sweeps := (cached.clean i s sweeps).extends
    ⟨fun _ _ at_ _ => at_, fun _ _ at_ => at_, .of_same rfl⟩
  listed := cached.listed
  stored := cached.stored
  kept := cached.kept

theorem World.Cached.of_quiet (cached : w.Cached) (formed : w.Formed) (extends_ : w.Extends t)
    (calls : t.calls = Function.update w.calls i (some d)) (idle : w.view Call.sweeping i = none)
    (clean : ∀ s, d.sweeping = some s → s.Clean t) (refresh : t.refresh = w.refresh)
    (blacklist : t.blacklist = w.blacklist)
    (own : ∀ pair, d.made = some pair ∨ d.returned = some pair →
      w.view Call.made i = some pair) : t.Cached := by
  refine cached.of_update formed extends_ calls (carries_of_idle extends_ calls idle) clean
    (fun jti present => .inl (by rwa [blacklist] at present)) (fun n pair _ _ => by rw [refresh])
    (fun n pair _ _ _ => by rw [refresh]) fun pair made => ?_
  rw [refresh]
  exact cached.stored i pair (own pair made)

theorem World.Cached.onward (cached : w.Cached) (formed : w.Formed) (extends_ : w.Extends t)
    (calls : t.calls = Function.update w.calls i (some d)) (at_ : w.calls i = some c)
    (idle : c.sweeping = none) (apart : d.sweeping = none) (refresh : t.refresh = w.refresh)
    (blacklist : t.blacklist = w.blacklist)
    (own : ∀ pair, d.made = some pair ∨ d.returned = some pair → c.made = some pair) : t.Cached :=
  cached.of_quiet formed extends_ calls ((view_eq at_).trans idle)
    (fun s sweeps => by cases apart.symm.trans sweeps) refresh blacklist
    fun pair gives => (view_eq at_).trans (own pair gives)

theorem World.Cached.stores {version : ℕ} (cached : w.Cached) (formed : w.Formed)
    (at_ : w.calls i = some c) (open_ : c.returned = none) (idle : c.sweeping = none)
    (extends_ : w.Extends ((w.storeRefresh pair.refresh version).goOn i d))
    (jti : pair.refresh.jti = ⟨.refresh, i⟩) (same : pair.refresh.version = some version)
    (exp : pair.refresh.exp = w.now + refreshTokenExpireSeconds) (apart : d.sweeping = none)
    (closed : d.returned = none) (made : d.made = some pair) :
    ((w.storeRefresh pair.refresh version).goOn i d).Cached := by
  have untouched {n : ℕ} {given : TokenPair} (other : n ≠ i)
      (named : given.refresh.jti = ⟨.refresh, n⟩) :
      ((w.storeRefresh pair.refresh version).goOn i d).refresh given.refresh.jti =
        w.refresh given.refresh.jti := by
    apply Function.update_of_ne
    rw [named, jti]
    exact fun equal => other (Jti.mk.inj equal).2
  refine cached.of_update formed extends_ rfl
    (carries_of_idle extends_ rfl ((view_eq at_).trans idle))
    (fun s sweeps => (by cases apart.symm.trans sweeps)) (fun jti present => .inl present)
    (fun n given other making => untouched other (formed.made_jti making))
    (fun n given returned _ _ => untouched ?_ (formed.refresh_jti returned)) fun given own => ?_
  · rintro rfl
    obtain ⟨e, there, gives⟩ := returned_eq_some.mp returned
    cases at_.symm.trans there
    cases open_.symm.trans gives
  · rcases own with making | gives
    · cases made.symm.trans making
      refine (Function.update_self ..).trans ?_
      rw [TokenPair.entry, same, exp, Option.getD_some]
    · cases closed.symm.trans gives

theorem World.Cached.marked {data : RefreshData} (cached : w.Cached) (formed : w.Formed)
    (at_ : w.calls i = some (.refresh token (.mark data)))
    (extends_ : w.Extends ((w.markUsed token data).goOn i (.refresh token .user))) :
    ((w.markUsed token data).goOn i (.refresh token .user)).Cached := by
  obtain ⟨issued, type⟩ := (formed.fits i _ at_).issued token rfl
  refine cached.of_update formed extends_ rfl (carries_of_idle extends_ rfl (view_eq at_))
    (fun s sweeps => (by cases sweeps)) (fun jti present => .inl present)
    (fun n given other making => Function.update_of_ne ?_ _ _)
    (fun n given returned _ unpresented => Function.update_of_ne ?_ _ _) fun given own => ?_
  · intro same
    obtain ⟨e, there, made⟩ := Option.bind_eq_some_iff.mp making
    apply issued.ne there (open_of_made made)
    rw [← same, formed.made_jti making]
  · intro same
    apply unpresented
    rw [← formed.eq_refresh issued type returned same.symm]
    exact extends_.presented ⟨i, view_eq at_⟩
  · rcases own with making | gives
    · cases making
    · cases gives

theorem World.Cached.performed {command : CacheCommand} {rest : List CacheCommand}
    (cached : w.Cached) (formed : w.Formed) (at_ : w.calls i = some c)
    (sweeping : c.sweeping = some s) (commands : s.commands = command :: rest)
    (extends_ : w.Extends ((w.perform command).goOn i (c.resume (some { s with commands := rest })))) :
    ((w.perform command).goOn i (c.resume (some { s with commands := rest }))).Cached := by
  have apart := Call.bystander_resume (some { s with commands := rest }) sweeping
  have clean := (cached.clean i s ((view_eq at_).trans sweeping)).extends extends_
  have goes := Call.sweeping_resume (c := c) (some { s with commands := rest })
  have under {key : ℕ} (about : s.About ((w.perform command).goOn i
      (c.resume (some { s with commands := rest }))) key) :
      ((w.perform command).goOn i (c.resume (some { s with commands := rest }))).BeingRevoked key :=
    ⟨i, { s with commands := rest }, (view_update (perform_calls _)).trans
      (by rw [if_pos rfl, goes]), about⟩
  have mine : command ∈ s.commands := commands ▸ List.mem_cons_self
  refine cached.of_update formed extends_ (perform_calls _)
    (carries_of_sweep extends_ (perform_calls _) ((view_eq at_).trans sweeping) fun key about =>
      .inr ⟨_, goes, about.extends extends_⟩) (fun left goes_ => ?_) (fun jti present => ?_)
    (fun n given other making => ?_) (fun n given returned free _ => ?_) fun given own => ?_
  · cases goes.symm.trans goes_
    exact ⟨fun later mem => clean.commands later (commands ▸ List.mem_cons_of_mem _ mem),
      clean.owned, clean.access⟩
  · cases command with
    | blacklist listed =>
      by_cases same : jti = listed
      · obtain ⟨pair, returned, about⟩ := clean.commands _ mine listed rfl
        exact .inr ⟨pair, same ▸ returned, under about⟩
      · exact .inl fun absent => present ((Function.update_of_ne same _ _).trans absent)
    | deleteRefresh _ => exact .inl present
    | ban user reason ttl => exact .inl present
  · cases command with
    | deleteRefresh dropped =>
      refine Function.update_of_ne ?_ _ _
      intro same
      obtain ⟨pair, returned, -⟩ := (cached.clean i s ((view_eq at_).trans sweeping)).commands _
        mine dropped rfl
      obtain ⟨e, there, made⟩ := Option.bind_eq_some_iff.mp making
      rw [← same, formed.made_jti making] at returned
      obtain ⟨f, also, gives⟩ := returned_eq_some.mp returned
      cases there.symm.trans also
      cases (open_of_made made).symm.trans gives
    | blacklist _ => rfl
    | ban user reason ttl => rfl
  · cases command with
    | deleteRefresh dropped =>
      refine Function.update_of_ne ?_ _ _
      intro same
      obtain ⟨pair, handed, about⟩ := clean.commands _ mine dropped rfl
      rw [← same, formed.refresh_jti returned] at handed
      cases (extends_.returned_of returned).symm.trans handed
      exact free (under about)
    | blacklist _ => rfl
    | ban user reason ttl => rfl
  · rcases own with making | gives
    · cases apart.made.symm.trans making
    · cases apart.returned.symm.trans gives

theorem World.Cached.swept {left : Option Sweep} (cached : w.Cached) (formed : w.Formed)
    (at_ : w.calls i = some c) (sweeping : c.sweeping = some s) (extends_ : w.Extends t)
    (calls : t.calls = Function.update w.calls i (some (c.resume left)))
    (refresh : t.refresh = w.refresh) (blacklist : t.blacklist = w.blacklist)
    (clean : ∀ next, left = some next → next.Clean t)
    (goes : ∀ key, s.About w key → t.Revoked key ∨ ∃ next, left = some next ∧ next.About t key) :
    t.Cached := by
  have apart := Call.bystander_resume left sweeping
  have next := Call.sweeping_resume (c := c) left
  refine cached.of_update formed extends_ calls (carries_of_sweep extends_ calls
      ((view_eq at_).trans sweeping) fun key about => by
        rw [next]
        exact goes key about)
    (fun s sweeps => clean s (next ▸ sweeps)) (fun jti present => .inl (by rwa [blacklist] at present))
    (fun n pair _ _ => by rw [refresh]) (fun n pair _ _ _ => by rw [refresh]) fun given own => ?_
  rcases own with making | gives
  · cases apart.made.symm.trans making
  · cases apart.returned.symm.trans gives

theorem revoked_of_missing (about : s.About w key) (unread : s.selected = none)
    (missing : ∀ row, (key, row) ∉ w.select s) : w.Revoked key := by
  rw [Sweep.About, unread] at about
  obtain ⟨one, row, found, own⟩ := about
  apply revoked_of_not_active found
  cases active : w.activeSession key with
  | none => rfl
  | some other =>
    cases found.symm.trans (activeSession_eq_some.mp active).1
    exact absurd (mem_select.mpr ⟨by rw [one, Option.elim_some, List.mem_singleton], active, own⟩)
      (missing row)

theorem World.Cached.step {a : Action} (cached : w.Cached) (formed : w.Formed)
    (one : w.OneSession a) (moves : w.Moves a t) : t.Cached := by
  have extends_ := formed.extends moves
  cases moves with
  | ticked seconds => exact cached.tick seconds
  | began opens =>
    have new : w.view Call.sweeping w.started = none := by
      rw [World.view, formed.unborn _ le_rfl, Option.bind_none]
    refine cached.of_quiet (i := w.started) formed extends_ rfl new
      (fun s sweeps => (clean_opens formed one opens sweeps).extends extends_) rfl rfl fun pair own => ?_
    rcases own with made | returned
    · cases (made_opens opens).symm.trans made
    · cases (fits_opens opens).2.symm.trans returned
  | drawn at_ => exact cached.stores formed at_ rfl rfl extends_ rfl rfl rfl rfl rfl rfl
  | inserted at_ =>
    refine cached.onward formed extends_ rfl at_ rfl rfl rfl rfl fun given own => ?_
    rcases own with made | returned
    · cases made
    · exact returned
  | @led i token stage next at_ leads =>
    cases leads with
    | there found =>
      refine cached.onward formed extends_ rfl at_ rfl rfl rfl rfl fun given own => ?_
      rcases own with made | returned
      · exact made
      · cases returned
    | @refused stage refusal asks =>
      refine cached.onward formed extends_ rfl at_ ?_ rfl rfl rfl fun given own => ?_
      · cases stage with
        | revoking s => cases asks
        | _ => rfl
      · rcases own with made | returned
        · cases made
        · cases returned
    | _ =>
      refine cached.onward formed extends_ rfl at_ rfl rfl rfl rfl fun given own => ?_
      rcases own with made | returned
      · cases made
      · cases returned
  | marked at_ => exact cached.marked formed at_ extends_
  | created at_ => exact cached.stores formed at_ rfl rfl extends_ rfl rfl rfl rfl rfl rfl
  | missed at_ gone =>
    refine cached.onward formed extends_ rfl at_ rfl rfl rfl rfl fun given own => ?_
    rcases own with made | returned
    · cases made
    · exact returned
  | rotated at_ =>
    refine cached.onward formed extends_ rfl at_ rfl rfl rfl rfl fun given own => ?_
    rcases own with made | returned
    · cases made
    · exact returned
  | performed at_ sweeping commands => exact cached.performed formed at_ sweeping commands extends_
  | @selected i c s at_ sweeping commands unread =>
    refine cached.swept formed at_ sweeping extends_ rfl rfl rfl (fun next reads => ?_)
      fun key about => ?_
    · cases reads
      exact ((cached.clean i s ((view_eq at_).trans sweeping)).selected formed).extends extends_
    · by_cases read : key ∈ (w.select s).map Prod.fst
      · exact .inr ⟨_, rfl, read⟩
      · refine .inl (extends_.revoked (revoked_of_missing about unread fun row found => read ?_))
        exact List.mem_map.mpr ⟨_, found, rfl⟩
  | @nothing i c s key at_ sweeping unread one absent =>
    refine cached.swept formed at_ sweeping extends_ rfl rfl rfl (fun next reads => (by cases reads))
      fun key about => .inl ?_
    refine extends_.revoked (revoked_of_missing about unread fun row found => ?_)
    rw [absent] at found
    cases found
  | @committed i c s keys at_ sweeping commands read =>
    have cache : ((w.commit s keys).goOn i (c.resume none)).refresh = w.refresh ∧
        ((w.commit s keys).goOn i (c.resume none)).blacklist = w.blacklist := by
      simp only [World.goOn, World.commit, World.revoke]
      split
      · exact ⟨rfl, rfl⟩
      · exact ⟨rfl, rfl⟩
    refine cached.swept formed at_ sweeping extends_ (commit_calls s keys) cache.1 cache.2
      (fun next goes => (by cases goes)) fun key about => .inl ?_
    rw [Sweep.About, read] at about
    obtain ⟨row, found, -⟩ := (cached.clean i s ((view_eq at_).trans sweeping)).owned keys read key
      about
    refine ⟨{ row with revokedAt := some w.now }, ?_, rfl⟩
    simp only [World.goOn, commit_sessions, if_pos about, found, Option.map_some]

end Keeping

end Deeting.Sessions
