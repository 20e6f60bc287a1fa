import Deeting.Stream.Accumulator
import Deeting.Table
import Deeting.Transition
import Deeting.Uuid

/-! Signing a desktop application in through a browser: its sessions, their one-time grants, and
the requests that complete and exchange them, one statement after the other. A request works on
the rows as it has read them, and its commit writes the fields that it has changed. -/
namespace Deeting.Auth.DesktopLogin
open Transition

inductive SessionStatus where
  | created
  | completed
  | exchanged
  | expired
  deriving DecidableEq

inductive GrantStatus where
  | active
  | consumed
  | expired
  deriving DecidableEq

/-- `DesktopBrowserLoginSession`. -/
structure LoginSession where
  id : Uuid
  redirectScheme : String
  status : SessionStatus := .created
  userId : Option Uuid := none
  clientFingerprint : Option String
  expiresAt : ℤ
  completedAt : Option ℤ := none

/-- `DesktopBrowserLoginGrant`. -/
structure LoginGrant where
  grantHash : String
  sessionId : Uuid
  status : GrantStatus := .active
  expiresAt : ℤ
  consumedAt : Option ℤ := none

/-- The settings of `DESKTOP_OAUTH`, with the lifetimes in microseconds. -/
structure Settings where
  callbackScheme : String := "deeting"
  sessionTtl : ℤ := 600000000
  grantTtl : ℤ := 120000000

inductive Request where
  | complete (userId : Uuid)
  | exchange (grant : String)

/-- How far a request is, with the rows that it has read. -/
inductive Call where
  | idle
  | started (sessionId : Uuid) (request : Request)
  | holding (session : LoginSession) (request : Request)
  | completing (session : LoginSession) (userId : Uuid) (active : List String)
  | exchanging (session : LoginSession) (row : LoginGrant) (userId : Uuid) (grant : String)
      (checked : ℤ)
  | redirected (scheme : String) (sessionId : Uuid) (grant : String)
  | signedIn (userId : Uuid) (userAgent : String)
  | refused (statusCode : ℕ) (detail : String)

structure Completion where
  sessionId : Uuid
  userId : Uuid
  grantHash : String
  completedAt : ℤ

structure Handing where
  sessionId : Uuid
  userId : Uuid
  grant : String
  checked : ℤ

/-- The last two fields are for the statements: who has completed a session, with which grant,
and who has been handed tokens for which. -/
structure World where
  now : ℤ
  users : List Uuid
  sessions : Table LoginSession.id := Table.empty
  grants : Table LoginGrant.grantHash := Table.empty
  calls : ℕ → Call := fun _ => .idle
  completions : List Completion := []
  handed : List Handing := []

inductive Action where
  | tick (micros : ℕ)
  | startSession (id : Uuid) (returnScheme clientFingerprint : Option String)
  | request (n : ℕ) (sessionId : Uuid) (request : Request)
  /-- The next statement; `given` is the secret that is drawn, or the hash of the row that the
  query comes to first. -/
  | execute (n : ℕ) (given : String)

/-- `value or other`. -/
def orElse (value : Option String) (other : String) : String :=
  (value.filter fun text => text ≠ "").getD other

def ensureSessionActive (now : ℤ) (session : LoginSession) : Option (ℕ × String) :=
  if session.expiresAt < now then some (400, "Desktop browser login session expired")
  else if session.status = .created ∨ session.status = .completed then none
  else some (400, "Desktop browser login session is not active")

def ensureGrantActive (now : ℤ) (grant : LoginGrant) : Option (ℕ × String) :=
  if grant.expiresAt < now then some (400, "Desktop browser login grant expired")
  else if grant.status = .active then none
  else some (400, "Desktop browser login grant already consumed")

/-- A field of a row after the commit of an object that was read with one value and set to
another; the same value is not written. -/
def written {α : Type} [DecidableEq α] (was value stored : α) : α :=
  if was = value then stored else value

/-- The row of a session that was read as `session`, when it is committed as completed. -/
def completeSession (now : ℤ) (session : LoginSession) (userId : Uuid) (row : LoginSession) :
    LoginSession :=
  { row with
    userId := written session.userId (some userId) row.userId
    status := written session.status .completed row.status
    completedAt := written session.completedAt (some now) row.completedAt }

def exchangeSession (row : LoginSession) : LoginSession := { row with status := .exchanged }

def consumeGrant (now : ℤ) (row : LoginGrant) : LoginGrant :=
  { row with status := .consumed, consumedAt := some now }

def expireGrants (grants : Table LoginGrant.grantHash) (active : List String) :
    Table LoginGrant.grantHash :=
  grants.rewrite (fun g => if g.grantHash ∈ active then { g with status := .expired } else g)
    fun g => by split <;> rfl

namespace World

variable (w : World) (n : ℕ)

def call (c : Call) : World := { w with calls := Function.update w.calls n c }

def refuse (error : ℕ × String) : World := w.call n (.refused error.1 error.2)

def startSession (settings : Settings) (id : Uuid) (returnScheme clientFingerprint : Option String) :
    Option World :=
  let scheme := String.ofList (Stream.strip (orElse returnScheme settings.callbackScheme).toList)
  (w.sessions.insert?
    { id, redirectScheme := orElse (some scheme) settings.callbackScheme, clientFingerprint
      expiresAt := w.now + settings.sessionTtl }).map fun sessions => { w with sessions }

def readSession (sessionId : Uuid) (request : Request) : World :=
  match w.sessions.find? sessionId with
  | none => w.refuse n (404, "Desktop browser login session not found")
  | some session =>
      match ensureSessionActive w.now session with
      | some error => w.refuse n error
      | none => w.call n (.holding session request)

/-- The query of `_expire_active_grants`. -/
def readGrants (session : LoginSession) (userId : Uuid) : World :=
  w.call n (.completing session userId
    ((w.grants.rows.filter fun g => g.sessionId = session.id ∧ g.status = .active).map
      LoginGrant.grantHash))

def newGrant (settings : Settings) (hashSecret : String → String) (sessionId : Uuid)
    (rawGrant : String) : LoginGrant where
  grantHash := hashSecret rawGrant
  sessionId := sessionId
  expiresAt := w.now + settings.grantTtl

/-- The commit of `complete_session`. -/
def complete (settings : Settings) (hashSecret : String → String) (session : LoginSession)
    (userId : Uuid) (active : List String) (rawGrant : String) : World :=
  match (expireGrants w.grants active).insert?
      (w.newGrant settings hashSecret session.id rawGrant) with
  | none => w.refuse n (500, "Internal Server Error")
  | some grants =>
      { w with
        grants
        sessions := w.sessions.modify session.id (completeSession w.now session userId) fun _ => rfl
        completions := ⟨session.id, userId, hashSecret rawGrant, w.now⟩ :: w.completions }.call n
          (.redirected session.redirectScheme session.id rawGrant)

def readGrant (hashSecret : String → String) (session : LoginSession) (grant : String)
    (first : String) : Option World :=
  match w.grants.find? first with
  | none =>
      if w.grants.rows.any fun row => row.sessionId = session.id then none
      else some (w.refuse n (404, "Desktop browser login grant not found"))
  | some row =>
      if row.sessionId ≠ session.id then none
      else some <|
        match ensureGrantActive w.now row with
        | some error => w.refuse n error
        | none =>
            if row.grantHash ≠ hashSecret grant then
              w.refuse n (400, "Desktop browser login grant invalid")
            else
              match session.userId.filter fun userId => userId ∈ w.users with
              | none => w.refuse n (404, "Desktop browser login user not found")
              | some userId => w.call n (.exchanging session row userId grant w.now)

/-- The commit of `exchange_grant`, after which the tokens are returned. -/
def exchange (session : LoginSession) (row : LoginGrant) (userId : Uuid) (grant : String)
    (checked : ℤ) : World :=
  { w with
    grants := w.grants.modify row.grantHash (consumeGrant w.now) fun _ => rfl
    sessions := w.sessions.modify session.id exchangeSession fun _ => rfl
    handed := ⟨session.id, userId, grant, checked⟩ :: w.handed }.call n
      (.signedIn userId ("Deeting Desktop (" ++ orElse session.clientFingerprint "desktop" ++ ")"))

def execute (settings : Settings) (hashSecret : String → String) (given : String) : Option World :=
  match w.calls n with
  | .started sessionId request => some (w.readSession n sessionId request)
  | .holding session (.complete userId) => some (w.readGrants n session userId)
  | .holding session (.exchange grant) => w.readGrant n hashSecret session grant given
  | .completing session userId active =>
      some (w.complete n settings hashSecret session userId active given)
  | .exchanging session row userId grant checked =>
      some (w.exchange n session row userId grant checked)
  | _ => none

end World

def step (settings : Settings) (hashSecret : String → String) (w : World) : Action → Option World
  | .tick micros => some { w with now := w.now + micros }
  | .startSession id returnScheme clientFingerprint =>
      w.startSession settings id returnScheme clientFingerprint
  | .request n sessionId request =>
      match w.calls n with
      | .idle => some (w.call n (.started sessionId request))
      | _ => none
  | .execute n given => w.execute n settings hashSecret given

/-- What a request knows after a statement that writes nothing. -/
def Reads (hashSecret : String → String) (w : World) (c : Call) : Call → Prop
  | .holding session request => c = .started session.id request ∧
      w.sessions.find? session.id = some session ∧ session.status ≠ .exchanged
  | .completing session userId active => c = .holding session (.complete userId) ∧
      ∀ h, h ∈ active ↔
        ∃ g, w.grants.find? h = some g ∧ g.sessionId = session.id ∧ g.status = .active
  | .exchanging session row userId grant checked => c = .holding session (.exchange grant) ∧
      w.grants.find? (hashSecret grant) = some row ∧ row.sessionId = session.id ∧
        row.status = .active ∧ checked ≤ row.expiresAt ∧ session.userId = some userId
  | .refused .. => True
  | _ => False

inductive Moves (settings : Settings) (hashSecret : String → String) (w : World) : World → Prop
  | passes (now : ℤ) : Moves settings hashSecret w { w with now }
  | starts (session : LoginSession) (sessions : Table LoginSession.id)
      (inserted : w.sessions.insert? session = some sessions) (new : session.userId = none) :
      Moves settings hashSecret w { w with sessions }
  | reads (n : ℕ) (c : Call) (knows : Reads hashSecret w (w.calls n) c) :
      Moves settings hashSecret w (w.call n c)
  | completes (n : ℕ) (session : LoginSession) (userId : Uuid) (active : List String)
      (rawGrant : String) (here : w.calls n = .completing session userId active)
      (grants : Table LoginGrant.grantHash)
      (inserted : (expireGrants w.grants active).insert?
        (w.newGrant settings hashSecret session.id rawGrant) = some grants) :
      Moves settings hashSecret w (w.complete n settings hashSecret session userId active rawGrant)
  | exchanges (n : ℕ) (session : LoginSession) (row : LoginGrant) (userId : Uuid) (grant : String)
      (checked : ℤ) (here : w.calls n = .exchanging session row userId grant checked) :
      Moves settings hashSecret w (w.exchange n session row userId grant checked)

section Steps

variable {settings : Settings} {hashSecret : String → String} {w t : World} {n : ℕ}
  {session : LoginSession} {given : String}

theorem active_of_ensure {now : ℤ} (passed : ensureSessionActive now session = none) :
    session.status ≠ .exchanged := by
  intro exchanged
  rw [ensureSessionActive, exchanged] at passed
  split at passed
  · cases passed
  · simp at passed

theorem active_of_ensureGrant {now : ℤ} {row : LoginGrant}
    (passed : ensureGrantActive now row = none) : now ≤ row.expiresAt ∧ row.status = .active := by
  rw [ensureGrantActive] at passed
  split at passed
  · cases passed
  · rename_i early
    simp only [ite_eq_left_iff, reduceCtorEq, imp_false, not_not] at passed
    exact ⟨not_lt.mp early, passed⟩

theorem moves_of_readSession {sessionId : Uuid} {request : Request}
    (here : w.calls n = .started sessionId request) :
    Moves settings hashSecret w (w.readSession n sessionId request) := by
  rw [World.readSession]
  split
  · exact .reads n _ trivial
  · rename_i session found
    obtain rfl := Table.key_of_find? found
    split
    · exact .reads n _ trivial
    · rename_i passed
      exact .reads n _ ⟨here, found, active_of_ensure passed⟩

theorem moves_of_readGrant {grant : String} (here : w.calls n = .holding session (.exchange grant))
    (taken : w.readGrant n hashSecret session grant given = some t) :
    Moves settings hashSecret w t := by
  rw [World.readGrant] at taken
  split at taken
  · split at taken
    · cases taken
    · cases taken
      exact .reads n _ trivial
  · rename_i row found
    obtain rfl := Table.key_of_find? found
    split at taken
    · cases taken
    · rename_i own
      cases taken
      split
      · exact .reads n _ trivial
      · rename_i passed
        obtain ⟨early, active⟩ := active_of_ensureGrant passed
        split
        · exact .reads n _ trivial
        · rename_i same
          split
          · exact .reads n _ trivial
          · rename_i userId known
            obtain ⟨user, -⟩ := Option.filter_eq_some_iff.mp known
            exact .reads n _ ⟨here, not_not.mp same ▸ found, not_not.mp own, active, early, user⟩

/-- A request is made, or time passes, or a statement is executed. -/
theorem step_cases {a : Action} (taken : step settings hashSecret w a = some t) :
    (∃ n sessionId request, a = .request n sessionId request ∧
      t = w.call n (.started sessionId request)) ∨ Moves settings hashSecret w t := by
  cases a with
  | tick micros =>
    cases taken
    exact .inr (.passes _)
  | startSession id returnScheme clientFingerprint =>
    obtain ⟨sessions, inserted, rfl⟩ := Option.map_eq_some_iff.mp taken
    exact .inr (.starts _ sessions inserted rfl)
  | request n sessionId request =>
    simp only [step] at taken
    split at taken <;> cases taken
    exact .inl ⟨n, sessionId, request, rfl, rfl⟩
  | execute n given =>
    refine .inr ?_
    simp only [step, World.execute] at taken
    split at taken
    · cases taken
      exact moves_of_readSession ‹_›
    · rename_i session userId here
      cases taken
      refine .reads n _ ⟨here, fun h => ?_⟩
      simp only [List.mem_map, List.mem_filter, decide_eq_true_eq, Table.find?_eq_some]
      exact exists_congr fun g => by tauto
    · exact moves_of_readGrant ‹_› taken
    · rename_i session userId active here
      cases taken
      cases inserted : (expireGrants w.grants active).insert?
          (w.newGrant settings hashSecret session.id given) with
      | none =>
        simp only [World.complete, inserted]
        exact .reads n _ trivial
      | some grants => exact .completes n session userId active given here grants inserted
    · rename_i session row userId grant checked here
      cases taken
      exact .exchanges n session row userId grant checked here
    · cases taken

end Steps

section Commits

variable {settings : Settings} {hashSecret : String → String} {w : World} {n : ℕ}
  {s : LoginSession} {userId : Uuid} {active : List String} {raw grant : String}
  {grants : Table LoginGrant.grantHash} {row : LoginGrant} {checked : ℤ}

theorem complete_eq (inserted : (expireGrants w.grants active).insert?
      (w.newGrant settings hashSecret s.id raw) = some grants) :
    w.complete n settings hashSecret s userId active raw =
      { w with
        grants
        sessions := w.sessions.modify s.id (completeSession w.now s userId) fun _ => rfl
        completions := ⟨s.id, userId, hashSecret raw, w.now⟩ :: w.completions }.call n
          (.redirected s.redirectScheme s.id raw) := by
  simp only [World.complete, inserted]

theorem find?_completed (inserted : (expireGrants w.grants active).insert?
      (w.newGrant settings hashSecret s.id raw) = some grants) (h : String) :
    grants.find? h = if h = hashSecret raw then some (w.newGrant settings hashSecret s.id raw)
      else (w.grants.find? h).map fun g =>
        if g.grantHash ∈ active then { g with status := .expired } else g := by
  rw [Table.find?_insert inserted, expireGrants, Table.find?_rewrite]
  rfl

theorem sessions_exchange (id : Uuid) :
    (w.exchange n s row userId grant checked).sessions.find? id =
      if id = s.id then (w.sessions.find? s.id).map exchangeSession else w.sessions.find? id :=
  Table.find?_modify w.sessions s.id exchangeSession (fun _ => rfl) id

theorem grants_exchange (h : String) :
    (w.exchange n s row userId grant checked).grants.find? h =
      if h = row.grantHash then (w.grants.find? row.grantHash).map (consumeGrant w.now)
      else w.grants.find? h :=
  Table.find?_modify w.grants row.grantHash (consumeGrant w.now) (fun _ => rfl) h

end Commits

namespace World

def CompletedBy (w : World) (sessionId : Uuid) (user : Option Uuid) : Prop :=
  ∀ userId, user = some userId →
    ∃ c ∈ w.completions, c.sessionId = sessionId ∧ c.userId = userId

/-- Who is handed tokens for a session has completed it, and what was presented is a grant of some
completion of the session, no older than grants get. -/
def Rightful (settings : Settings) (hashSecret : String → String) (w : World) (e : Handing) :
    Prop :=
  w.CompletedBy e.sessionId (some e.userId) ∧
    ∃ c ∈ w.completions, c.sessionId = e.sessionId ∧ c.grantHash = hashSecret e.grant ∧
      e.checked ≤ c.completedAt + settings.grantTtl

def Safe (settings : Settings) (hashSecret : String → String) (w : World) : Call → Prop
  | .holding s _ | .completing s _ _ => w.CompletedBy s.id s.userId
  | .exchanging s _ userId grant checked =>
      w.Rightful settings hashSecret ⟨s.id, userId, grant, checked⟩
  | _ => True

structure Sound (settings : Settings) (hashSecret : String → String) (w : World) : Prop where
  sessions : ∀ id s, w.sessions.find? id = some s → w.CompletedBy id s.userId
  grants : ∀ h g, w.grants.find? h = some g → ∃ c ∈ w.completions,
    c.sessionId = g.sessionId ∧ c.grantHash = h ∧ g.expiresAt = c.completedAt + settings.grantTtl
  calls : ∀ n, w.Safe settings hashSecret (w.calls n)
  handed : ∀ e ∈ w.handed, w.Rightful settings hashSecret e

end World

section Safety

variable {settings : Settings} {hashSecret : String → String} {w t : World}

theorem World.CompletedBy.mono {sessionId : Uuid} {user : Option Uuid}
    (more : w.completions ⊆ t.completions) (held : w.CompletedBy sessionId user) :
    t.CompletedBy sessionId user := by
  intro userId same
  obtain ⟨c, mem, rest⟩ := held userId same
  exact ⟨c, more mem, rest⟩

theorem World.Rightful.mono {e : Handing} (more : w.completions ⊆ t.completions)
    (held : w.Rightful settings hashSecret e) : t.Rightful settings hashSecret e := by
  obtain ⟨completed, c, mem, rest⟩ := held
  exact ⟨completed.mono more, c, more mem, rest⟩

theorem World.Safe.mono {c : Call} (more : w.completions ⊆ t.completions)
    (held : w.Safe settings hashSecret c) : t.Safe settings hashSecret c := by
  cases c with
  | holding | completing => exact World.CompletedBy.mono more held
  | exchanging => exact World.Rightful.mono more held
  | _ => trivial

theorem World.Sound.safe_of_reads (sound : w.Sound settings hashSecret) {n : ℕ} {c : Call}
    (knows : Reads hashSecret w (w.calls n) c) : w.Safe settings hashSecret c := by
  have before := sound.calls n
  cases c with
  | holding s request => exact sound.sessions s.id s knows.2.1
  | completing s userId active =>
    rw [knows.1] at before
    exact before
  | exchanging s row userId grant checked =>
    obtain ⟨same, found, own, -, early, user⟩ := knows
    rw [same] at before
    obtain ⟨c, mem, about, hash, expiresAt⟩ := sound.grants _ row found
    refine ⟨fun u named => before u (user.trans named), c, mem, about.trans own, hash, ?_⟩
    exact expiresAt ▸ early
  | _ => trivial

/-- One call goes on, and the others know what they knew. -/
theorem safe_update (sound : w.Sound settings hashSecret) (more : w.completions ⊆ t.completions)
    {n : ℕ} {c : Call} (new : t.Safe settings hashSecret c) (m : ℕ) :
    t.Safe settings hashSecret (Function.update w.calls n c m) := by
  by_cases same : m = n
  · rw [same, Function.update_self]
    exact new
  · rw [Function.update_of_ne same]
    exact (sound.calls m).mono more

theorem World.Sound.completes (sound : w.Sound settings hashSecret) {n : ℕ} {s : LoginSession}
    {userId : Uuid} {active : List String} {raw : String} {grants : Table LoginGrant.grantHash}
    (inserted : (expireGrants w.grants active).insert? (w.newGrant settings hashSecret s.id raw) =
      some grants) :
    (w.complete n settings hashSecret s userId active raw).Sound settings hashSecret := by
  have more : w.completions ⊆ ⟨s.id, userId, hashSecret raw, w.now⟩ :: w.completions :=
    List.subset_cons_self ..
  rw [complete_eq inserted]
  refine ⟨fun id row found => ?_, fun h g found => ?_, safe_update sound more trivial,
    fun e mem => (sound.handed e mem).mono more⟩
  · have found := (Table.find?_modify w.sessions s.id (completeSession w.now s userId)
      (fun _ => rfl) id).symm.trans found
    split at found
    · rename_i same
      obtain ⟨old, there, rfl⟩ := Option.map_eq_some_iff.mp found
      intro u named
      simp only [completeSession, written] at named
      split at named
      · exact (sound.sessions id old (same ▸ there)).mono more u named
      · exact ⟨_, List.mem_cons_self, same.symm, Option.some.inj named⟩
    · exact (sound.sessions id row found).mono more
  · have found := (find?_completed inserted h).symm.trans found
    split at found
    · rename_i same
      cases found
      exact ⟨_, List.mem_cons_self, rfl, same.symm, rfl⟩
    · obtain ⟨old, there, rfl⟩ := Option.map_eq_some_iff.mp found
      obtain ⟨c, mem, about, hash, expiresAt⟩ := sound.grants h old there
      refine ⟨c, more mem, ?_⟩
      split
      · exact ⟨about, hash, expiresAt⟩
      · exact ⟨about, hash, expiresAt⟩

theorem World.Sound.exchanges (sound : w.Sound settings hashSecret) {n : ℕ} {s : LoginSession}
    {row : LoginGrant} {userId : Uuid} {grant : String} {checked : ℤ}
    (here : w.calls n = .exchanging s row userId grant checked) :
    (w.exchange n s row userId grant checked).Sound settings hashSecret := by
  have known := sound.calls n
  rw [here] at known
  refine ⟨fun id r found => ?_, fun h g found => ?_,
    safe_update sound (List.Subset.refl _) trivial, List.forall_mem_cons.mpr ⟨known, sound.handed⟩⟩
  · rw [sessions_exchange] at found
    split at found
    · rename_i same
      obtain ⟨old, there, rfl⟩ := Option.map_eq_some_iff.mp found
      exact sound.sessions id old (same ▸ there)
    · exact sound.sessions id r found
  · rw [grants_exchange] at found
    split at found
    · rename_i same
      obtain ⟨old, there, rfl⟩ := Option.map_eq_some_iff.mp found
      exact sound.grants h old (same ▸ there)
    · exact sound.grants h g found

theorem World.Sound.moves (sound : w.Sound settings hashSecret)
    (moves : Moves settings hashSecret w t) : t.Sound settings hashSecret := by
  cases moves with
  | passes => exact ⟨sound.sessions, sound.grants, sound.calls, sound.handed⟩
  | starts session sessions inserted new =>
    refine ⟨fun id s found => ?_, sound.grants, sound.calls, sound.handed⟩
    rw [Table.find?_insert inserted] at found
    split at found
    · cases found
      intro u named
      rw [new] at named
      cases named
    · exact sound.sessions id s found
  | reads n c knows =>
    exact ⟨sound.sessions, sound.grants,
      safe_update sound (List.Subset.refl _) (sound.safe_of_reads knows), sound.handed⟩
  | completes n session userId active raw here grants inserted => exact sound.completes inserted
  | exchanges n session row userId grant checked here => exact sound.exchanges here

theorem World.Sound.step (sound : w.Sound settings hashSecret) {a : Action}
    (taken : DesktopLogin.step settings hashSecret w a = some t) : t.Sound settings hashSecret := by
  rcases step_cases taken with ⟨n, sessionId, request, -, rfl⟩ | moves
  · exact ⟨sound.sessions, sound.grants, safe_update sound (List.Subset.refl _) trivial, sound.handed⟩
  · exact sound.moves moves

/-- Whatever the interleaving, tokens for a session are handed to nobody who has not completed it,
and not without a grant of the session that some completion has just made. -/
theorem tokens_rightful {now : ℤ} {users : List Uuid} {actions : List Action}
    (reached : run (step settings hashSecret) { now, users } actions = some w) :
    ∀ e ∈ w.handed, w.Rightful settings hashSecret e := by
  have start : World.Sound settings hashSecret { now, users } := by
    refine ⟨fun id s found => ?_, fun h g found => ?_, fun n => trivial, fun e mem => ?_⟩
    · cases found
    · cases found
    · cases mem
  exact (run_preserves (fun sound taken => sound.step taken) start reached).handed

def device : Uuid := .repeated 7

def alice : Uuid := .repeated 1

def bob : Uuid := .repeated 2

def completion (n : ℕ) (userId : Uuid) (secret : String) : List Action :=
  [.request n device (.complete userId), .execute n "", .execute n "", .execute n secret]

/-- The second user completes the session while a request that has read it goes on: the grant that
she is given is exchanged for the tokens of the first. -/
def crossed : List Action :=
  .startSession device none none :: completion 0 alice "first" ++
    [.request 1 device (.exchange "second"), .execute 1 ""] ++ completion 2 bob "second" ++
      [.execute 1 "second", .execute 1 ""]

theorem tokens_rightful_crossed : ∃ w,
    run (step {} id) { now := 0, users := [alice, bob] } crossed = some w ∧
      w.handed.map Handing.userId = [alice] ∧ ∀ e ∈ w.handed, w.Rightful {} id e := by
  have ended : (run (step {} id) { now := 0, users := [alice, bob] } crossed).map
      (fun w => w.handed.map Handing.userId) = some [alice] := by decide +kernel
  obtain ⟨w, reached, users⟩ := Option.map_eq_some_iff.mp ended
  exact ⟨w, reached, users, tokens_rightful reached⟩

end Safety

end Deeting.Auth.DesktopLogin
