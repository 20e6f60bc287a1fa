import Deeting.Decimal
import Deeting.Transition
import Mathlib.Logic.Function.Basic

/-! `SignatureVerifyStep` over the requests of a gateway with Redis and one clock. A
request stops between its timestamp check, its nonce and its signature check, where the
others go on. A parameter that may be missing is empty when its readers do not tell the
two apart. -/
namespace Deeting.Signature
open Decimal Transition

def signatureWindowSeconds : ℕ := 300
def signatureFailThreshold : ℕ := 5
def signatureFailWindowSeconds : ℕ := 900

/-- The `signature_verify` parameters of a context, with its channel and tenant. -/
structure Request where
  isExternal : Bool
  timestamp : Option String
  nonce : String
  signature : Option String
  apiKey : String
  apiSecret : String
  tenantId : String

structure ApiPrincipal where
  apiKeyId : String
  tenantId : String
  secretHash : String
  isWhitelist : Bool
  rateLimitRpm : Option ℕ
  rateLimitTpm : Option ℕ

inductive SignatureError where
  | missingParameters
  | missingTimestamp
  | invalidTimestamp
  | expired (diff : ℕ)
  | nonceUsed
  | inactiveKey
  | tenantBanned
  | notAllowed
  | secretRequired
  | invalidSecret
  | uncomparable (signature : Option String)
  | frozen
  | mismatch (failures : ℕ)

def SignatureError.message : SignatureError → String
  | .missingParameters => "Missing required signature parameters"
  | .missingTimestamp => "Missing timestamp"
  | .invalidTimestamp => "Invalid timestamp format"
  | .expired diff => s!"Timestamp expired: diff={diff}s, window={signatureWindowSeconds}s"
  | .nonceUsed => "Nonce already used"
  | .inactiveKey => "Invalid or inactive API key"
  | .tenantBanned => "Tenant is banned"
  | .notAllowed => "Client IP/host not allowed"
  | .secretRequired => "API secret required"
  | .invalidSecret => "Invalid API secret"
  | .uncomparable none =>
      "unsupported operand types(s) or combination of types: 'str' and 'NoneType'"
  | .uncomparable (some _) => "comparing strings with non-ASCII characters is not supported"
  | .frozen => "Signature mismatch, API key frozen"
  | .mismatch failures => s!"Signature mismatch (failures={failures})"

/-- The functions of the runtime the step calls: `int` of a string, HMAC-SHA256 of a key
and a message in hex, and the hash a secret is stored under. -/
structure Primitives where
  int : String → Option ℤ
  hmacHex : String → String → String
  keyHash : String → String

/-- What `validate_key`, the cached lists of other code, the ban list and `check_ip`
answer while a signature is checked. -/
structure Answers where
  principal : Option ApiPrincipal
  listed : Bool
  banned : Bool
  ipAllowed : Bool

structure Guards where
  failures : String → Option (ℕ × ℚ)
  frozen : String → Option ℚ

def live (now : ℚ) (expireAt : Option ℚ) : Bool :=
  expireAt.any (now < ·)

namespace Request

def tuple (r : Request) : String × Option String × String × Option String :=
  (r.apiKey, r.timestamp, r.nonce, r.signature)

/-- `CacheKeys.nonce`. -/
def nonceKey (r : Request) : String :=
  "gw:nonce:" ++ (if r.tenantId = "" then "anonymous" else r.tenantId) ++ ":" ++ r.nonce

/-- `all([timestamp, signature, api_key])`. -/
def complete (r : Request) : Bool :=
  r.timestamp.any (· ≠ "") && r.signature.any (· ≠ "") && r.apiKey ≠ ""

end Request

namespace Primitives

variable (p : Primitives)

def verifyTimestamp (now : ℚ) (timestamp : Option String) : Except SignatureError ℕ :=
  match timestamp with
  | none => .error .missingTimestamp
  | some text =>
    match p.int text with
    | none => .error .invalidTimestamp
    | some ts =>
      let diff := (truncate now - ts).natAbs
      if signatureWindowSeconds < diff then .error (.expired diff) else .ok diff

/-- `execute` up to the nonce. -/
def beforeNonce (now : ℚ) (r : Request) : Except SignatureError ℕ :=
  if r.isExternal ∧ ¬ r.complete then .error .missingParameters
  else p.verifyTimestamp now r.timestamp

/-- `INCR` with an `EXPIRE` on the first failure, and the freeze at the threshold. -/
def recordSignatureFailure (now : ℚ) (id : String) (guards : Guards) :
    SignatureError × Guards :=
  let (count, expireAt) :=
    match guards.failures id with
    | some (count, expireAt) =>
        if now < expireAt then (count + 1, expireAt) else (1, now + signatureFailWindowSeconds)
    | none => (1, now + signatureFailWindowSeconds)
  let counted := { guards with
    failures := Function.update guards.failures id (some (count, expireAt)) }
  if signatureFailThreshold ≤ count then
    (.frozen, { counted with
      frozen := Function.update guards.frozen id (some (now + signatureFailWindowSeconds)) })
  else (.mismatch count, counted)

def resetSignatureFailure (id : String) (guards : Guards) : Guards :=
  { guards with failures := Function.update guards.failures id none }

def message (r : Request) : String :=
  r.apiKey ++ r.timestamp.getD "None" ++ r.nonce

def signingKey (r : Request) (principal : ApiPrincipal) : Except SignatureError String :=
  if principal.secretHash ≠ "" then
    if r.apiSecret = "" then .error .secretRequired
    else if p.keyHash r.apiSecret ≠ principal.secretHash then .error .invalidSecret
    else .ok r.apiSecret
  else .ok (if r.apiSecret = "" then r.apiKey else r.apiSecret)

/-- `hmac.compare_digest` raises on a missing or a non-ASCII text. -/
def comparable (signature : Option String) : Bool :=
  signature.any fun text => text.toList.all fun c => c.toNat < 128

def verifySignature (now : ℚ) (answers : Answers) (r : Request) (guards : Guards) :
    Except SignatureError ApiPrincipal × Guards :=
  match answers.principal with
  | none => (.error .inactiveKey, guards)
  | some principal =>
    if answers.listed ∨ live now (guards.frozen principal.apiKeyId) then
      (.error .inactiveKey, guards)
    else if principal.tenantId ≠ "" ∧ answers.banned then (.error .tenantBanned, guards)
    else if ¬ answers.ipAllowed then (.error .notAllowed, guards)
    else
      match p.signingKey r principal with
      | .error e => (.error e, guards)
      | .ok key =>
        if ¬ comparable r.signature then (.error (.uncomparable r.signature), guards)
        else if r.signature = some (p.hmacHex key (message r)) then
          (.ok principal, resetSignatureFailure principal.apiKeyId guards)
        else
          let (e, guards) := recordSignatureFailure now principal.apiKeyId guards
          (.error e, guards)

end Primitives

inductive Phase where
  | checked
  | burned
  | accepted (principal : ApiPrincipal)
  | rejected (e : SignatureError)

def Phase.passed : Phase → Bool
  | .burned | .accepted _ => true
  | .checked | .rejected _ => false

/-- Redis with its clock, and the requests by number. A stored nonce is the time it
expires at. -/
structure Gateway where
  now : ℚ
  nonces : String → Option ℚ
  guards : Guards
  requests : ℕ → Option (Request × Phase)

inductive Action where
  | tick (later : ℚ)
  | arrive (n : ℕ) (r : Request)
  | burn (n : ℕ)
  | verify (n : ℕ) (answers : Answers)

namespace Gateway

def moved (g : Gateway) (n : ℕ) (r : Request) (phase : Phase) : Gateway :=
  { g with requests := Function.update g.requests n (some (r, phase)) }

/-- `_verify_nonce`: `SET NX EX`, unless there is no nonce. -/
def verifyNonce (g : Gateway) (n : ℕ) (r : Request) : Gateway :=
  if r.nonce = "" then g.moved n r .burned
  else if live g.now (g.nonces r.nonceKey) then g.moved n r (.rejected .nonceUsed)
  else { g.moved n r .burned with
    nonces := Function.update g.nonces r.nonceKey (some (g.now + signatureWindowSeconds)) }

end Gateway

def step (p : Primitives) (g : Gateway) : Action → Option Gateway
  | .tick later => if g.now ≤ later then some { g with now := later } else none
  | .arrive n r =>
    match g.requests n with
    | none =>
      match p.beforeNonce g.now r with
      | .error e => some (g.moved n r (.rejected e))
      | .ok _ => some (g.moved n r .checked)
    | some _ => none
  | .burn n =>
    match g.requests n with
    | some (r, .checked) => some (g.verifyNonce n r)
    | _ => none
  | .verify n answers =>
    match g.requests n with
    | some (r, .burned) =>
      match p.verifySignature g.now answers r g.guards with
      | (.error e, guards) => some { g.moved n r (.rejected e) with guards }
      | (.ok principal, guards) => some { g.moved n r (.accepted principal) with guards }
    | _ => none

namespace Gateway

def Fresh (g : Gateway) : Prop := ∀ n, g.requests n = none

/-- No request tuple with a nonce has been accepted twice. -/
def ReplayFree (g : Gateway) : Prop :=
  ∀ n m r q principal principal', g.requests n = some (r, .accepted principal) →
    g.requests m = some (q, .accepted principal') → q.tuple = r.tuple → r.nonce ≠ "" → n = m

/-- A nonce is stored late enough to outlive the window of its timestamp and before the
window ends, and the tuple has come under no other nonce key. -/
def Covered (p : Primitives) (g : Gateway) : Action → Prop
  | .burn n => ∀ r, g.requests n = some (r, .checked) → r.nonce ≠ "" →
      (∀ ts, r.timestamp.bind p.int = some ts →
        ts + 1 ≤ g.now ∧ g.now < ts + signatureWindowSeconds + 1) ∧
      ∀ m q phase, g.requests m = some (q, phase) → q.tuple = r.tuple → q.nonceKey = r.nonceKey
  | _ => True

def Passed (g : Gateway) (n : ℕ) (r : Request) : Prop :=
  ∃ phase, g.requests n = some (r, phase) ∧ phase.passed = true

end Gateway

section Replay
variable {p : Primitives} {g t : Gateway} {n : ℕ} {r : Request} {phase : Phase}

theorem Request.nonce_eq_of_tuple {q r : Request} (same : q.tuple = r.tuple) :
    q.nonce = r.nonce :=
  congrArg (fun tuple => tuple.2.2.1) same

theorem Request.timestamp_eq_of_tuple {q r : Request} (same : q.tuple = r.tuple) :
    q.timestamp = r.timestamp :=
  congrArg (fun tuple => tuple.2.1) same

theorem Primitives.stamp_of_beforeNonce {now : ℚ} {drift : ℕ} (admitted : p.beforeNonce now r = .ok drift) :
    ∃ ts, r.timestamp.bind p.int = some ts := by
  rw [Primitives.beforeNonce] at admitted
  split at admitted
  · cases admitted
  cases given : r.timestamp with
  | none => simp [Primitives.verifyTimestamp, given] at admitted
  | some text =>
    cases read : p.int text with
    | none => simp [Primitives.verifyTimestamp, given, read] at admitted
    | some ts => exact ⟨ts, read⟩

namespace Gateway

@[simp] theorem moved_self : (g.moved n r phase).requests n = some (r, phase) := by
  simp [moved]

theorem moved_of_ne {m : ℕ} (other : m ≠ n) :
    (g.moved n r phase).requests m = g.requests m := by
  simp [moved, other]

theorem passed_moved {m : ℕ} {q : Request} (passed : (g.moved n r phase).Passed m q) :
    (m = n ∧ q = r ∧ phase.passed = true) ∨ (m ≠ n ∧ g.Passed m q) := by
  obtain ⟨after, found, passed⟩ := passed
  by_cases same : m = n
  · subst same
    rw [moved_self, Option.some.injEq, Prod.mk.injEq] at found
    obtain ⟨rfl, rfl⟩ := found
    exact .inl ⟨rfl, rfl, passed⟩
  · rw [moved_of_ne same] at found
    exact .inr ⟨same, after, found, passed⟩

/-- The nonce of a request behind the nonce check stays stored to the end of the window
of its timestamp, so no second request of the tuple came behind it. -/
structure Guarded (p : Primitives) (g : Gateway) : Prop where
  stamped : ∀ n r, g.requests n = some (r, .checked) → ∃ ts, r.timestamp.bind p.int = some ts
  stored : ∀ n r, g.Passed n r → r.nonce ≠ "" → ∃ ts expireAt,
    r.timestamp.bind p.int = some ts ∧ g.nonces r.nonceKey = some expireAt ∧
    ts + signatureWindowSeconds + 1 ≤ expireAt
  single : ∀ n m r q, g.Passed n r → g.Passed m q → q.tuple = r.tuple → r.nonce ≠ "" → n = m

theorem guarded_of_fresh (fresh : g.Fresh) : Guarded p g := by
  have none_passed {n : ℕ} {r : Request} : ¬ g.Passed n r := by
    rintro ⟨phase, found, _⟩
    rw [fresh n] at found
    cases found
  constructor
  · intro n r found
    rw [fresh n] at found
    cases found
  · intro n r passed
    exact absurd passed none_passed
  · intro n m r q passed
    exact absurd passed none_passed

theorem Guarded.moved (guarded : Guarded p g)
    (stamped : phase = .checked → ∃ ts, r.timestamp.bind p.int = some ts)
    (behind : phase.passed = true → g.Passed n r) : Guarded p (g.moved n r phase) := by
  have before {m : ℕ} {q : Request} (passed : (g.moved n r phase).Passed m q) :
      g.Passed m q := by
    obtain ⟨rfl, rfl, ahead⟩ | ⟨_, earlier⟩ := passed_moved passed
    · exact behind ahead
    · exact earlier
  constructor
  · intro m q found
    by_cases same : m = n
    · subst same
      rw [moved_self, Option.some.injEq, Prod.mk.injEq] at found
      obtain ⟨rfl, checked⟩ := found
      exact stamped checked
    · rw [moved_of_ne same] at found
      exact guarded.stamped m q found
  · intro m q passed
    exact guarded.stored m q (before passed)
  · intro m k q q' first second
    exact guarded.single m k q q' (before first) (before second)

theorem Guarded.without_nonce (guarded : Guarded p g) (missing : r.nonce = "") :
    Guarded p (g.moved n r .burned) := by
  constructor
  · intro m q found
    by_cases same : m = n
    · subst same
      rw [moved_self] at found
      cases found
    · rw [moved_of_ne same] at found
      exact guarded.stamped m q found
  · intro m q passed given
    obtain ⟨_, rfl, _⟩ | ⟨_, earlier⟩ := passed_moved passed
    · exact absurd missing given
    · exact guarded.stored m q earlier given
  · intro m k q q' first second same given
    obtain ⟨_, rfl, _⟩ | ⟨_, earlier⟩ := passed_moved first
    · exact absurd missing given
    obtain ⟨_, rfl, _⟩ | ⟨_, too⟩ := passed_moved second
    · rw [← Request.nonce_eq_of_tuple same] at given
      exact absurd missing given
    · exact guarded.single m k q q' earlier too same given

theorem Guarded.stores (guarded : Guarded p g) (found : g.requests n = some (r, .checked))
    (given : r.nonce ≠ "") (free : live g.now (g.nonces r.nonceKey) = false)
    (covered : Covered p g (.burn n)) :
    Guarded p { g.moved n r .burned with
      nonces := Function.update g.nonces r.nonceKey
        (some (g.now + signatureWindowSeconds)) } := by
  obtain ⟨ts, stamp⟩ := guarded.stamped n r found
  obtain ⟨timely, alone⟩ := covered r found given
  obtain ⟨late, early⟩ := timely ts stamp
  -- what the nonce key holds has expired, so it covers no timestamp of this window
  have unseen {m : ℕ} {q : Request} (passed : g.Passed m q) : q.tuple ≠ r.tuple := by
    intro same
    have givenToo : q.nonce ≠ "" := Request.nonce_eq_of_tuple same ▸ given
    obtain ⟨ts', expireAt, stamp', stored, lasts⟩ := guarded.stored m q passed givenToo
    obtain ⟨before, at_m, _⟩ := passed
    rw [Request.timestamp_eq_of_tuple same, stamp, Option.some.injEq] at stamp'
    subst stamp'
    rw [alone m q before at_m same] at stored
    simp only [live, stored, Option.any_some, decide_eq_false_iff_not, not_lt] at free
    linarith
  constructor
  · intro m q checked
    by_cases same : m = n
    · subst same
      simp only [moved_self] at checked
      cases checked
    · simp only [moved_of_ne same] at checked
      exact guarded.stamped m q checked
  · intro m q passed givenToo
    obtain ⟨_, rfl, _⟩ | ⟨_, earlier⟩ := passed_moved passed
    · refine ⟨ts, _, stamp, Function.update_self .., ?_⟩
      linarith
    · obtain ⟨ts', expireAt, stamp', stored, lasts⟩ := guarded.stored m q earlier givenToo
      by_cases shared : q.nonceKey = r.nonceKey
      · rw [shared] at stored ⊢
        simp only [live, stored, Option.any_some, decide_eq_false_iff_not, not_lt] at free
        refine ⟨ts', _, stamp', Function.update_self .., ?_⟩
        have window : (0 : ℚ) ≤ signatureWindowSeconds := Nat.cast_nonneg _
        linarith
      · exact ⟨ts', expireAt, stamp', by simpa [shared] using stored, lasts⟩
  · intro m k q q' first second same givenToo
    obtain ⟨rfl, rfl, _⟩ | ⟨_, earlier⟩ := passed_moved first
    · obtain ⟨rfl, _⟩ | ⟨_, too⟩ := passed_moved second
      · rfl
      · exact absurd same (unseen too)
    · obtain ⟨rfl, rfl, _⟩ | ⟨_, too⟩ := passed_moved second
      · exact absurd same.symm (unseen earlier)
      · exact guarded.single m k q q' earlier too same givenToo

theorem Guarded.step (guarded : Guarded p g) {a : Action} (covered : Covered p g a)
    (taken : Signature.step p g a = some t) : Guarded p t := by
  cases a with
  | tick later =>
    simp only [Signature.step] at taken
    split at taken <;> cases taken
    exact ⟨guarded.stamped, guarded.stored, guarded.single⟩
  | arrive n r =>
    simp only [Signature.step] at taken
    split at taken
    · split at taken <;> cases taken
      · apply guarded.moved <;> nofun
      · rename_i admitted
        exact guarded.moved (fun _ => Primitives.stamp_of_beforeNonce admitted) nofun
    · cases taken
  | burn n =>
    simp only [Signature.step] at taken
    split at taken <;> cases taken
    rename_i r found
    rw [verifyNonce]
    split
    · exact guarded.without_nonce ‹_›
    split
    · apply guarded.moved <;> nofun
    · exact guarded.stores found ‹_› (by simpa using ‹¬ _ = true›) covered
  | verify n answers =>
    simp only [Signature.step] at taken
    split at taken
    · rename_i r found
      split at taken <;> cases taken
      · rename_i e guards _
        have left : Guarded p (g.moved n r (.rejected e)) := by apply guarded.moved <;> nofun
        exact ⟨left.stamped, left.stored, left.single⟩
      · rename_i principal guards _
        have passed : Guarded p (g.moved n r (.accepted principal)) :=
          guarded.moved (by nofun) fun _ => ⟨.burned, found, rfl⟩
        exact ⟨passed.stamped, passed.stored, passed.single⟩
    · cases taken

theorem Guarded.replayFree (guarded : Guarded p g) : g.ReplayFree := by
  intro n m r q principal principal' first second
  exact guarded.single n m r q ⟨_, first, rfl⟩ ⟨_, second, rfl⟩

end Gateway
end Replay

/-- The answers under which a signature is right and its key is not barred. -/
structure Genuine (p : Primitives) (r : Request) (answers : Answers)
    (principal : ApiPrincipal) : Prop where
  complete : r.complete = true
  valid : answers.principal = some principal
  unlisted : answers.listed = false
  admitted : answers.banned = false
  allowed : answers.ipAllowed = true
  comparable : Primitives.comparable r.signature = true
  signed : ∃ key, p.signingKey r principal = .ok key ∧
    r.signature = some (p.hmacHex key (Primitives.message r))

section Late
variable {p : Primitives} {g : Gateway} {r : Request} {answers : Answers}
  {principal : ApiPrincipal} {ts : ℤ}

/-- One request after another: `r` is checked, stored and verified at the current time,
and once more at `again`. -/
def replayed (r : Request) (answers : Answers) (again : ℚ) : List Action :=
  [.arrive 0 r, .burn 0, .verify 0 answers, .tick again,
    .arrive 1 r, .burn 1, .verify 1 answers]

theorem Genuine.verifySignature (genuine : Genuine p r answers principal) {guards : Guards}
    {now : ℚ} (unfrozen : guards.frozen principal.apiKeyId = none) :
    p.verifySignature now answers r guards =
      (.ok principal, Primitives.resetSignatureFailure principal.apiKeyId guards) := by
  obtain ⟨key, signing, signed⟩ := genuine.signed
  simp only [Primitives.verifySignature, genuine.valid, genuine.unlisted, genuine.admitted,
    genuine.allowed, unfrozen, live, signing, genuine.comparable]
  simp [signed]

theorem Genuine.beforeNonce (genuine : Genuine p r answers principal)
    (stamp : r.timestamp.bind p.int = some ts) {now : ℚ}
    (near : (truncate now - ts).natAbs ≤ signatureWindowSeconds) :
    p.beforeNonce now r = .ok (truncate now - ts).natAbs := by
  obtain ⟨text, given, read⟩ := Option.bind_eq_some_iff.mp stamp
  simp [Primitives.beforeNonce, genuine.complete, Primitives.verifyTimestamp, given, read,
    Nat.not_lt.mpr near]

def Gateway.afterServing (g : Gateway) (n : ℕ) (r : Request) (principal : ApiPrincipal) :
    Gateway where
  now := g.now
  nonces := Function.update g.nonces r.nonceKey (some (g.now + signatureWindowSeconds))
  guards := Primitives.resetSignatureFailure principal.apiKeyId g.guards
  requests := Function.update g.requests n (some (r, .accepted principal))

theorem Genuine.served (genuine : Genuine p r answers principal)
    (stamp : r.timestamp.bind p.int = some ts)
    (near : (truncate g.now - ts).natAbs ≤ signatureWindowSeconds) (given : r.nonce ≠ "")
    (free : live g.now (g.nonces r.nonceKey) = false)
    (unfrozen : g.guards.frozen principal.apiKeyId = none) {n : ℕ} (unused : g.requests n = none) :
    run (step p) g [.arrive n r, .burn n, .verify n answers] =
      some (g.afterServing n r principal) := by
  have verified : p.verifySignature g.now answers r g.guards =
      (.ok principal, Primitives.resetSignatureFailure principal.apiKeyId g.guards) :=
    genuine.verifySignature unfrozen
  simp [run, step, unused, genuine.beforeNonce stamp near, Gateway.moved, Gateway.verifyNonce, given,
    free, verified, Gateway.afterServing]

theorem Genuine.replayed_accepted (genuine : Genuine p r answers principal)
    (stamp : r.timestamp.bind p.int = some ts) (given : r.nonce ≠ "")
    (near : (truncate g.now - ts).natAbs ≤ signatureWindowSeconds)
    (free : live g.now (g.nonces r.nonceKey) = false)
    (unfrozen : g.guards.frozen principal.apiKeyId = none) (fresh : g.Fresh)
    (started : 0 ≤ g.now) (early : g.now < ts + 1) :
    ∃ t, run (step p) g (replayed r answers (g.now + signatureWindowSeconds)) = some t ∧
      t.requests 0 = some (r, .accepted principal) ∧
      t.requests 1 = some (r, .accepted principal) := by
  have first := genuine.served stamp near given free unfrozen (fresh 0)
  have later : g.now ≤ g.now + signatureWindowSeconds :=
    le_add_of_nonneg_right (Nat.cast_nonneg _)
  have nearStill :
      (truncate (g.now + signatureWindowSeconds) - ts).natAbs ≤ signatureWindowSeconds := by
    rw [truncate_of_nonneg (started.trans later), Int.floor_add_natCast]
    rw [truncate_of_nonneg started] at near
    have below : ⌊g.now⌋ < ts + 1 := Int.floor_lt.mpr (by exact_mod_cast early)
    simp only [signatureWindowSeconds] at near ⊢
    omega
  let expired : Gateway :=
    { g.afterServing 0 r principal with now := g.now + signatureWindowSeconds }
  have second := genuine.served (g := expired) (n := 1) stamp nearStill given
    (by simp [expired, live, Gateway.afterServing]) unfrozen
    (by simp [expired, Gateway.afterServing, fresh 1])
  refine ⟨expired.afterServing 1 r principal, ?_, ?_, ?_⟩
  · rw [show replayed r answers (g.now + signatureWindowSeconds) =
      [.arrive 0 r, .burn 0, .verify 0 answers] ++ .tick (g.now + signatureWindowSeconds) ::
        [.arrive 1 r, .burn 1, .verify 1 answers] from rfl,
      run_append, first, Option.bind_some, run_cons_eq_some]
    exact ⟨expired, if_pos later, second⟩
  · simp [expired, Gateway.afterServing]
  · simp [Gateway.afterServing]

end Late

/-- A nonce accepted inside the window of its timestamp is never accepted again. A
timestamp ahead of the clock leaves a remainder of the window uncovered, and there the
request is accepted a second time. -/
theorem accepted_once_when_covered (p : Primitives) (g : Gateway) (fresh : g.Fresh) :
    (∀ actions t, Along (step p) (Gateway.Covered p) g actions →
      run (step p) g actions = some t → t.ReplayFree) ∧
    ∀ r answers principal ts, Genuine p r answers principal →
      r.timestamp.bind p.int = some ts → r.nonce ≠ "" →
      (truncate g.now - ts).natAbs ≤ signatureWindowSeconds →
      live g.now (g.nonces r.nonceKey) = false → g.guards.frozen principal.apiKeyId = none →
      0 ≤ g.now → g.now < ts + 1 →
      ∃ t, run (step p) g (replayed r answers (g.now + signatureWindowSeconds)) = some t ∧
        ¬ t.ReplayFree := by
  constructor
  · intro actions t covered reached
    have guarded : Gateway.Guarded p t :=
      run_invariant (fun held covered taken => held.step covered taken)
        (Gateway.guarded_of_fresh fresh) covered reached
    exact guarded.replayFree
  · intro r answers principal ts genuine stamp given near free unfrozen started early
    obtain ⟨t, reached, first, second⟩ :=
      genuine.replayed_accepted stamp given near free unfrozen fresh started early
    refine ⟨t, reached, fun replayFree => ?_⟩
    exact Nat.zero_ne_one (replayFree 0 1 r r principal principal first second rfl given)

/-- The two signatures below are HMAC-SHA256 under `sk-1`. -/
def demo : Primitives where
  int text := if text = "1300" then some 1300 else if text = "999" then some 999 else none
  hmacHex _ message :=
    if message = "sk-11300n1" then
      "2416a776cb284274c12e0fede0dc5cc856282905cec1b92d81f84782937ade39"
    else "085ce7f8438f2e2a9c3b28027b8a5d7ad19fce49d9f08baf3aeff5e7da5a5212"
  keyHash secret := secret

def demoRequest (timestamp signature : String) : Request where
  isExternal := true
  timestamp := some timestamp
  nonce := "n1"
  signature := some signature
  apiKey := "sk-1"
  apiSecret := ""
  tenantId := ""

def pastRequest : Request :=
  demoRequest "999" "085ce7f8438f2e2a9c3b28027b8a5d7ad19fce49d9f08baf3aeff5e7da5a5212"

def futureRequest : Request :=
  demoRequest "1300" "2416a776cb284274c12e0fede0dc5cc856282905cec1b92d81f84782937ade39"

def demoPrincipal : ApiPrincipal where
  apiKeyId := "key-1"
  tenantId := "tenant-1"
  secretHash := ""
  isWhitelist := false
  rateLimitRpm := none
  rateLimitTpm := none

def demoAnswers : Answers := ⟨some demoPrincipal, false, false, true⟩

def idleGateway : Gateway := ⟨1000, fun _ => none, ⟨fun _ => none, fun _ => none⟩, fun _ => none⟩

theorem genuine_future : Genuine demo futureRequest demoAnswers demoPrincipal :=
  ⟨by decide, rfl, rfl, rfl, rfl, by decide, "sk-1", rfl, by decide⟩

def served (n : ℕ) : List Action :=
  [.arrive n pastRequest, .burn n, .verify n demoAnswers]

def repeatedInside : List Action :=
  served 0 ++ [.tick 1200, .arrive 1 pastRequest, .burn 1]

def OnlyPast (g : Gateway) : Prop :=
  ∀ m q phase, g.requests m = some (q, phase) → q = pastRequest

theorem OnlyPast.moved {g : Gateway} (only : OnlyPast g) (n : ℕ) (phase : Phase) :
    OnlyPast (g.moved n pastRequest phase) := by
  intro m q phase' found
  by_cases same : m = n
  · subst same
    rw [Gateway.moved_self, Option.some.injEq, Prod.mk.injEq] at found
    exact found.1.symm
  · rw [Gateway.moved_of_ne same] at found
    exact only m q phase' found

theorem OnlyPast.covered {g : Gateway} (only : OnlyPast g) (n : ℕ) (late : 1000 ≤ g.now)
    (early : g.now < 1300) : Gateway.Covered demo g (.burn n) := by
  have stamp : pastRequest.timestamp.bind demo.int = some 999 := rfl
  intro r found _
  obtain rfl := only n r _ found
  constructor
  · intro ts read
    cases stamp.symm.trans read
    norm_num [signatureWindowSeconds]
    exact ⟨late, early⟩
  · intro m q phase other _
    rw [only m q phase other]

theorem past_covered : Along (step demo) (Gateway.Covered demo) idleGateway repeatedInside := by
  have idle : OnlyPast idleGateway := nofun
  have served : OnlyPast (((idleGateway.moved 0 pastRequest .checked).moved 0 pastRequest
      .burned).moved 0 pastRequest (.accepted demoPrincipal)) := ((idle.moved _ _).moved _ _).moved _ _
  refine (along_cons_of_step rfl).mpr ⟨trivial, ?_⟩
  refine (along_cons_of_step rfl).mpr ⟨(idle.moved _ _).covered 0 ?_ ?_, ?_⟩
  · exact le_refl _
  · decide
  refine (along_cons_of_step rfl).mpr ⟨trivial, ?_⟩
  refine (along_cons_of_step rfl).mpr ⟨trivial, ?_⟩
  refine (along_cons_of_step rfl).mpr ⟨trivial, ?_⟩
  refine ⟨OnlyPast.covered ?_ 1 ?_ ?_, fun _ _ => trivial⟩
  · exact fun m q phase found => served.moved 1 .checked m q phase found
  · decide
  · decide

theorem accepted_once_past :
    (∃ t, run (step demo) idleGateway repeatedInside = some t ∧ t.ReplayFree ∧
      t.requests 0 = some (pastRequest, .accepted demoPrincipal) ∧
      t.requests 1 = some (pastRequest, .rejected .nonceUsed)) ∧
    ∃ t, run (step demo) idleGateway (replayed futureRequest demoAnswers 1300) = some t ∧
      ¬ t.ReplayFree := by
  obtain ⟨once, twice⟩ := accepted_once_when_covered demo idleGateway fun _ => rfl
  constructor
  · obtain ⟨t, reached, first, second⟩ : ∃ t, run (step demo) idleGateway repeatedInside = some t ∧
        t.requests 0 = some (pastRequest, .accepted demoPrincipal) ∧
        t.requests 1 = some (pastRequest, .rejected .nonceUsed) :=
      ⟨_, rfl, by with_unfolding_all rfl, by with_unfolding_all rfl⟩
    exact ⟨t, reached, once repeatedInside t past_covered reached, first, second⟩
  · have again := twice futureRequest demoAnswers demoPrincipal 1300 genuine_future rfl
      (by decide) (by decide) rfl rfl (by decide) (by norm_num [idleGateway])
    rwa [show idleGateway.now + signatureWindowSeconds = (1300 : ℚ) by
      norm_num [idleGateway, signatureWindowSeconds]] at again

/-- The timestamp `1300` is good at `1000`, when its nonce is stored for 300 seconds, and
still at `1300`, when the nonce is gone. -/
theorem future_request_accepted_twice :
    ∃ t, run (step demo) idleGateway (replayed futureRequest demoAnswers 1300) = some t ∧
      ¬ t.ReplayFree ∧ t.requests 0 = some (futureRequest, .accepted demoPrincipal) ∧
      t.requests 1 = some (futureRequest, .accepted demoPrincipal) := by
  obtain ⟨t, reached, first, second⟩ :=
    genuine_future.replayed_accepted (g := idleGateway) rfl (by decide) (by decide)
      rfl rfl (fun _ => rfl) (by decide) (by norm_num [idleGateway])
  rw [show idleGateway.now + signatureWindowSeconds = (1300 : ℚ) by
    norm_num [idleGateway, signatureWindowSeconds]] at reached
  refine ⟨t, reached, fun replayFree => ?_, first, second⟩
  exact Nat.zero_ne_one (replayFree 0 1 _ _ _ _ first second rfl (by decide))

end Deeting.Signature
