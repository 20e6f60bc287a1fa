import Mathlib.Data.Int.Order.Basic
import Mathlib.Logic.Function.Basic
import Deeting.Expiry
import Deeting.Transition

/-! One token of `RuntimeBridgeTokenService`: how it is issued, to Redis or to the memory of
the service, and how calls consume it, from Redis or, where its script gives no answer,
from memory. Each Redis command may fail before or after it has taken effect. Times are
milliseconds. -/
namespace Deeting.CodeMode

open Transition Expiry

structure RuntimeBridgeClaims where
  userId : String
  sessionId : String
  maxCalls : ℤ
  deriving DecidableEq

namespace RuntimeBridgeClaims

variable (claims : RuntimeBridgeClaims)

/-- `max(1, int(claims.max_calls or 1))`. -/
def effectiveCalls : ℤ := max 1 (if claims.maxCalls = 0 then 1 else claims.maxCalls)

def complete : Bool := claims.userId != "" && claims.sessionId != ""

end RuntimeBridgeClaims

inductive Outcome where
  | ok
  | failedBefore
  | failedAfter
  deriving DecidableEq

/-- What a call of `consume_call` returns. -/
inductive Consumed where
  | ok (callIndex : ℕ) (maxCalls : ℤ) (expiresAt : ℤ)
  | refused (errorCode error : String)
  deriving DecidableEq

namespace Consumed

def invalid (error : String) : Consumed := .refused "CODE_MODE_BRIDGE_INVALID_TOKEN" error

def notFound : Consumed := invalid "execution token not found"

def incomplete : Consumed := invalid "execution token claims are incomplete"

def expired : Consumed := .refused "CODE_MODE_BRIDGE_TOKEN_EXPIRED" "execution token expired"

def callLimit (maxCalls : ℤ) : Consumed :=
  .refused "CODE_MODE_BRIDGE_CALL_LIMIT"
    ("runtime bridge call limit exceeded (" ++ toString maxCalls ++ ")")

end Consumed

/-- How far a call has come, with the time it was made at: the script sent, no answer from
Redis, the clock read, the payload found expired or counted up. -/
inductive Call where
  | idle
  | started (madeAt : ℤ)
  | fallback (madeAt : ℤ)
  | looking (madeAt now : ℤ)
  | expired
  | counted (result : Consumed)
  | returned (result : Consumed)
  deriving DecidableEq

structure Grant where
  callIndex : ℕ
  madeAt : ℤ
  deriving DecidableEq

/-- The two stores and the calls. The hash and the payload are their `used_calls`; the
payload outlives its place in the dict with the calls that have found it. The last four
fields are for the statements: the grants, how many came from each store, and how many
counts of the script were for an answer that was lost. -/
structure World where
  now : ℤ
  hash : Option (Entry ℤ ℕ)
  payload : ℕ
  present : Bool
  calls : ℕ → Call
  granted : List Grant
  fromRedis : ℕ
  fromMemory : ℕ
  lost : ℕ

/-- A token: its claims, its lifetime in seconds and the time its expiry was computed at. -/
structure Token where
  claims : RuntimeBridgeClaims
  ttlSeconds : ℤ
  issuedAt : ℤ

/-- `max(1, int(ttl_seconds or 1))`. -/
def Token.ttl (token : Token) : ℤ := max 1 (if token.ttlSeconds = 0 then 1 else token.ttlSeconds)

def Token.expiresAt (token : Token) : ℤ := token.issuedAt + 1000 * token.ttl

/-- The end of `issue_token`, with `delay` between the expiry and `EXPIRE`; without a client
`HSET` fails before. What is not known to be stored is also stored in memory. -/
def Token.issue (token : Token) (delay : ℕ) (hset expire : Outcome) : World :=
  let now := token.issuedAt + delay
  let hash :=
    match hset, expire with
    | .failedBefore, _ => none
    | .failedAfter, _ | .ok, .failedBefore => some ⟨0, none⟩
    | .ok, .ok | .ok, .failedAfter => some ⟨0, some (now + 1000 * token.ttl)⟩
  { now, hash, payload := 0, present := !(hset = .ok && expire = .ok)
    calls := fun _ => .idle, granted := [], fromRedis := 0, fromMemory := 0, lost := 0 }

inductive Action where
  | tick (ms : ℕ)
  | consume (n : ℕ)
  | evalsha (n : ℕ) (outcome : Outcome)
  | look (n : ℕ)
  | take (n : ℕ)
  | settle (n : ℕ)
  | prune

/-- `TTL` in whole seconds; negative without a deadline. -/
def ttlReply (now : ℤ) (hash : Entry ℤ ℕ) : ℤ :=
  match hash.deadline with
  | none => -1
  | some deadline => (deadline - now + 500) / 1000

namespace World

def call (w : World) (n : ℕ) (c : Call) : World :=
  { w with calls := Function.update w.calls n c }

/-- What `_consume_call_redis` makes of the script's reply; a token that is not found has
no claims to show. -/
def answer (token : Token) (w : World) : Consumed :=
  let claims := token.claims
  match live w.now w.hash with
  | none => .incomplete
  | some hash =>
    if !claims.complete then .incomplete
    else if claims.effectiveCalls ≤ hash.value then .callLimit claims.effectiveCalls
    else
      .ok hash.value claims.effectiveCalls (w.now + 1000 * max 0 (ttlReply w.now hash))

def counted (token : Token) (w : World) : Option (Entry ℤ ℕ) :=
  match live w.now w.hash with
  | none => w.hash
  | some hash =>
    if token.claims.effectiveCalls ≤ hash.value then w.hash
    else some { hash with value := hash.value + 1 }

def grant (w : World) (callIndex : ℕ) (madeAt : ℤ) : World :=
  { w with granted := w.granted ++ [⟨callIndex, madeAt⟩] }

def takeAnswer (w : World) (madeAt : ℤ) : Consumed → World
  | .ok callIndex _ _ => { w.grant callIndex madeAt with fromRedis := w.fromRedis + 1 }
  | .refused _ _ => w

def loseAnswer (w : World) : Consumed → World
  | .ok _ _ _ => { w with lost := w.lost + 1 }
  | .refused _ _ => w

def evalsha (token : Token) (w : World) (n : ℕ) (madeAt : ℤ) : Outcome → World
  | .ok =>
    { w with hash := w.counted token }.takeAnswer madeAt (w.answer token)
      |>.call n (.returned (w.answer token))
  | .failedBefore => w.call n (.fallback madeAt)
  | .failedAfter =>
    { w with hash := w.counted token }.loseAnswer (w.answer token) |>.call n (.fallback madeAt)

/-- The payload in the dict, at the time the call has read. -/
def take (token : Token) (w : World) (n : ℕ) (madeAt now : ℤ) : World :=
  let claims := token.claims
  if !w.present then w.call n (.returned .notFound)
  else if token.expiresAt ≤ now then w.call n .expired
  else if claims.effectiveCalls ≤ w.payload then
    w.call n (.returned (.callLimit claims.effectiveCalls))
  else if !claims.complete then
    { w with payload := w.payload + 1 }.call n (.counted .incomplete)
  else
    { w.grant w.payload madeAt with
        payload := w.payload + 1, fromMemory := w.fromMemory + 1 }.call n
      (.counted (.ok w.payload claims.effectiveCalls token.expiresAt))

end World

def step (token : Token) (w : World) : Action → Option World
  | .tick ms => some { w with now := w.now + ms }
  | .consume n =>
    match w.calls n with
    | .idle => some (w.call n (.started w.now))
    | _ => none
  | .evalsha n outcome =>
    match w.calls n with
    | .started madeAt => some (w.evalsha token n madeAt outcome)
    | _ => none
  | .look n =>
    match w.calls n with
    | .fallback madeAt => some (w.call n (.looking madeAt w.now))
    | _ => none
  | .take n =>
    match w.calls n with
    | .looking madeAt now => some (w.take token n madeAt now)
    | _ => none
  | .settle n =>
    match w.calls n with
    | .expired => some ({ w with present := false }.call n (.returned .expired))
    | .counted result => some ({ w with present := true }.call n (.returned result))
    | _ => none
  | .prune => if token.expiresAt ≤ w.now then some { w with present := false } else none

/-- At most `max_calls` grants, their indices the numbers from 0 on, each once, and none to
a call made after the expiry. -/
structure World.Bounded (token : Token) (w : World) : Prop where
  count : w.granted.length ≤ token.claims.maxCalls.toNat
  nodup : (w.granted.map (·.callIndex)).Nodup
  initial : ∀ i, i ∈ w.granted.map (·.callIndex) ↔ i < w.granted.length
  early : ∀ grant ∈ w.granted, grant.madeAt ≤ token.expiresAt

namespace World

def Serves (token : Token) (w : World) : Prop :=
  token.claims.complete = true ∧
    ∃ hash, live w.now w.hash = some hash ∧ hash.value < token.claims.effectiveCalls

def Holds (token : Token) (w : World) (now : ℤ) : Prop :=
  token.claims.complete = true ∧ w.present = true ∧ now < token.expiresAt ∧
    w.payload < token.claims.effectiveCalls

/-- What keeps the token bounded. Redis may grant a call when it has counted as many calls
for lost answers as have been granted from memory, and the call was made before the expiry;
memory may as long as Redis has granted none. A `max_calls` below 1 is raised to 1. -/
def OneStore (token : Token) (w : World) : Action → Prop
  | .evalsha n .ok => ∀ madeAt, w.calls n = .started madeAt → w.Serves token →
      1 ≤ token.claims.maxCalls ∧ w.fromMemory = w.lost ∧ madeAt ≤ token.expiresAt
  | .take n => ∀ madeAt now, w.calls n = .looking madeAt now → w.Holds token now →
      1 ≤ token.claims.maxCalls ∧ w.fromRedis = 0
  | _ => True

structure Tallied (token : Token) (w : World) : Prop where
  redis : token.claims.complete = true → ∀ hash, w.hash = some hash →
    hash.value = w.fromRedis + w.lost
  memory : token.claims.complete = true → w.payload = w.fromMemory
  length : w.granted.length = w.fromRedis + w.fromMemory
  waiting : ∀ n madeAt, w.calls n = .started madeAt ∨ w.calls n = .fallback madeAt →
    madeAt ≤ w.now
  looked : ∀ n madeAt now, w.calls n = .looking madeAt now → madeAt ≤ now

end World

section Grants

variable {token : Token} {w t : World} {callIndex n : ℕ} {madeAt now : ℤ} {c : Call}

open World

/-- A grant keeps the bound exactly when it is the next one, within the number of calls and
before the expiry. -/
theorem bounded_grant (bounded : w.Bounded token) :
    (w.grant callIndex madeAt).Bounded token ↔
      w.granted.length + 1 ≤ token.claims.maxCalls.toNat ∧ callIndex = w.granted.length ∧
        madeAt ≤ token.expiresAt := by
  have granted : (w.grant callIndex madeAt).granted = w.granted ++ [⟨callIndex, madeAt⟩] := rfl
  constructor
  · rintro ⟨count, nodup, initial, early⟩
    rw [granted] at count nodup initial early
    rw [List.length_append, List.length_singleton] at count initial
    refine ⟨count, ?_, early ⟨callIndex, madeAt⟩ (by simp)⟩
    have below : callIndex < w.granted.length + 1 := (initial callIndex).mp (by simp)
    rw [List.map_append, List.nodup_append] at nodup
    have fresh : callIndex ∉ w.granted.map (·.callIndex) := fun mem =>
      nodup.2.2 callIndex mem callIndex (by simp) rfl
    rw [bounded.initial] at fresh
    omega
  · rintro ⟨count, rfl, early⟩
    have fresh : w.granted.length ∉ w.granted.map (·.callIndex) := by
      rw [bounded.initial]
      omega
    constructor
    · simpa only [granted, List.length_append, List.length_singleton] using count
    · rw [granted, List.map_append, List.nodup_append]
      refine ⟨bounded.nodup, by simp, ?_⟩
      intro i mem j last same
      simp only [List.map_cons, List.map_nil, List.mem_singleton] at last
      subst same last
      exact fresh mem
    · intro i
      rw [granted, List.map_append, List.mem_append, bounded.initial, List.length_append]
      simp
      omega
    · rw [granted]
      intro grant mem
      rcases List.mem_append.mp mem with mem | mem
      · exact bounded.early grant mem
      · rw [List.mem_singleton] at mem
        subst mem
        exact early

theorem within_calls (below : (callIndex : ℤ) < token.claims.effectiveCalls) :
    callIndex + 1 ≤ token.claims.maxCalls.toNat ↔ 1 ≤ token.claims.maxCalls := by
  unfold RuntimeBridgeClaims.effectiveCalls at below
  split at below
  · omega
  · omega

theorem bounded_congr (granted : t.granted = w.granted) :
    t.Bounded token ↔ w.Bounded token := by
  constructor
  · rintro ⟨count, nodup, initial, early⟩
    rw [granted] at count nodup initial early
    exact ⟨count, nodup, initial, early⟩
  · rintro ⟨count, nodup, initial, early⟩
    rw [← granted] at count nodup initial early
    exact ⟨count, nodup, initial, early⟩

theorem answer_of_serves (serves : w.Serves token) :
    ∃ hash expiresAt, live w.now w.hash = some hash ∧
      hash.value < token.claims.effectiveCalls ∧
      w.answer token = .ok hash.value token.claims.effectiveCalls expiresAt ∧
      w.counted token = some { hash with value := hash.value + 1 } := by
  obtain ⟨complete, hash, found, below⟩ := serves
  refine ⟨hash, w.now + 1000 * max 0 (ttlReply w.now hash), found, below, ?_, ?_⟩
  · simp [World.answer, found, complete, not_le.mpr below]
  · simp [World.counted, found, not_le.mpr below]

theorem answer_of_not_serves (refuses : ¬ w.Serves token) :
    (∃ errorCode error, w.answer token = .refused errorCode error) ∧
      (token.claims.complete = true → w.counted token = w.hash) := by
  cases found : live w.now w.hash with
  | none =>
    have answer : w.answer token = .incomplete := by simp [World.answer, found]
    exact ⟨⟨_, _, answer⟩, fun _ => by simp [World.counted, found]⟩
  | some hash =>
    cases complete : token.claims.complete with
    | false =>
      have answer : w.answer token = .incomplete := by simp [World.answer, found, complete]
      exact ⟨⟨_, _, answer⟩, nofun⟩
    | true =>
      have used : token.claims.effectiveCalls ≤ hash.value :=
        not_lt.mp fun below => refuses ⟨complete, hash, found, below⟩
      have answer : w.answer token = .callLimit token.claims.effectiveCalls := by
        simp [World.answer, found, complete, used]
      exact ⟨⟨_, _, answer⟩, fun _ => by simp [World.counted, found, used]⟩

end Grants

section Steps

variable {token : Token} {w t : World} {n : ℕ} {madeAt now : ℤ} {c : Call}

open World

theorem World.Tallied.call (tallied : w.Tallied token)
    (waits : ∀ at_, c = .started at_ ∨ c = .fallback at_ → at_ ≤ w.now)
    (looks : ∀ at_ read, c = .looking at_ read → at_ ≤ read) :
    (w.call n c).Tallied token := by
  obtain ⟨redis, memory, length, waiting, looked⟩ := tallied
  refine ⟨redis, memory, length, ?_, ?_⟩
  · intro k at_ called
    by_cases same : k = n
    · subst same
      simp only [World.call, Function.update_self] at called
      exact waits at_ called
    · simp only [World.call, Function.update_of_ne same] at called
      exact waiting k at_ called
  · intro k at_ read called
    by_cases same : k = n
    · subst same
      simp only [World.call, Function.update_self] at called
      exact looks at_ read called
    · simp only [World.call, Function.update_of_ne same] at called
      exact looked k at_ read called

theorem waits_fallback (made : madeAt ≤ now) (at_ : ℤ) :
    Call.fallback madeAt = .started at_ ∨ Call.fallback madeAt = .fallback at_ → at_ ≤ now := by
  rintro (same | same)
  · cases same
  · cases same
    exact made

theorem loseAnswer_now {result : Consumed} : (w.loseAnswer result).now = w.now := by
  cases result <;> rfl

theorem World.Tallied.present (tallied : w.Tallied token) (present : Bool) :
    { w with present }.Tallied token :=
  ⟨tallied.redis, tallied.memory, tallied.length, tallied.waiting, tallied.looked⟩

theorem World.Tallied.refused (tallied : w.Tallied token) (refuses : ¬ w.Serves token) :
    { w with hash := w.counted token }.Tallied token := by
  obtain ⟨-, counted⟩ := answer_of_not_serves refuses
  refine ⟨fun complete later same => ?_, tallied.memory, tallied.length, tallied.waiting,
    tallied.looked⟩
  exact tallied.redis complete later ((counted complete).symm.trans same)

theorem World.Tallied.evalsha (tallied : w.Tallied token) (sent : w.calls n = .started madeAt)
    (outcome : Outcome) : (w.evalsha token n madeAt outcome).Tallied token := by
  have made := tallied.waiting n madeAt (.inl sent)
  cases outcome with
  | failedBefore => exact tallied.call (waits_fallback made) nofun
  | ok =>
    refine World.Tallied.call ?_ nofun nofun
    by_cases serves : w.Serves token
    · obtain ⟨hash, expiresAt, found, -, answer, counted⟩ := answer_of_serves serves
      have stored := (live_eq_some.mp found).1
      rw [answer, counted]
      refine ⟨fun complete later same => ?_, tallied.memory, ?_, tallied.waiting, tallied.looked⟩
      · cases same
        have before := tallied.redis complete hash stored
        change hash.value + 1 = w.fromRedis + 1 + w.lost
        omega
      · change (w.granted ++ [_]).length = w.fromRedis + 1 + w.fromMemory
        rw [List.length_append, tallied.length, List.length_singleton]
        omega
    · obtain ⟨⟨errorCode, error, answer⟩, -⟩ := answer_of_not_serves serves
      rw [answer]
      exact tallied.refused serves
  | failedAfter =>
    refine World.Tallied.call ?_
      (waits_fallback (made.trans_eq (loseAnswer_now (w := { w with hash := w.counted token })).symm))
      nofun
    by_cases serves : w.Serves token
    · obtain ⟨hash, expiresAt, found, -, answer, counted⟩ := answer_of_serves serves
      have stored := (live_eq_some.mp found).1
      rw [answer, counted]
      refine ⟨fun complete later same => ?_, tallied.memory, tallied.length, tallied.waiting,
        tallied.looked⟩
      cases same
      have before := tallied.redis complete hash stored
      change hash.value + 1 = w.fromRedis + (w.lost + 1)
      omega
    · obtain ⟨⟨errorCode, error, answer⟩, -⟩ := answer_of_not_serves serves
      rw [answer]
      exact tallied.refused serves

theorem World.Tallied.take (tallied : w.Tallied token) :
    (w.take token n madeAt now).Tallied token := by
  unfold World.take
  simp only
  split
  · exact tallied.call nofun nofun
  split
  · exact tallied.call nofun nofun
  split
  · exact tallied.call nofun nofun
  split
  · rename_i incomplete
    refine World.Tallied.call ?_ nofun nofun
    refine ⟨tallied.redis, fun complete => ?_, tallied.length, tallied.waiting, tallied.looked⟩
    simp [complete] at incomplete
  · refine World.Tallied.call ?_ nofun nofun
    refine ⟨tallied.redis, fun complete => ?_, ?_, tallied.waiting, tallied.looked⟩
    · exact congrArg (· + 1) (tallied.memory complete)
    · change (w.granted ++ [_]).length = w.fromRedis + (w.fromMemory + 1)
      rw [List.length_append, tallied.length, List.length_singleton]
      omega

theorem World.Tallied.step {a : Action} (tallied : w.Tallied token)
    (taken : step token w a = some t) : t.Tallied token := by
  cases a with
  | tick ms =>
    cases taken
    obtain ⟨redis, memory, length, waiting, looked⟩ := tallied
    refine ⟨redis, memory, length, fun n at_ called => ?_, looked⟩
    have before := waiting n at_ called
    change at_ ≤ w.now + ms
    omega
  | consume n =>
    simp only [CodeMode.step] at taken
    split at taken
    · cases taken
      refine tallied.call ?_ nofun
      rintro at_ (same | same)
      · cases same
        exact le_rfl
      · cases same
    · cases taken
  | evalsha n outcome =>
    simp only [CodeMode.step] at taken
    split at taken
    · rename_i sent
      cases taken
      exact tallied.evalsha sent outcome
    · cases taken
  | look n =>
    simp only [CodeMode.step] at taken
    split at taken
    · rename_i madeAt waited
      cases taken
      refine tallied.call nofun ?_
      rintro at_ read same
      cases same
      exact tallied.waiting n madeAt (.inr waited)
    · cases taken
  | take n =>
    simp only [CodeMode.step] at taken
    split at taken
    · cases taken
      exact tallied.take
    · cases taken
  | settle n =>
    simp only [CodeMode.step] at taken
    split at taken
    · cases taken
      exact (tallied.present false).call nofun nofun
    · cases taken
      exact (tallied.present true).call nofun nofun
    · cases taken
  | prune =>
    simp only [CodeMode.step] at taken
    split at taken
    · cases taken
      exact tallied.present false
    · cases taken

/-- Redis grants the next index exactly when memory has granted for the lost answers. -/
theorem bounded_evalsha (tallied : w.Tallied token) (bounded : w.Bounded token) :
    (w.evalsha token n madeAt .ok).Bounded token ↔
      (w.Serves token → 1 ≤ token.claims.maxCalls ∧ w.fromMemory = w.lost ∧
        madeAt ≤ token.expiresAt) := by
  by_cases serves : w.Serves token
  · obtain ⟨hash, expiresAt, found, below, answer, -⟩ := answer_of_serves serves
    have value := tallied.redis serves.1 hash (live_eq_some.mp found).1
    have length := tallied.length
    have granted : (w.evalsha token n madeAt .ok).granted = (w.grant hash.value madeAt).granted := by
      simp only [World.evalsha, answer]
      rfl
    simp only [serves, forall_const]
    rw [bounded_congr granted, bounded_grant bounded]
    have calls := within_calls below
    constructor
    · rintro ⟨count, next, early⟩
      exact ⟨calls.mp (next ▸ count), by omega, early⟩
    · rintro ⟨positive, even, early⟩
      have next : hash.value = w.granted.length := by omega
      exact ⟨next ▸ calls.mpr positive, next, early⟩
  · obtain ⟨⟨errorCode, error, answer⟩, -⟩ := answer_of_not_serves serves
    have granted : (w.evalsha token n madeAt .ok).granted = w.granted := by
      simp only [World.evalsha, answer]
      rfl
    simp only [serves, false_imp_iff, iff_true]
    exact (bounded_congr granted).mpr bounded

theorem bounded_take (tallied : w.Tallied token) (bounded : w.Bounded token)
    (made : madeAt ≤ now) :
    (w.take token n madeAt now).Bounded token ↔
      (w.Holds token now → 1 ≤ token.claims.maxCalls ∧ w.fromRedis = 0) := by
  by_cases holds : w.Holds token now
  · obtain ⟨complete, present, alive, below⟩ := holds
    have value := tallied.memory complete
    have length := tallied.length
    have granted : (w.take token n madeAt now).granted = (w.grant w.payload madeAt).granted := by
      simp [World.take, complete, present, not_le.mpr alive, not_le.mpr below, World.call]
    have holds : w.Holds token now := ⟨complete, present, alive, below⟩
    simp only [holds, forall_const]
    rw [bounded_congr granted, bounded_grant bounded]
    have calls := within_calls below
    constructor
    · rintro ⟨count, next, -⟩
      exact ⟨calls.mp (next ▸ count), by omega⟩
    · rintro ⟨positive, none_⟩
      have next : w.payload = w.granted.length := by omega
      exact ⟨next ▸ calls.mpr positive, next, by omega⟩
  · have granted : (w.take token n madeAt now).granted = w.granted := by
      unfold World.take
      simp only
      split
      · rfl
      split
      · rfl
      split
      · rfl
      split
      · rfl
      · rename_i present alive below complete
        refine absurd ⟨?_, ?_, not_le.mp alive, not_le.mp below⟩ holds
        · simpa using complete
        · simpa using present
    simp only [holds, false_imp_iff, iff_true]
    exact (bounded_congr granted).mpr bounded

theorem bounded_step {a : Action} (tallied : w.Tallied token) (bounded : w.Bounded token)
    (taken : step token w a = some t) : t.Bounded token ↔ w.OneStore token a := by
  have quietly (granted : t.granted = w.granted) : t.Bounded token ↔ True :=
    iff_true_intro ((bounded_congr granted).mpr bounded)
  cases a with
  | tick ms =>
    cases taken
    exact quietly rfl
  | evalsha n outcome =>
    simp only [CodeMode.step] at taken
    split at taken
    · rename_i madeAt sent
      cases taken
      cases outcome with
      | ok =>
        rw [bounded_evalsha tallied bounded]
        simp [OneStore, sent]
      | failedBefore => exact quietly rfl
      | failedAfter =>
        refine quietly ?_
        simp only [World.evalsha]
        cases w.answer token <;> rfl
    · cases taken
  | take n =>
    simp only [CodeMode.step] at taken
    split at taken
    · rename_i madeAt now looked
      cases taken
      rw [bounded_take tallied bounded (tallied.looked n madeAt now looked)]
      simp [OneStore, looked]
    · cases taken
  | _ =>
    simp only [CodeMode.step] at taken
    split at taken
    all_goals cases taken
    all_goals exact quietly rfl

theorem oneStore_of_stuck {a : Action} (stuck : step token w a = none) : w.OneStore token a := by
  cases a with
  | evalsha n outcome =>
    cases outcome with
    | ok =>
      intro madeAt sent
      simp [CodeMode.step, sent] at stuck
    | _ => trivial
  | take n =>
    intro madeAt now looked
    simp [CodeMode.step, looked] at stuck
  | _ => trivial

end Steps

/-- A token stays bounded in every state of a run exactly when its calls are granted from
one store, as often as it has counted, and before the expiry. -/
theorem bounded_throughout_iff (token : Token) (delay : ℕ) (hset expire : Outcome)
    (actions : List Action) :
    (∀ first, first <+: actions → ∀ w,
        run (step token) (token.issue delay hset expire) first = some w → w.Bounded token) ↔
      Along (step token) (World.OneStore token) (token.issue delay hset expire) actions := by
  refine forall_prefix_iff_along (P := fun w => w.Tallied token ∧ w.Bounded token)
    (fun held => held.2) ?_ ?_ oneStore_of_stuck ⟨?_, ?_⟩
  · intro w a t held kept taken
    exact ⟨held.1.step taken, (bounded_step held.1 held.2 taken).mpr kept⟩
  · intro w a t held taken after
    exact (bounded_step held.1 held.2 taken).mp after
  · refine ⟨fun _ hash stored => ?_, fun _ => rfl, rfl, ?_, nofun⟩
    · cases hset <;> cases expire <;> cases stored <;> rfl
    · rintro n at_ (called | called)
      · cases called
      · cases called
  · refine ⟨Nat.zero_le _, List.nodup_nil, fun i => ?_, nofun⟩
    simp [Token.issue]

section Unbounded

def oneCall : Token := ⟨⟨"user", "session", 1⟩, 60, 0⟩

/-- `EXPIRE` has failed: the token is in Redis and in memory, and each grants its call. -/
def bothStores : List Action :=
  [.consume 0, .evalsha 0 .ok, .consume 1, .evalsha 1 .failedBefore, .look 1, .take 1, .settle 1]

/-- Nothing has failed, but the hash outlives the expiry by what `EXPIRE` came later. -/
def afterExpiry : List Action := [.tick 59997, .consume 0, .evalsha 0 .ok]

theorem token_unbounded :
    (∃ w, run (step oneCall) (oneCall.issue 5 .ok .failedBefore) bothStores = some w ∧
      w.granted = [⟨0, 5⟩, ⟨0, 5⟩] ∧ ¬ w.Bounded oneCall) ∧
    ∃ w, run (step oneCall) (oneCall.issue 5 .ok .ok) afterExpiry = some w ∧
      w.granted = [⟨0, 60002⟩] ∧ oneCall.expiresAt = 60000 := by
  refine ⟨⟨_, rfl, rfl, fun bounded => ?_⟩, _, rfl, rfl, rfl⟩
  exact absurd bounded.count (by decide)

end Unbounded

end Deeting.CodeMode
