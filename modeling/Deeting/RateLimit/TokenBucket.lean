import Deeting.Metering
import Deeting.Transition
import Mathlib.Algebra.Order.Floor.Semifield
import Mathlib.Data.Rat.Floor

/-! `token_bucket_rate_limit.lua` on one key, and the Python branch of `_check_tpm` that stands
in for it. Times are seconds, and all quantities exact. The script takes a missing key for an
empty bucket, the Python branch for a full one. -/
namespace Deeting.RateLimit
open Transition Metering

structure Bucket where
  tokens : ℚ
  lastUpdate : ℚ
  expireAt : ℚ
  deriving DecidableEq

structure TokenReply where
  allowed : Bool
  retryAfter : ℤ
  deriving DecidableEq

def found (now : ℚ) (slot : Option Bucket) : Option Bucket := slot.filter (now < ·.expireAt)

def refilled (capacity rate now tokens lastUpdate : ℚ) : ℚ :=
  min capacity (tokens + max 0 (now - lastUpdate) * rate)

/-- `token_bucket_rate_limit.lua`. -/
def tokenBucket (capacity rate now cost : ℚ) (slot : Option Bucket) : TokenReply × Bucket :=
  let data := found now slot
  let tokens := refilled capacity rate now (data.elim 0 Bucket.tokens)
    (data.elim now Bucket.lastUpdate)
  let expireAt := now + (⌈capacity / rate⌉ + 1)
  if cost ≤ tokens then (⟨true, 0⟩, ⟨tokens - cost, now, expireAt⟩)
  else (⟨false, ⌈(cost - tokens) / rate⌉⟩, ⟨tokens, now, expireAt⟩)

/-- The branch of `_check_tpm` without the script; the cost is 1. -/
def checkTpmFallback (tpmLimit : ℚ) (window : ℕ) (now : ℚ) (slot : Option Bucket) :
    TokenReply × Bucket :=
  let cost := 1
  let tpmRate := tpmLimit / window
  let bucket := found now slot
  let tokens := refilled tpmLimit tpmRate now (bucket.elim tpmLimit Bucket.tokens)
    (bucket.elim now Bucket.lastUpdate)
  let expireAt := now + (window + 1)
  if tokens < cost then (⟨false, ⌊(cost - tokens) / tpmRate + 1⌋⟩, ⟨tokens, now, expireAt⟩)
  else (⟨true, 0⟩, ⟨tokens - cost, now, expireAt⟩)

structure Spend where
  now : ℚ
  cost : ℚ
  deriving DecidableEq

/-- The key with the clock, the last call, and what was admitted. -/
structure Usage where
  now : ℚ
  slot : Option Bucket
  lastCall : Option ℚ
  admitted : List (ℚ × ℚ)

namespace Usage

def initial (now : ℚ) : Usage := ⟨now, none, none, []⟩

def Accepts (w : Usage) (call : Spend) : Prop := w.now ≤ call.now ∧ 0 ≤ call.cost

instance (w : Usage) (call : Spend) : Decidable (w.Accepts call) :=
  inferInstanceAs (Decidable (_ ∧ _))

def serve (capacity rate : ℚ) (w : Usage) (call : Spend) : Usage :=
  let (reply, bucket) := tokenBucket capacity rate call.now call.cost w.slot
  { now := call.now
    slot := some bucket
    lastCall := some call.now
    admitted := if reply.allowed then (call.now, call.cost) :: w.admitted else w.admitted }

end Usage

def spend (capacity rate : ℚ) (w : Usage) (call : Spend) : Option Usage :=
  if w.Accepts call then some (w.serve capacity rate call) else none

/-- What a call that is repeated after `retry_after` is told, and a call after a rest. -/
structure Lawful (capacity rate : ℚ) (w : Usage) (call : Spend) : Prop where
  retry : ∀ reply bucket, tokenBucket capacity rate call.now call.cost w.slot = (reply, bucket) →
    reply.allowed = false →
      (tokenBucket capacity rate (call.now + reply.retryAfter) call.cost
        (some bucket)).1.allowed = true
  rested : call.cost ≤ capacity → (∀ last ∈ w.lastCall, capacity / rate ≤ call.now - last) →
    (tokenBucket capacity rate call.now call.cost w.slot).1.allowed = true

/-- The cost fits the bucket, and is none where the key is missing. -/
def Supplied (capacity : ℚ) (w : Usage) (call : Spend) : Prop :=
  call.cost ≤ capacity ∧ (found call.now w.slot = none → call.cost = 0)

instance (capacity : ℚ) (w : Usage) (call : Spend) : Decidable (Supplied capacity w call) :=
  inferInstanceAs (Decidable (_ ∧ _))

/-- The script and the Python branch, each on its own key. -/
structure Branches where
  script : Option Bucket
  fallback : Option Bucket

namespace Branches

variable (tpmLimit : ℚ) (window : ℕ) (s : Branches) (now : ℚ)

def replies : TokenReply × TokenReply :=
  ((tokenBucket tpmLimit (tpmLimit / window) now 1 s.script).1,
    (checkTpmFallback tpmLimit window now s.fallback).1)

def serve : Branches where
  script := some (tokenBucket tpmLimit (tpmLimit / window) now 1 s.script).2
  fallback := some (checkTpmFallback tpmLimit window now s.fallback).2

/-- Both admit the call or neither does, and both leave the same tokens. -/
def Agree : Prop :=
  (s.replies tpmLimit window now).2.allowed = (s.replies tpmLimit window now).1.allowed ∧
    (s.serve tpmLimit window now).fallback.map Bucket.tokens =
      (s.serve tpmLimit window now).script.map Bucket.tokens

def Present : Prop := found now s.script ≠ none

end Branches

section Script

variable {capacity rate now cost : ℚ} {slot : Option Bucket} {w t : Usage} {call : Spend}

def level (capacity rate now : ℚ) (slot : Option Bucket) : ℚ :=
  refilled capacity rate now ((found now slot).elim 0 Bucket.tokens)
    ((found now slot).elim now Bucket.lastUpdate)

theorem tokenBucket_admits (enough : cost ≤ level capacity rate now slot) :
    tokenBucket capacity rate now cost slot =
      (⟨true, 0⟩, ⟨level capacity rate now slot - cost, now, now + (⌈capacity / rate⌉ + 1)⟩) :=
  if_pos enough

theorem tokenBucket_rejects (short : ¬ cost ≤ level capacity rate now slot) :
    tokenBucket capacity rate now cost slot =
      (⟨false, ⌈(cost - level capacity rate now slot) / rate⌉⟩,
        ⟨level capacity rate now slot, now, now + (⌈capacity / rate⌉ + 1)⟩) :=
  if_neg short

theorem allowed_iff : (tokenBucket capacity rate now cost slot).1.allowed = true ↔
    cost ≤ level capacity rate now slot := by
  by_cases enough : cost ≤ level capacity rate now slot
  · rw [tokenBucket_admits enough]
    simp [enough]
  · rw [tokenBucket_rejects enough]
    simp [enough]

theorem level_le : level capacity rate now slot ≤ capacity := min_le_left ..

theorem level_of_missing (missing : found now slot = none) (full : 0 ≤ capacity) :
    level capacity rate now slot = 0 := by
  simp [level, missing, refilled, full]

theorem level_of_found {b : Bucket} (there : found now slot = some b)
    (forward : b.lastUpdate ≤ now) :
    level capacity rate now slot =
      min capacity (b.tokens + (now - b.lastUpdate) * rate) := by
  simp [level, there, refilled, forward]

structure Kept (capacity rate : ℚ) (w : Usage) : Prop where
  bucket : ∀ b, w.slot = some b → w.lastCall = some b.lastUpdate ∧ b.lastUpdate = w.now ∧
    0 ≤ b.tokens ∧ b.expireAt = b.lastUpdate + (⌈capacity / rate⌉ + 1)
  unused : w.slot = none → w.lastCall = none

theorem kept_initial (now : ℚ) : Kept capacity rate (.initial now) := ⟨by nofun, fun _ => rfl⟩

theorem found_eq_some {b : Bucket} :
    found now slot = some b ↔ slot = some b ∧ now < b.expireAt := by
  simp [found, Option.filter_eq_some_iff]

theorem Kept.level_nonneg (kept : Kept capacity rate w) (full : 0 ≤ capacity) (flows : 0 ≤ rate)
    (forward : w.now ≤ now) : 0 ≤ level capacity rate now w.slot := by
  cases there : found now w.slot with
  | none => rw [level_of_missing there full]
  | some b =>
    obtain ⟨stored, _⟩ := found_eq_some.mp there
    obtain ⟨_, last, tokens, _⟩ := kept.bucket b stored
    rw [← last] at forward
    rw [level_of_found there forward]
    have gain : 0 ≤ (now - b.lastUpdate) * rate := mul_nonneg (sub_nonneg.mpr forward) flows
    exact le_min full (add_nonneg tokens gain)

theorem Kept.serve (kept : Kept capacity rate w) (full : 0 ≤ capacity) (flows : 0 ≤ rate)
    (accepts : w.Accepts call) : Kept capacity rate (w.serve capacity rate call) := by
  have nonneg := kept.level_nonneg full flows accepts.1
  refine ⟨fun b stored => ?_, nofun⟩
  by_cases enough : call.cost ≤ level capacity rate call.now w.slot
  · rw [Usage.serve, tokenBucket_admits enough] at stored ⊢
    cases stored
    exact ⟨rfl, rfl, sub_nonneg.mpr enough, rfl⟩
  · rw [Usage.serve, tokenBucket_rejects enough] at stored ⊢
    cases stored
    exact ⟨rfl, rfl, nonneg, rfl⟩

theorem spend_eq_some : spend capacity rate w call = some t ↔
    w.Accepts call ∧ w.serve capacity rate call = t := by
  simp [spend]

theorem Kept.spend (kept : Kept capacity rate w) (full : 0 ≤ capacity) (flows : 0 ≤ rate)
    (taken : spend capacity rate w call = some t) : Kept capacity rate t := by
  obtain ⟨accepts, rfl⟩ := spend_eq_some.mp taken
  exact kept.serve full flows accepts

/-- The tokens in the bucket account for what was admitted. -/
def Balanced (capacity rate : ℚ) (w : Usage) : Prop :=
  Metered capacity rate w.now (w.slot.elim 0 Bucket.tokens) w.admitted

theorem Kept.level_flow (kept : Kept capacity rate w) (full : 0 ≤ capacity) (flows : 0 ≤ rate)
    (forward : w.now ≤ now) : level capacity rate now w.slot ≤
      w.slot.elim 0 Bucket.tokens + rate * (now - w.now) := by
  have gain : 0 ≤ rate * (now - w.now) := mul_nonneg flows (sub_nonneg.mpr forward)
  cases there : found now w.slot with
  | none =>
    have tokens : 0 ≤ w.slot.elim 0 Bucket.tokens := by
      cases stored : w.slot with
      | none => exact le_rfl
      | some b => exact (kept.bucket b stored).2.2.1
    rw [level_of_missing there full]
    exact add_nonneg tokens gain
  | some b =>
    obtain ⟨stored, _⟩ := found_eq_some.mp there
    obtain ⟨_, last, _, _⟩ := kept.bucket b stored
    rw [level_of_found there (last ▸ forward), stored, Option.elim_some, last, mul_comm rate]
    exact min_le_right ..

theorem Balanced.spend (accounted : Balanced capacity rate w) (kept : Kept capacity rate w)
    (full : 0 ≤ capacity) (flows : 0 ≤ rate) (taken : spend capacity rate w call = some t) :
    Balanced capacity rate t := by
  obtain ⟨⟨forward, _⟩, rfl⟩ := spend_eq_some.mp taken
  have raised : Metered capacity rate call.now (level capacity rate call.now w.slot) w.admitted :=
    accounted.refill flows forward (kept.level_flow full flows forward) level_le
  by_cases enough : call.cost ≤ level capacity rate call.now w.slot
  · rw [Balanced, Usage.serve, tokenBucket_admits enough]
    exact raised.spend flows enough
  · rw [Balanced, Usage.serve, tokenBucket_rejects enough]
    exact raised

theorem retry_admitted (flows : 0 < rate) (fits : cost ≤ capacity)
    (nonneg : 0 ≤ level capacity rate now slot)
    (short : ¬ cost ≤ level capacity rate now slot) :
    cost ≤ level capacity rate (now + ⌈(cost - level capacity rate now slot) / rate⌉)
      (some ⟨level capacity rate now slot, now, now + (⌈capacity / rate⌉ + 1)⟩) := by
  generalize level capacity rate now slot = tokens at nonneg short ⊢
  have missing : 0 < cost - tokens := sub_pos.mpr (not_le.mp short)
  have wait : (cost - tokens) / rate ≤ (⌈(cost - tokens) / rate⌉ : ℤ) := Int.le_ceil _
  have forward : (0 : ℚ) ≤ (⌈(cost - tokens) / rate⌉ : ℤ) :=
    (div_nonneg missing.le flows.le).trans wait
  have early : (⌈(cost - tokens) / rate⌉ : ℤ) ≤ ⌈capacity / rate⌉ := by
    apply Int.ceil_le_ceil
    exact div_le_div_of_nonneg_right (by linarith) flows.le
  have alive : now + (⌈(cost - tokens) / rate⌉ : ℤ) < now + ((⌈capacity / rate⌉ : ℤ) + 1) := by
    have casted : ((⌈(cost - tokens) / rate⌉ : ℤ) : ℚ) ≤ (⌈capacity / rate⌉ : ℤ) := by
      exact_mod_cast early
    linarith
  have there : found (now + (⌈(cost - tokens) / rate⌉ : ℤ))
      (some ⟨tokens, now, now + (⌈capacity / rate⌉ + 1)⟩) =
        some ⟨tokens, now, now + (⌈capacity / rate⌉ + 1)⟩ :=
    found_eq_some.mpr ⟨rfl, alive⟩
  rw [level_of_found there (by simpa using forward)]
  refine le_min fits ?_
  have gain : cost - tokens ≤ (⌈(cost - tokens) / rate⌉ : ℤ) * rate := (div_le_iff₀ flows).mp wait
  simp only [add_sub_cancel_left]
  linarith

theorem Kept.level_rested (kept : Kept capacity rate w) (flows : 0 < rate) {b : Bucket}
    (there : found now w.slot = some b) (forward : w.now ≤ now)
    (rested : ∀ last ∈ w.lastCall, capacity / rate ≤ now - last) :
    level capacity rate now w.slot = capacity := by
  obtain ⟨stored, _⟩ := found_eq_some.mp there
  obtain ⟨called, last, tokens, _⟩ := kept.bucket b stored
  have rest := (div_le_iff₀ flows).mp (rested b.lastUpdate called)
  rw [level_of_found there (last ▸ forward), min_eq_left]
  linarith

theorem Kept.rested (kept : Kept capacity rate w) (missing : found now w.slot = none) :
    ∀ last ∈ w.lastCall, capacity / rate ≤ now - last := by
  intro last called
  cases stored : w.slot with
  | none =>
    rw [kept.unused stored] at called
    cases called
  | some b =>
    obtain ⟨same, _, _, expires⟩ := kept.bucket b stored
    cases called.symm.trans same
    have expired : b.expireAt ≤ now := by
      by_contra alive
      rw [found_eq_some.mpr ⟨stored, not_le.mp alive⟩] at missing
      cases missing
    have whole : capacity / rate ≤ (⌈capacity / rate⌉ : ℤ) := Int.le_ceil _
    linarith

theorem Kept.lawful_iff (kept : Kept capacity rate w) (full : 0 < capacity) (flows : 0 < rate)
    (accepts : w.Accepts call) : Lawful capacity rate w call ↔ Supplied capacity w call := by
  have nonneg := kept.level_nonneg full.le flows.le accepts.1
  constructor
  · rintro ⟨retry, rested⟩
    have fits : call.cost ≤ capacity := by
      by_contra large
      have short {now : ℚ} {slot : Option Bucket} : ¬ call.cost ≤ level capacity rate now slot :=
        fun enough => large (enough.trans level_le)
      have again := retry _ _ (tokenBucket_rejects short) rfl
      exact short (allowed_iff.mp again)
    refine ⟨fits, fun missing => ?_⟩
    have enough := allowed_iff.mp (rested fits (kept.rested missing))
    rw [level_of_missing missing full.le] at enough
    exact le_antisymm enough accepts.2
  · rintro ⟨fits, missing⟩
    constructor
    · intro reply bucket answered rejected
      have short : ¬ call.cost ≤ level capacity rate call.now w.slot := by
        rw [← allowed_iff, answered, rejected]
        exact Bool.false_ne_true
      rw [tokenBucket_rejects short] at answered
      cases answered
      exact allowed_iff.mpr (retry_admitted flows fits nonneg short)
    · intro _ rested
      rw [allowed_iff]
      cases there : found call.now w.slot with
      | none =>
        rw [missing there]
        exact nonneg
      | some b =>
        rw [kept.level_rested flows there accepts.1 rested]
        exact fits

end Script

section Fallback

variable {tpmLimit : ℚ} {window : ℕ} {now : ℚ} {s : Branches} {slot : Option Bucket}

variable (window) in
theorem fallback_of_found {b : Bucket} (there : found now slot = some b) (positive : 0 < tpmLimit) :
    (checkTpmFallback tpmLimit window now slot).1.allowed =
        (tokenBucket tpmLimit (tpmLimit / window) now 1 slot).1.allowed ∧
      (checkTpmFallback tpmLimit window now slot).2 =
        (tokenBucket tpmLimit (tpmLimit / window) now 1 slot).2 := by
  have span : (⌈tpmLimit / (tpmLimit / window)⌉ : ℚ) = window := by
    rw [div_div_cancel₀ positive.ne', Int.ceil_natCast, Int.cast_natCast]
  simp only [checkTpmFallback, tokenBucket, there, Option.elim_some, span, ← not_le, ite_not]
  split
  · exact ⟨rfl, rfl⟩
  · exact ⟨rfl, rfl⟩

variable (window) in
/-- Where it is missing, the one begins with an empty bucket and the other with a full one. -/
theorem fallback_of_missing (missing : found now slot = none) (positive : 0 < tpmLimit) :
    (tokenBucket tpmLimit (tpmLimit / window) now 1 slot).1.allowed = false ∧
      (tokenBucket tpmLimit (tpmLimit / window) now 1 slot).2.tokens = 0 ∧
      ((checkTpmFallback tpmLimit window now slot).1.allowed = true ∨
        (checkTpmFallback tpmLimit window now slot).2.tokens = tpmLimit) := by
  have empty : level tpmLimit (tpmLimit / window) now slot = 0 :=
    level_of_missing missing positive.le
  have short : ¬ 1 ≤ level tpmLimit (tpmLimit / window) now slot := by
    rw [empty]
    norm_num
  rw [tokenBucket_rejects short]
  refine ⟨rfl, empty, ?_⟩
  have start : refilled tpmLimit (tpmLimit / window) now tpmLimit now = tpmLimit := by
    simp [refilled]
  simp only [checkTpmFallback, missing, Option.elim_none, start]
  split
  · exact .inr rfl
  · exact .inl rfl

theorem agree_iff_present (positive : 0 < tpmLimit) (same : s.fallback = s.script) :
    s.Agree tpmLimit window now ↔ s.Present now := by
  constructor
  · rintro ⟨decision, tokens⟩ missing
    obtain ⟨rejected, empty, full⟩ := fallback_of_missing window missing positive
    simp only [Branches.replies, Branches.serve, same, Option.map_some, Option.some.injEq] at decision tokens
    rcases full with admitted | full
    · rw [admitted, rejected] at decision
      cases decision
    · rw [full, empty] at tokens
      exact positive.ne' tokens
  · intro present
    obtain ⟨b, there⟩ := Option.ne_none_iff_exists'.mp present
    obtain ⟨decision, bucket⟩ := fallback_of_found window there positive
    rw [Branches.Agree, Branches.replies, Branches.serve, same, bucket]
    exact ⟨decision, rfl⟩

theorem serve_same (positive : 0 < tpmLimit) (same : s.fallback = s.script)
    (present : s.Present now) :
    (s.serve tpmLimit window now).fallback = (s.serve tpmLimit window now).script := by
  obtain ⟨b, there⟩ := Option.ne_none_iff_exists'.mp present
  rw [Branches.serve, same, (fallback_of_found window there positive).2]

end Fallback

section Runs

variable {capacity rate start : ℚ} {calls : List Spend} {w : Usage}

theorem run_kept (full : 0 ≤ capacity) (flows : 0 ≤ rate)
    (reached : run (spend capacity rate) (.initial start) calls = some w) :
    Kept capacity rate w ∧ Balanced capacity rate w := by
  apply run_preserves (P := fun w => Kept capacity rate w ∧ Balanced capacity rate w) ?_ ?_ reached
  · intro w call t invariant taken
    exact ⟨invariant.1.spend full flows taken,
      invariant.2.spend invariant.1 full flows taken⟩
  · exact ⟨kept_initial start, metered_nil start full flows⟩

/-- What is admitted in any interval is within the bound. In every state that is reached, a
call that is rejected succeeds after `retry_after`, and is admitted after a rest, exactly if
its cost fits and is 0 where the key is missing. The Python branch goes with the script, from
the same bucket on, exactly as long as the key is there. -/
theorem tokenBucket_spec (full : 0 < capacity) (flows : 0 < rate) :
    (∀ start calls w, run (spend capacity rate) (.initial start) calls = some w →
      ∀ from_ t, 0 ≤ t → spent from_ (from_ + t) w.admitted ≤ capacity + rate * t) ∧
    (∀ start calls w, run (spend capacity rate) (.initial start) calls = some w → ∀ call,
      w.Accepts call → (Lawful capacity rate w call ↔ Supplied capacity w call)) ∧
    ∀ tpmLimit window, 0 < tpmLimit → ∀ bucket times,
      (Along (total (Branches.serve tpmLimit window)) (Branches.Agree tpmLimit window)
          ⟨bucket, bucket⟩ times ↔
        Along (total (Branches.serve tpmLimit window)) Branches.Present ⟨bucket, bucket⟩ times) := by
  refine ⟨fun start calls w reached from_ t long => ?_,
    fun start calls w reached call accepts => ?_, fun tpmLimit window positive bucket times => ?_⟩
  · have bound := (run_kept full.le flows.le reached).2.windows from_ (from_ + t) (by linarith)
    rwa [add_sub_cancel_left] at bound
  · exact (run_kept full.le flows.le reached).1.lawful_iff full flows accepts
  · have gives {s : Branches} {now : ℚ} (same : s.fallback = s.script) :
        s.Agree tpmLimit window now ↔ s.Present now := agree_iff_present positive same
    have keeps {s t : Branches} {now : ℚ} (same : s.fallback = s.script) (present : s.Present now)
        (taken : total (Branches.serve tpmLimit window) s now = some t) :
        t.fallback = t.script := by
      cases taken
      exact serve_same positive same present
    constructor
    · apply along_of_invariant (P := fun s => s.fallback = s.script) _ _ rfl
      · intro s now t same agree taken
        exact keeps same ((gives same).mp agree) taken
      · intro s now same agree
        exact (gives same).mp agree
    · apply along_of_invariant (P := fun s => s.fallback = s.script) keeps _ rfl
      intro s now same present
      exact (gives same).mpr present

/-- The theorem on a bucket of 10 that fills in 10 seconds: after a call that costs nothing
and a rest all of it is given, and the Python branch goes with the script from a half full
bucket on. -/
theorem tokenBucket_spec_ten :
    ∃ w, run (spend 10 1) (.initial 0) [⟨0, 0⟩] = some w ∧
      spent 0 (0 + 1) w.admitted ≤ 10 + 1 * 1 ∧ Lawful 10 1 w ⟨10, 10⟩ ∧
      Along (total (Branches.serve 10 10)) (Branches.Agree 10 10)
        ⟨some ⟨5, 0, 11⟩, some ⟨5, 0, 11⟩⟩ [1] := by
  have spec := @tokenBucket_spec 10 1 (by norm_num) (by norm_num)
  refine ⟨_, rfl, spec.1 0 [⟨0, 0⟩] _ rfl 0 1 (by norm_num), ?_, ?_⟩
  · exact (spec.2.1 0 [⟨0, 0⟩] _ rfl ⟨10, 10⟩ (by decide +kernel)).mpr (by decide +kernel)
  · refine (spec.2.2 10 10 (by norm_num) (some ⟨5, 0, 11⟩) [1]).mpr ⟨?_, fun _ _ => trivial⟩
    rw [Branches.Present]
    decide +kernel

/-- The first call of a key is rejected by the script, which is to admit it, and admitted by
the Python branch. -/
theorem first_call_rejected :
    ¬ Lawful 10 1 (.initial 0) ⟨0, 1⟩ ∧
      ¬ Along (total (Branches.serve 10 10)) (Branches.Agree 10 10) ⟨none, none⟩ [0] := by
  constructor
  · intro lawful
    exact absurd (lawful.rested (by norm_num) (by nofun)) (by decide +kernel)
  · intro agree
    exact absurd agree.1.1 (by decide +kernel)

end Runs
end Deeting.RateLimit
