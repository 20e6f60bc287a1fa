import Deeting.Decimal
import Deeting.Transition

/-! The used budget of an API key, as a row in currency and a Redis hash in millionths of it:
`stream_billing_callback`, `sync_apikey_budget_from_redis_to_db`, `_get_apikey_budget_used` and
`_warm_apikey_budget_cache`. The row has four decimals, the hash has 64-bit integers. -/
namespace Deeting.ApiKeys
open Transition Decimal

/-- `int(amount * 1000000)`. -/
def micro (amount : ℚ) : ℤ := truncate (amount * 1000000)

structure BudgetHash where
  budgetUsed : ℤ
  budgetLimit : Option ℤ
  version : ℤ

inductive SyncResult where
  | skipped (reason : String) (version : Option ℤ)
  | failed (reason : String)
  | synced (budgetDiff : ℚ) (version : ℤ)

/-- The replicas, what was charged and how often, and what the last read returned. -/
structure Budget where
  /-- The keyword arguments of the connection pool have a `url`. -/
  hasUrl : Bool
  initial : ℚ
  row : ℚ
  limit : Option ℚ
  hash : Option BudgetHash := none
  charged : ℚ := 0
  charges : ℕ := 0
  returned : Option ℚ := none

/-- `HINCRBY`, which fails where the sum is no 64-bit integer. -/
def hincrby (n increment : ℤ) : Option ℤ :=
  if -2 ^ 63 ≤ n + increment ∧ n + increment < 2 ^ 63 then some (n + increment) else none

def rowLimit : ℚ := 10 ^ 14

namespace Budget

def used (b : Budget) : ℚ := b.initial + b.charged

/-- The two `HINCRBY` of a charge; a missing hash begins at zero. -/
def increment (hash : Option BudgetHash) (cost : ℚ) : Option BudgetHash :=
  let h := hash.getD ⟨0, none, 0⟩
  match hincrby h.budgetUsed (micro cost) with
  | none => hash
  | some budgetUsed =>
    some { h with
      budgetUsed := budgetUsed
      version := (hincrby h.version 1).getD h.version }

def charge (b : Budget) (cost : ℚ) : Budget :=
  { b with
    hash := increment b.hash cost
    charged := b.charged + cost
    charges := b.charges + 1 }

/-- `sync_apikey_budget_from_redis_to_db`. -/
def sync (b : Budget) : SyncResult × Budget :=
  if ¬ b.hasUrl then (.failed "'url'", b)
  else match b.hash with
    | none => (.skipped "redis_key_not_found" none, b)
    | some h =>
      let diff := |(h.budgetUsed : ℚ) - b.row|
      if diff < 1 / 1000000 then (.skipped "already_synced" (some h.version), b)
      else if rowLimit ≤ |(h.budgetUsed : ℚ)| then (.failed "numeric field overflow", b)
      else (.synced diff h.version, { b with row := h.budgetUsed })

/-- `_warm_apikey_budget_cache`, with the lock. -/
def warm (b : Budget) : Budget :=
  { b with hash := some ⟨micro b.row, some (b.limit.elim 0 micro), 1⟩ }

/-- `_get_apikey_budget_used`: the lock may be held by a request that has not warmed the hash
yet when this one goes on. -/
def getApikeyBudgetUsed (b : Budget) (lock : Bool) : ℚ × Budget :=
  let b := if b.hash.isNone ∧ lock then b.warm else b
  (b.hash.elim 0 fun h => (h.budgetUsed : ℚ) / 1000000, b)

end Budget

inductive BudgetAction where
  | charge (cost : ℚ)
  | sync
  | expire
  | read (lock : Bool)

def budgetStep (b : Budget) (a : BudgetAction) : Option Budget :=
  let b := { b with returned := none }
  match a with
  | .charge cost => if 0 < cost then some (b.charge cost) else none
  | .sync => some b.sync.2
  | .expire => some { b with hash := none }
  | .read lock =>
    let (value, b) := b.getApikeyBudgetUsed lock
    some { b with returned := some value }

namespace Budget

/-- A key before its first charge: the row has four decimals. -/
def start (hasUrl : Bool) (tenThousandths : ℕ) (limit : Option ℚ) : Budget where
  hasUrl := hasUrl
  initial := tenThousandths / 10000
  row := tenThousandths / 10000
  limit := limit

def Near (b : Budget) (value : ℚ) : Prop := |value - b.used| ≤ b.charges / 1000000

instance (b : Budget) (value : ℚ) : Decidable (b.Near value) :=
  inferInstanceAs (Decidable (|value - b.used| ≤ b.charges / 1000000))

/-- What is asked of every state: what was just read is near, and so is what would be. -/
structure Tracked (b : Budget) : Prop where
  read : ∀ value ∈ b.returned, b.Near value
  next : b.Near (b.getApikeyBudgetUsed true).1

/-- A charge finds the hash, unless nothing has been used yet, and has room in it; the hash
expires while the row stands for the same amount; and a read finds the hash, or the lock. -/
def Meets (b : Budget) : BudgetAction → Prop
  | .charge cost =>
    (b.hash.isSome ∨ b.used = 0) ∧
      (b.hash.elim 0 BudgetHash.budgetUsed) + micro cost < 2 ^ 63
  | .expire => ∀ h ∈ b.hash, micro b.row = h.budgetUsed
  | .read lock => b.hash.isSome ∨ lock ∨ b.used = 0
  | .sync => True

def units (b : Budget) : ℤ := b.hash.elim (micro b.row) BudgetHash.budgetUsed

structure Kept (b : Budget) : Prop where
  nonneg : 0 ≤ b.units
  below : (b.units : ℚ) / 1000000 ≤ b.used
  above : b.used ≤ (b.units : ℚ) / 1000000 + b.charges / 1000000

end Budget

section Steps

open Budget

variable {b c : Budget} {a : BudgetAction}

theorem read_true (b : Budget) : (b.getApikeyBudgetUsed true).1 = (b.units : ℚ) / 1000000 := by
  cases found : b.hash with
  | none => simp [getApikeyBudgetUsed, units, found, warm]
  | some h => simp [getApikeyBudgetUsed, units, found]

theorem Budget.Kept.near (kept : b.Kept) : b.Near ((b.units : ℚ) / 1000000) := by
  have below := kept.below
  have above := kept.above
  rw [Near, abs_le]
  constructor
  · linarith
  · have count : (0 : ℚ) ≤ b.charges / 1000000 := by positivity
    linarith

theorem micro_nonneg {cost : ℚ} (positive : 0 < cost) : 0 ≤ micro cost := by
  rw [micro, truncate_of_nonneg (by linarith)]
  exact Int.floor_nonneg.mpr (by linarith)

theorem micro_le {cost : ℚ} (positive : 0 < cost) : (micro cost : ℚ) / 1000000 ≤ cost := by
  have floor := Int.floor_le (cost * 1000000)
  rw [micro, truncate_of_nonneg (by linarith)]
  linarith

theorem lt_micro {cost : ℚ} (positive : 0 < cost) :
    cost ≤ (micro cost : ℚ) / 1000000 + 1 / 1000000 := by
  have floor := Int.lt_floor_add_one (cost * 1000000)
  rw [micro, truncate_of_nonneg (by linarith)]
  linarith

theorem micro_intCast (n : ℤ) : micro n = n * 1000000 := by
  have whole : (n : ℚ) * 1000000 = ((n * 1000000 : ℤ) : ℚ) := by push_cast; ring
  rw [micro, whole, truncate_intCast]

/-- The row takes the millionths of the hash for units: what is warmed from it is a million
times what was in the hash. -/
theorem warmed_after_sync {h : BudgetHash} (reachable : b.hasUrl = true) (there : b.hash = some h)
    (differs : 1 / 1000000 ≤ |(h.budgetUsed : ℚ) - b.row|)
    (fits : |(h.budgetUsed : ℚ)| < rowLimit) :
    (({ b.sync.2 with hash := none } : Budget).getApikeyBudgetUsed true).1 =
      1000000 * (b.getApikeyBudgetUsed true).1 := by
  have row : b.sync.2.row = h.budgetUsed := by
    simp only [Budget.sync, reachable, not_true, if_false, there, if_neg (not_lt.mpr differs),
      if_neg (not_le.mpr fits)]
  rw [read_true, read_true, units, units, there]
  simp only [Option.elim, row, micro_intCast]
  push_cast
  ring

theorem units_increment {cost : ℚ} (positive : 0 < cost) (nonneg : 0 ≤ b.hash.elim 0 BudgetHash.budgetUsed)
    (room : b.hash.elim 0 BudgetHash.budgetUsed + micro cost < 2 ^ 63) :
    (b.charge cost).units = b.hash.elim 0 BudgetHash.budgetUsed + micro cost := by
  have more := micro_nonneg positive
  cases there : b.hash with
  | none =>
    rw [there] at room
    have fits : hincrby 0 (micro cost) = some (0 + micro cost) :=
      if_pos ⟨by omega, room⟩
    simp [Budget.charge, increment, units, there, fits]
  | some h =>
    rw [there] at room nonneg
    have fits : hincrby h.budgetUsed (micro cost) = some (h.budgetUsed + micro cost) :=
      if_pos ⟨by simp only [Option.elim] at nonneg; omega, room⟩
    simp [Budget.charge, increment, units, there, fits]

theorem Budget.Kept.charge (kept : b.Kept) {cost : ℚ} (positive : 0 < cost)
    (found : b.hash.isSome ∨ b.used = 0)
    (room : b.hash.elim 0 BudgetHash.budgetUsed + micro cost < 2 ^ 63) : (b.charge cost).Kept := by
  have same : b.hash.elim 0 BudgetHash.budgetUsed = b.units := by
    cases there : b.hash with
    | some h => simp [units, there]
    | none =>
      rw [there] at found
      have nothing := found.resolve_left (by simp)
      have below := kept.below
      have nonneg := kept.nonneg
      rw [nothing] at below
      have few : (b.units : ℚ) ≤ 0 := by linarith
      have few : b.units ≤ 0 := by exact_mod_cast few
      simp only [Option.elim]
      omega
  have units := units_increment positive (same ▸ kept.nonneg) room
  rw [same] at units
  have more := micro_nonneg positive
  have low := micro_le positive
  have high := lt_micro positive
  have used : (b.charge cost).used = b.used + cost := add_assoc _ _ _ |>.symm
  have count : ((b.charge cost).charges : ℚ) = b.charges + 1 := by simp [Budget.charge]
  have below := kept.below
  have above := kept.above
  refine ⟨?_, ?_, ?_⟩
  · have nonneg := kept.nonneg
    omega
  · rw [units, used]
    push_cast
    linarith
  · rw [units, used, count]
    push_cast
    linarith

theorem Budget.Kept.of_units (kept : b.Kept) (units : c.units = b.units) (used : c.used = b.used)
    (charges : c.charges = b.charges) : c.Kept := by
  refine ⟨?_, ?_, ?_⟩
  · rw [units]
    exact kept.nonneg
  · rw [units, used]
    exact kept.below
  · rw [units, used, charges]
    exact kept.above

theorem sync_frame (b : Budget) :
    b.sync.2.hash = b.hash ∧ b.sync.2.used = b.used ∧ b.sync.2.charges = b.charges ∧
      (b.hash = none → b.sync.2.row = b.row) := by
  simp only [Budget.sync]
  split
  · exact ⟨rfl, rfl, rfl, fun _ => rfl⟩
  · split
    · exact ⟨rfl, rfl, rfl, fun _ => rfl⟩
    · rename_i h there
      split
      · exact ⟨rfl, rfl, rfl, fun _ => rfl⟩
      · split
        · exact ⟨rfl, rfl, rfl, fun _ => rfl⟩
        · exact ⟨rfl, rfl, rfl, fun absent => by rw [absent] at there; cases there⟩

theorem Budget.Kept.sync (kept : b.Kept) : b.sync.2.Kept := by
  obtain ⟨hash, used, charges, row⟩ := sync_frame b
  refine kept.of_units ?_ used charges
  rw [units, units, hash]
  cases there : b.hash with
  | none => rw [row there]
  | some h => rfl

theorem Budget.Kept.expire (kept : b.Kept) (stands : ∀ h ∈ b.hash, micro b.row = h.budgetUsed) :
    Budget.Kept { b with hash := none } := by
  refine kept.of_units ?_ rfl rfl
  cases there : b.hash with
  | none => simp [units, there]
  | some h => simp [units, there, stands h there]

/-- A read that finds the hash or the lock finds the millionths; another one finds nothing. -/
theorem Budget.Kept.read (kept : b.Kept) {lock : Bool}
    (found : b.hash.isSome ∨ lock ∨ b.used = 0) :
    (b.getApikeyBudgetUsed lock).2.Kept ∧
      (b.getApikeyBudgetUsed lock).2.Near (b.getApikeyBudgetUsed lock).1 := by
  cases there : b.hash with
  | some h =>
    have value : (b.getApikeyBudgetUsed lock) = ((b.units : ℚ) / 1000000, b) := by
      simp [getApikeyBudgetUsed, there, units]
    rw [value]
    exact ⟨kept, kept.near⟩
  | none =>
    cases lock with
    | true =>
      have value : (b.getApikeyBudgetUsed true) = ((b.units : ℚ) / 1000000, b.warm) := by
        simp [getApikeyBudgetUsed, there, units, warm]
      have warmed : b.warm.Kept := kept.of_units (by simp [units, there, warm]) rfl rfl
      rw [value]
      exact ⟨warmed, kept.near⟩
    | false =>
      have value : (b.getApikeyBudgetUsed false) = (0, b) := by
        simp [getApikeyBudgetUsed, there]
      have nothing : b.used = 0 := by simpa [there] using found
      rw [value]
      refine ⟨kept, ?_⟩
      rw [Near, nothing, sub_zero, abs_zero]
      positivity

theorem Budget.Kept.cleared (kept : b.Kept) : Budget.Kept { b with returned := none } :=
  kept.of_units rfl rfl rfl

theorem sync_returned (b : Budget) : b.sync.2.returned = b.returned := by
  simp only [Budget.sync]
  split
  · rfl
  · split
    · rfl
    · split
      · rfl
      · split
        · rfl
        · rfl

theorem kept_step (kept : b.Kept) (meets : b.Meets a) (taken : budgetStep b a = some c) :
    c.Kept ∧ ∀ value ∈ c.returned, c.Near value := by
  cases a with
  | charge cost =>
    obtain ⟨positive, same⟩ := Option.ite_none_right_eq_some.mp taken
    cases same
    exact ⟨kept.cleared.charge positive meets.1 meets.2, fun value read => by cases read⟩
  | sync =>
    cases taken
    refine ⟨kept.cleared.sync, fun value read => ?_⟩
    rw [sync_returned] at read
    cases read
  | expire =>
    cases taken
    exact ⟨kept.cleared.expire meets, fun value read => by cases read⟩
  | read lock =>
    cases taken
    obtain ⟨after, near⟩ := kept.cleared.read meets
    refine ⟨after.of_units rfl rfl rfl, fun value read => ?_⟩
    cases read
    exact near

end Steps

section Runs

open Budget

theorem kept_start (hasUrl : Bool) (tenThousandths : ℕ) (limit : Option ℚ) :
    (start hasUrl tenThousandths limit).Kept := by
  have row : micro (tenThousandths / 10000) = tenThousandths * 100 := by
    have whole : (tenThousandths / 10000 : ℚ) * 1000000 = ((tenThousandths * 100 : ℤ) : ℚ) := by
      push_cast
      ring
    rw [micro, whole, truncate_intCast]
  have units : (start hasUrl tenThousandths limit).units = tenThousandths * 100 := row
  have used : (start hasUrl tenThousandths limit).used = tenThousandths / 10000 := add_zero _
  refine ⟨?_, ?_, ?_⟩
  · omega
  · rw [units, used]
    push_cast
    linarith
  · rw [units, used]
    push_cast
    simp only [start, Nat.cast_zero, zero_div, add_zero]
    linarith

/-- In the runs all of whose steps meet the condition, what is read is the budget used at first
and the charges since, up to a millionth for each. -/
theorem budget_tracked (hasUrl : Bool) (tenThousandths : ℕ) (limit : Option ℚ)
    (actions : List BudgetAction)
    (meets : Along budgetStep Meets (start hasUrl tenThousandths limit) actions) :
    ∀ first, first <+: actions → ∀ b,
      run budgetStep (start hasUrl tenThousandths limit) first = some b → b.Tracked := by
  rintro first ⟨later, rfl⟩ b reached
  have kept : b.Kept ∧ ∀ value ∈ b.returned, b.Near value :=
    run_invariant (P := fun b => b.Kept ∧ ∀ value ∈ b.returned, b.Near value)
      (fun sound meets taken => kept_step sound.1 meets taken)
      ⟨kept_start hasUrl tenThousandths limit, fun value read => by cases read⟩
      (along_append meets).1 reached
  refine ⟨kept.2, ?_⟩
  rw [read_true]
  exact kept.1.near

theorem budget_tracked_charges :
    ∃ b, run budgetStep (start true 50000 none)
        [.read true, .charge 2, .sync, .charge 3, .read false] = some b ∧
      b.returned = some 10 ∧ b.Tracked := by
  have meets : Along budgetStep Meets (start true 50000 none)
      [.read true, .charge 2, .sync, .charge 3, .read false] := by
    refine (along_cons_of_step rfl).mpr ⟨.inr (.inl rfl), (along_cons_of_step rfl).mpr
      ⟨⟨.inl rfl, ?_⟩, (along_cons_of_step rfl).mpr ⟨trivial, (along_cons_of_step rfl).mpr
        ⟨⟨.inl ?_, ?_⟩, (along_cons_of_step rfl).mpr ⟨.inl ?_, trivial⟩⟩⟩⟩⟩
    all_goals decide +kernel
  obtain ⟨b, reached⟩ : ∃ b, run budgetStep (start true 50000 none)
      [.read true, .charge 2, .sync, .charge 3, .read false] = some b := ⟨_, rfl⟩
  refine ⟨b, reached, ?_, budget_tracked true 50000 none _ meets _ List.prefix_rfl b reached⟩
  cases reached
  decide +kernel

/-- A charge of 1 on a key that has used 5: after a sync and the end of the hash six million is
read; where the sync fails, 5 is; and a charge that finds no hash leaves the 1 alone. -/
theorem budget_units :
    (∃ b, run budgetStep (start true 50000 none)
        [.read true, .charge 1, .sync, .expire, .read true] = some b ∧ b.used = 6 ∧
      b.returned = some 6000000 ∧ ¬ b.Tracked) ∧
    (∃ b, run budgetStep (start false 50000 none)
        [.read true, .charge 1, .sync, .expire, .read true] = some b ∧ b.used = 6 ∧
      b.returned = some 5 ∧ ¬ b.Tracked) ∧
    ∃ b, run budgetStep (start true 50000 none) [.charge 1, .read true] = some b ∧ b.used = 6 ∧
      b.returned = some 1 ∧ ¬ b.Tracked := by
  refine ⟨⟨_, rfl, by decide +kernel, by decide +kernel, fun tracked => ?_⟩,
    ⟨_, rfl, by decide +kernel, by decide +kernel, fun tracked => ?_⟩,
    ⟨_, rfl, by decide +kernel, by decide +kernel, fun tracked => ?_⟩⟩
  · exact absurd (tracked.read 6000000 (by decide +kernel)) (by decide +kernel)
  · exact absurd (tracked.read 5 (by decide +kernel)) (by decide +kernel)
  · exact absurd (tracked.read 1 (by decide +kernel)) (by decide +kernel)

end Runs

end Deeting.ApiKeys
