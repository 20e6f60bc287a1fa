import Deeting.SortedSet
import Mathlib.Data.List.Induction
import Mathlib.Data.List.Nodup
import Mathlib.Logic.Function.Basic

/-! `sliding_window_rate_limit.lua`: every key has a sorted set of the requests admitted
on it, which the script prunes on arrival and lets expire as a whole; a call is admitted
on all of its keys or on none. Times are in milliseconds, windows in seconds. What was
admitted is kept beside the database, where no pruning reaches it. -/
namespace Deeting.RateLimit

structure Limits (Key : Type) where
  window : Key → ℕ
  limit : Key → ℕ

structure Call (Key Id : Type) where
  keys : List Key
  now : ℕ
  requestId : Id

/-- A key of the database; its members are `now:request_id`. -/
structure Slot (Id : Type) where
  set : SortedSet (ℕ × Id)
  expireAt : ℕ

inductive Reply where
  | rejected (index limit retryAfter : ℕ)
  | allowed (minRemaining : ℤ) (maxReset : ℕ)
  deriving DecidableEq, Repr

/-- `math.ceil(ms / 1000)`. -/
def ceilSeconds (ms : ℤ) : ℤ := -(-ms / 1000)

variable {Key Id : Type} [DecidableEq Key] [DecidableEq Id]

namespace Limits

def windowMs (lim : Limits Key) (key : Key) : ℕ := lim.window key * 1000

/-- The key after its `ZREMRANGEBYSCORE`; a key that has expired is empty. -/
def prune (lim : Limits Key) (now : ℕ) (key : Key) (slot : Slot Id) : Slot Id :=
  { slot with
    set := (if slot.expireAt ≤ now then SortedSet.empty else slot.set).removeRange 0
      (now - lim.windowMs key) }

def retryAfter (lim : Limits Key) (now : ℕ) (key : Key) (slot : Slot Id) : ℕ :=
  match slot.set.first? with
  | some (earliest, _) => (ceilSeconds (earliest + lim.windowMs key - now)).toNat
  | none => (ceilSeconds (lim.windowMs key)).toNat

/-- The check phase, from the key with the given index on. -/
def check (lim : Limits Key) (now : ℕ) :
    ℕ → List Key → (Key → Slot Id) → Option Reply × (Key → Slot Id)
  | _, [], db => (none, db)
  | index, key :: rest, db =>
      let slot := lim.prune now key (db key)
      let db := Function.update db key slot
      if lim.limit key ≤ slot.set.card then
        (some (.rejected index (lim.limit key) (lim.retryAfter now key slot)), db)
      else lim.check now (index + 1) rest db

/-- `ZADD` and `PEXPIRE`. -/
def add (lim : Limits Key) (now : ℕ) (requestId : Id) (key : Key) (slot : Slot Id) : Slot Id :=
  ⟨slot.set.insert now (now, requestId), now + lim.windowMs key⟩

/-- The commit phase, with `min_remaining` and `max_reset` so far. -/
def commit (lim : Limits Key) (now : ℕ) (requestId : Id) :
    List Key → ℤ → ℕ → (Key → Slot Id) → Reply × (Key → Slot Id)
  | [], minRemaining, maxReset, db => (.allowed minRemaining maxReset, db)
  | key :: rest, minRemaining, maxReset, db =>
      let slot := lim.add now requestId key (db key)
      let remaining : ℤ := lim.limit key - slot.set.card
      lim.commit now requestId rest
        (if minRemaining = -1 ∨ remaining < minRemaining then remaining else minRemaining)
        (if maxReset < lim.windowMs key / 1000 then lim.windowMs key / 1000 else maxReset)
        (Function.update db key slot)

def slidingWindow (lim : Limits Key) (call : Call Key Id) (db : Key → Slot Id) :
    Reply × (Key → Slot Id) :=
  match lim.check call.now 1 call.keys db with
  | (some reply, db) => (reply, db)
  | (none, db) => lim.commit call.now call.requestId call.keys (-1) 0 db

end Limits

structure Limiter (Key Id : Type) where
  db : Key → Slot Id
  admitted : Key → List (ℕ × Id)

def Limiter.initial : Limiter Key Id := ⟨fun _ => ⟨.empty, 0⟩, fun _ => []⟩

def Limiter.serve (lim : Limits Key) (s : Limiter Key Id) (call : Call Key Id) : Limiter Key Id :=
  match lim.slidingWindow call s.db with
  | (.rejected .., db) => { s with db }
  | (.allowed .., db) =>
      { db
        admitted := fun key =>
          if key ∈ call.keys then s.admitted key ++ [(call.now, call.requestId)]
          else s.admitted key }

def served (lim : Limits Key) (calls : List (Call Key Id)) : Limiter Key Id :=
  calls.foldl (Limiter.serve lim) .initial

/-- Times that do not decrease, distinct request ids, and distinct keys in a call. -/
structure Orderly (calls : List (Call Key Id)) : Prop where
  times : calls.Pairwise fun a b => a.now ≤ b.now
  ids : (calls.map Call.requestId).Nodup
  keys : ∀ call ∈ calls, call.keys.Nodup

/-- The call is rejected by the key, which is the one at the index of the reply. -/
def RejectedBy (lim : Limits Key) (call : Call Key Id) (db : Key → Slot Id) (key : Key)
    (retryAfter : ℕ) : Prop :=
  ∃ index limit, (lim.slidingWindow call db).1 = .rejected (index + 1) limit retryAfter ∧
    call.keys[index]? = some key

section Script
variable {lim : Limits Key} {now : ℕ} {db : Key → Slot Id}

omit [DecidableEq Key] [DecidableEq Id] in
theorem mem_prune {key : Key} {slot : Slot Id} {e : ℕ × ℕ × Id} :
    e ∈ (lim.prune now key slot).set.entries ↔
      e ∈ slot.set.entries ∧ now < slot.expireAt ∧ now < e.1 + lim.windowMs key := by
  simp only [Limits.prune, SortedSet.mem_removeRange]
  by_cases expired : slot.expireAt ≤ now
  · simp only [expired, if_true, SortedSet.empty, List.not_mem_nil, false_and, false_iff]
    omega
  · simp only [expired, if_false]
    constructor
    · rintro ⟨mem, kept⟩
      exact ⟨mem, by omega, by omega⟩
    · rintro ⟨mem, _, recent⟩
      exact ⟨mem, by omega⟩

omit [DecidableEq Id] in
theorem check_cases (lim : Limits Key) (now index : ℕ) {keys : List Key} (distinct : keys.Nodup)
    (db : Key → Slot Id) :
    (∃ i key, keys[i]? = some key ∧ lim.limit key ≤ (lim.prune now key (db key)).set.card ∧
      (lim.check now index keys db).1 = some (.rejected (index + i) (lim.limit key)
        (lim.retryAfter now key (lim.prune now key (db key)))) ∧
      (lim.check now index keys db).2 key = lim.prune now key (db key) ∧
      ∀ k, (lim.check now index keys db).2 k = db k ∨
        k ∈ keys ∧ (lim.check now index keys db).2 k = lim.prune now k (db k)) ∨
    ((lim.check now index keys db).1 = none ∧
      (∀ k ∈ keys, (lim.check now index keys db).2 k = lim.prune now k (db k) ∧
        (lim.prune now k (db k)).set.card < lim.limit k) ∧
      ∀ k, k ∉ keys → (lim.check now index keys db).2 k = db k) := by
  induction keys generalizing index db with
  | nil => exact .inr ⟨rfl, by simp, fun _ _ => rfl⟩
  | cons key rest ih =>
    obtain ⟨fresh, distinct⟩ := List.nodup_cons.mp distinct
    rw [Limits.check]
    by_cases full : lim.limit key ≤ (lim.prune now key (db key)).set.card
    · simp only [full, if_true]
      refine .inl ⟨0, key, rfl, full, rfl, Function.update_self .., fun k => ?_⟩
      by_cases same : k = key
      · subst same
        exact .inr ⟨List.mem_cons_self, Function.update_self ..⟩
      · exact .inl (Function.update_of_ne same ..)
    · simp only [full, if_false]
      have pruned (k : Key) (other : k ≠ key) :
          Function.update db key (lim.prune now key (db key)) k = db k :=
        Function.update_of_ne other ..
      have first : Function.update db key (lim.prune now key (db key)) key =
          lim.prune now key (db key) := Function.update_self ..
      rcases ih (index + 1) distinct (Function.update db key (lim.prune now key (db key))) with
        ⟨i, k, at_, card, reply, slot, others⟩ | ⟨reply, passed, others⟩
      · left
        have other : k ≠ key := by
          rintro rfl
          exact fresh (List.mem_of_getElem? at_)
        rw [pruned k other] at card reply slot
        refine ⟨i + 1, k, at_, card, ?_, slot, fun j => ?_⟩
        · rw [reply, Nat.add_right_comm, Nat.add_assoc]
        · by_cases same : j = key
          · subst same
            have kept := (others j).resolve_right fun twice => fresh twice.1
            exact .inr ⟨List.mem_cons_self, kept.trans first⟩
          · have same := others j
            rw [pruned j ‹_›] at same
            exact same.imp_right fun twice => ⟨List.mem_cons_of_mem _ twice.1, twice.2⟩
      · right
        refine ⟨reply, ?_, ?_⟩
        · intro k listed
          rcases List.mem_cons.mp listed with rfl | later
          · rw [others k fresh, first]
            exact ⟨rfl, by omega⟩
          · have other : k ≠ key := by
              rintro rfl
              exact fresh later
            simpa only [pruned k other] using passed k later
        · intro k absent
          rw [List.mem_cons, not_or] at absent
          rw [others k absent.2, pruned k absent.1]

theorem commit_spec (lim : Limits Key) (now : ℕ) (requestId : Id) {keys : List Key}
    (distinct : keys.Nodup) (minRemaining : ℤ) (maxReset : ℕ) (db : Key → Slot Id) :
    (∃ a b, (lim.commit now requestId keys minRemaining maxReset db).1 = .allowed a b) ∧
    ∀ k, (lim.commit now requestId keys minRemaining maxReset db).2 k =
      if k ∈ keys then lim.add now requestId k (db k) else db k := by
  induction keys generalizing minRemaining maxReset db with
  | nil => exact ⟨⟨minRemaining, maxReset, rfl⟩, fun k => rfl⟩
  | cons key rest ih =>
    obtain ⟨fresh, distinct⟩ := List.nodup_cons.mp distinct
    rw [Limits.commit]
    obtain ⟨reply, slots⟩ := ih distinct _ _ (Function.update db key
      (lim.add now requestId key (db key)))
    refine ⟨reply, fun k => ?_⟩
    rw [slots k]
    by_cases same : k = key
    · subst same
      simp [fresh]
    · simp [same]

variable {call : Call Key Id}

/-- A call is rejected by one of its keys, with nothing added anywhere, or finds room in
all of them and is added to all. -/
theorem slidingWindow_cases (lim : Limits Key) (distinct : call.keys.Nodup)
    (db : Key → Slot Id) :
    (∃ i key, call.keys[i]? = some key ∧
      lim.limit key ≤ (lim.prune call.now key (db key)).set.card ∧
      (lim.slidingWindow call db).1 = .rejected (i + 1) (lim.limit key)
        (lim.retryAfter call.now key (lim.prune call.now key (db key))) ∧
      (lim.slidingWindow call db).2 key = lim.prune call.now key (db key) ∧
      ∀ k, (lim.slidingWindow call db).2 k = db k ∨
        (lim.slidingWindow call db).2 k = lim.prune call.now k (db k)) ∨
    ((∃ a b, (lim.slidingWindow call db).1 = .allowed a b) ∧
      (∀ k ∈ call.keys, (lim.prune call.now k (db k)).set.card < lim.limit k ∧
        (lim.slidingWindow call db).2 k =
          lim.add call.now call.requestId k (lim.prune call.now k (db k))) ∧
      ∀ k, k ∉ call.keys → (lim.slidingWindow call db).2 k = db k) := by
  rw [Limits.slidingWindow]
  cases checked : lim.check call.now 1 call.keys db with
  | mk reply after =>
    rcases check_cases lim call.now 1 distinct db with
      ⟨i, key, at_, card, rejected, slot, others⟩ | ⟨passed, slots, others⟩
    · rw [checked] at rejected slot others
      cases rejected
      refine .inl ⟨i, key, at_, card, by rw [Nat.add_comm], slot, fun k => ?_⟩
      exact (others k).imp_right And.right
    · rw [checked] at passed slots others
      cases passed
      obtain ⟨allowed, added⟩ := commit_spec lim call.now call.requestId distinct (-1) 0 after
      refine .inr ⟨allowed, fun k mem => ⟨(slots k mem).2, ?_⟩, fun k absent => ?_⟩
      · rw [added k, if_pos mem]
        exact congrArg _ (slots k mem).1
      · rw [added k, if_neg absent]
        exact others k absent

theorem rejectedBy_full {key : Key} {retryAfter : ℕ} (distinct : call.keys.Nodup)
    (rejected : RejectedBy lim call db key retryAfter) :
    lim.limit key ≤ (lim.prune call.now key (db key)).set.card ∧
      retryAfter = lim.retryAfter call.now key (lim.prune call.now key (db key)) ∧
      (lim.slidingWindow call db).2 key = lim.prune call.now key (db key) := by
  obtain ⟨index, limit, reply, at_⟩ := rejected
  rcases slidingWindow_cases lim distinct db with
    ⟨i, k, here, card, reply', slot, _⟩ | ⟨⟨a, b, allowed⟩, _⟩
  · rw [reply] at reply'
    simp only [Reply.rejected.injEq, Nat.add_right_cancel_iff] at reply'
    obtain ⟨rfl, rfl, rfl⟩ := reply'
    rw [at_] at here
    cases here
    exact ⟨card, rfl, slot⟩
  · rw [reply] at allowed
    cases allowed

end Script

section Runs
variable {lim : Limits Key} {past : List (Call Key Id)} {call : Call Key Id} {k : Key}
  {admitted : List (ℕ × Id)} {slot : Slot Id}

/-- The set of a key holds requests admitted on it only, among them all that are in the
window at any time from the latest call on. -/
structure Tracks (lim : Limits Key) (past : List (Call Key Id)) (k : Key)
    (admitted : List (ℕ × Id)) (slot : Slot Id) : Prop where
  known : ∀ m ∈ admitted, ∃ c ∈ past, m = (c.now, c.requestId)
  distinct : admitted.Nodup
  entries : ∀ e ∈ slot.set.entries, e.2 ∈ admitted
  kept : ∀ m ∈ admitted, ∀ now, (∀ c ∈ past, c.now ≤ now) → now < m.1 + lim.windowMs k →
    (m.1, m) ∈ slot.set.entries ∧ now < slot.expireAt
  bounded : slot.set.card ≤ lim.limit k
  windowed : ∀ t, (admitted.filter fun m => t < m.1 + lim.windowMs k ∧ m.1 ≤ t).length ≤
    lim.limit k

omit [DecidableEq Key] [DecidableEq Id] in
theorem tracks_initial (lim : Limits Key) (k : Key) :
    Tracks lim [] k ([] : List (ℕ × Id)) ⟨.empty, 0⟩ := by
  constructor <;> simp [SortedSet.empty, SortedSet.card]

omit [DecidableEq Key] [DecidableEq Id] in
theorem Tracks.idle (tracks : Tracks lim past k admitted slot) (call : Call Key Id) :
    Tracks lim (past ++ [call]) k admitted slot := by
  obtain ⟨known, distinct, entries, kept, bounded, windowed⟩ := tracks
  refine ⟨fun m mem => ?_, distinct, entries, fun m mem now after => ?_, bounded, windowed⟩
  · obtain ⟨c, listed, same⟩ := known m mem
    exact ⟨c, List.mem_append_left _ listed, same⟩
  · exact kept m mem now fun c listed => after c (List.mem_append_left _ listed)

omit [DecidableEq Key] [DecidableEq Id] in
theorem Tracks.prune (tracks : Tracks lim past k admitted slot)
    (times : ∀ c ∈ past, c.now ≤ call.now) :
    Tracks lim (past ++ [call]) k admitted (lim.prune call.now k slot) := by
  obtain ⟨known, distinct, entries, _, bounded, windowed⟩ := tracks.idle call
  refine ⟨known, distinct, ?_, ?_, ?_, windowed⟩
  · intro e mem
    exact entries e (mem_prune.mp mem).1
  · intro m mem now after recent
    have order : call.now ≤ now := after call (by simp)
    obtain ⟨entry, alive⟩ := tracks.kept m mem now (fun c listed => (times c listed).trans order)
      recent
    exact ⟨mem_prune.mpr ⟨entry, by omega, by omega⟩, alive⟩
  · refine le_trans ?_ bounded
    rw [Limits.prune]
    split
    · exact (SortedSet.card_removeRange_le _ _).trans (Nat.zero_le _)
    · exact SortedSet.card_removeRange_le _ _

omit [DecidableEq Key] [DecidableEq Id] in
/-- What is in a window together with a request that is let in was in the pruned set. -/
theorem Tracks.windowed_add (tracks : Tracks lim past k admitted slot)
    (times : ∀ c ∈ past, c.now ≤ call.now)
    (room : (lim.prune call.now k slot).set.card < lim.limit k) (t : ℕ) :
    ((admitted ++ [(call.now, call.requestId)]).filter fun m =>
      t < m.1 + lim.windowMs k ∧ m.1 ≤ t).length ≤ lim.limit k := by
  rw [List.filter_append, List.length_append]
  by_cases now : t < call.now + lim.windowMs k ∧ call.now ≤ t
  · have distinct : ((admitted.filter fun m => t < m.1 + lim.windowMs k ∧ m.1 ≤ t).map
        fun m => (m.1, m)).Nodup := by
      refine (tracks.distinct.filter _).map ?_
      intro m n same
      exact congrArg Prod.snd same
    have within : ∀ e ∈ (admitted.filter fun m => t < m.1 + lim.windowMs k ∧ m.1 ≤ t).map
        (fun m => (m.1, m)), e ∈ (lim.prune call.now k slot).set.entries := by
      intro e mem
      obtain ⟨m, listed, rfl⟩ := List.mem_map.mp mem
      simp only [List.mem_filter, decide_eq_true_eq] at listed
      have latest : ∀ c ∈ past ++ [call], c.now ≤ t := by
        intro c mem
        rcases List.mem_append.mp mem with mem | mem
        · exact (times c mem).trans now.2
        · exact List.mem_singleton.mp mem ▸ now.2
      exact ((tracks.prune times).kept m listed.1 t latest listed.2.1).1
    have count := SortedSet.length_le_card distinct within
    rw [List.length_map] at count
    have one := List.length_filter_le (fun m : ℕ × Id =>
      decide (t < m.1 + lim.windowMs k ∧ m.1 ≤ t)) [(call.now, call.requestId)]
    rw [List.length_singleton] at one
    omega
  · have none : [(call.now, call.requestId)].filter (fun m =>
        decide (t < m.1 + lim.windowMs k ∧ m.1 ≤ t)) = [] := by
      simpa using now
    rw [none]
    exact tracks.windowed t

omit [DecidableEq Key] in
theorem Tracks.add (tracks : Tracks lim past k admitted slot)
    (times : ∀ c ∈ past, c.now ≤ call.now) (fresh : ∀ c ∈ past, c.requestId ≠ call.requestId)
    (room : (lim.prune call.now k slot).set.card < lim.limit k) :
    Tracks lim (past ++ [call]) k (admitted ++ [(call.now, call.requestId)])
      (lim.add call.now call.requestId k (lim.prune call.now k slot)) := by
  have unused {m : ℕ × Id} (mem : m ∈ admitted) : m ≠ (call.now, call.requestId) := by
    obtain ⟨c, listed, rfl⟩ := tracks.known m mem
    intro same
    exact fresh c listed (congrArg Prod.snd same)
  have older {m : ℕ × Id} (mem : m ∈ admitted) : m.1 ≤ call.now := by
    obtain ⟨c, listed, rfl⟩ := tracks.known m mem
    exact times c listed
  have pruned := tracks.prune times
  constructor
  · intro m mem
    rcases List.mem_append.mp mem with mem | mem
    · exact pruned.known m mem
    · exact ⟨call, by simp, List.mem_singleton.mp mem⟩
  · rw [List.nodup_append]
    refine ⟨tracks.distinct, List.nodup_singleton _, fun m mem n new => ?_⟩
    rw [List.mem_singleton.mp new]
    exact unused mem
  · intro e mem
    rcases SortedSet.mem_insert.mp mem with rfl | ⟨mem, _⟩
    · exact List.mem_append_right _ (List.mem_singleton_self _)
    · exact List.mem_append_left _ (pruned.entries e mem)
  · intro m mem now after recent
    rcases List.mem_append.mp mem with mem | mem
    · obtain ⟨entry, _⟩ := pruned.kept m mem now after recent
      have order := older mem
      refine ⟨SortedSet.mem_insert.mpr (.inr ⟨entry, unused mem⟩), ?_⟩
      simp only [Limits.add]
      omega
    · rw [List.mem_singleton.mp mem] at recent ⊢
      exact ⟨SortedSet.mem_insert.mpr (.inl rfl), recent⟩
  · have new : ∀ e ∈ (lim.prune call.now k slot).set.entries,
        e.2 ≠ (call.now, call.requestId) := fun e mem => unused (pruned.entries e mem)
    simp only [Limits.add, SortedSet.card_insert_of_fresh new]
    omega
  · exact tracks.windowed_add times room

variable {s : Limiter Key Id}

theorem serve_cases (lim : Limits Key) (s : Limiter Key Id) (distinct : call.keys.Nodup) (k : Key) :
    ((s.serve lim call).admitted k = s.admitted k ∧
      ((s.serve lim call).db k = s.db k ∨
        (s.serve lim call).db k = lim.prune call.now k (s.db k))) ∨
    ((lim.prune call.now k (s.db k)).set.card < lim.limit k ∧
      (s.serve lim call).admitted k = s.admitted k ++ [(call.now, call.requestId)] ∧
      (s.serve lim call).db k =
        lim.add call.now call.requestId k (lim.prune call.now k (s.db k))) := by
  rw [Limiter.serve]
  cases answered : lim.slidingWindow call s.db with
  | mk reply db =>
    rcases slidingWindow_cases lim distinct s.db with
      ⟨i, key, _, _, rejected, _, slots⟩ | ⟨⟨a, b, allowed⟩, added, others⟩
    · rw [answered] at rejected slots
      cases rejected
      exact .inl ⟨rfl, slots k⟩
    · rw [answered] at allowed added others
      cases allowed
      by_cases named : k ∈ call.keys
      · exact .inr ⟨(added k named).1, by simp only [if_pos named], (added k named).2⟩
      · exact .inl ⟨by simp only [if_neg named], .inl (others k named)⟩

theorem served_concat (lim : Limits Key) (past : List (Call Key Id)) (call : Call Key Id) :
    served lim (past ++ [call]) = (served lim past).serve lim call := by
  rw [served, List.foldl_append]
  rfl

theorem tracks_served (lim : Limits Key) {calls : List (Call Key Id)} (orderly : Orderly calls)
    (k : Key) : Tracks lim calls k ((served lim calls).admitted k) ((served lim calls).db k) := by
  induction calls using List.reverseRecOn with
  | nil => exact tracks_initial lim k
  | append_singleton past call ih =>
    obtain ⟨times, ids, keys⟩ := orderly
    obtain ⟨earlier, _, order⟩ := List.pairwise_append.mp times
    rw [List.map_append, List.nodup_append] at ids
    have tracks := ih ⟨earlier, ids.1, fun c mem => keys c (List.mem_append_left _ mem)⟩
    have times : ∀ c ∈ past, c.now ≤ call.now := fun c mem => order c mem call (by simp)
    have fresh : ∀ c ∈ past, c.requestId ≠ call.requestId :=
      fun c mem => ids.2.2 _ (List.mem_map_of_mem mem) _ (by simp)
    rw [served_concat]
    rcases serve_cases lim (served lim past) (keys call (by simp)) k with
      ⟨same, kept | pruned⟩ | ⟨room, admitted, slot⟩
    · rw [same, kept]
      exact tracks.idle call
    · rw [same, pruned]
      exact tracks.prune times
    · rw [admitted, slot]
      exact tracks.add times fresh room

theorem entries_of_not_admitted (lim : Limits Key) (calls : List (Call Key Id))
    (keys : ∀ c ∈ calls, c.keys.Nodup) (s : Limiter Key Id) (k : Key) :
    s.admitted k <+: (calls.foldl (Limiter.serve lim) s).admitted k ∧
    ((calls.foldl (Limiter.serve lim) s).admitted k = s.admitted k →
      ∀ e ∈ ((calls.foldl (Limiter.serve lim) s).db k).set.entries, e ∈ (s.db k).set.entries) := by
  induction calls generalizing s with
  | nil => exact ⟨List.prefix_rfl, fun _ e mem => mem⟩
  | cons c rest ih =>
    obtain ⟨first, keys⟩ := List.forall_mem_cons.mp keys
    obtain ⟨grows, adds⟩ := ih keys (s.serve lim c)
    rw [List.foldl_cons]
    rcases serve_cases lim s first k with ⟨same, slot⟩ | ⟨_, admitted, _⟩
    · refine ⟨same ▸ grows, fun none e mem => ?_⟩
      have mem := adds (none.trans same.symm) e mem
      rcases slot with kept | pruned
      · rwa [kept] at mem
      · rw [pruned] at mem
        exact (mem_prune.mp mem).1
    · have longer : s.admitted k <+: (s.serve lim c).admitted k := admitted ▸ List.prefix_append ..
      refine ⟨longer.trans grows, fun none => ?_⟩
      have lengths := grows.length_le
      rw [none, admitted, List.length_append, List.length_singleton] at lengths
      omega

omit [DecidableEq Key] [DecidableEq Id] in
theorem retry_finds_room {now later retryAfter : ℕ} {after : Slot Id}
    (bounded : (lim.prune now k slot).set.card ≤ lim.limit k)
    (full : lim.limit k ≤ (lim.prune now k slot).set.card) (positive : 0 < lim.limit k)
    (announced : retryAfter = lim.retryAfter now k (lim.prune now k slot))
    (waited : now + 1000 * retryAfter ≤ later)
    (within : ∀ e ∈ after.set.entries, e ∈ (lim.prune now k slot).set.entries) :
    (lim.prune later k after).set.card < lim.limit k := by
  cases first : (lim.prune now k slot).set.first? with
  | none =>
    have empty : (lim.prune now k slot).set.entries = [] := List.head?_eq_none_iff.mp first
    simp only [SortedSet.card, empty, List.length_nil] at full
    omega
  | some e =>
    obtain ⟨mem, _⟩ := SortedSet.le_of_first first
    have gone : e ∉ (lim.prune later k after).set.entries := by
      intro kept
      have recent := (mem_prune.mp kept).2.2
      simp only [Limits.retryAfter, first, ceilSeconds] at announced
      omega
    have distinct : (e :: (lim.prune later k after).set.entries).Nodup :=
      List.nodup_cons.mpr ⟨gone, (lim.prune later k after).set.once.of_map _⟩
    have count := SortedSet.length_le_card distinct fun d listed => by
      rcases List.mem_cons.mp listed with rfl | listed
      · exact mem
      · exact within d (mem_prune.mp listed).1
    rw [List.length_cons] at count
    simp only [SortedSet.card] at count bounded ⊢
    omega

/-- The limiter over any orderly sequence of calls: no window ever holds more admissions
than the limit of its key, a rejected call adds nothing, and a key that admits anything
does not reject after the announced time, if nothing was admitted on it meanwhile. -/
theorem slidingWindow_limits (lim : Limits Key) (calls : List (Call Key Id))
    (orderly : Orderly calls) :
    (∀ k t, (((served lim calls).admitted k).filter fun m =>
      t < m.1 + lim.windowMs k ∧ m.1 ≤ t).length ≤ lim.limit k) ∧
    (∀ before c rest, calls = before ++ c :: rest → ∀ index limit retryAfter,
      (lim.slidingWindow c (served lim before).db).1 = .rejected index limit retryAfter →
      ∀ k, ∀ e ∈ ((served lim (before ++ [c])).db k).set.entries,
        e ∈ ((served lim before).db k).set.entries) ∧
    ∀ before c between later rest k retryAfter,
      calls = before ++ c :: between ++ later :: rest → 0 < lim.limit k →
      RejectedBy lim c (served lim before).db k retryAfter →
      (served lim (before ++ c :: between)).admitted k = (served lim (before ++ [c])).admitted k →
      c.now + 1000 * retryAfter ≤ later.now →
      ¬ ∃ again, RejectedBy lim later (served lim (before ++ c :: between)).db k again := by
  refine ⟨fun k => (tracks_served lim orderly k).windowed, ?_, ?_⟩
  · rintro before c rest rfl index limit retryAfter rejected k e mem
    have keys := orderly.keys c (by simp)
    have pruned : (served lim (before ++ [c])).db k = (served lim before).db k ∨
        (served lim (before ++ [c])).db k = lim.prune c.now k ((served lim before).db k) := by
      rw [served_concat, Limiter.serve]
      rcases slidingWindow_cases lim keys (served lim before).db with
        ⟨_, _, _, _, _, _, slots⟩ | ⟨⟨a, b, allowed⟩, _⟩
      · cases answered : lim.slidingWindow c (served lim before).db with
        | mk reply db =>
          rw [answered] at rejected slots
          cases rejected
          exact slots k
      · rw [rejected] at allowed
        cases allowed
    rcases pruned with same | pruned
    · rwa [same] at mem
    · rw [pruned] at mem
      exact (mem_prune.mp mem).1
  · rintro before c between later rest k retryAfter rfl positive rejected idle waited ⟨again, late⟩
    have orderly' : Orderly (before ++ [c]) := by
      obtain ⟨times, ids, keys⟩ := orderly
      have split : before ++ c :: between ++ later :: rest =
          before ++ [c] ++ (between ++ later :: rest) := by simp
      rw [split] at times ids keys
      refine ⟨(List.pairwise_append.mp times).1, ?_, fun d mem => keys d (List.mem_append_left _ mem)⟩
      rw [List.map_append, List.nodup_append] at ids
      exact ids.1
    have bounded := (tracks_served lim orderly' k).bounded
    obtain ⟨full, announced, slot⟩ := rejectedBy_full (orderly.keys c (by simp)) rejected
    obtain ⟨still, _, _⟩ := rejectedBy_full (orderly.keys later (by simp)) late
    have after : (served lim (before ++ [c])).db k =
        lim.prune c.now k ((served lim before).db k) := by
      rw [served_concat, Limiter.serve, ← slot]
      split <;> rename_i answered <;> rw [answered]
    have resumed : served lim (before ++ c :: between) =
        between.foldl (Limiter.serve lim) (served lim (before ++ [c])) := by
      simp only [served, ← List.foldl_append, List.append_assoc, List.singleton_append]
    rw [resumed] at idle still
    have within := (entries_of_not_admitted lim between
      (fun d mem => orderly.keys d (by simp [mem])) (served lim (before ++ [c])) k).2 idle
    rw [after] at bounded within
    have room := retry_finds_room bounded full positive announced waited within
    omega

def minute (limit : ℕ) : Limits Unit := ⟨fun _ => 60, fun _ => limit⟩

/-- With a limit of 1 the second call is told to wait a second, and is let in then. -/
theorem slidingWindow_limits_minute :
    RejectedBy (minute 1) ⟨[()], 59000, 1⟩ (served (minute 1) [⟨[()], 0, 0⟩]).db () 1 ∧
    ¬ ∃ again, RejectedBy (minute 1) ⟨[()], 60000, 2⟩
      (served (minute 1) [⟨[()], 0, 0⟩, ⟨[()], 59000, 1⟩]).db () again := by
  have orderly : Orderly ([⟨[()], 0, 0⟩, ⟨[()], 59000, 1⟩, ⟨[()], 60000, 2⟩] : List (Call Unit ℕ)) :=
    ⟨by decide, by decide, by decide⟩
  have rejected : RejectedBy (minute 1) ⟨[()], 59000, 1⟩
      (served (minute 1) [⟨[()], 0, 0⟩]).db () 1 := ⟨0, 1, by decide +kernel, rfl⟩
  exact ⟨rejected, (slidingWindow_limits (minute 1) _ orderly).2.2 [⟨[()], 0, 0⟩] ⟨[()], 59000, 1⟩
    [] ⟨[()], 60000, 2⟩ [] () 1 rfl (by decide) rejected (by decide +kernel) (by decide)⟩

/-- A limit of 0 rejects after the announced time as well. -/
theorem slidingWindow_never_admits :
    RejectedBy (minute 0) ⟨[()], 0, 0⟩ (served (minute 0) ([] : List (Call Unit ℕ))).db () 60 ∧
    ∃ again, RejectedBy (minute 0) ⟨[()], 0 + 1000 * 60, 1⟩
      (served (minute 0) [⟨[()], 0, 0⟩]).db () again :=
  ⟨⟨0, 0, by decide +kernel, rfl⟩, 60, 0, 0, by decide +kernel, rfl⟩

end Runs

end Deeting.RateLimit
