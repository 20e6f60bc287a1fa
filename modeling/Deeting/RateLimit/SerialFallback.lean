import Deeting.RateLimit.SlidingWindow
import Deeting.Transition

/-! `_check_rpm_fallback_redis_serial` beside the script it stands in for. Both serve the same
requests from the same sorted sets, each on its own database. What is compared is what is
alive in a key: the scores in the window, and the time at which the key expires. -/
namespace Deeting.RateLimit
open Transition

variable {Key Id : Type} [DecidableEq Key] [DecidableEq Id]

def Reply.admits : Reply → Bool
  | .allowed .. => true
  | .rejected .. => false

namespace Limits

/-- `_check_rpm_fallback_redis_serial`, from the key with the given index on, with `min_rem` so
far; the member is `now:fallback`. -/
def serial (lim : Limits Key) (now : ℕ) (fallback : Id) :
    ℕ → ℤ → List Key → (Key → Slot Id) → Reply × (Key → Slot Id)
  | _, minRem, [], db => (.allowed minRem 0, db)
  | index, minRem, key :: rest, db =>
      let slot := lim.prune now key (db key)
      if lim.limit key ≤ slot.set.card then
        (.rejected index (lim.limit key) (lim.window key), Function.update db key slot)
      else
        let rem : ℤ := lim.limit key - slot.set.card - 1
        lim.serial now fallback (index + 1) (if minRem = -1 ∨ rem < minRem then rem else minRem)
          rest (Function.update db key (lim.add now fallback key slot))

def count (lim : Limits Key) (now : ℕ) (key : Key) (slot : Slot Id) : ℕ :=
  (lim.prune now key slot).set.card

def Full (lim : Limits Key) (now : ℕ) (db : Key → Slot Id) (key : Key) : Prop :=
  lim.limit key ≤ lim.count now key (db key)

instance (lim : Limits Key) (now : ℕ) (db : Key → Slot Id) (key : Key) :
    Decidable (lim.Full now db key) :=
  inferInstanceAs (Decidable (_ ≤ _))

def Rewrites (lim : Limits Key) (now : ℕ) (fallback : Id) (key : Key) (slot : Slot Id) : Prop :=
  (lim.windowMs key = 0 ∧ lim.count now key slot = 0) ∨
    ((now, (now, fallback)) ∈ (lim.prune now key slot).set.entries ∧
      slot.expireAt = now + lim.windowMs key)

instance (lim : Limits Key) (now : ℕ) (fallback : Id) (key : Key) (slot : Slot Id) :
    Decidable (lim.Rewrites now fallback key slot) :=
  inferInstanceAs (Decidable (_ ∨ _))

def Unwritten (lim : Limits Key) (now : ℕ) (fallback : Id) (key : Key) (slot : Slot Id) : Prop :=
  lim.windowMs key = 0 ∨ ∀ e ∈ (lim.prune now key slot).set.entries, e.2 ≠ (now, fallback)

instance (lim : Limits Key) (now : ℕ) (fallback : Id) (key : Key) (slot : Slot Id) :
    Decidable (lim.Unwritten now fallback key slot) :=
  inferInstanceAs (Decidable (_ ∨ _))

end Limits

structure Twin (Key Id : Type) where
  script : Key → Slot Id
  serial : Key → Slot Id

namespace Twin

variable (lim : Limits Key) (fallback : Id) (s : Twin Key Id) (call : Call Key Id)

def replies : Reply × Reply :=
  ((lim.slidingWindow call s.script).1,
    (lim.serial call.now fallback 1 (-1) call.keys s.serial).1)

def serve : Twin Key Id where
  script := (lim.slidingWindow call s.script).2
  serial := (lim.serial call.now fallback 1 (-1) call.keys s.serial).2

structure Agrees : Prop where
  decision : (s.replies lim fallback call).2.admits = (s.replies lim fallback call).1.admits
  counts : ∀ k, lim.count call.now k ((s.serve lim fallback call).serial k) =
    lim.count call.now k ((s.serve lim fallback call).script k)
  consumed : (s.replies lim fallback call).2.admits = false →
    ∀ k, lim.count call.now k ((s.serve lim fallback call).serial k) =
      lim.count call.now k (s.serial k)

/-- What the fallback writes before a key that rejects changes nothing, and what it writes of
an admitted request is new. -/
structure Unspoiled : Prop where
  rejected : (∃ key ∈ call.keys, lim.Full call.now s.serial key) →
    ∀ key ∈ call.keys.takeWhile (fun key => ¬ lim.Full call.now s.serial key),
      lim.Rewrites call.now fallback key (s.serial key)
  admitted : (∀ key ∈ call.keys, ¬ lim.Full call.now s.serial key) →
    ∀ key ∈ call.keys, lim.Unwritten call.now fallback key (s.serial key)

instance : Decidable (s.Unspoiled lim fallback call) :=
  decidable_of_iff (_ ∧ _) ⟨fun ⟨rejected, admitted⟩ => ⟨rejected, admitted⟩,
    fun ⟨rejected, admitted⟩ => ⟨rejected, admitted⟩⟩

end Twin

section Serial

variable {lim : Limits Key} {now : ℕ} {fallback : Id}

inductive Serves (lim : Limits Key) (now : ℕ) (fallback : Id) (keys : List Key)
    (db : Key → Slot Id) : Reply × (Key → Slot Id) → Prop where
  | rejects {before after : List Key} {key : Key} {index limit window : ℕ}
      {left : Key → Slot Id} (split : keys = before ++ key :: after)
      (room : ∀ k ∈ before, ¬ lim.Full now db k) (full : lim.Full now db key)
      (written : ∀ k ∈ before, left k = lim.add now fallback k (lim.prune now k (db k)))
      (pruned : left key = lim.prune now key (db key))
      (others : ∀ k, k ∉ before → k ≠ key → left k = db k) :
      Serves lim now fallback keys db (.rejected index limit window, left)
  | admits {minRem : ℤ} {left : Key → Slot Id} (room : ∀ k ∈ keys, ¬ lim.Full now db k)
      (written : ∀ k ∈ keys, left k = lim.add now fallback k (lim.prune now k (db k)))
      (others : ∀ k, k ∉ keys → left k = db k) :
      Serves lim now fallback keys db (.allowed minRem 0, left)

omit [DecidableEq Id] in
theorem full_update {db : Key → Slot Id} {key k : Key} {slot : Slot Id} (other : k ≠ key) :
    lim.Full now (Function.update db key slot) k ↔ lim.Full now db k := by
  rw [Limits.Full, Limits.Full, Function.update_of_ne other]

theorem serial_serves (lim : Limits Key) (now : ℕ) (fallback : Id) (index : ℕ) (minRem : ℤ)
    {keys : List Key} (distinct : keys.Nodup) (db : Key → Slot Id) :
    Serves lim now fallback keys db (lim.serial now fallback index minRem keys db) := by
  induction keys generalizing index minRem db with
  | nil => exact .admits (by simp) (by simp) fun _ _ => rfl
  | cons key rest ih =>
    obtain ⟨fresh, distinct⟩ := List.nodup_cons.mp distinct
    rw [Limits.serial]
    by_cases full : lim.limit key ≤ (lim.prune now key (db key)).set.card
    · simp only [full, if_true]
      refine .rejects (List.nil_append _).symm (by simp) full (by simp) (Function.update_self ..) ?_
      intro k _ other
      exact Function.update_of_ne other ..
    · simp only [full, if_false]
      have other {k : Key} (mem : k ∈ rest) : k ≠ key := by
        rintro rfl
        exact fresh mem
      let rem : ℤ := lim.limit key - (lim.prune now key (db key)).set.card - 1
      have serves := ih (index + 1) (if minRem = -1 ∨ rem < minRem then rem else minRem) distinct
        (Function.update db key (lim.add now fallback key (lim.prune now key (db key))))
      generalize lim.serial now fallback (index + 1) _ rest _ = ran at serves ⊢
      cases serves with
      | @rejects before after k i l w left split room full' written pruned others =>
        have within {j : Key} (mem : j ∈ before) : j ≠ key := other (by simp [split, mem])
        have late : k ≠ key := other (by simp [split])
        refine .rejects (split.symm ▸ (List.cons_append (a := key)).symm) ?_
          ((full_update late).mp full') ?_ ?_ ?_
        · intro j mem
          rcases List.mem_cons.mp mem with rfl | mem
          · exact full
          · rw [← full_update (within mem)]
            exact room j mem
        · intro j mem
          rcases List.mem_cons.mp mem with rfl | mem
          · have absent : j ∉ before := fun twice => within twice rfl
            rw [others j absent late.symm, Function.update_self]
          · rw [written j mem, Function.update_of_ne (within mem)]
        · rw [pruned, Function.update_of_ne late]
        · intro j absent different
          rw [List.mem_cons, not_or] at absent
          rw [others j absent.2 different, Function.update_of_ne absent.1]
      | @admits minRem left room written others =>
        refine .admits ?_ ?_ ?_
        · intro j mem
          rcases List.mem_cons.mp mem with rfl | mem
          · exact full
          · rw [← full_update (other mem)]
            exact room j mem
        · intro j mem
          rcases List.mem_cons.mp mem with rfl | mem
          · rw [others j fresh, Function.update_self]
          · rw [written j mem, Function.update_of_ne (other mem)]
        · intro j absent
          rw [List.mem_cons, not_or] at absent
          rw [others j absent.2, Function.update_of_ne absent.1]

end Serial

section Scores

variable {lim : Limits Key} {now future : ℕ} {key : Key} {a b slot : Slot Id} {id id' : Id}

def scores (lim : Limits Key) (now : ℕ) (key : Key) (slot : Slot Id) : List ℕ :=
  (lim.prune now key slot).set.entries.map Prod.fst

structure Alike (lim : Limits Key) (now : ℕ) (key : Key) (a b : Slot Id) : Prop where
  scores : scores lim now key a = scores lim now key b
  expireAt : RateLimit.scores lim now key a ≠ [] → a.expireAt = b.expireAt

omit [DecidableEq Key] [DecidableEq Id] in
theorem count_eq_length : lim.count now key slot = (scores lim now key slot).length := by
  rw [Limits.count, SortedSet.card, scores, List.length_map]

omit [DecidableEq Key] [DecidableEq Id] in
theorem scores_eq : scores lim now key slot =
    if slot.expireAt ≤ now then []
    else (slot.set.entries.map Prod.fst).filter fun score => now < score + lim.windowMs key := by
  rw [scores, Limits.prune]
  split
  · rfl
  · rw [SortedSet.removeRange, List.filter_map]
    congr 1
    apply List.filter_congr
    intro e _
    simp only [Function.comp_apply, decide_eq_decide]
    omega

omit [DecidableEq Key] [DecidableEq Id] in
theorem scores_of_expired (expired : slot.expireAt ≤ now) : scores lim now key slot = [] := by
  rw [scores_eq, if_pos expired]

omit [DecidableEq Key] [DecidableEq Id] in
theorem scores_later (forward : now ≤ future) : scores lim future key slot =
    if slot.expireAt ≤ future then []
    else (scores lim now key slot).filter fun score => future < score + lim.windowMs key := by
  rw [scores_eq]
  by_cases expired : slot.expireAt ≤ future
  · rw [if_pos expired, if_pos expired]
  · rw [if_neg expired, if_neg expired, scores_eq, if_neg (by omega), List.filter_filter]
    apply List.filter_congr
    intro score _
    rw [← Bool.decide_and, decide_eq_decide]
    omega

omit [DecidableEq Key] [DecidableEq Id] in
theorem scores_prune : scores lim now key (lim.prune now key slot) = scores lim now key slot := by
  rw [scores_eq]
  by_cases expired : slot.expireAt ≤ now
  · rw [if_pos (by exact expired), scores_of_expired expired]
  · rw [if_neg (by exact expired), List.filter_eq_self.mpr]
    · rfl
    · intro score mem
      obtain ⟨e, listed, rfl⟩ := List.mem_map.mp mem
      exact decide_eq_true (mem_prune.mp listed).2.2

omit [DecidableEq Key] [DecidableEq Id] in
theorem Alike.refl (lim : Limits Key) (now : ℕ) (key : Key) (slot : Slot Id) :
    Alike lim now key slot slot :=
  ⟨rfl, fun _ => rfl⟩

omit [DecidableEq Key] [DecidableEq Id] in
theorem Alike.symm (alike : Alike lim now key a b) : Alike lim now key b a := by
  constructor
  · exact alike.scores.symm
  · intro some_
    rw [← alike.scores] at some_
    exact (alike.expireAt some_).symm

omit [DecidableEq Key] [DecidableEq Id] in
theorem Alike.trans {c : Slot Id} (first : Alike lim now key a b) (second : Alike lim now key b c) :
    Alike lim now key a c := by
  constructor
  · exact first.scores.trans second.scores
  · intro some_
    have between := some_
    rw [first.scores] at between
    exact (first.expireAt some_).trans (second.expireAt between)

omit [DecidableEq Key] [DecidableEq Id] in
theorem Alike.later (alike : Alike lim now key a b) (forward : now ≤ future) :
    Alike lim future key a b := by
  by_cases empty : RateLimit.scores lim now key a = []
  · have other : RateLimit.scores lim now key b = [] := alike.scores ▸ empty
    have none : RateLimit.scores lim future key a = [] := by
      rw [scores_later forward, empty]
      simp
    have none' : RateLimit.scores lim future key b = [] := by
      rw [scores_later forward, other]
      simp
    exact ⟨none.trans none'.symm, fun some_ => absurd none some_⟩
  · have expire := alike.expireAt empty
    refine ⟨?_, fun _ => expire⟩
    rw [scores_later forward, scores_later forward, expire, alike.scores]

omit [DecidableEq Key] [DecidableEq Id] in
theorem alike_prune (lim : Limits Key) (now : ℕ) (key : Key) (slot : Slot Id) :
    Alike lim now key (lim.prune now key slot) slot :=
  ⟨scores_prune, fun _ => rfl⟩

omit [DecidableEq Key] in
theorem scores_insert {set : SortedSet (ℕ × Id)} {m : ℕ × Id} (fresh : ∀ e ∈ set.entries, e.2 ≠ m) :
    (set.insert now m).entries.map Prod.fst =
      (set.entries.map Prod.fst).orderedInsert (· ≤ ·) now := by
  have all : (set.entries.filter fun e => e.2 ≠ m) = set.entries :=
    List.filter_eq_self.mpr fun e mem => by simpa using fresh e mem
  change ((set.entries.filter fun e => e.2 ≠ m).orderedInsert _ (now, m)).map Prod.fst = _
  rw [all]
  apply List.map_orderedInsert
  · intro e _
    exact Iff.rfl
  · intro e _
    exact Iff.rfl

omit [DecidableEq Key] in
theorem Alike.add (alike : Alike lim now key a b)
    (first : ∀ e ∈ (lim.prune now key a).set.entries, e.2 ≠ (now, id))
    (second : lim.Unwritten now id' key b) :
    Alike lim now key (lim.add now id key (lim.prune now key a))
      (lim.add now id' key (lim.prune now key b)) := by
  refine ⟨?_, fun _ => rfl⟩
  rcases second with none | second
  · rw [scores_of_expired, scores_of_expired]
    · rw [Limits.add, none, Nat.add_zero]
    · rw [Limits.add, none, Nat.add_zero]
  · rw [scores_eq, scores_eq]
    simp only [Limits.add]
    rw [scores_insert first, scores_insert second]
    have same := alike.scores
    rw [RateLimit.scores, RateLimit.scores] at same
    rw [same]
    rfl

omit [DecidableEq Key] in
theorem Alike.rewrite (rewrites : lim.Rewrites now id key slot) :
    Alike lim now key (lim.add now id key (lim.prune now key slot)) slot := by
  rcases rewrites with ⟨none, empty⟩ | ⟨mem, expire⟩
  · have gone : RateLimit.scores lim now key
        (lim.add now id key (lim.prune now key slot)) = [] := by
      apply scores_of_expired
      rw [Limits.add, none, Nat.add_zero]
    rw [count_eq_length, List.length_eq_zero_iff] at empty
    exact ⟨gone.trans empty.symm, fun some_ => absurd gone some_⟩
  · let set := (lim.prune now key slot).set
    have same : ∀ e, e ∈ (set.insert now (now, id)).entries ↔ e ∈ set.entries := by
      intro e
      rw [SortedSet.mem_insert]
      constructor
      · rintro (rfl | ⟨old, _⟩)
        · exact mem
        · exact old
      · intro old
        by_cases own : e.2 = (now, id)
        · exact .inl (List.inj_on_of_nodup_map set.once old mem own)
        · exact .inr ⟨old, own⟩
    have perm : (set.insert now (now, id)).entries.Perm set.entries :=
      (List.perm_ext_iff_of_nodup (set.insert now (now, id)).once.of_map set.once.of_map).mpr same
    have equal : (set.insert now (now, id)).entries.map Prod.fst = set.entries.map Prod.fst := by
      have after : ((set.insert now (now, id)).entries.map Prod.fst).Pairwise (· ≤ ·) :=
        List.pairwise_map.mpr (set.insert now (now, id)).ordered
      have before : (set.entries.map Prod.fst).Pairwise (· ≤ ·) :=
        List.pairwise_map.mpr set.ordered
      apply (perm.map Prod.fst).eq_of_pairwise _ after before
      intro x y _ _
      exact le_antisymm
    refine ⟨?_, fun _ => expire.symm⟩
    calc RateLimit.scores lim now key (lim.add now id key (lim.prune now key slot))
        = RateLimit.scores lim now key (lim.prune now key slot) := by
          rw [scores_eq, scores_eq]
          simp only [Limits.add]
          rw [equal, show (lim.prune now key slot).expireAt = slot.expireAt from rfl, expire]
          rfl
      _ = RateLimit.scores lim now key slot := scores_prune

end Scores

section Runs

variable {lim : Limits Key} {fallback : Id} {s : Twin Key Id} {call : Call Key Id}

def Twin.Alike (lim : Limits Key) (now : ℕ) (s : Twin Key Id) : Prop :=
  ∀ k, RateLimit.Alike lim now k (s.script k) (s.serial k)

omit [DecidableEq Key] [DecidableEq Id] in
theorem Alike.count {now : ℕ} {key : Key} {a b : Slot Id} (alike : Alike lim now key a b) :
    lim.count now key a = lim.count now key b := by
  rw [count_eq_length, count_eq_length, alike.scores]

omit [DecidableEq Key] [DecidableEq Id] in
theorem Twin.Alike.full_iff {now : ℕ} (alike : s.Alike lim now) (k : Key) :
    lim.Full now s.script k ↔ lim.Full now s.serial k := by
  rw [Limits.Full, Limits.Full, (alike k).count]

omit [DecidableEq Key] in
theorem mem_takeWhile_of_split {full : Key → Prop} [DecidablePred full] {keys before after : List Key}
    {key k : Key} (split : keys = before ++ key :: after) (room : ∀ k ∈ before, ¬ full k)
    (mem : k ∈ before) : k ∈ keys.takeWhile fun k => ¬ full k := by
  rw [split, List.takeWhile_append_of_pos]
  · exact List.mem_append_left _ mem
  · intro k mem
    exact decide_eq_true (room k mem)

theorem Twin.Alike.serve (alike : s.Alike lim call.now) (distinct : call.keys.Nodup)
    (fresh : ∀ k, ∀ e ∈ (s.script k).set.entries, e.2 ≠ (call.now, call.requestId))
    (unspoiled : s.Unspoiled lim fallback call) :
    (s.replies lim fallback call).2.admits = (s.replies lim fallback call).1.admits ∧
      (s.serve lim fallback call).Alike lim call.now ∧
      ((s.replies lim fallback call).2.admits = false →
        ∀ k, RateLimit.Alike lim call.now k ((s.serve lim fallback call).serial k) (s.serial k)) := by
  have serves := serial_serves lim call.now fallback 1 (-1) distinct s.serial
  simp only [Twin.replies, Twin.Alike, Twin.serve]
  generalize lim.serial call.now fallback 1 (-1) call.keys s.serial = ran at serves ⊢
  rcases slidingWindow_cases lim distinct s.script with
    ⟨i, key, at_, full, rejected, _, slots⟩ | ⟨⟨a, b, allowed⟩, added, others⟩
  · have listed : key ∈ call.keys := List.mem_of_getElem? at_
    have full : lim.Full call.now s.serial key := (alike.full_iff key).mp full
    have script (k : Key) : RateLimit.Alike lim call.now k
        ((lim.slidingWindow call s.script).2 k) (s.script k) := by
      rcases slots k with same | pruned
      · rw [same]
        exact .refl ..
      · rw [pruned]
        exact alike_prune ..
    cases serves with
    | @rejects before after k _ _ _ left split room _ written pruned others =>
      have serial (j : Key) : RateLimit.Alike lim call.now j (left j) (s.serial j) := by
        by_cases early : j ∈ before
        · rw [written j early]
          exact .rewrite (unspoiled.rejected ⟨key, listed, full⟩ j
            (mem_takeWhile_of_split split room early))
        · by_cases same : j = k
          · rw [same, pruned]
            exact alike_prune ..
          · rw [others j early same]
            exact .refl ..
      refine ⟨by rw [rejected]; rfl, fun j => ?_, fun _ => serial⟩
      exact (script j).trans ((alike j).trans (serial j).symm)
    | admits room => exact absurd full (room key listed)
  · have room (k : Key) (mem : k ∈ call.keys) : ¬ lim.Full call.now s.serial k := by
      rw [← alike.full_iff k]
      exact not_le.mpr (added k mem).1
    cases serves with
    | rejects split _ full => exact absurd full (room _ (by simp [split]))
    | @admits _ left _ written kept =>
      refine ⟨by rw [allowed]; rfl, fun k => ?_, fun refused => by cases refused⟩
      change RateLimit.Alike lim call.now k _ (left k)
      by_cases mem : k ∈ call.keys
      · rw [(added k mem).2, written k mem]
        apply (alike k).add
        · intro e pruned
          exact fresh k e (mem_prune.mp pruned).1
        · exact unspoiled.admitted room k mem
      · rw [others k mem, kept k mem]
        exact alike k

theorem Twin.agrees (alike : s.Alike lim call.now) (distinct : call.keys.Nodup)
    (fresh : ∀ k, ∀ e ∈ (s.script k).set.entries, e.2 ≠ (call.now, call.requestId))
    (unspoiled : s.Unspoiled lim fallback call) : s.Agrees lim fallback call := by
  obtain ⟨decision, after, kept⟩ := alike.serve distinct fresh unspoiled
  constructor
  · exact decision
  · intro k
    exact (after k).count.symm
  · intro refused k
    exact (kept refused k).count

theorem mem_serve_script (distinct : call.keys.Nodup) {k : Key} {e : ℕ × ℕ × Id}
    (mem : e ∈ ((s.serve lim fallback call).script k).set.entries) :
    e ∈ (s.script k).set.entries ∨ e.2.2 = call.requestId := by
  simp only [Twin.serve] at mem
  rcases slidingWindow_cases lim distinct s.script with
    ⟨_, _, _, _, _, _, slots⟩ | ⟨_, added, others⟩
  · rcases slots k with same | pruned
    · rw [same] at mem
      exact .inl mem
    · rw [pruned] at mem
      exact .inl (mem_prune.mp mem).1
  · by_cases named : k ∈ call.keys
    · rw [(added k named).2] at mem
      rcases SortedSet.mem_insert.mp mem with rfl | ⟨old, _⟩
      · exact .inr rfl
      · exact .inl (mem_prune.mp old).1
    · rw [others k named] at mem
      exact .inl mem

/-- Over any orderly requests whose ids are not in the initial sets: while no request is
spoiled, the fallback limits all of them as the script does. -/
theorem serial_agrees (lim : Limits Key) (fallback : Id) (db : Key → Slot Id)
    {calls : List (Call Key Id)} (orderly : Orderly calls)
    (fresh : ∀ call ∈ calls, ∀ k, ∀ e ∈ (db k).set.entries, e.2.2 ≠ call.requestId)
    (unspoiled : Along (total (Twin.serve lim fallback)) (Twin.Unspoiled lim fallback) ⟨db, db⟩
      calls) :
    Along (total (Twin.serve lim fallback)) (Twin.Agrees lim fallback) ⟨db, db⟩ calls := by
  suffices general : ∀ (s : Twin Key Id) (now : ℕ), s.Alike lim now →
      (∀ call ∈ calls, now ≤ call.now) →
      (∀ call ∈ calls, ∀ k, ∀ e ∈ (s.script k).set.entries, e.2.2 ≠ call.requestId) →
      Along (total (Twin.serve lim fallback)) (Twin.Unspoiled lim fallback) s calls →
      Along (total (Twin.serve lim fallback)) (Twin.Agrees lim fallback) s calls from
    general ⟨db, db⟩ 0 (fun k => .refl ..) (fun _ _ => Nat.zero_le _) fresh unspoiled
  clear fresh unspoiled db
  induction calls with
  | nil => exact fun _ _ _ _ _ _ => trivial
  | cons call rest ih =>
    intro s now alike forward fresh unspoiled
    obtain ⟨times, ids, keys⟩ := orderly
    obtain ⟨later, times⟩ := List.pairwise_cons.mp times
    obtain ⟨own, ids⟩ := List.nodup_cons.mp ids
    obtain ⟨distinct, keys⟩ := List.forall_mem_cons.mp keys
    obtain ⟨first, fresh⟩ := List.forall_mem_cons.mp fresh
    have alike : s.Alike lim call.now := fun k => (alike k).later (forward call (by simp))
    have first : ∀ k, ∀ e ∈ (s.script k).set.entries, e.2 ≠ (call.now, call.requestId) := by
      intro k e mem same
      exact first k e mem (congrArg Prod.snd same)
    obtain ⟨_, after, _⟩ := alike.serve distinct first unspoiled.1
    refine ⟨Twin.agrees alike distinct first unspoiled.1, fun t taken => ?_⟩
    have rest := unspoiled.2 t taken
    cases taken
    refine ih ⟨times, ids, keys⟩ _ call.now after later ?_ rest
    intro c mem k e listed same
    rcases mem_serve_script distinct listed with old | own'
    · exact fresh c mem k e old same
    · apply own
      rw [← own', same]
      exact List.mem_map_of_mem mem

end Runs

/-- An API key with a limit of 5 and a tenant with a limit of 1, both for a minute. -/
def keyAndTenant : Limits Bool := ⟨fun _ => 60, fun key => if key then 5 else 1⟩

def unused : Bool → Slot ℕ := fun _ => ⟨.empty, 0⟩

def servedCalls : List (Call Bool ℕ) :=
  [⟨[true, false], 0, 1⟩, ⟨[false], 1000, 2⟩, ⟨[true, false], 60000, 3⟩]

theorem serial_agrees_both :
    Along (total (Twin.serve keyAndTenant 0)) (Twin.Agrees keyAndTenant 0) ⟨unused, unused⟩
      servedCalls := by
  apply serial_agrees
  · exact ⟨by decide, by decide, by decide⟩
  · intro call _ k e mem
    cases mem
  · decide +kernel

/-- A second request that the tenant rejects has used up one of the API key's five, and a
second request in one millisecond is not counted. -/
theorem rejected_request_counted :
    ¬ Along (total (Twin.serve keyAndTenant 0)) (Twin.Agrees keyAndTenant 0) ⟨unused, unused⟩
      [⟨[true, false], 0, 1⟩, ⟨[true, false], 1000, 2⟩] ∧
    ¬ Along (total (Twin.serve keyAndTenant 0)) (Twin.Agrees keyAndTenant 0) ⟨unused, unused⟩
      [⟨[true], 0, 1⟩, ⟨[true], 0, 2⟩] := by
  constructor
  · intro agrees
    have second := (agrees.2 _ rfl).1
    exact absurd (second.consumed (by decide +kernel) true) (by decide +kernel)
  · intro agrees
    have second := (agrees.2 _ rfl).1
    exact absurd (second.counts true) (by decide +kernel)

end Deeting.RateLimit
