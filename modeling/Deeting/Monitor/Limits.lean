import Deeting.Monitor.Ticks

/-! What a tick triggers and what it keeps, for every failure of a Redis command: it is within
its limits exactly when no command fails once a task is triggered, and it keeps the tasks that
it pops unless the reply to the pop is lost. -/
namespace Deeting.Monitor

def Wanted (tasks : Tasks) (now : ℕ) (id : String) : Prop :=
  ∃ task ∈ tasks.find? id, task.Live ∧ task.Due now ∧ task.target.isCloud = true

def Popped (now : ℕ) (weather : Weather) (schedule : SortedSet String) (id : String) : Prop :=
  weather.available = true ∧ (∃ e ∈ schedule.entries, e.2 = id) ∧
    ∀ e ∈ (popDueTaskIds schedule now weather.pop).1.entries, e.2 ≠ id

structure TickResult.Lawful (r : TickResult) (l : Limits) (now : ℕ) (weather : Weather)
    (tasks : Tasks) (schedule : SortedSet String) : Prop where
  once : (r.triggered.map Trigger.task).Nodup
  total : r.triggered.length ≤ l.maxTotal
  perUser : ∀ user, (r.triggered.countP fun t => t.user = user) ≤ l.maxPerUser
  kept : ∀ id, Popped now weather schedule id → Wanted tasks now id →
    ∃ row ∈ r.tasks.find? id, ∃ t ∈ row.nextRunAt, now < t ∧
      ∀ later, (t, id) ∈ (bootstrapSchedule later [] r.tasks r.schedule).2.entries

/-- No `delay` of the fallback fails, or nothing that is wanted was popped. -/
def Steady (l : Limits) (now : ℕ) (weather : Weather) (tasks : Tasks)
    (schedule : SortedSet String) (p : Pass) : Prop :=
  (fallbackPass l now weather tasks p).2 = true →
    ∀ id, Popped now weather schedule id → ¬ Wanted tasks now id

/-- No command fails in the loop once a task is triggered, nor a `delay` of the fallback once a
wanted task is popped; and where none fails in the loop, it goes over all that was popped and is
wanted. -/
def Spared (l : Limits) (now : ℕ) (weather : Weather) (tasks : Tasks)
    (schedule : SortedSet String) : Prop :=
  weather.available = true →
    match redisPart l now weather tasks schedule with
    | (left, none) => Steady l now weather tasks schedule { tasks, schedule := left }
    | (_, some (_, p, true)) => p.triggered = [] ∧ Steady l now weather tasks schedule p
    | (_, some (ids, _, false)) =>
      ∀ id, Popped now weather schedule id → Wanted tasks now id → id ∈ ids

def MonitorTask.fixed (task : MonitorTask) : String × String × MonitorStatus × Bool × ExecutionTarget :=
  (task.id, task.userId, task.status, task.isActive, task.target)

/-- What a loop over the wanted ids, from the rows `base`, has triggered as far as `seen`. -/
structure Bounded (l : Limits) (now : ℕ) (base : Tasks) (wanted : String → Prop) (p : Pass)
    (seen : List String) : Prop where
  once : (p.triggered.map Trigger.task).Nodup
  within : ∀ r ∈ p.triggered, r.task ∈ seen ∧ wanted r.task ∧
    ∃ row ∈ base.find? r.task, row.userId = r.user
  total : p.triggered.length ≤ l.maxTotal
  perUser : ∀ user, p.count user ≤ l.maxPerUser
  fixed : ∀ id, (p.tasks.find? id).map MonitorTask.fixed = (base.find? id).map MonitorTask.fixed

/-- The loop as far as `seen`, where no exception has left it. -/
structure Sound (l : Limits) (now : ℕ) (base : Tasks) (wanted : String → Prop) (p : Pass)
    (seen : List String) : Prop extends Bounded l now base wanted p seen where
  untouched : ∀ id, id ∉ seen → p.tasks.find? id = base.find? id
  handled : ∀ id ∈ seen, wanted id → ∃ row ∈ p.tasks.find? id, ∃ t ∈ row.nextRunAt, now < t
  busy : ∀ id ∈ seen, wanted id → id ∈ p.triggered.map Trigger.task ∨
    l.maxTotal ≤ p.triggered.length ∨ ∃ row ∈ base.find? id, l.maxPerUser ≤ p.count row.userId

section Passes

variable {l : Limits} {now : ℕ} {base : Tasks} {wanted : String → Prop} {p q : Pass}
  {seen : List String} {id : String} {task : MonitorTask} {delay : Fault}

theorem sound_start (l : Limits) (now : ℕ) (base : Tasks) (wanted : String → Prop)
    (schedule : SortedSet String) :
    Sound l now base wanted { tasks := base, schedule } [] where
  once := List.nodup_nil
  within _ mem := (List.not_mem_nil mem).elim
  total := Nat.zero_le _
  perUser _ := Nat.zero_le _
  fixed _ := rfl
  untouched _ _ := rfl
  handled _ mem := (List.not_mem_nil mem).elim
  busy _ mem := (List.not_mem_nil mem).elim

/-- Nothing is triggered for an id. -/
theorem Bounded.keep (bounded : Bounded l now base wanted p seen) (same : q.triggered = p.triggered)
    (fixed : ∀ key, (q.tasks.find? key).map MonitorTask.fixed =
      (base.find? key).map MonitorTask.fixed) : Bounded l now base wanted q (id :: seen) where
  once := same ▸ bounded.once
  within r mem := by
    obtain ⟨before, rest⟩ := bounded.within r (same ▸ mem)
    exact ⟨List.mem_cons_of_mem _ before, rest⟩
  total := same ▸ bounded.total
  perUser := by
    simp only [Pass.count, same]
    exact bounded.perUser
  fixed := fixed

theorem Bounded.of_eq (bounded : Bounded l now base wanted p seen) (tasks : q.tasks = p.tasks)
    (triggered : q.triggered = p.triggered) : Bounded l now base wanted q seen := by
  obtain ⟨once, within, total, perUser, fixed⟩ := bounded
  rw [← triggered] at once within total
  simp only [← tasks] at fixed
  simp only [Pass.count, ← triggered] at perUser
  exact ⟨once, within, total, perUser, fixed⟩

theorem Sound.of_eq (sound : Sound l now base wanted p seen) (tasks : q.tasks = p.tasks)
    (triggered : q.triggered = p.triggered) : Sound l now base wanted q seen := by
  obtain ⟨bounded, untouched, handled, busy⟩ := sound
  simp only [← tasks] at untouched handled
  simp only [Pass.count, ← triggered] at busy
  exact ⟨bounded.of_eq tasks triggered, untouched, handled, busy⟩

theorem Sound.skip (sound : Sound l now base wanted p seen) (unwanted : ¬ wanted id) :
    Sound l now base wanted p (id :: seen) where
  toBounded := sound.toBounded.keep rfl sound.fixed
  untouched key fresh := sound.untouched key fun mem => fresh (List.mem_cons_of_mem _ mem)
  handled key mem asked := by
    rcases List.mem_cons.mp mem with rfl | before
    · exact absurd asked unwanted
    · exact sound.handled key before asked
  busy key mem asked := by
    rcases List.mem_cons.mp mem with rfl | before
    · exact absurd asked unwanted
    · exact sound.busy key before asked

theorem count_concat (p : Pass) (task user : String) (other : String) :
    (p.triggered ++ [(⟨task, user⟩ : Trigger)]).countP (fun r => r.user = other) =
      p.count other + if user = other then 1 else 0 := by
  rw [List.countP_append, List.countP_singleton, Pass.count]
  simp only [decide_eq_true_eq]

/-- A task that is under its limits is triggered, whether `delay` then fails or not. -/
theorem Bounded.trigger (bounded : Bounded l now base wanted p seen) (fresh : id ∉ seen)
    (found : base.find? id = some task) (asked : wanted id) (free : ¬ p.Over l task.userId)
    (grown : q.triggered = p.triggered ++ [⟨task.id, task.userId⟩])
    (fixed : ∀ key, (q.tasks.find? key).map MonitorTask.fixed =
      (base.find? key).map MonitorTask.fixed) : Bounded l now base wanted q (id :: seen) := by
  obtain ⟨total, user⟩ := not_or.mp free
  have own := Table.key_of_find? found
  refine ⟨?_, ?_, ?_, ?_, fixed⟩
  · rw [grown, List.map_append, List.map_singleton, own, List.nodup_append]
    refine ⟨bounded.once, List.nodup_singleton id, fun a mem b last same => ?_⟩
    obtain ⟨r, there, named⟩ := List.mem_map.mp mem
    have again : a = id := same.trans (List.mem_singleton.mp last)
    exact fresh (again ▸ named ▸ (bounded.within r there).1)
  · rw [grown]
    intro r mem
    rcases List.mem_append.mp mem with before | last
    · obtain ⟨before, rest⟩ := bounded.within r before
      exact ⟨List.mem_cons_of_mem _ before, rest⟩
    · rw [List.mem_singleton.mp last, own]
      exact ⟨List.mem_cons_self, asked, task, found, rfl⟩
  · rw [grown, List.length_append, List.length_singleton]
    omega
  · intro other
    rw [Pass.count, grown, count_concat]
    have bound := bounded.perUser other
    split
    · rename_i same
      rw [← same] at bound ⊢
      omega
    · omega

theorem dispatch_rows {t : ℕ} (found : p.tasks.find? id = some task)
    (went : (p.dispatch l now task delay).2 = some t) :
    (∃ row ∈ (p.dispatch l now task delay).1.tasks.find? id, row.fixed = task.fixed ∧
      row.nextRunAt = some t) ∧ now < t ∧
      ∀ key, key ≠ id → (p.dispatch l now task delay).1.tasks.find? key = p.tasks.find? key := by
  obtain rfl := Table.key_of_find? found
  rw [Pass.dispatch] at went ⊢
  split
  · rename_i full
    rw [if_pos full] at went
    cases went
    have later := l.delay_pos
    refine ⟨⟨{ task with nextRunAt := some (now + l.delaySeconds) }, ?_, rfl, rfl⟩,
      by omega, fun key other => ?_⟩
    · simp only [Table.find?_modify, if_true, found, Option.map_some, Option.mem_def]
    · simp only [Table.find?_modify, if_neg other]
  · rename_i free
    rw [if_neg free] at went
    split
    · rename_i ok
      rw [if_pos ok] at went
      cases went
      have rows (key : String) := Table.find?_modify p.tasks task.id
        (fun row => row.reschedule now) (fun _ => rfl) key
      refine ⟨⟨task.reschedule now, ?_, rfl, rfl⟩, lt_computeNextRun task now, fun key other => ?_⟩
      · refine (rows task.id).trans ?_
        rw [if_pos rfl, found, Option.map_some]
      · exact (rows key).trans (if_neg other)
    · rename_i failed
      rw [if_neg failed] at went
      cases went

/-- What a task that is dispatched adds to the calls of `delay`. -/
theorem dispatch_triggered (p : Pass) (l : Limits) (now : ℕ) (task : MonitorTask) (delay : Fault) :
    (p.Over l task.userId ∧ (p.dispatch l now task delay).1.triggered = p.triggered) ∨
      (¬ p.Over l task.userId ∧
        (p.dispatch l now task delay).1.triggered = p.triggered ++ [⟨task.id, task.userId⟩]) ∨
      ((p.dispatch l now task delay).2 = none ∧
        (p.dispatch l now task delay).1.triggered = p.triggered) := by
  rw [Pass.dispatch]
  split
  · rename_i full
    exact .inl ⟨full, rfl⟩
  · rename_i free
    split
    · exact .inr (.inl ⟨free, rfl⟩)
    · cases delay with
      | ok => contradiction
      | refused => exact .inr (.inr ⟨rfl, rfl⟩)
      | lost => exact .inr (.inl ⟨free, rfl⟩)

/-- The rows of a task whose `delay` has failed. -/
theorem dispatch_raised (raised : (p.dispatch l now task delay).2 = none) :
    (p.dispatch l now task delay).1.tasks = p.tasks := by
  rw [Pass.dispatch] at raised ⊢
  split at raised
  · cases raised
  · rename_i free
    split at raised
    · cases raised
    · rename_i failed
      rw [if_neg free, if_neg failed]

section Dispatched

variable (sound : Sound l now base wanted p seen) (fresh : id ∉ seen)
  (found : base.find? id = some task)
include sound fresh found

theorem Sound.held : p.tasks.find? id = some task :=
  (sound.untouched id fresh).trans found

theorem Sound.fixed_dispatch (key : String) :
    ((p.dispatch l now task delay).1.tasks.find? key).map MonitorTask.fixed =
      (base.find? key).map MonitorTask.fixed := by
  cases went : (p.dispatch l now task delay).2 with
  | none =>
    rw [dispatch_raised went]
    exact sound.fixed key
  | some t =>
    obtain ⟨⟨row, there, fixed, -⟩, -, others⟩ := dispatch_rows (sound.held fresh found) went
    by_cases same : key = id
    · rw [same, found, Option.mem_def.mp there, Option.map_some, Option.map_some, fixed]
    · rw [others key same]
      exact sound.fixed key

theorem Sound.bounded_dispatch (asked : wanted id) :
    Bounded l now base wanted (p.dispatch l now task delay).1 (id :: seen) := by
  rcases dispatch_triggered p l now task delay with ⟨-, same⟩ | ⟨free, grown⟩ | ⟨-, same⟩
  · exact sound.toBounded.keep same (sound.fixed_dispatch fresh found)
  · exact sound.toBounded.trigger fresh found asked free grown (sound.fixed_dispatch fresh found)
  · exact sound.toBounded.keep same (sound.fixed_dispatch fresh found)

theorem Sound.dispatch {t : ℕ} (asked : wanted id)
    (went : (p.dispatch l now task delay).2 = some t) :
    Sound l now base wanted (p.dispatch l now task delay).1 (id :: seen) := by
  obtain ⟨⟨row, there, -, next⟩, later, others⟩ := dispatch_rows (sound.held fresh found) went
  refine ⟨sound.bounded_dispatch fresh found asked, fun key new => ?_, fun key mem wants => ?_,
    fun key mem wants => ?_⟩
  · rw [others key fun same => new (same ▸ List.mem_cons_self)]
    exact sound.untouched key fun mem => new (List.mem_cons_of_mem _ mem)
  · rcases List.mem_cons.mp mem with rfl | before
    · exact ⟨row, there, _, next, later⟩
    · rw [others key fun same => fresh (same ▸ before)]
      exact sound.handled key before wants
  · rcases dispatch_triggered p l now task delay with ⟨full, same⟩ | ⟨-, grown⟩ | ⟨raised, -⟩
    · simp only [Pass.count, same]
      rcases List.mem_cons.mp mem with rfl | before
      · rcases full with total | user
        · exact .inr (.inl total)
        · exact .inr (.inr ⟨task, found, user⟩)
      · exact sound.busy key before wants
    · simp only [Pass.count, grown, List.map_append, List.length_append, count_concat]
      rcases List.mem_cons.mp mem with rfl | before
      · exact .inl (List.mem_append_right _ (List.mem_singleton.mpr (Table.key_of_find? found).symm))
      · rcases sound.busy key before wants with there | full | ⟨row, there, full⟩
        · exact .inl (List.mem_append_left _ there)
        · exact .inr (.inl (Nat.le_add_right_of_le full))
        · exact .inr (.inr ⟨row, there, Nat.le_add_right_of_le full⟩)
    · rw [raised] at went
      cases went

end Dispatched

theorem Sound.visit {tasks : Tasks} (sound : Sound l now tasks (Wanted tasks now) p seen)
    (fresh : id ∉ seen) :
    Bounded l now tasks (Wanted tasks now) (p.visit l now id delay).1 (id :: seen) ∧
      ((p.visit l now id delay).2 ≠ .raised →
        Sound l now tasks (Wanted tasks now) (p.visit l now id delay).1 (id :: seen)) := by
  have held := sound.untouched id fresh
  rw [Pass.visit, held]
  -- an id that nothing is done for
  have skipped (q : Pass) (rows : q.tasks = p.tasks) (sent : q.triggered = p.triggered)
      (unwanted : ¬ Wanted tasks now id) :
      Bounded l now tasks (Wanted tasks now) q (id :: seen) ∧
        Sound l now tasks (Wanted tasks now) q (id :: seen) := by
    have kept : Sound l now tasks (Wanted tasks now) q (id :: seen) :=
      (sound.skip unwanted).of_eq rows sent
    exact ⟨kept.toBounded, kept⟩
  cases found : tasks.find? id with
  | none =>
    obtain ⟨bounded, kept⟩ := skipped p rfl rfl fun ⟨_, there, _⟩ => by
      rw [found] at there
      cases there
    exact ⟨bounded, fun _ => kept⟩
  | some task =>
    have unique {P : MonitorTask → Prop} : (∃ row ∈ tasks.find? id, P row) → P task := by
      rintro ⟨row, there, holds⟩
      rw [found] at there
      cases there
      exact holds
    dsimp only
    split
    · rename_i dead
      obtain ⟨bounded, kept⟩ := skipped p rfl rfl fun asked => dead (unique asked).1
      exact ⟨bounded, fun _ => kept⟩
    · rename_i live
      split
      · rename_i early
        obtain ⟨bounded, kept⟩ := skipped p rfl rfl fun asked => early (unique asked).2.1
        exact ⟨bounded, fun _ => kept⟩
      · rename_i due
        split
        · rename_i desktop
          obtain ⟨bounded, kept⟩ := skipped { p with desktopDeferred := p.desktopDeferred + 1 } rfl
            rfl fun asked => desktop (unique asked).2.2
          exact ⟨bounded, fun _ => kept⟩
        · rename_i cloud
          have asked : Wanted tasks now id :=
            ⟨task, found, not_not.mp live, not_not.mp due, not_not.mp cloud⟩
          refine ⟨sound.bounded_dispatch fresh found asked, fun went => ?_⟩
          cases next : (p.dispatch l now task delay).2 with
          | none => exact absurd (by rw [next]; rfl) went
          | some t => exact sound.dispatch fresh found asked next

theorem unseen_rest {rest : List String} (new : id ∉ rest) (fresh : ∀ key ∈ id :: rest, key ∉ seen) :
    ∀ key ∈ rest, key ∉ id :: seen := by
  intro key mem before
  rcases List.mem_cons.mp before with rfl | before
  · exact new mem
  · exact fresh key (List.mem_cons_of_mem _ mem) before

theorem redisPass_sound {tasks : Tasks} {ids : List String} (delays : String → Fault)
    (faults : List Fault) (distinct : ids.Nodup) (fresh : ∀ id ∈ ids, id ∉ seen)
    (sound : Sound l now tasks (Wanted tasks now) p seen) :
    ∃ reached,
      Bounded l now tasks (Wanted tasks now) (Pass.redisPass l now delays p ids faults).1 reached ∧
      (∀ id ∈ seen, id ∈ reached) ∧ (∀ id ∈ reached, id ∈ seen ∨ id ∈ ids) ∧
      ((Pass.redisPass l now delays p ids faults).2 = false →
        Sound l now tasks (Wanted tasks now) (Pass.redisPass l now delays p ids faults).1 reached ∧
          ∀ id ∈ ids, id ∈ reached) := by
  induction ids generalizing p seen faults with
  | nil =>
    exact ⟨seen, sound.toBounded, fun id mem => mem, fun id mem => .inl mem,
      fun _ => ⟨sound, fun id mem => (List.not_mem_nil mem).elim⟩⟩
  | cons id rest ih =>
    obtain ⟨new, distinct⟩ := List.nodup_cons.mp distinct
    obtain ⟨bounded, visited⟩ := @Sound.visit _ _ _ _ _ (delays id) _ sound (fresh id List.mem_cons_self)
    have later := unseen_rest new fresh
    -- the rest of the loop, after this id
    have onward {q : Pass} (faults : List Fault)
        (sound : Sound l now tasks (Wanted tasks now) q (id :: seen)) :
        ∃ reached, Bounded l now tasks (Wanted tasks now)
            (Pass.redisPass l now delays q rest faults).1 reached ∧
          (∀ key ∈ seen, key ∈ reached) ∧ (∀ key ∈ reached, key ∈ seen ∨ key ∈ id :: rest) ∧
          ((Pass.redisPass l now delays q rest faults).2 = false →
            Sound l now tasks (Wanted tasks now) (Pass.redisPass l now delays q rest faults).1
              reached ∧ ∀ key ∈ id :: rest, key ∈ reached) := by
      obtain ⟨reached, bounded, more, only, whole⟩ := ih faults distinct later sound
      refine ⟨reached, bounded, fun key mem => more key (List.mem_cons_of_mem _ mem),
        fun key mem => ?_, fun ended => ?_⟩
      · rcases only key mem with before | after
        · rcases List.mem_cons.mp before with rfl | before
          · exact .inr List.mem_cons_self
          · exact .inl before
        · exact .inr (List.mem_cons_of_mem _ after)
      · obtain ⟨sound, all⟩ := whole ended
        exact ⟨sound, List.forall_mem_cons.mpr ⟨more id List.mem_cons_self, all⟩⟩
    -- the loop is left here
    have left {q : Pass} (bounded : Bounded l now tasks (Wanted tasks now) q (id :: seen)) :
        ∃ reached, Bounded l now tasks (Wanted tasks now) q reached ∧
          (∀ key ∈ seen, key ∈ reached) ∧ (∀ key ∈ reached, key ∈ seen ∨ key ∈ id :: rest) ∧
          (true = false → Sound l now tasks (Wanted tasks now) q reached ∧
            ∀ key ∈ id :: rest, key ∈ reached) := by
      refine ⟨id :: seen, bounded, fun key mem => List.mem_cons_of_mem _ mem, fun key mem => ?_,
        fun same => by cases same⟩
      rcases List.mem_cons.mp mem with rfl | before
      · exact .inr List.mem_cons_self
      · exact .inl before
    rw [Pass.redisPass]
    cases step : p.visit l now id (delays id) with
    | mk q visit =>
      rw [step] at bounded visited
      cases visit with
      | nothing => exact onward faults (visited nofun)
      | raised => exact left bounded
      | add t =>
        have sound := visited nofun
        dsimp only
        split
        · exact onward faults.tail (sound.of_eq rfl rfl)
        · exact left (sound.toBounded.of_eq rfl rfl)

/-- A row of the fallback: the rows that it finds in memory agree with the committed ones. -/
theorem Sound.visitRow {tasks : Tasks} (sound : Sound l now base (Wanted tasks now) p seen)
    (agree : ∀ id, (base.find? id).map MonitorTask.fixed = (tasks.find? id).map MonitorTask.fixed)
    (fresh : id ∉ seen) (due : ∃ task ∈ tasks.find? id, task.Live ∧ task.Due now) :
    Bounded l now base (Wanted tasks now) (p.visitRow l now id delay).1 (id :: seen) ∧
      ((p.visitRow l now id delay).2 = false →
        Sound l now base (Wanted tasks now) (p.visitRow l now id delay).1 (id :: seen)) := by
  obtain ⟨task, there, live, time⟩ := due
  have same := agree id
  rw [Option.mem_def.mp there, Option.map_some] at same
  obtain ⟨row, found, fixed⟩ := Option.map_eq_some_iff.mp same
  have target : row.target = task.target := congrArg (fun x => x.2.2.2.2) fixed
  rw [Pass.visitRow, sound.untouched id fresh, found]
  dsimp only
  split
  · rename_i desktop
    have kept : Sound l now base (Wanted tasks now)
        { p with desktopDeferred := p.desktopDeferred + 1 } (id :: seen) := by
      refine (sound.skip ?_).of_eq rfl rfl
      rintro ⟨other, there', -, -, cloud⟩
      rw [Option.mem_def.mp there] at there'
      cases there'
      exact desktop (target ▸ cloud)
    exact ⟨kept.toBounded, fun _ => kept⟩
  · rename_i cloud
    have asked : Wanted tasks now id := ⟨task, there, live, time, target ▸ not_not.mp cloud⟩
    refine ⟨sound.bounded_dispatch fresh found asked, fun went => ?_⟩
    cases next : (p.dispatch l now row delay).2 with
    | none =>
      rw [next] at went
      cases went
    | some t => exact sound.dispatch fresh found asked next

theorem rowPass_sound {tasks : Tasks} {ids : List String} (delays : String → Fault)
    (agree : ∀ id, (base.find? id).map MonitorTask.fixed = (tasks.find? id).map MonitorTask.fixed)
    (distinct : ids.Nodup) (fresh : ∀ id ∈ ids, id ∉ seen)
    (due : ∀ id ∈ ids, ∃ task ∈ tasks.find? id, task.Live ∧ task.Due now)
    (sound : Sound l now base (Wanted tasks now) p seen) :
    ∃ reached,
      Bounded l now base (Wanted tasks now) (Pass.rowPass l now delays p ids).1 reached ∧
      (∀ id ∈ seen, id ∈ reached) ∧ ((Pass.rowPass l now delays p ids).2 = false →
        Sound l now base (Wanted tasks now) (Pass.rowPass l now delays p ids).1 reached ∧
          ∀ id ∈ ids, id ∈ reached) := by
  induction ids generalizing p seen with
  | nil =>
    exact ⟨seen, sound.toBounded, fun id mem => mem,
      fun _ => ⟨sound, fun id mem => (List.not_mem_nil mem).elim⟩⟩
  | cons id rest ih =>
    obtain ⟨new, distinct⟩ := List.nodup_cons.mp distinct
    obtain ⟨own, due⟩ := List.forall_mem_cons.mp due
    obtain ⟨bounded, visited⟩ :=
      @Sound.visitRow _ _ _ _ _ _ (delays id) _ sound agree (fresh id List.mem_cons_self) own
    have later := unseen_rest new fresh
    rw [Pass.rowPass]
    cases step : p.visitRow l now id (delays id) with
    | mk q raised =>
      rw [step] at bounded visited
      cases raised with
      | true =>
        exact ⟨id :: seen, bounded, fun key mem => List.mem_cons_of_mem _ mem, fun same => by cases same⟩
      | false =>
        obtain ⟨reached, bounded, more, whole⟩ := ih distinct later due (visited rfl)
        refine ⟨reached, bounded, fun key mem => more key (List.mem_cons_of_mem _ mem), fun ended => ?_⟩
        obtain ⟨sound, all⟩ := whole ended
        exact ⟨sound, List.forall_mem_cons.mpr ⟨more id List.mem_cons_self, all⟩⟩

theorem mem_dueIds {tasks : Tasks} :
    id ∈ dueIds tasks now ↔ ∃ task ∈ tasks.find? id, task.Live ∧ task.Due now := by
  simp only [dueIds, List.mem_map, List.mem_filter, decide_eq_true_eq]
  constructor
  · rintro ⟨task, ⟨mem, holds⟩, own⟩
    exact ⟨task, Table.find?_eq_some.mpr ⟨mem, own⟩, holds⟩
  · rintro ⟨task, there, holds⟩
    obtain ⟨mem, own⟩ := Table.find?_eq_some.mp there
    exact ⟨task, ⟨mem, holds⟩, own⟩

theorem nodup_dueIds (tasks : Tasks) (now : ℕ) : (dueIds tasks now).Nodup :=
  tasks.unique.sublist (List.filter_sublist.map _)

theorem indexTasks_stays {rest : List MonitorTask} (later : ℕ) (schedule : SortedSet String)
    {e : ℕ × String} (there : e ∈ schedule.entries) (other : ∀ row ∈ rest, row.id ≠ e.2) :
    e ∈ (indexTasks later rest [] schedule).entries := by
  induction rest generalizing schedule with
  | nil => exact there
  | cons row rest ih =>
    obtain ⟨own, other⟩ := List.forall_mem_cons.mp other
    rw [indexTasks]
    split
    · refine ih _ ?_ other
      exact SortedSet.mem_insert.mpr (.inr ⟨there, Ne.symm own⟩)
    · exact ih schedule there other

theorem mem_indexTasks {rows : List MonitorTask} (later : ℕ) (schedule : SortedSet String)
    (distinct : (rows.map MonitorTask.id).Nodup) (mem : task ∈ rows) (live : task.Live)
    (cloud : task.target.isCloud = true) :
    (task.nextRunAt.getD later, task.id) ∈ (indexTasks later rows [] schedule).entries := by
  induction rows generalizing schedule with
  | nil => cases mem
  | cons row rest ih =>
    obtain ⟨new, distinct⟩ := List.nodup_cons.mp distinct
    rw [indexTasks]
    rcases List.mem_cons.mp mem with rfl | mem
    · rw [if_pos ⟨live, cloud⟩]
      refine indexTasks_stays later _ (SortedSet.mem_insert.mpr (.inl rfl)) fun row mem same => ?_
      exact new (List.mem_map.mpr ⟨row, mem, same⟩)
    · split
      · exact ih _ distinct mem
      · exact ih _ distinct mem

theorem mem_bootstrapSchedule {tasks : Tasks} {t : ℕ} (later : ℕ) (schedule : SortedSet String)
    (found : tasks.find? id = some task) (live : task.Live) (cloud : task.target.isCloud = true)
    (next : task.nextRunAt = some t) :
    (t, id) ∈ (bootstrapSchedule later [] tasks schedule).2.entries := by
  obtain ⟨mem, rfl⟩ := Table.find?_eq_some.mp found
  have kept : fillNextRun later task = task := by
    rw [fillNextRun, if_neg]
    rintro ⟨-, -, none_⟩
    rw [next] at none_
    cases none_
  have indexed := mem_indexTasks later schedule
    (bootstrapSchedule later [] tasks schedule).1.unique (List.mem_map.mpr ⟨task, mem, kept⟩) live cloud
  rw [next] at indexed
  exact indexed

end Passes

section Tick

variable {l : Limits} {now : ℕ} {weather : Weather} {tasks : Tasks} {schedule : SortedSet String}
  {id : String}

theorem Sound.kept {p : Pass} {reached : List String} {base : Tasks} {r : TickResult}
    (sound : Sound l now base (Wanted tasks now) p reached)
    (agree : ∀ id, (base.find? id).map MonitorTask.fixed = (tasks.find? id).map MonitorTask.fixed)
    (rows : r.tasks = p.tasks) (there : id ∈ reached) (asked : Wanted tasks now id) :
    ∃ row ∈ r.tasks.find? id, ∃ t ∈ row.nextRunAt, now < t ∧
      ∀ later, (t, id) ∈ (bootstrapSchedule later [] r.tasks r.schedule).2.entries := by
  obtain ⟨row, found, t, next, future⟩ := sound.handled id there asked
  obtain ⟨task, stored, live, -, cloud⟩ := asked
  have same := (sound.fixed id).trans (agree id)
  rw [Option.mem_def.mp found, Option.mem_def.mp stored, Option.map_some, Option.map_some] at same
  have fixed := Option.some.inj same
  have status : row.status = task.status := congrArg (fun x => x.2.2.1) fixed
  have active : row.isActive = task.isActive := congrArg (fun x => x.2.2.2.1) fixed
  have target : row.target = task.target := congrArg (fun x => x.2.2.2.2) fixed
  refine ⟨row, rows ▸ found, t, next, future, fun later => ?_⟩
  exact mem_bootstrapSchedule later r.schedule (rows ▸ found) ⟨active ▸ live.1, status ▸ live.2⟩
    (target ▸ cloud) next

theorem fallbackPass_sound {p : Pass} {seen : List String}
    (bounded : Bounded l now tasks (Wanted tasks now) p seen) :
    ∃ reached,
      Bounded l now p.tasks (Wanted tasks now) (fallbackPass l now weather tasks p).1 reached ∧
      ((fallbackPass l now weather tasks p).2 = false →
        Sound l now p.tasks (Wanted tasks now) (fallbackPass l now weather tasks p).1 reached ∧
          ∀ id ∈ dueIds tasks now, id ∈ reached) := by
  obtain ⟨reached, after, -, whole⟩ := rowPass_sound weather.rowDelay bounded.fixed
    (nodup_dueIds tasks now) (fun id _ mem => (List.not_mem_nil mem).elim)
    (fun id mem => mem_dueIds.mp mem) (sound_start l now p.tasks (Wanted tasks now) p.schedule)
  exact ⟨reached, after, whole⟩

/-- The fallback is lawful where nothing was triggered before it, since else a task is triggered
again in it, or takes it over a limit; and where it commits, or has nothing to keep. -/
theorem fallback_lawful_iff {p : Pass} {seen : List String}
    (bounded : Bounded l now tasks (Wanted tasks now) p seen)
    (taken : ∀ id ∈ seen, Popped now weather schedule id) :
    (fallback l now weather tasks p).Lawful l now weather tasks schedule ↔
      p.triggered = [] ∧ Steady l now weather tasks schedule p := by
  obtain ⟨reached, after, whole⟩ := @fallbackPass_sound _ _ weather _ _ _ bounded
  rw [Steady]
  constructor
  · intro lawful
    have steady (raised : (fallbackPass l now weather tasks p).2 = true) (id : String)
        (popped : Popped now weather schedule id) : ¬ Wanted tasks now id := by
      intro asked
      obtain ⟨row, found, t, next, future, -⟩ := lawful.kept id popped asked
      obtain ⟨task, there, -, due, -⟩ := asked
      simp only [fallback, raised, if_true] at found
      rw [Option.mem_def.mp there] at found
      cases found
      exact absurd (due t next) (not_le.mpr future)
    refine ⟨?_, steady⟩
    by_contra some_
    obtain ⟨r, mem⟩ := List.exists_mem_of_ne_nil _ some_
    obtain ⟨seen_, asked, row, stored, user⟩ := bounded.within r mem
    cases raised : (fallbackPass l now weather tasks p).2 with
    | true => exact steady raised _ (taken _ seen_) asked
    | false =>
      obtain ⟨sound, all⟩ := whole raised
      have total := lawful.total
      have perUser := lawful.perUser r.user
      have once := lawful.once
      simp only [fallback, List.map_append, List.length_append, List.countP_append]
        at once total perUser
      have counted : 0 < p.triggered.countP fun t => t.user = r.user :=
        List.countP_pos_iff.mpr ⟨r, mem, decide_eq_true rfl⟩
      have some_ := List.length_pos_iff.mpr some_
      obtain ⟨task, there, live, due, cloud⟩ := asked
      rcases sound.busy r.task (all r.task (mem_dueIds.mpr ⟨task, there, live, due⟩))
        ⟨task, there, live, due, cloud⟩ with again | full | ⟨held, found, full⟩
      · exact (List.nodup_append.mp once).2.2 _ (List.mem_map_of_mem mem) _ again rfl
      · omega
      · have same := bounded.fixed r.task
        rw [Option.mem_def.mp found, Option.mem_def.mp stored, Option.map_some, Option.map_some]
          at same
        have users : held.userId = row.userId := congrArg (fun x => x.2.1) (Option.some.inj same)
        rw [Pass.count, users, user] at full
        omega
  · rintro ⟨fresh, steady⟩
    have triggered : (fallback l now weather tasks p).triggered =
        (fallbackPass l now weather tasks p).1.triggered := by
      rw [fallback, fresh]
      rfl
    refine ⟨?_, ?_, ?_, fun id popped asked => ?_⟩
    · rw [triggered]
      exact after.once
    · rw [triggered]
      exact after.total
    · rw [triggered]
      exact after.perUser
    · cases raised : (fallbackPass l now weather tasks p).2 with
      | true => exact absurd asked (steady raised id popped)
      | false =>
        obtain ⟨sound, all⟩ := whole raised
        have rows : (fallback l now weather tasks p).tasks =
            (fallbackPass l now weather tasks p).1.tasks := by
          simp only [fallback, raised, Bool.false_eq_true, if_false]
        obtain ⟨task, there, live, due, cloud⟩ := asked
        exact sound.kept bounded.fixed rows (all id (mem_dueIds.mpr ⟨task, there, live, due⟩))
          ⟨task, there, live, due, cloud⟩

theorem nodup_popDueTaskIds {faults : PopFaults} {ids : List String}
    (popped : (popDueTaskIds schedule now faults).2 = some ids) : ids.Nodup := by
  simp only [popDueTaskIds] at popped
  split at popped
  · cases popped
    exact SortedSet.nodup_upTo _ _ _
  · split at popped
    · cases popped
    · split at popped
      · cases popped
        exact List.nodup_nil
      · obtain ⟨-, same⟩ := Option.ite_none_right_eq_some.mp popped
        cases same
        exact SortedSet.nodup_upTo _ _ _

theorem mem_of_popped {ids : List String} (heard : weather.pop.eval ≠ .lost)
    (popped : (popDueTaskIds schedule now weather.pop).2 = some ids)
    (gone : Popped now weather schedule id) : id ∈ ids := by
  obtain ⟨-, ⟨e, there, rfl⟩, gone⟩ := gone
  by_contra missed
  refine gone e ?_ rfl
  simp only [popDueTaskIds] at popped ⊢
  split at popped
  · rename_i ok
    cases popped
    rw [if_pos ok, ok]
    exact SortedSet.mem_removeAll.mpr ⟨there, missed⟩
  · rename_i failed
    have refused : weather.pop.eval = .refused := by
      cases same : weather.pop.eval with
      | ok => exact absurd same failed
      | refused => rfl
      | lost => exact absurd same heard
    rw [if_neg failed]
    simp only [refused, Fault.effect] at popped ⊢
    split at popped
    · cases popped
    · rename_i range
      rw [if_neg range]
      split at popped
      · rename_i empty
        rw [if_pos empty]
        exact there
      · rename_i raw
        obtain ⟨ok, same⟩ := Option.ite_none_right_eq_some.mp popped
        cases same
        rw [if_neg raw, ok]
        exact SortedSet.mem_removeAll.mpr ⟨there, missed⟩

/-- What the pop returns is out of the schedule. -/
theorem popped_of_mem {ids : List String} (available : weather.available = true)
    (popped : (popDueTaskIds schedule now weather.pop).2 = some ids) (mem : id ∈ ids) :
    Popped now weather schedule id := by
  have entry {s : SortedSet String} (due : id ∈ s.upTo now schedulerBatchSize) :
      ∃ e ∈ s.entries, e.2 = id := SortedSet.exists_of_mem_upTo due
  refine ⟨available, ?_⟩
  simp only [popDueTaskIds] at popped ⊢
  split at popped
  · rename_i ok
    cases popped
    refine ⟨entry mem, ?_⟩
    rw [if_pos ok, ok]
    intro e there same
    exact (SortedSet.mem_removeAll.mp there).2 (same ▸ mem)
  · rename_i failed
    rw [if_neg failed]
    split at popped
    · cases popped
    · rename_i range
      rw [if_neg range]
      split at popped
      · cases popped
        cases mem
      · rename_i raw
        obtain ⟨ok, same⟩ := Option.ite_none_right_eq_some.mp popped
        cases same
        rw [if_neg raw, ok]
        obtain ⟨e, there, same⟩ := entry mem
        refine ⟨⟨e, ?_, same⟩, fun e there same => ?_⟩
        · cases fault : weather.pop.eval <;> rw [fault] at there
          · exact (SortedSet.mem_removeAll.mp there).1
          · exact there
          · exact (SortedSet.mem_removeAll.mp there).1
        · exact (SortedSet.mem_removeAll.mp there).2 (same ▸ mem)

/-- A loop that no failure has left is within the limits, and keeps what it has gone over. -/
theorem redisPass_lawful_iff {p : Pass} {ids reached : List String} {deferred desktop : ℕ}
    (sound : Sound l now tasks (Wanted tasks now) p reached)
    (only : ∀ id ∈ reached, id ∈ ids) (all : ∀ id ∈ ids, id ∈ reached) :
    TickResult.Lawful ⟨p.tasks, p.schedule, p.triggered, deferred, desktop, some "redis_zset"⟩ l now
        weather tasks schedule ↔
      ∀ id, Popped now weather schedule id → Wanted tasks now id → id ∈ ids := by
  constructor
  · intro lawful id popped asked
    by_contra missed
    obtain ⟨row, found, t, next, future, -⟩ := lawful.kept id popped asked
    obtain ⟨task, there, -, due, -⟩ := asked
    have same := sound.untouched id fun mem => missed (only id mem)
    rw [Option.mem_def.mp found, Option.mem_def.mp there] at same
    cases same
    exact absurd (due t next) (not_le.mpr future)
  · intro covers
    exact ⟨sound.once, sound.total, sound.perUser,
      fun id popped asked => sound.kept (fun _ => rfl) rfl (all id (covers id popped asked)) asked⟩

/-- A tick is within its limits and keeps what it pops exactly when no Redis command fails once it
has triggered a task, or popped it and gone on to the fallback; and it goes over all that was
popped where no failure stops it. -/
theorem tick_lawful_iff (l : Limits) (now : ℕ) (weather : Weather) (tasks : Tasks)
    (schedule : SortedSet String) :
    (scanAndTriggerTasks l now weather tasks schedule).Lawful l now weather tasks schedule ↔
      Spared l now weather tasks schedule := by
  have plain (left : SortedSet String) :=
    (@fallback_lawful_iff _ _ weather _ schedule _ _
      (sound_start l now tasks (Wanted tasks now) left).toBounded
      fun id mem => (List.not_mem_nil mem).elim).trans (and_iff_right rfl)
  rw [scanAndTriggerTasks, Spared]
  by_cases available : weather.available = true
  · rw [if_neg (not_not.mpr available), redisPart]
    simp only [available, true_implies]
    cases popped : (popDueTaskIds schedule now weather.pop).2 with
    | none => exact plain _
    | some ids =>
      simp only [Option.map_some]
      obtain ⟨reached, bounded, -, only, whole⟩ := redisPass_sound weather.delay weather.add
        (nodup_popDueTaskIds popped) (fun id _ mem => (List.not_mem_nil mem).elim)
        (sound_start l now tasks (Wanted tasks now) (popDueTaskIds schedule now weather.pop).1)
      have among (id : String) (mem : id ∈ reached) : id ∈ ids :=
        (only id mem).resolve_left List.not_mem_nil
      cases over_ : Pass.redisPass l now weather.delay
        { tasks, schedule := (popDueTaskIds schedule now weather.pop).1 } ids weather.add with
      | mk p failed =>
        rw [over_] at bounded whole
        cases failed with
        | true =>
          exact fallback_lawful_iff bounded fun id mem =>
            popped_of_mem available popped (among id mem)
        | false =>
          obtain ⟨sound, all⟩ := whole rfl
          exact redisPass_lawful_iff sound among all
  · rw [if_pos available]
    refine iff_of_true ((plain schedule).mpr fun _ id popped => ?_) fun there => absurd there available
    exact absurd popped.1 available

theorem dispatch_ok {p : Pass} {task : MonitorTask} :
    (p.dispatch l now task .ok).2.isNone = false := by
  rw [Pass.dispatch, if_pos rfl]
  split <;> rfl

theorem rowPass_steady {p : Pass} {delays : String → Fault} {ids : List String}
    (calm : ∀ id, delays id = .ok) : (Pass.rowPass l now delays p ids).2 = false := by
  induction ids generalizing p with
  | nil => rfl
  | cons id rest ih =>
    have went : (p.visitRow l now id (delays id)).2 = false := by
      rw [Pass.visitRow, calm id]
      split
      · rfl
      · split
        · rfl
        · exact dispatch_ok
    rw [Pass.rowPass]
    cases step : p.visitRow l now id (delays id) with
    | mk q raised =>
      rw [step] at went
      subst went
      exact ih

/-- Where neither the reply to the pop is lost nor a `delay` of the fallback fails, only a failure
after a trigger does harm. -/
theorem spared_of_heard (heard : weather.pop.eval ≠ .lost) (steady : ∀ id, weather.rowDelay id = .ok)
    (calm : ∀ ids p, (redisPart l now weather tasks schedule).2 = some (ids, p, true) →
      p.triggered = []) : Spared l now weather tasks schedule := by
  intro _
  have committed (p : Pass) : Steady l now weather tasks schedule p := by
    intro raised
    rw [fallbackPass, rowPass_steady steady] at raised
    cases raised
  split
  · exact committed _
  · rename_i ids p ended
    exact ⟨calm ids p (congrArg Prod.snd ended), committed p⟩
  · rename_i ids p ended
    intro id popped _
    obtain ⟨all, returned, same⟩ := Option.map_eq_some_iff.mp (congrArg Prod.snd ended)
    rw [← (Prod.mk.inj same).1]
    exact mem_of_popped heard returned popped

def pair : Tasks where
  rows := [⟨"a", "ann", "oil", .active, true, .cloud, none, 60, some 90, 0, none⟩,
    ⟨"b", "ann", "gas", .active, true, .cloud, none, 60, some 95, 0, none⟩]
  unique := by decide

def pairSchedule : SortedSet String := (SortedSet.empty.insert 90 "a").insert 95 "b"

/-- The broker refuses the second task of the first loop. -/
def refusing : Weather where
  available := true
  delay id := if id = "b" then .refused else .ok

/-- The second `ZADD` fails: with a limit of two, both tasks are triggered twice. The second `delay`
fails: the first task is triggered twice. The reply to the pop is lost: both tasks leave the
schedule, and nothing is done for them. -/
theorem tick_unlawful :
    ((scanAndTriggerTasks (.ofSettings (some 2) none none) 100
        { available := true, add := [.ok, .refused] } pair pairSchedule).triggered =
          [⟨"a", "ann"⟩, ⟨"b", "ann"⟩, ⟨"a", "ann"⟩, ⟨"b", "ann"⟩] ∧
      ¬ (scanAndTriggerTasks (.ofSettings (some 2) none none) 100
        { available := true, add := [.ok, .refused] } pair pairSchedule).Lawful
          (.ofSettings (some 2) none none) 100 { available := true, add := [.ok, .refused] } pair
          pairSchedule) ∧
    ((scanAndTriggerTasks (.ofSettings (some 2) none none) 100 refusing pair pairSchedule).triggered =
          [⟨"a", "ann"⟩, ⟨"a", "ann"⟩, ⟨"b", "ann"⟩] ∧
      ¬ (scanAndTriggerTasks (.ofSettings (some 2) none none) 100 refusing pair pairSchedule).Lawful
          (.ofSettings (some 2) none none) 100 refusing pair pairSchedule) ∧
    (scanAndTriggerTasks (.ofSettings none none none) 100
        { available := true, pop := { eval := .lost } } pair pairSchedule).schedule.entries = [] ∧
      ¬ (scanAndTriggerTasks (.ofSettings none none none) 100
        { available := true, pop := { eval := .lost } } pair pairSchedule).Lawful
          (.ofSettings none none none) 100 { available := true, pop := { eval := .lost } } pair
          pairSchedule := by
  refine ⟨⟨by decide, fun lawful => ?_⟩, ⟨by decide, fun lawful => ?_⟩, by decide,
    fun lawful => ?_⟩
  · exact absurd lawful.once (by decide)
  · exact absurd lawful.once (by decide)
  · have popped : Popped 100 { available := true, pop := { eval := .lost } } pairSchedule "a" :=
      ⟨rfl, by decide, by decide⟩
    obtain ⟨row, found, t, next, future, -⟩ := lawful.kept "a" popped ⟨_, rfl, by decide, by decide, rfl⟩
    cases found
    cases next
    exact absurd future (by decide)

end Tick

end Deeting.Monitor
