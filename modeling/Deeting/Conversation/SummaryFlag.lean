import Deeting.Conversation.Summarization

/-! The `summarizing` flag against the jobs it stands for. It is read and set by separate
commands, is set again once the job has been handed over, and is not cleared by every end
of a job. -/
namespace Deeting.Conversation.Summarization

open Transition

namespace World

/-- At most one job, and without one the flag is at zero. With `between`, a call that has
set the flag may still be about to hand the job over. -/
def Flagged (between : Bool) (w : World) : Prop :=
  w.jobs.length ≤ 1 ∧
    (w.jobs = [] → w.summarizing = true → between = true ∧ ∃ n, w.calls n = .marked)

/-- What keeps the flag true to the jobs: no second job is handed over, the flag is set only
with a job there, and a job that leaves it as it is leaves it at zero. -/
def FlagKept (between : Bool) (w : World) : Action → Prop
  | .mark n => w.calls n = .checked → between = true ∨ w.jobs ≠ []
  | .enqueue n => w.calls n = .marked ∨ w.calls n = .idleReady → w.jobs = []
  | .flag n => w.calls n = .enqueued →
      w.jobs ≠ [] ∨ between = true ∧ ∃ m, w.calls m = .marked
  | .unavailable k => ∀ retried, w.jobs[k]? = some ⟨.queued, retried⟩ →
      w.summarizing = false ∨ between = true ∧ ∃ m, w.calls m = .marked
  | .loopError k => ∀ stage, w.jobs[k]? = some ⟨stage, true⟩ →
      w.summarizing = false ∨ between = true ∧ ∃ m, w.calls m = .marked
  | _ => True

structure Quiet (w t : World) : Prop where
  jobs : t.jobs.length = w.jobs.length
  summarizing : t.summarizing = w.summarizing
  marked : ∀ n, t.calls n = .marked ↔ w.calls n = .marked

end World

section Steps

variable {settings : Settings} {between : Bool} {w t : World} {n k : ℕ} {c before : Call}

open World

theorem World.Quiet.flagged (quiet : Quiet w t) : t.Flagged between ↔ w.Flagged between := by
  have empty : t.jobs = [] ↔ w.jobs = [] := by
    rw [← List.length_eq_zero_iff, quiet.jobs, List.length_eq_zero_iff]
  simp only [Flagged, quiet.jobs, quiet.summarizing, quiet.marked, empty]

theorem marked_update (called : w.calls n = before) (early : before ≠ .marked)
    (late : c ≠ .marked) (m : ℕ) :
    Function.update w.calls n c m = .marked ↔ w.calls m = .marked := by
  by_cases same : m = n
  · subst same
    simp only [Function.update_self, called, late, early]
  · rw [Function.update_of_ne same]

theorem quiet_call {session : Session} (called : w.calls n = before) (early : before ≠ .marked)
    (late : c ≠ .marked) : Quiet w ({ w with session }.call n c) :=
  ⟨rfl, rfl, marked_update called early late⟩

theorem quiet_setJob {job : Job} {summary : Option Summary} :
    Quiet w ({ w with summary }.setJob k job) :=
  ⟨List.length_set .., rfl, fun _ => Iff.rfl⟩

theorem quiet_delete (turn : ℕ) : Quiet w (w.delete turn) := by
  unfold World.delete
  split
  · exact ⟨rfl, rfl, fun _ => Iff.rfl⟩
  · exact ⟨rfl, rfl, fun _ => Iff.rfl⟩

theorem dropJob_jobs {job : Job} (single : w.jobs.length ≤ 1) (there : w.jobs[k]? = some job) :
    (w.dropJob k).jobs = [] := by
  have within := (List.getElem?_eq_some_iff.mp there).1
  have length := List.length_eraseIdx_of_lt within
  rw [← List.length_eq_zero_iff]
  change (w.jobs.eraseIdx k).length = 0
  omega

theorem flagged_cleared {job : Job} {session : Session} (flagged : w.Flagged between)
    (there : w.jobs[k]? = some job) :
    ({ w with session }.clearSummarizing.dropJob k).Flagged between := by
  have gone := dropJob_jobs flagged.1 there
  refine ⟨?_, fun _ set => ?_⟩
  · change (w.dropJob k).jobs.length ≤ 1
    rw [gone]
    exact Nat.zero_le 1
  · cases set

theorem flagged_dropJob {job : Job} (flagged : w.Flagged between)
    (there : w.jobs[k]? = some job) :
    (w.dropJob k).Flagged between ↔
      w.summarizing = false ∨ between = true ∧ ∃ m, w.calls m = .marked := by
  have gone := dropJob_jobs flagged.1 there
  have flag : (w.dropJob k).summarizing = w.summarizing := rfl
  have calls : (w.dropJob k).calls = w.calls := rfl
  simp only [Flagged, gone, flag, calls, List.length_nil, Nat.zero_le, true_and,
    forall_const]
  cases w.summarizing <;> simp

theorem flagged_mark (flagged : w.Flagged between) :
    ({ w with summarizing := true }.call n .marked).Flagged between ↔
      between = true ∨ w.jobs ≠ [] := by
  have handing : ∃ m, ({ w with summarizing := true }.call n .marked).calls m = .marked :=
    ⟨n, Function.update_self ..⟩
  have jobs : ({ w with summarizing := true }.call n .marked).jobs = w.jobs := rfl
  have flag : ({ w with summarizing := true }.call n .marked).summarizing = true := rfl
  simp only [Flagged, jobs, flag, handing, flagged.1, true_and, and_true, forall_const]
  tauto

theorem flagged_flag (flagged : w.Flagged between) (called : w.calls n = .enqueued) :
    ({ w with summarizing := true }.call n .ended).Flagged between ↔
      w.jobs ≠ [] ∨ between = true ∧ ∃ m, w.calls m = .marked := by
  have marked (m : ℕ) : ({ w with summarizing := true }.call n .ended).calls m = .marked ↔
      w.calls m = .marked :=
    marked_update (c := .ended) called nofun nofun m
  have jobs : ({ w with summarizing := true }.call n .ended).jobs = w.jobs := rfl
  have flag : ({ w with summarizing := true }.call n .ended).summarizing = true := rfl
  simp only [Flagged, jobs, flag, marked, flagged.1, true_and, forall_const]
  tauto

theorem flagged_enqueue : (w.push.call n .enqueued).Flagged between ↔ w.jobs = [] := by
  have jobs : (w.push.call n .enqueued).jobs = w.jobs ++ [⟨.queued, false⟩] := rfl
  simp only [Flagged, jobs, List.length_append, List.length_singleton, List.append_eq_nil_iff,
    List.cons_ne_nil, and_false, false_imp_iff, and_true]
  rw [← List.length_eq_zero_iff]
  omega

theorem flagged_step {a : Action} (flagged : w.Flagged between)
    (taken : step settings w a = some t) : t.Flagged between ↔ w.FlagKept between a := by
  have quietly (quiet : Quiet w t) : t.Flagged between ↔ True :=
    iff_true_intro (quiet.flagged.mpr flagged)
  cases Steps.of_step taken with
  | append channel called =>
    exact quietly (quiet_call called nofun nofun)
  | script draft called =>
    exact quietly (quiet_call called nofun nofun)
  | check called =>
    exact quietly (quiet_call called nofun (by split <;> nofun))
  | mark called =>
    simp only [FlagKept, called, forall_const]
    exact flagged_mark flagged
  | enqueue called =>
    simp only [FlagKept, called, forall_const]
    exact flagged_enqueue
  | flag called =>
    simp only [FlagKept, called, forall_const]
    exact flagged_flag flagged called
  | idleCheck called =>
    exact quietly (quiet_call called nofun (by split <;> nofun))
  | idleUnsummarised recent called missing =>
    exact quietly (quiet_call called nofun nofun)
  | idleSummary recent called cached =>
    exact quietly (quiet_call called nofun (by split <;> nofun))
  | delete turn =>
    exact quietly (quiet_delete turn)
  | load there =>
    exact quietly quiet_setJob
  | write there written =>
    exact quietly quiet_setJob
  | finishEmpty there =>
    exact iff_true_intro (flagged_cleared flagged there)
  | finish there =>
    exact iff_true_intro (flagged_cleared flagged there)
  | fail there =>
    exact iff_true_intro (flagged_cleared flagged there)
  | unavailable there =>
    simp only [FlagKept, there, Option.some.injEq, Job.mk.injEq, true_and, forall_eq']
    exact flagged_dropJob flagged there
  | retry there =>
    simp only [FlagKept, there, Option.some.injEq, Job.mk.injEq, reduceCtorEq, and_false,
      false_imp_iff, implies_true]
    exact quietly quiet_setJob
  | giveUp there =>
    simp only [FlagKept, there, Option.some.injEq, Job.mk.injEq, and_true, forall_eq']
    exact flagged_dropJob flagged there

theorem flagKept_of_stuck {a : Action} (stuck : step settings w a = none) :
    w.FlagKept between a := by
  cases a with
  | mark n | flag n =>
    intro called
    simp [step, called] at stuck
  | enqueue n =>
    rintro (called | called)
    · simp [step, called] at stuck
    · simp [step, called] at stuck
  | unavailable k =>
    intro retried there
    simp [step, there] at stuck
  | loopError k =>
    intro stage there
    simp [step, there] at stuck
  | _ => trivial

end Steps

/-- The flag is true to the jobs in every state of a run exactly when every step of it is
one that keeps it so, whether or not the moments between mark and hand-over count. -/
theorem flagged_throughout_iff (settings : Settings) (between : Bool) (actions : List Action) :
    (∀ first, first <+: actions → ∀ w, run (step settings) .initial first = some w →
        w.Flagged between) ↔
      Along (step settings) (World.FlagKept between) .initial actions := by
  refine forall_prefix_iff_along (fun flagged => flagged) ?_ ?_ flagKept_of_stuck ?_
  · intro w a t flagged kept taken
    exact (flagged_step flagged taken).mpr kept
  · intro w a t flagged taken after
    exact (flagged_step flagged taken).mp after
  · exact ⟨Nat.zero_le 1, fun _ set => nomatch set⟩

section Apart

open World

def Call.handing : Call → Bool
  | .checked | .marked | .enqueued | .idleChecked _ | .idleReady => true
  | _ => false

def Call.Fits (jobs : List Job) : Call → Prop
  | .checked | .marked | .idleChecked _ | .idleReady => jobs = []
  | .enqueued => jobs ≠ []
  | _ => True

/-- The calls hand over jobs one at a time, no job ends before the flag is set again, and each
ends with clearing it. -/
def World.Apart (w : World) : Action → Prop
  | .check _ | .idleCheck _ => ∀ m, (w.calls m).handing = false
  | .finish _ | .fail _ => ∀ m, w.calls m ≠ .enqueued
  | .unavailable _ => False
  | .loopError k => ∀ stage, w.jobs[k]? ≠ some ⟨stage, true⟩
  | _ => True

structure World.Handed (w : World) : Prop where
  few : w.jobs.length ≤ 1
  single : ∀ m n, (w.calls m).handing = true → (w.calls n).handing = true → m = n
  fits : ∀ n, (w.calls n).Fits w.jobs
  flagged : (∀ n, (w.calls n).handing = false) → w.jobs ≠ [] → w.summarizing = true

variable {settings : Settings} {w t : World} {n k : ℕ} {a : Action} {c : Call}

theorem fits_of_quiet {jobs : List Job} (quiet : c.handing = false) : c.Fits jobs := by
  cases c <;> trivial

/-- All calls but one are out of the way. -/
theorem handed_of_alone (few : t.jobs.length ≤ 1) (alone : ∀ m, m ≠ n → (t.calls m).handing = false)
    (fits : (t.calls n).Fits t.jobs)
    (flagged : (t.calls n).handing = false → t.jobs ≠ [] → t.summarizing = true) : t.Handed := by
  have here {m : ℕ} (handing : (t.calls m).handing = true) : m = n := by
    by_contra other
    rw [alone m other] at handing
    cases handing
  refine ⟨few, fun m m' first second => (here first).trans (here second).symm, fun m => ?_,
    fun none_ => flagged (none_ n)⟩
  by_cases same : m = n
  · exact same ▸ fits
  · exact fits_of_quiet (alone m same)

theorem World.Handed.quiet (handed : w.Handed) (length : t.jobs.length = w.jobs.length)
    (flag : t.summarizing = w.summarizing)
    (calls : ∀ m, t.calls m = w.calls m ∨
      (w.calls m).handing = false ∧ (t.calls m).handing = false) : t.Handed := by
  have empty : t.jobs = [] ↔ w.jobs = [] := by
    rw [← List.length_eq_zero_iff, length, List.length_eq_zero_iff]
  have same (m : ℕ) : (t.calls m).handing = (w.calls m).handing := by
    rcases calls m with same | ⟨before, after⟩
    · rw [same]
    · rw [before, after]
  refine ⟨length ▸ handed.few, fun m n => ?_, fun m => ?_, ?_⟩
  · rw [same, same]
    exact handed.single m n
  · rcases calls m with unchanged | ⟨-, after⟩
    · have fits := handed.fits m
      rw [unchanged]
      cases at_ : w.calls m <;> simp_all [Call.Fits]
    · exact fits_of_quiet after
  · simp only [same, ne_eq, empty, flag]
    exact handed.flagged

/-- A call goes on that is handing a job over, or that finds no other doing so. -/
theorem World.Handed.call {jobs : List Job} {summarizing : Bool} (handed : w.Handed)
    (alone : (w.calls n).handing = true ∨ ∀ m, (w.calls m).handing = false)
    (few : jobs.length ≤ 1) (fits : c.Fits jobs)
    (flagged : c.handing = false → jobs ≠ [] → summarizing = true) :
    ({ w with jobs, summarizing }.call n c).Handed := by
  have here : ({ w with jobs, summarizing }.call n c).calls n = c := Function.update_self ..
  have others (m : ℕ) (other : m ≠ n) :
      ({ w with jobs, summarizing }.call n c).calls m = w.calls m := Function.update_of_ne other ..
  refine handed_of_alone (n := n) few (fun m other => ?_) (by rwa [here]) (by rwa [here])
  rw [others m other]
  rcases alone with handing | none_
  · by_contra too
    exact other (handed.single m n (by simpa using too) handing)
  · exact none_ m

theorem World.Handed.aside {session : Session} {before : Call} (handed : w.Handed)
    (called : w.calls n = before) (quiet : before.handing = false) (later : c.handing = false) :
    ({ w with session }.call n c).Handed := by
  have here : ({ w with session }.call n c).calls n = c := Function.update_self ..
  refine handed.quiet rfl rfl fun m => ?_
  by_cases same : m = n
  · subst same
    exact .inr ⟨called ▸ quiet, by rwa [here]⟩
  · exact .inl (Function.update_of_ne same ..)

/-- A call looks at the flag, and sets out to hand a job over only where it is at zero. -/
theorem World.Handed.looks (handed : w.Handed) (alone : ∀ m, (w.calls m).handing = false)
    (zero : c.handing = true → w.summarizing = false) (fits : w.jobs = [] → c.Fits w.jobs) :
    (w.call n c).Handed := by
  refine handed.call (.inr alone) handed.few ?_ fun _ some_ => handed.flagged alone some_
  cases handing : c.handing with
  | true =>
    refine fits (by_contra fun some_ => ?_)
    rw [handed.flagged alone some_] at zero
    cases zero handing
  | false => exact fits_of_quiet handing

/-- A job that ends finds no call that is handing one over. -/
theorem World.Handed.over {job : Job} {session : Session} (handed : w.Handed)
    (there : w.jobs[k]? = some job) (clear : ∀ m, w.calls m ≠ .enqueued) :
    ({ w with session }.clearSummarizing.dropJob k).Handed := by
  have gone : (w.dropJob k).jobs = [] := dropJob_jobs handed.few there
  have some_ : w.jobs ≠ [] := by
    intro none_
    rw [none_] at there
    cases there
  have none_ (m : ℕ) : (w.calls m).handing = false := by
    have fits := handed.fits m
    have clear := clear m
    cases at_ : w.calls m <;> simp_all [Call.Fits, Call.handing]
  refine handed_of_alone (n := 0) ?_ (fun m _ => none_ m) (fits_of_quiet (none_ 0))
    fun _ more => absurd gone more
  change (w.dropJob k).jobs.length ≤ 1
  rw [gone]
  exact Nat.zero_le 1

theorem World.Handed.step (handed : w.Handed) (apart : w.Apart a)
    (taken : Summarization.step settings w a = some t) : t.Handed := by
  have fits {n : ℕ} {c : Call} (called : w.calls n = c) : c.Fits w.jobs := called ▸ handed.fits n
  cases Steps.of_step taken with
  | append channel called => exact handed.aside called rfl rfl
  | script draft called => exact handed.aside called rfl rfl
  | check called =>
    refine handed.looks apart (fun handing => ?_) fun none_ => ?_
    · split at handing
      · rename_i seen
        simpa using (Bool.and_eq_true_iff.mp seen).2
      · cases handing
    · split
      · exact none_
      · trivial
  | mark called =>
    have none_ : w.jobs = [] := fits called
    exact handed.call (.inl (by rw [called]; rfl)) handed.few none_ nofun
  | enqueue called =>
    have none_ : w.jobs = [] := by
      rcases called with called | called
      · exact fits called
      · exact fits called
    refine handed.call (.inl ?_) (by simp [none_]) (by simp [Call.Fits]) nofun
    rcases called with called | called
    · rw [called]
      rfl
    · rw [called]
      rfl
  | flag called => exact handed.call (.inl (by rw [called]; rfl)) handed.few trivial fun _ _ => rfl
  | idleCheck called =>
    refine handed.looks apart (fun handing => ?_) fun none_ => ?_
    · split at handing
      · cases handing
      · rename_i unseen
        simpa using (not_or.mp unseen).2
    · split
      · trivial
      · exact none_
  | idleUnsummarised recent called missing =>
    have none_ : w.jobs = [] := fits called
    exact handed.call (.inl (by rw [called]; rfl)) handed.few none_ nofun
  | idleSummary recent called cached =>
    have none_ : w.jobs = [] := fits called
    refine handed.call (.inl (by rw [called]; rfl)) handed.few ?_ fun _ some_ => absurd none_ some_
    split
    · trivial
    · exact none_
  | delete turn =>
    obtain ⟨jobs, summarizing, -⟩ := quiet_delete (w := w) turn
    refine handed.quiet jobs summarizing fun m => .inl ?_
    unfold World.delete
    split <;> rfl
  | load there => exact handed.quiet (List.length_set ..) rfl fun _ => .inl rfl
  | write there written => exact handed.quiet (List.length_set ..) rfl fun _ => .inl rfl
  | finishEmpty there => exact handed.over there apart
  | finish there => exact handed.over there apart
  | fail there => exact handed.over there apart
  | unavailable there => exact apart.elim
  | retry there => exact handed.quiet (List.length_set ..) rfl fun _ => .inl rfl
  | giveUp there => exact absurd there (apart _)

theorem World.Handed.keeps (handed : w.Handed) (apart : w.Apart a) : w.FlagKept true a := by
  cases a with
  | mark n => exact fun _ => .inl rfl
  | enqueue n =>
    rintro (called | called)
    · simpa [called, Call.Fits] using handed.fits n
    · simpa [called, Call.Fits] using handed.fits n
  | flag n =>
    intro called
    exact .inl (by simpa [called, Call.Fits] using handed.fits n)
  | unavailable k => exact apart.elim
  | loopError k => exact fun stage there => absurd there (apart stage)
  | _ => trivial

/-- Where the calls hand over one at a time and every job clears the flag, the flag is true to
the jobs. -/
theorem flagged_of_apart (settings : Settings) {actions : List Action}
    (apart : Along (Summarization.step settings) World.Apart .initial actions)
    (reached : run (Summarization.step settings) .initial actions = some w) : w.Flagged true := by
  have kept : Along (Summarization.step settings) (World.FlagKept true) .initial actions := by
    refine along_of_invariant World.Handed.step World.Handed.keeps ?_ apart
    exact ⟨Nat.zero_le 1, nofun, fun _ => trivial, fun _ some_ => absurd rfl some_⟩
  exact (flagged_throughout_iff settings true actions).mpr kept actions (List.prefix_refl _) w reached

end Apart

section Schedules

def long : Draft := { hello with tokenEstimate := 7000 }

/-- The worker is done before the flag is set for the second time; nothing is under way, and
what crosses the threshold next finds the flag set. -/
def fastWorker : List Action :=
  [.append 0 .internal, .script 0 long, .check 0, .mark 0, .enqueue 0, .load 0, .write 0,
    .finish 0, .flag 0, .append 1 .internal, .script 1 long, .check 1]

/-- Both appends read the flag before either of them sets it. -/
def twoAppends : List Action :=
  [.append 0 .internal, .append 1 .internal, .script 0 long, .script 1 long, .check 0, .check 1,
    .mark 0, .mark 1, .enqueue 0, .enqueue 1]

theorem flag_betrayed :
    (∃ w, run (step defaultSettings) .initial fastWorker = some w ∧ w.jobs = [] ∧
      w.summarizing = true ∧ (∀ n, n ≠ 0 → n ≠ 1 → w.calls n = .idle) ∧
      w.calls 0 = .ended ∧ w.calls 1 = .ended ∧ 6144 ≤ w.session.totalTokens) ∧
    ∃ w, run (step defaultSettings) .initial twoAppends = some w ∧ w.jobs.length = 2 := by
  refine ⟨⟨_, rfl, rfl, rfl, ?_, rfl, rfl, by decide⟩, _, rfl, rfl⟩
  intro n other another
  simp [World.call, World.push, World.setJob, World.clearSummarizing, World.dropJob, World.initial,
    other, another]

end Schedules

end Deeting.Conversation.Summarization
