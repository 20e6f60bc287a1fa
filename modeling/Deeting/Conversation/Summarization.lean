import Mathlib.Algebra.GroupWithZero.Nat
import Mathlib.Data.List.Sort
import Mathlib.Logic.Function.Basic
import Deeting.Conversation.Window
import Deeting.Transition

/-! The summaries of one session: the appends and idle checks that trigger a
`conversation_summarize` job, the jobs, and the deletions from the window, each Redis
command and each hand-over to the queue one step. -/
namespace Deeting.Conversation.Summarization

open Transition

/-- The payload of the cached summary, with the messages its text was generated from. -/
structure Summary where
  coveredFromTurn : ℕ
  coveredToTurn : ℕ
  tokenEstimate : ℕ
  messages : List Message
  deriving DecidableEq

def sorted (messages : List Message) : List Message :=
  messages.insertionSort fun m n => m.turnIndex ≤ n.turnIndex

/-- What is generated from the messages a job has read; of none it writes no summary. -/
def summarize (messages : List Message) : Option Summary :=
  match sorted messages with
  | [] => none
  | first :: rest => some
    { coveredFromTurn := first.turnIndex
      coveredToTurn := ((first :: rest).getLast (List.cons_ne_nil first rest)).turnIndex
      tokenEstimate := ((first :: rest).map (·.tokenEstimate)).sum
      messages := first :: rest }

/-- How far a job has come: in the queue, the window read, the summary written. -/
inductive Stage where
  | queued
  | loaded (messages : List Message)
  | written (summary : Summary)
  deriving DecidableEq

/-- A job that is queued or running, perhaps for the second time. -/
structure Job where
  stage : Stage
  retried : Bool
  deriving DecidableEq

/-- A call of `append_messages` or an idle check: its scripts running, the flag found at
zero, the flag set, the job handed over. -/
inductive Call where
  | idle
  | appending (channel : ConversationChannel) (shouldFlush : Bool)
  | checked
  | marked
  | enqueued
  | idleChecked (lastTurn : ℕ)
  | idleReady
  | ended
  deriving DecidableEq

/-- The keys, the jobs and the calls. `deleted` is for the statements: the turns whose
message has been deleted. -/
structure World where
  session : Session
  summarizing : Bool
  summary : Option Summary
  jobs : List Job
  calls : ℕ → Call
  deleted : List ℕ

def World.initial : World := ⟨.empty, false, none, [], fun _ => .idle, []⟩

inductive Action where
  | append (n : ℕ) (channel : ConversationChannel)
  | script (n : ℕ) (draft : Draft)
  | check (n : ℕ)
  | mark (n : ℕ)
  | enqueue (n : ℕ)
  | flag (n : ℕ)
  | idleCheck (n : ℕ)
  | idleSummary (n : ℕ) (recent : Bool)
  | delete (turn : ℕ)
  | load (k : ℕ)
  | write (k : ℕ)
  | finish (k : ℕ)
  | fail (k : ℕ)
  | unavailable (k : ℕ)
  | loopError (k : ℕ)

namespace World

def call (w : World) (n : ℕ) (c : Call) : World :=
  { w with calls := Function.update w.calls n c }

def push (w : World) : World := { w with jobs := w.jobs ++ [⟨.queued, false⟩] }

def setJob (w : World) (k : ℕ) (job : Job) : World := { w with jobs := w.jobs.set k job }

def dropJob (w : World) (k : ℕ) : World := { w with jobs := w.jobs.eraseIdx k }

/-- `clear_summarizing`, the last command of a job that ends with it. -/
def clearSummarizing (w : World) : World := { w with summarizing := false }

/-- `delete_message`, with no other command between its own. -/
def delete (w : World) (turn : ℕ) : World :=
  match w.session.deleteMessage turn with
  | (session, .deleted turn) => { w with session, deleted := turn :: w.deleted }
  | (session, _) => { w with session }

end World

/-- An append that need not flush, or finds the flag set, ends there; so does an idle check
of an empty or summarised session. A window without messages, an error and the end of its
work make a job clear the flag; a service that cannot be built does not, nor does a second
error of the event loop. -/
def step (settings : Settings) (w : World) : Action → Option World
  | .append n channel =>
    match w.calls n with
    | .idle => some (w.call n (.appending channel false))
    | _ => none
  | .script n draft =>
    match w.calls n with
    | .appending channel shouldFlush =>
      let (session, appended) := w.session.appendLua settings channel draft
      some ({ w with session }.call n (.appending channel (shouldFlush || appended.shouldFlush)))
    | _ => none
  | .check n =>
    match w.calls n with
    | .appending _ shouldFlush =>
      some (w.call n (if shouldFlush && !w.summarizing then .checked else .ended))
    | _ => none
  | .mark n =>
    match w.calls n with
    | .checked => some ({ w with summarizing := true }.call n .marked)
    | _ => none
  | .enqueue n =>
    match w.calls n with
    | .marked | .idleReady => some (w.push.call n .enqueued)
    | _ => none
  | .flag n =>
    match w.calls n with
    | .enqueued => some ({ w with summarizing := true }.call n .ended)
    | _ => none
  | .idleCheck n =>
    match w.calls n with
    | .idle =>
      some (w.call n
        (if w.session.lastTurn = 0 ∨ w.summarizing then .ended
          else .idleChecked w.session.lastTurn))
    | _ => none
  | .idleSummary n recent =>
    match w.calls n with
    | .idleChecked lastTurn =>
      match w.summary with
      | none => some (w.call n .idleReady)
      | some summary =>
        some (w.call n
          (if lastTurn ≤ summary.coveredToTurn ∨ recent then .ended else .idleReady))
    | _ => none
  | .delete turn => some (w.delete turn)
  | .load k =>
    match w.jobs[k]? with
    | some ⟨.queued, retried⟩ => some (w.setJob k ⟨.loaded w.session.loadWindow, retried⟩)
    | _ => none
  | .write k =>
    match w.jobs[k]? with
    | some ⟨.loaded messages, retried⟩ =>
      (summarize messages).map fun summary =>
        { w with summary := some summary }.setJob k ⟨.written summary, retried⟩
    | _ => none
  | .finish k =>
    match w.jobs[k]? with
    | some ⟨.loaded [], _⟩ => some (w.clearSummarizing.dropJob k)
    | some ⟨.written summary, _⟩ =>
      some ({ w with session := { w.session with totalTokens := summary.tokenEstimate } }
        |>.clearSummarizing.dropJob k)
    | _ => none
  | .fail k =>
    match w.jobs[k]? with
    | some _ => some (w.clearSummarizing.dropJob k)
    | none => none
  | .unavailable k =>
    match w.jobs[k]? with
    | some ⟨.queued, _⟩ => some (w.dropJob k)
    | _ => none
  | .loopError k =>
    match w.jobs[k]? with
    | some ⟨_, false⟩ => some (w.setJob k ⟨.queued, true⟩)
    | some ⟨_, true⟩ => some (w.dropJob k)
    | none => none

inductive Steps (settings : Settings) (w : World) : Action → World → Prop where
  | append {n : ℕ} (channel : ConversationChannel) (called : w.calls n = .idle) :
      Steps settings w (.append n channel) (w.call n (.appending channel false))
  | script {n : ℕ} {channel : ConversationChannel} {shouldFlush : Bool} (draft : Draft)
      (called : w.calls n = .appending channel shouldFlush) :
      Steps settings w (.script n draft)
        ({ w with session := (w.session.appendLua settings channel draft).1 }.call n
          (.appending channel
            (shouldFlush || (w.session.appendLua settings channel draft).2.shouldFlush)))
  | check {n : ℕ} {channel : ConversationChannel} {shouldFlush : Bool}
      (called : w.calls n = .appending channel shouldFlush) :
      Steps settings w (.check n)
        (w.call n (if shouldFlush && !w.summarizing then .checked else .ended))
  | mark {n : ℕ} (called : w.calls n = .checked) :
      Steps settings w (.mark n) ({ w with summarizing := true }.call n .marked)
  | enqueue {n : ℕ} (called : w.calls n = .marked ∨ w.calls n = .idleReady) :
      Steps settings w (.enqueue n) (w.push.call n .enqueued)
  | flag {n : ℕ} (called : w.calls n = .enqueued) :
      Steps settings w (.flag n) ({ w with summarizing := true }.call n .ended)
  | idleCheck {n : ℕ} (called : w.calls n = .idle) :
      Steps settings w (.idleCheck n)
        (w.call n
          (if w.session.lastTurn = 0 ∨ w.summarizing then .ended
            else .idleChecked w.session.lastTurn))
  | idleUnsummarised {n lastTurn : ℕ} (recent : Bool) (called : w.calls n = .idleChecked lastTurn)
      (missing : w.summary = none) :
      Steps settings w (.idleSummary n recent) (w.call n .idleReady)
  | idleSummary {n lastTurn : ℕ} {summary : Summary} (recent : Bool)
      (called : w.calls n = .idleChecked lastTurn) (cached : w.summary = some summary) :
      Steps settings w (.idleSummary n recent)
        (w.call n (if lastTurn ≤ summary.coveredToTurn ∨ recent then .ended else .idleReady))
  | delete (turn : ℕ) : Steps settings w (.delete turn) (w.delete turn)
  | load {k : ℕ} {retried : Bool} (there : w.jobs[k]? = some ⟨.queued, retried⟩) :
      Steps settings w (.load k) (w.setJob k ⟨.loaded w.session.loadWindow, retried⟩)
  | write {k : ℕ} {messages : List Message} {retried : Bool} {summary : Summary}
      (there : w.jobs[k]? = some ⟨.loaded messages, retried⟩)
      (written : summarize messages = some summary) :
      Steps settings w (.write k)
        ({ w with summary := some summary }.setJob k ⟨.written summary, retried⟩)
  | finishEmpty {k : ℕ} {retried : Bool} (there : w.jobs[k]? = some ⟨.loaded [], retried⟩) :
      Steps settings w (.finish k) (w.clearSummarizing.dropJob k)
  | finish {k : ℕ} {summary : Summary} {retried : Bool}
      (there : w.jobs[k]? = some ⟨.written summary, retried⟩) :
      Steps settings w (.finish k)
        ({ w with session := { w.session with totalTokens := summary.tokenEstimate } }
          |>.clearSummarizing.dropJob k)
  | fail {k : ℕ} {job : Job} (there : w.jobs[k]? = some job) :
      Steps settings w (.fail k) (w.clearSummarizing.dropJob k)
  | unavailable {k : ℕ} {retried : Bool} (there : w.jobs[k]? = some ⟨.queued, retried⟩) :
      Steps settings w (.unavailable k) (w.dropJob k)
  | retry {k : ℕ} {stage : Stage} (there : w.jobs[k]? = some ⟨stage, false⟩) :
      Steps settings w (.loopError k) (w.setJob k ⟨.queued, true⟩)
  | giveUp {k : ℕ} {stage : Stage} (there : w.jobs[k]? = some ⟨stage, true⟩) :
      Steps settings w (.loopError k) (w.dropJob k)

theorem Steps.of_step {settings : Settings} {w t : World} {a : Action}
    (taken : step settings w a = some t) : Steps settings w a t := by
  cases a with
  | append n channel =>
    rw [step] at taken
    split at taken
    · rename_i called
      cases taken
      exact .append channel called
    · cases taken
  | script n draft =>
    rw [step] at taken
    split at taken
    · rename_i called
      cases taken
      exact .script draft called
    · cases taken
  | check n =>
    rw [step] at taken
    split at taken
    · rename_i called
      cases taken
      exact .check called
    · cases taken
  | mark n =>
    rw [step] at taken
    split at taken
    · rename_i called
      cases taken
      exact .mark called
    · cases taken
  | enqueue n =>
    rw [step] at taken
    split at taken
    · rename_i called
      cases taken
      exact .enqueue (.inl called)
    · rename_i called
      cases taken
      exact .enqueue (.inr called)
    · cases taken
  | flag n =>
    rw [step] at taken
    split at taken
    · rename_i called
      cases taken
      exact .flag called
    · cases taken
  | idleCheck n =>
    rw [step] at taken
    split at taken
    · rename_i called
      cases taken
      exact .idleCheck called
    · cases taken
  | idleSummary n recent =>
    rw [step] at taken
    split at taken
    · rename_i called
      split at taken
      · rename_i missing
        cases taken
        exact .idleUnsummarised recent called missing
      · rename_i cached
        cases taken
        exact .idleSummary recent called cached
    · cases taken
  | delete turn =>
    cases taken
    exact .delete turn
  | load k =>
    rw [step] at taken
    split at taken
    · rename_i there
      cases taken
      exact .load there
    · cases taken
  | write k =>
    rw [step] at taken
    split at taken
    · rename_i there
      obtain ⟨summary, written, rfl⟩ := Option.map_eq_some_iff.mp taken
      exact .write there written
    · cases taken
  | finish k =>
    rw [step] at taken
    split at taken
    · rename_i there
      cases taken
      exact .finishEmpty there
    · rename_i there
      cases taken
      exact .finish there
    · cases taken
  | fail k =>
    rw [step] at taken
    split at taken
    · rename_i there
      cases taken
      exact .fail there
    · cases taken
  | unavailable k =>
    rw [step] at taken
    split at taken
    · rename_i there
      cases taken
      exact .unavailable there
    · cases taken
  | loopError k =>
    rw [step] at taken
    split at taken
    · rename_i there
      cases taken
      exact .retry there
    · rename_i there
      cases taken
      exact .giveUp there
    · cases taken

end Deeting.Conversation.Summarization
