import Deeting.Routing.Selector
import Deeting.Texts
import Mathlib.Tactic.Linarith

/-! `_poll_async_result`: what a submit answer and the asynchronous configuration prepare, and the
loop that polls until a status decides or the time is over. -/
namespace Deeting.Upstream

open Routing (deepMerge)
open Deeting.Stream (orElse)

section Paths

def descend (current : Json) (part : List Char) : Json :=
  match current with
  | .arr items => ((Texts.decimal? part).bind (items[·]?)).getD .null
  | .obj entries => (Json.obj entries).get (.ofList part)
  | _ => .null

def extractByPath (data : Json) (path : String) : Json :=
  if path = "" then data else (path.toList.splitOn '.').foldl descend data

def normalizeLocation (path : Json) : String :=
  let path := path.string?.getD ""
  if path.toList.take 5 = "body.".toList then .ofList (path.toList.drop 5)
  else if path = "body" then ""
  else path

def normalizeJsonResponse : Json → Json
  | .obj entries => .obj entries
  | .arr items => .obj [("data", .arr items)]
  | _ => .obj []

end Paths

section Results

def textItems (key : String) (extracted : Json) : Json :=
  .obj [("data", .arr (extracted.items.filterMap fun item =>
    item.string?.map fun text => .obj [(key, .str text)]))]

def extractAsyncResult (payload asyncConfig : Json) : Json :=
  let extraction := orElse (asyncConfig.get "result_extraction") (.obj [])
  let extracted := extractByPath payload (normalizeLocation (extraction.get "location"))
  match (extraction.get "format").string?.getD "" with
  | "url_list" => textItems "url" extracted
  | "b64_list" => textItems "b64_json" extracted
  | _ => payload

end Results

/-- How the call ends: with a result, with a `RuntimeError` of its own, or with what something
in it raises. -/
inductive Ending where
  | result (payload : Json)
  | failed (message : String)
  | raised (message : String)

structure PollAnswer where
  statusCode : ℕ
  body : Json

/-- `render_value`, `int` and `str`, `none` where they raise. -/
structure Readings where
  renderValue : Json → Json → Option Json
  int : Json → Option ℤ
  str : Json → String

structure Poll where
  url : Json
  method : Json
  headers : Json
  statusPath : String
  successValues : List Json
  failValues : List Json
  interval : ℤ
  timeout : ℤ

def hashable : Json → Bool
  | .arr _ | .obj _ => false
  | _ => true

/-- The elements of `set(value or [])`. -/
def setOf (value : Json) : Option (List Json) :=
  if value.truthy then
    match value with
    | .arr items => if items.all hashable then some items else none
    | .str text => some (text.toList.map fun c => .str (.ofList [c]))
    | .obj entries => some (entries.map fun entry => .str entry.1)
    | _ => none
  else some []

section Prepare

variable (env : Readings) (asyncConfig submitResponse baseHeaders : Json) (submitUrl : String)

def taskId : Json :=
  let extraction := orElse (asyncConfig.get "task_id_extraction") (.obj [])
  extractByPath submitResponse (normalizeLocation (extraction.get "key_path"))

/-- `submit_url.split("?")[0].rsplit("/", 1)[0] + "/"`. -/
def baseUrl : String :=
  let path := submitUrl.toList.takeWhile (· ≠ '?')
  let dir := (path.reverse.dropWhile (· ≠ '/')).drop 1 |>.reverse
  .ofList (if '/' ∈ path then dir else path) ++ "/"

def prepare : Except Ending Poll :=
  let taskId := taskId asyncConfig submitResponse
  if ¬ taskId.truthy then .error (.failed "async task_id extraction failed")
  else
    let poll := orElse (asyncConfig.get "poll") (.obj [])
    let urlTemplate := poll.get "url_template"
    if ¬ urlTemplate.truthy then .error (.failed "async poll.url_template missing")
    else
      let context := Json.obj [("task_id", taskId), ("base_url", .str (baseUrl submitUrl))]
      let headers := deepMerge baseHeaders (orElse (poll.get "headers") (.obj []))
      let check := orElse (poll.get "status_check") (.obj [])
      match env.renderValue urlTemplate context, env.renderValue headers context,
        setOf (check.get "success_values"), setOf (check.get "fail_values"),
        setOf (check.get "pending_values"), env.int (orElse (poll.get "interval") (.int 5)),
        env.int (orElse (poll.get "timeout") (.int 300)) with
      | some url, some headers, some successValues, some failValues, some _, some interval,
        some timeout =>
        .ok
          { url := url
            method := orElse (poll.get "method") (.str "GET")
            headers := headers
            statusPath := normalizeLocation (check.get "location")
            successValues := successValues
            failValues := failValues
            interval := interval
            timeout := timeout }
      | _, _, _, _, _, _, _ => .error (.raised "configuration of the poll")

end Prepare

/-- The time when the loop starts, and the time after each poll. -/
structure Clock where
  start : ℚ
  now : ℕ → ℚ

structure Ended where
  ending : Ending
  polls : ℕ

namespace Poll

variable (env : Readings) (asyncConfig : Json) (p : Poll) (answers : ℕ → PollAnswer) (clock : Clock)

def payload (n : ℕ) : Json := normalizeJsonResponse (answers n).body

/-- The status of the `n`-th answer. -/
def status (n : ℕ) : Json :=
  if p.statusPath = "" then .null else extractByPath (payload answers n) p.statusPath

def Succeeds (n : ℕ) : Prop :=
  hashable (p.status answers n) ∧ p.successValues.any (p.status answers n).same

def Fails (n : ℕ) : Prop :=
  hashable (p.status answers n) ∧ p.failValues.any (p.status answers n).same

def Expired (n : ℕ) : Prop := (p.timeout : ℚ) < clock.now n - clock.start

instance (n : ℕ) : Decidable (p.Succeeds answers n) := inferInstanceAs (Decidable (_ ∧ _))
instance (n : ℕ) : Decidable (p.Fails answers n) := inferInstanceAs (Decidable (_ ∧ _))
instance (n : ℕ) : Decidable (p.Expired clock n) := inferInstanceAs (Decidable (_ < _))

/-- One round of the loop; `none` goes on to wait. -/
def pollOnce (n : ℕ) : Option Ending :=
  let statusValue := p.status answers n
  if 400 ≤ (answers n).statusCode then
    some (.failed ("async poll failed status=" ++ toString (answers n).statusCode))
  else if ¬ hashable statusValue then some (.raised "unhashable type")
  else if p.Succeeds answers n then some (.result (extractAsyncResult (payload answers n) asyncConfig))
  else if p.Fails answers n then some (.failed ("async task failed status=" ++ env.str statusValue))
  else if p.Expired clock n then some (.failed "async task timeout")
  else none

/-- The loop from the `n`-th poll on, for `left` rounds; `sleep` tells what the wait raises. -/
def pollLoop (sleep : ℤ → Option String) : (left n : ℕ) → Option Ended
  | 0, _ => none
  | left + 1, n =>
    match p.pollOnce env asyncConfig answers clock n with
    | some ending => some { ending := ending, polls := n + 1 }
    | none =>
      match sleep p.interval with
      | some message => some { ending := .raised message, polls := n + 1 }
      | none => pollLoop sleep left (n + 1)

end Poll

/-- `asyncio.sleep` in a module that does not import `asyncio`. -/
def asyncioSleep (_interval : ℤ) : Option String := some "name 'asyncio' is not defined"

def pollAsyncResult (env : Readings) (asyncConfig submitResponse baseHeaders : Json)
    (submitUrl : String) (answers : ℕ → PollAnswer) (clock : Clock) (left : ℕ) : Option Ended :=
  match prepare env asyncConfig submitResponse baseHeaders submitUrl with
  | .error ending => some { ending := ending, polls := 0 }
  | .ok p => p.pollLoop env asyncConfig answers clock asyncioSleep left 0

namespace Poll

variable (env : Readings) (asyncConfig : Json) (p : Poll) (answers : ℕ → PollAnswer) (clock : Clock)

/-- Nothing before the `n`-th answer decides, and the time is not over before it. -/
def Reaches (n : ℕ) : Prop :=
  ∀ m < n, ¬ p.Succeeds answers m ∧ ¬ p.Fails answers m ∧ ¬ p.Expired clock m

structure Lawful (e : Ended) : Prop where
  succeeds : ∀ n, p.Reaches answers clock n → p.Succeeds answers n →
    e.ending = .result (extractAsyncResult (payload answers n) asyncConfig)
  fails : ∀ n, p.Reaches answers clock n → ¬ p.Succeeds answers n → p.Fails answers n →
    e.ending = .failed ("async task failed status=" ++ env.str (p.status answers n))
  expires : (∀ n, p.Reaches answers clock n → ¬ p.Succeeds answers n ∧ ¬ p.Fails answers n) →
    e.ending = .failed "async task timeout" ∧ e.polls ≤ p.timeout.toNat / p.interval.toNat + 2
  again : ∀ n < e.polls, ¬ p.Succeeds answers n → ¬ p.Fails answers n → ¬ p.Expired clock n →
    n + 1 < e.polls

/-- The first answer settles the call: the wait after it raises. -/
structure FirstDecides : Prop where
  hashable : hashable (p.status answers 0)
  decides : p.Succeeds answers 0 ∨ p.Fails answers 0 ∨ p.Expired clock 0

section Rounds

variable {env : Readings} {asyncConfig : Json} {p : Poll} {answers : ℕ → PollAnswer} {clock : Clock}
  {n : ℕ}

theorem not_fails_of_unhashable (unhashable : ¬ hashable (p.status answers n)) :
    ¬ p.Succeeds answers n ∧ ¬ p.Fails answers n :=
  ⟨fun succeeds => unhashable succeeds.1, fun fails => unhashable fails.1⟩

theorem pollOnce_succeeds (accepted : (answers n).statusCode < 400) (succeeds : p.Succeeds answers n) :
    p.pollOnce env asyncConfig answers clock n =
      some (.result (extractAsyncResult (payload answers n) asyncConfig)) := by
  have known := succeeds.1
  simp [pollOnce, Nat.not_le.mpr accepted, known, succeeds]

theorem pollOnce_fails (accepted : (answers n).statusCode < 400) (not_yet : ¬ p.Succeeds answers n)
    (fails : p.Fails answers n) :
    p.pollOnce env asyncConfig answers clock n =
      some (.failed ("async task failed status=" ++ env.str (p.status answers n))) := by
  have known := fails.1
  simp [pollOnce, Nat.not_le.mpr accepted, known, not_yet, fails]

theorem pollOnce_expired (accepted : (answers n).statusCode < 400)
    (known : hashable (p.status answers n)) (not_yet : ¬ p.Succeeds answers n)
    (pending : ¬ p.Fails answers n) (expired : p.Expired clock n) :
    p.pollOnce env asyncConfig answers clock n = some (.failed "async task timeout") := by
  simp [pollOnce, Nat.not_le.mpr accepted, known, not_yet, pending, expired]

theorem pollOnce_waits (accepted : (answers n).statusCode < 400)
    (known : hashable (p.status answers n)) (not_yet : ¬ p.Succeeds answers n)
    (pending : ¬ p.Fails answers n) (early : ¬ p.Expired clock n) :
    p.pollOnce env asyncConfig answers clock n = none := by
  simp [pollOnce, Nat.not_le.mpr accepted, known, not_yet, pending, early]

/-- The `n`-th answer ends the loop. -/
def Settles (p : Poll) (answers : ℕ → PollAnswer) (clock : Clock) (n : ℕ) : Prop :=
  p.Succeeds answers n ∨ p.Fails answers n ∨ p.Expired clock n

theorem pollOnce_decides (env : Readings) (asyncConfig : Json)
    (accepted : (answers n).statusCode < 400) (known : hashable (p.status answers n))
    (settles : p.Settles answers clock n) :
    ∃ ending, p.pollOnce env asyncConfig answers clock n = some ending := by
  by_cases succeeds : p.Succeeds answers n
  · exact ⟨_, pollOnce_succeeds accepted succeeds⟩
  by_cases fails : p.Fails answers n
  · exact ⟨_, pollOnce_fails accepted succeeds fails⟩
  · have expired := (settles.resolve_left succeeds).resolve_left fails
    exact ⟨_, pollOnce_expired accepted known succeeds fails expired⟩

theorem lawful_of_ends {e : Ended} (known : hashable (p.status answers n))
    (reaches : p.Reaches answers clock n)
    (decides : p.Settles answers clock n)
    (early : n + 1 ≤ p.timeout.toNat / p.interval.toNat + 2) (polls : e.polls = n + 1)
    (accepted : (answers n).statusCode < 400)
    (ends : p.pollOnce env asyncConfig answers clock n = some e.ending) :
    p.Lawful env asyncConfig answers clock e := by
  -- an answer that is reached and decides is this one
  have only (m : ℕ) (there : p.Reaches answers clock m)
      (settles : p.Succeeds answers m ∨ p.Fails answers m) : m = n := by
    rcases Nat.lt_trichotomy m n with before | same | after
    · obtain ⟨not_yet, pending, -⟩ := reaches m before
      exact absurd settles (not_or.mpr ⟨not_yet, pending⟩)
    · exact same
    · obtain ⟨not_yet, pending, in_time⟩ := there n after
      exact absurd decides (not_or.mpr ⟨not_yet, not_or.mpr ⟨pending, in_time⟩⟩)
  refine ⟨fun m there succeeds => ?_, fun m there not_yet fails => ?_, fun never => ?_,
    fun m before not_yet pending in_time => ?_⟩
  · obtain rfl := only m there (.inl succeeds)
    exact Option.some.inj (ends.symm.trans (pollOnce_succeeds accepted succeeds))
  · obtain rfl := only m there (.inr fails)
    exact Option.some.inj (ends.symm.trans (pollOnce_fails accepted not_yet fails))
  · obtain ⟨not_yet, pending⟩ := never n reaches
    have expired := (decides.resolve_left not_yet).resolve_left pending
    rw [pollOnce_expired accepted known not_yet pending expired] at ends
    exact ⟨(Option.some.inj ends).symm, polls ▸ early⟩
  · rw [polls] at before ⊢
    rcases Nat.lt_succ_iff_lt_or_eq.mp before with earlier | rfl
    · exact Nat.succ_lt_succ earlier
    · exact absurd decides (not_or.mpr ⟨not_yet, not_or.mpr ⟨pending, in_time⟩⟩)

theorem pollLoop_asyncioSleep (env : Readings) (asyncConfig : Json) (p : Poll)
    (answers : ℕ → PollAnswer) (clock : Clock) (left : ℕ) :
    p.pollLoop env asyncConfig answers clock asyncioSleep (left + 1) 0 =
      some
        { ending := (p.pollOnce env asyncConfig answers clock 0).getD
            (.raised "name 'asyncio' is not defined")
          polls := 1 } := by
  rw [pollLoop]
  cases p.pollOnce env asyncConfig answers clock 0 <;> rfl

theorem lawful_iff_firstDecides (accepted : ∀ n, (answers n).statusCode < 400) :
    p.Lawful env asyncConfig answers clock
      { ending := (p.pollOnce env asyncConfig answers clock 0).getD
          (.raised "name 'asyncio' is not defined")
        polls := 1 } ↔ p.FirstDecides answers clock := by
  constructor
  · intro lawful
    have decides : p.Succeeds answers 0 ∨ p.Fails answers 0 ∨ p.Expired clock 0 := by
      by_contra none
      obtain ⟨not_yet, none⟩ := not_or.mp none
      obtain ⟨pending, in_time⟩ := not_or.mp none
      exact absurd (lawful.again 0 Nat.one_pos not_yet pending in_time) (Nat.lt_irrefl 1)
    refine ⟨?_, decides⟩
    by_contra unhashable
    obtain ⟨not_yet, pending⟩ := not_fails_of_unhashable unhashable
    have expired := (decides.resolve_left not_yet).resolve_left pending
    have ends := lawful.expires fun n reaches => by
      cases n with
      | zero => exact ⟨not_yet, pending⟩
      | succ n => exact absurd expired (reaches 0 (Nat.succ_pos n)).2.2
    simp [pollOnce, Nat.not_le.mpr (accepted 0), unhashable] at ends
  · intro first
    obtain ⟨ending, ends⟩ := pollOnce_decides env asyncConfig (accepted 0) first.hashable first.decides
    refine lawful_of_ends first.hashable (fun m before => absurd before (Nat.not_lt_zero m))
      first.decides (Nat.le_add_left_of_le (by decide)) rfl (accepted 0) ?_
    rw [ends, Option.getD_some]

end Rounds

section Waiting

variable {env : Readings} {asyncConfig : Json} {p : Poll} {answers : ℕ → PollAnswer} {clock : Clock}

theorem pollLoop_of_first (accepted : ∀ n, (answers n).statusCode < 400)
    (known : ∀ n, hashable (p.status answers n)) {ending : Ending} {n left k : ℕ}
    (ends : p.pollOnce env asyncConfig answers clock n = some ending)
    (waits : ∀ m < n, ¬ p.Settles answers clock m) (from_ : k ≤ n) (enough : n < k + left) :
    p.pollLoop env asyncConfig answers clock (fun _ => none) left k =
      some { ending := ending, polls := n + 1 } := by
  induction left generalizing k with
  | zero => exact absurd enough (Nat.not_lt.mpr from_)
  | succ left ih =>
    rw [pollLoop]
    rcases Nat.lt_or_eq_of_le from_ with before | rfl
    · obtain ⟨not_yet, rest⟩ := not_or.mp (waits k before)
      obtain ⟨pending, in_time⟩ := not_or.mp rest
      rw [pollOnce_waits (accepted k) (known k) not_yet pending in_time]
      exact ih before (by omega)
    · rw [ends]

theorem elapsed_ge (starts : clock.start ≤ clock.now 0)
    (advances : ∀ n, clock.now n + p.interval ≤ clock.now (n + 1)) (n : ℕ) :
    n * (p.interval : ℚ) ≤ clock.now n - clock.start := by
  induction n with
  | zero => simpa using starts
  | succ n ih =>
    have next := advances n
    push_cast
    linarith

theorem lt_rounds_mul (timeout : ℤ) {interval : ℤ} (positive : 0 < interval) :
    (timeout : ℚ) < ((timeout.toNat / interval.toNat + 1 : ℕ) : ℚ) * interval := by
  obtain ⟨i, rfl⟩ := Int.eq_ofNat_of_zero_le positive.le
  have whole : timeout.toNat < i * (timeout.toNat / i + 1) :=
    Nat.lt_mul_div_succ timeout.toNat (by simpa using positive)
  calc (timeout : ℚ) ≤ (timeout.toNat : ℚ) := by exact_mod_cast Int.self_le_toNat timeout
    _ < (i * (timeout.toNat / i + 1) : ℕ) := by exact_mod_cast whole
    _ = _ := by
      push_cast
      rw [Int.toNat_natCast, mul_comm]

/-- Polling as it is meant, with a wait that returns, keeps the law whatever the answers. -/
theorem pollLoop_lawful (accepted : ∀ n, (answers n).statusCode < 400)
    (known : ∀ n, hashable (p.status answers n)) (positive : 0 < p.interval)
    (starts : clock.start ≤ clock.now 0)
    (advances : ∀ n, clock.now n + p.interval ≤ clock.now (n + 1)) :
    ∃ e, p.pollLoop env asyncConfig answers clock (fun _ => none)
        (p.timeout.toNat / p.interval.toNat + 2) 0 = some e ∧
      p.Lawful env asyncConfig answers clock e := by
  have settles : p.Settles answers clock (p.timeout.toNat / p.interval.toNat + 1) := by
    refine .inr (.inr ?_)
    have elapsed := elapsed_ge starts advances (p.timeout.toNat / p.interval.toNat + 1)
    have later := lt_rounds_mul p.timeout positive
    exact later.trans_le elapsed
  classical
  have exists_ : ∃ n, p.Settles answers clock n := ⟨_, settles⟩
  have first := Nat.find_min' exists_ settles
  have waits := fun m before => Nat.find_min (m := m) exists_ before
  obtain ⟨ending, ends⟩ := pollOnce_decides env asyncConfig (accepted _) (known _)
    (Nat.find_spec exists_)
  refine ⟨_, pollLoop_of_first accepted known ends waits (Nat.zero_le _) (by omega), ?_⟩
  refine lawful_of_ends (known _) (fun m before => ?_) (Nat.find_spec exists_) (by omega) rfl
    (accepted _) ends
  obtain ⟨not_yet, rest⟩ := not_or.mp (waits m before)
  exact ⟨not_yet, not_or.mp rest⟩

end Waiting

end Poll

theorem pollAsyncResult_of_prepared {env : Readings} {asyncConfig submitResponse baseHeaders : Json}
    {submitUrl : String} {p : Poll} (answers : ℕ → PollAnswer) (clock : Clock) (left : ℕ)
    (prepared : prepare env asyncConfig submitResponse baseHeaders submitUrl = .ok p) :
    pollAsyncResult env asyncConfig submitResponse baseHeaders submitUrl answers clock (left + 1) =
      some
        { ending := (p.pollOnce env asyncConfig answers clock 0).getD
            (.raised "name 'asyncio' is not defined")
          polls := 1 } := by
  unfold pollAsyncResult
  split
  · rename_i refused
    exact absurd (refused.symm.trans prepared) nofun
  · rename_i same
    obtain rfl := Except.ok.inj (same.symm.trans prepared)
    exact Poll.pollLoop_asyncioSleep env asyncConfig _ answers clock left

/-- The call keeps the law, whatever the answers, exactly when what it goes by can be prepared and
the first answer settles it. -/
theorem pollAsyncResult_lawful_iff (env : Readings) (asyncConfig submitResponse baseHeaders : Json)
    (submitUrl : String) (answers : ℕ → PollAnswer) (clock : Clock) (left : ℕ)
    (accepted : ∀ n, (answers n).statusCode < 400) :
    (∃ p e, prepare env asyncConfig submitResponse baseHeaders submitUrl = .ok p ∧
        pollAsyncResult env asyncConfig submitResponse baseHeaders submitUrl answers clock
          (left + 1) = some e ∧ p.Lawful env asyncConfig answers clock e) ↔
      ∃ p, prepare env asyncConfig submitResponse baseHeaders submitUrl = .ok p ∧
        p.FirstDecides answers clock := by
  refine exists_congr fun p => ?_
  constructor
  · rintro ⟨e, prepared, ended, lawful⟩
    rw [pollAsyncResult_of_prepared answers clock left prepared] at ended
    obtain rfl := Option.some.inj ended
    exact ⟨prepared, (Poll.lawful_iff_firstDecides accepted).mp lawful⟩
  · rintro ⟨prepared, first⟩
    exact ⟨_, prepared, pollAsyncResult_of_prepared answers clock left prepared,
      (Poll.lawful_iff_firstDecides accepted).mpr first⟩

section Task

/-- Nothing here is a template or a text that stands for a number. -/
def literal : Readings where
  renderValue := fun value _ => some value
  int := fun
    | .int value => some value
    | _ => none
  str := fun
    | .str text => text
    | _ => "None"

def imageConfig : Json :=
  .obj
    [("enabled", .bool true),
     ("task_id_extraction", .obj [("key_path", .str "body.id")]),
     ("poll", .obj
       [("url_template", .str "https://api.example/v1/tasks/7"),
        ("interval", .int 5),
        ("timeout", .int 300),
        ("status_check", .obj
          [("location", .str "body.status"),
           ("success_values", .arr [.str "succeeded"]),
           ("fail_values", .arr [.str "failed"])])])]

def imagePoll : Poll where
  url := .str "https://api.example/v1/tasks/7"
  method := .str "GET"
  headers := .obj []
  statusPath := "status"
  successValues := [.str "succeeded"]
  failValues := [.str "failed"]
  interval := 5
  timeout := 300

def submitted : Json := .obj [("id", .str "7")]

theorem prepare_imageConfig :
    prepare literal imageConfig submitted (.obj []) "https://api.example/v1/images" = .ok imagePoll :=
  rfl

/-- The task runs for a number of polls and then succeeds. -/
def runsFor (polls n : ℕ) : PollAnswer where
  statusCode := 200
  body := .obj [("status", .str (if n < polls then "running" else "succeeded"))]

theorem runsFor_accepted (polls n : ℕ) : (runsFor polls n).statusCode < 400 := by
  simp [runsFor]

def everyFive : Clock where
  start := 0
  now := fun n => 5 * (n + 1)

/-- A task that is done at the first poll. -/
theorem poll_of_finished_task :
    ∃ p e, prepare literal imageConfig submitted (.obj []) "https://api.example/v1/images" = .ok p ∧
      pollAsyncResult literal imageConfig submitted (.obj []) "https://api.example/v1/images"
        (runsFor 0) everyFive 1 = some e ∧ p.Lawful literal imageConfig (runsFor 0) everyFive e := by
  refine (pollAsyncResult_lawful_iff literal imageConfig submitted (.obj [])
    "https://api.example/v1/images" (runsFor 0) everyFive 0 (runsFor_accepted 0)).mpr ?_
  exact ⟨imagePoll, prepare_imageConfig, by decide +kernel, .inl (by decide +kernel)⟩

/-- A task that is still running at the first poll is never polled again. -/
theorem running_task_never_polled_again :
    ¬ (∃ p e, prepare literal imageConfig submitted (.obj []) "https://api.example/v1/images" = .ok p ∧
      pollAsyncResult literal imageConfig submitted (.obj []) "https://api.example/v1/images"
        (runsFor 1) everyFive 100 = some e ∧ p.Lawful literal imageConfig (runsFor 1) everyFive e) ∧
      pollAsyncResult literal imageConfig submitted (.obj []) "https://api.example/v1/images"
        (runsFor 1) everyFive 100 =
        some { ending := .raised "name 'asyncio' is not defined", polls := 1 } := by
  have not_yet : ¬ imagePoll.Succeeds (runsFor 1) 0 := by decide +kernel
  have pending : ¬ imagePoll.Fails (runsFor 1) 0 := by decide +kernel
  have in_time : ¬ imagePoll.Expired everyFive 0 := by decide +kernel
  have ended := pollAsyncResult_of_prepared (runsFor 1) everyFive 99 prepare_imageConfig
  rw [Poll.pollOnce_waits (runsFor_accepted 1 0) (by decide +kernel) not_yet pending in_time] at ended
  refine ⟨?_, ended⟩
  rintro ⟨p, e, prepared, polled, lawful⟩
  obtain rfl := Except.ok.inj (prepare_imageConfig.symm.trans prepared)
  obtain rfl := Option.some.inj (ended.symm.trans polled)
  exact absurd (lawful.again 0 Nat.one_pos not_yet pending in_time) (Nat.lt_irrefl 1)

end Task

end Deeting.Upstream
