import Deeting.Stream.Accumulator
import Mathlib.Data.List.Range

/-! What the accumulator makes of a stream, against the content deltas of the stream. Each
delta is told by the line of the stream it stands on, so that "once" is about deltas and not
about equal texts. -/
namespace Deeting.Stream

section Deltas

variable (loads : Loads)

def numberedEvents (bytes : Chunk) : List (ℕ × Json) :=
  (bytes.splitOn 10).zipIdx.filterMap fun (line, n) =>
    ((decode line).bind (lineEvent loads)).map (n, ·)

def eventContent (event : Json) : Option String :=
  (choiceDelta event).bind fun delta => delta.bind deltaContent

def contentDeltas (bytes : Chunk) : List (ℕ × String) :=
  (numberedEvents loads bytes).filterMap fun (n, event) => (eventContent event).map (n, ·)

def callFragment (call : Json) : Option (ℤ × String) :=
  match call.get "index", (call.get "function").get "arguments" with
  | .int index, .str fragment => some (index, fragment)
  | _, _ => none

def eventFragments (event : Json) : List (ℤ × String) :=
  match (choiceDelta event).bind id with
  | some delta =>
      match delta.get "tool_calls" with
      | .arr calls => calls.filterMap callFragment
      | _ => []
  | none => []

def argumentFragments (bytes : Chunk) : List (ℤ × String) :=
  (numberedEvents loads bytes).flatMap fun (_, event) => eventFragments event

def eventRaises (event : Json) : Bool :=
  !event.isObj || (choiceDelta event).isNone ||
    match event.get? "usage" with
    | none | some (.obj _) => false
    | some _ => true

def linesContent (n : ℕ) : List (List Char) → List (ℕ × String)
  | [] => []
  | line :: rest =>
      match lineEvent loads line with
      | none => linesContent (n + 1) rest
      | some event => ((eventContent event).map (n, ·)).toList ++
          if eventRaises event then [] else linesContent (n + 1) rest

def taken (n : ℕ) (chunk : Chunk) : List (ℕ × String) :=
  match decode chunk with
  | none => []
  | some text => linesContent loads n (text.splitOn '\n')

def fed (n : ℕ) : List Arrival → List (ℕ × String)
  | [] => []
  | arrival :: rest =>
      if arrival.cancel then taken loads n arrival.chunk
      else taken loads n arrival.chunk ++ taken loads n arrival.chunk ++
        fed (n + arrival.chunk.count 10) rest

end Deltas

def relayed : List Arrival → List Chunk
  | [] => []
  | arrival :: rest => if arrival.cancel then [] else arrival.chunk :: relayed rest

def canceled : List Arrival → Option Chunk
  | [] => none
  | arrival :: rest => if arrival.cancel then some arrival.chunk else canceled rest

def received (arrivals : List Arrival) : Chunk :=
  (relayed arrivals).flatten ++ (canceled arrivals).getD []

def canceledDeltas (loads : Loads) (n : ℕ) (arrivals : List Arrival) : List (ℕ × String) :=
  match canceled arrivals with
  | none => []
  | some chunk => taken loads (n + (relayed arrivals).flatten.count 10) chunk

/-- Every delta of the stream is accumulated once, in order, and so are the arguments. -/
structure StoredOnce (loads : Loads) (r : StreamRun) : Prop where
  once : fed loads 0 r.arrivals = contentDeltas loads (received r.arrivals)
  text : (r.accumulated loads).assistantText =
    String.join ((contentDeltas loads (received r.arrivals)).map Prod.snd)
  arguments : ∀ index, (r.accumulated loads).toolArguments index =
    String.join (((argumentFragments loads (received r.arrivals)).filter (·.1 = index)).map Prod.snd)

/-- Nothing that is relayed has content, and nothing at all has arguments: what content there
is arrives with the cancellation. -/
structure Contentless (loads : Loads) (arrivals : List Arrival) : Prop where
  relayed : ∀ chunk ∈ relayed arrivals, taken loads 0 chunk = []
  canceled : contentDeltas loads (received arrivals) = canceledDeltas loads 0 arrivals
  arguments : ∀ fragment ∈ argumentFragments loads (received arrivals), fragment.2 = ""

section Parses

variable {loads : Loads} {acc : StreamTokenAccumulator}

theorem foldl_noteName (calls : List Json) :
    (calls.foldl StreamTokenAccumulator.noteName acc).assistantContent = acc.assistantContent := by
  induction calls generalizing acc with
  | nil => rfl
  | cons call rest ih =>
    rw [List.foldl_cons, ih, StreamTokenAccumulator.noteName]
    split
    · rfl
    · rfl

theorem noteDelta_content (delta : Json) : (acc.noteDelta delta).assistantContent =
    acc.assistantContent ++ (deltaContent delta).toList := by
  rw [StreamTokenAccumulator.noteDelta]
  split
  · rw [foldl_noteName]
  · rfl

theorem noteModel_content (event : Json) :
    (acc.noteModel event).assistantContent = acc.assistantContent := by
  rw [StreamTokenAccumulator.noteModel]
  split
  · rfl
  · rfl

theorem noteReason_content (acc : StreamTokenAccumulator) (event : Json) :
    (acc.noteReason event).assistantContent = acc.assistantContent := by
  rw [StreamTokenAccumulator.noteReason]
  split
  · simp only
    split
    · rfl
    · rfl
  · rfl

theorem noteChoices_content (acc : StreamTokenAccumulator) (event : Json) :
    (acc.noteChoices event).1.assistantContent = acc.assistantContent ++ (eventContent event).toList ∧
      (acc.noteChoices event).2 = (choiceDelta event).isNone := by
  have reasoned := noteReason_content acc event
  rw [StreamTokenAccumulator.noteChoices, eventContent]
  cases choiceDelta event with
  | none => exact ⟨by simpa using reasoned, rfl⟩
  | some found =>
    cases found with
    | none => exact ⟨by simpa using reasoned, rfl⟩
    | some delta => exact ⟨by simp only [noteDelta_content, reasoned]; rfl, rfl⟩

theorem noteUsage_content (acc : StreamTokenAccumulator) (event : Json) :
    (acc.noteUsage event).1.assistantContent = acc.assistantContent ∧
      (acc.noteUsage event).2 = match event.get? "usage" with
        | none | some (.obj _) => false
        | some _ => true := by
  rw [StreamTokenAccumulator.noteUsage]
  cases event.get? "usage" with
  | none => exact ⟨rfl, rfl⟩
  | some usage => cases usage <;> exact ⟨rfl, rfl⟩

theorem choiceDelta_of_not_isObj {event : Json} (other : event.isObj = false) :
    choiceDelta event = some none := by
  cases event with
  | obj entries => cases other
  | _ => rfl

theorem parseEvent_content (acc : StreamTokenAccumulator) (event : Json) :
    (acc.parseEvent event).1.assistantContent = acc.assistantContent ++ (eventContent event).toList ∧
      (acc.parseEvent event).2 = eventRaises event := by
  rw [StreamTokenAccumulator.parseEvent, eventRaises]
  cases isObj : event.isObj with
  | false =>
    rw [if_neg (by simp), eventContent, choiceDelta_of_not_isObj isObj]
    exact ⟨by simp, rfl⟩
  | true =>
    rw [if_pos rfl]
    generalize counted :
      ({ acc with chunksCount := acc.chunksCount + 1 } : StreamTokenAccumulator) = other
    have same : other.assistantContent = acc.assistantContent := by rw [← counted]
    obtain ⟨content, raises⟩ := noteChoices_content (other.noteModel event) event
    rw [noteModel_content, same] at content
    cases noted : (other.noteModel event).noteChoices event with
    | mk after raised =>
      rw [noted] at content raises
      simp only at content raises
      rw [← raises]
      cases raised with
      | true => exact ⟨content, rfl⟩
      | false =>
        obtain ⟨usage, usageRaises⟩ := noteUsage_content after event
        exact ⟨usage.trans content, by simpa using usageRaises⟩

theorem parseLines_content (n : ℕ) (lines : List (List Char)) :
    (acc.parseLines loads lines).assistantContent =
      acc.assistantContent ++ (linesContent loads n lines).map Prod.snd := by
  induction lines generalizing acc n with
  | nil => simp [StreamTokenAccumulator.parseLines, linesContent]
  | cons line rest ih =>
    rw [StreamTokenAccumulator.parseLines, linesContent]
    by_cases done : IsDone line
    · have none_ : lineEvent loads line = none := if_neg fun both => both.1 done
      rw [if_pos done, none_, ih (n + 1)]
    · rw [if_neg done]
      cases lineEvent loads line with
      | none => exact ih (n + 1)
      | some event =>
        obtain ⟨content, raises⟩ := parseEvent_content acc event
        have own : (((eventContent event).map (n, ·)).toList).map Prod.snd =
            (eventContent event).toList := by
          cases eventContent event <;> rfl
        cases parsed : acc.parseEvent event with
        | mk after raised =>
          rw [parsed] at content raises
          simp only at content raises
          simp only [parsed, ← raises, List.map_append, own]
          cases raised with
          | true => simpa using content
          | false =>
            simp only [Bool.false_eq_true, if_false]
            rw [ih (n + 1), content, List.append_assoc]

theorem parseSseChunk_content (n : ℕ) (chunk : Chunk) :
    (acc.parseSseChunk loads chunk).assistantContent =
      acc.assistantContent ++ (taken loads n chunk).map Prod.snd := by
  rw [StreamTokenAccumulator.parseSseChunk, taken]
  cases decode chunk with
  | none => simp
  | some text => exact parseLines_content n _

theorem streamWithBilling_content (loads : Loads) (acc : StreamTokenAccumulator) (n : ℕ)
    (arrivals : List Arrival) :
    (streamWithBilling loads acc arrivals).assistantContent =
      acc.assistantContent ++ (fed loads n arrivals).map Prod.snd := by
  induction arrivals generalizing acc n with
  | nil => simp [streamWithBilling, fed]
  | cons arrival rest ih =>
    rw [streamWithBilling, fed]
    split
    · exact parseSseChunk_content n arrival.chunk
    · rw [ih _ (n + arrival.chunk.count 10), parseSseChunk_content n, parseSseChunk_content n]
      simp only [List.map_append, List.append_assoc]

end Parses

section Numbers

variable {loads : Loads}

theorem linesContent_eq_nil (n m : ℕ) (lines : List (List Char)) :
    linesContent loads n lines = [] ↔ linesContent loads m lines = [] := by
  induction lines generalizing n m with
  | nil => exact .rfl
  | cons line rest ih =>
    rw [linesContent, linesContent]
    cases lineEvent loads line with
    | none => exact ih (n + 1) (m + 1)
    | some event =>
      cases content : eventContent event with
      | some text => simp [content]
      | none =>
        simp only [content, Option.map_none, Option.toList_none, List.nil_append]
        split
        · exact .rfl
        · exact ih (n + 1) (m + 1)

theorem taken_eq_nil (n m : ℕ) (chunk : Chunk) :
    taken loads n chunk = [] ↔ taken loads m chunk = [] := by
  rw [taken, taken]
  cases decode chunk with
  | none => exact .rfl
  | some text => exact linesContent_eq_nil n m _

theorem contentDeltas_nodup (bytes : Chunk) : (contentDeltas loads bytes).Nodup := by
  have lines : (bytes.splitOn 10).zipIdx.Pairwise fun a b => a.2 < b.2 := by
    rw [← List.pairwise_map (f := Prod.snd) (R := (· < ·)), List.zipIdx_map_snd]
    exact List.pairwise_lt_range'
  have events : (numberedEvents loads bytes).Pairwise fun a b => a.1 < b.1 := by
    refine lines.filterMap _ fun a b before event given other follows => ?_
    obtain ⟨_, -, rfl⟩ := Option.map_eq_some_iff.mp given
    obtain ⟨_, -, rfl⟩ := Option.map_eq_some_iff.mp follows
    exact before
  refine List.Pairwise.filterMap _ (fun a b before delta given other follows => ?_) events
  obtain ⟨_, -, rfl⟩ := Option.map_eq_some_iff.mp given
  obtain ⟨_, -, rfl⟩ := Option.map_eq_some_iff.mp follows
  intro same
  exact before.ne (Prod.ext_iff.mp same).1

theorem relayed_of_nodup {n : ℕ} {arrivals : List Arrival} (nodup : (fed loads n arrivals).Nodup) :
    ∀ chunk ∈ relayed arrivals, taken loads 0 chunk = [] := by
  induction arrivals generalizing n with
  | nil => nofun
  | cons arrival rest ih =>
    intro chunk mem
    rw [relayed] at mem
    rw [fed] at nodup
    split at mem
    · cases mem
    · rename_i goes
      rw [if_neg goes, List.nodup_append, List.nodup_append] at nodup
      obtain ⟨⟨-, -, apart⟩, later, -⟩ := nodup
      rcases List.mem_cons.mp mem with rfl | mem
      · refine (taken_eq_nil 0 n arrival.chunk).mpr ?_
        rw [List.eq_nil_iff_forall_not_mem]
        intro delta twice
        exact apart delta twice delta twice rfl
      · exact ih later chunk mem

theorem fed_of_relayed {n : ℕ} {arrivals : List Arrival}
    (silent : ∀ chunk ∈ relayed arrivals, taken loads 0 chunk = []) :
    fed loads n arrivals = canceledDeltas loads n arrivals := by
  induction arrivals generalizing n with
  | nil => rfl
  | cons arrival rest ih =>
    rw [relayed] at silent
    rw [fed, canceledDeltas, canceled, relayed]
    split
    · simp
    · rename_i goes
      rw [if_neg goes] at silent
      have nothing := (taken_eq_nil n 0 arrival.chunk).mpr (silent _ List.mem_cons_self)
      rw [nothing, List.nil_append, List.nil_append,
        ih fun chunk mem => silent chunk (List.mem_cons_of_mem _ mem), canceledDeltas]
      simp only [List.flatten_cons, List.count_append, Nat.add_assoc]

theorem join_eq_empty {parts : List String} :
    String.join parts = "" ↔ ∀ part ∈ parts, part = "" := by
  induction parts with
  | nil => simp
  | cons part rest ih => rw [String.join_cons, String.append_eq_empty_iff, ih, List.forall_mem_cons]

end Numbers

/-- A stream is stored once exactly when there is nothing to be stored twice. -/
theorem storedOnce_iff {loads : Loads} {r : StreamRun} :
    StoredOnce loads r ↔ Contentless loads r.arrivals := by
  have content : (r.accumulated loads).assistantText =
      String.join ((fed loads 0 r.arrivals).map Prod.snd) := by
    have all := streamWithBilling_content loads {} 0 r.arrivals
    rw [StreamTokenAccumulator.assistantText, StreamRun.accumulated]
    cases r.raised with
    | none => exact congrArg String.join all
    | some message => exact congrArg String.join all
  constructor
  · rintro ⟨once, text, arguments⟩
    have silent := relayed_of_nodup (n := 0) (once ▸ contentDeltas_nodup _)
    refine ⟨silent, once.symm.trans (fed_of_relayed silent), ?_⟩
    intro fragment mem
    have empty := join_eq_empty.mp (arguments fragment.1).symm
    exact empty fragment.2 (List.mem_map_of_mem (List.mem_filter.mpr ⟨mem, by simp⟩))
  · rintro ⟨silent, canceled, arguments⟩
    have once := (fed_of_relayed silent).trans canceled.symm
    refine ⟨once, by rw [content, once], fun index => ?_⟩
    refine (join_eq_empty.mpr fun part mem => ?_).symm
    obtain ⟨fragment, listed, rfl⟩ := List.mem_map.mp mem
    exact arguments fragment (List.mem_of_mem_filter listed)

section OneDelta

def oneDelta : Json :=
  .obj [("choices", .arr [.obj [("delta", .obj [("content", .str "a")])]])]

def oneDeltaText : String := "\x7b\"choices\":[\x7b\"delta\":\x7b\"content\":\"a\"\x7d\x7d]\x7d"

/-- As much of `json.loads` as the stream takes. -/
def loadsOne : Loads := fun text => if text = oneDeltaText then some oneDelta else none

def oneChunk : StreamRun where
  arrivals := [⟨("data: " ++ oneDeltaText ++ "\n\ndata: [DONE]\n\n").toUTF8.toList, false⟩]
  raised := none

/-- The stream says `a`, and `aa` is accumulated. -/
theorem delta_taken_twice :
    (contentDeltas loadsOne (received oneChunk.arrivals)).map Prod.snd = ["a"] ∧
      (oneChunk.accumulated loadsOne).assistantText = "aa" ∧ ¬ StoredOnce loadsOne oneChunk := by
  have deltas : (contentDeltas loadsOne (received oneChunk.arrivals)).map Prod.snd = ["a"] := by
    decide +kernel
  have accumulated : (oneChunk.accumulated loadsOne).assistantText = "aa" := by decide +kernel
  refine ⟨deltas, accumulated, fun stored => ?_⟩
  have text := stored.text
  rw [deltas, accumulated] at text
  exact absurd text (by decide +kernel)

end OneDelta

end Deeting.Stream
