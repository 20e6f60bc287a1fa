import Deeting.Assistants.Approval
import Deeting.Stream.Stripping
import Mathlib.Data.Finset.Dedup
import Mathlib.Data.Finset.Empty

/-! The links to the tags of an assistant are a second copy of the tags of its current version,
and few of the operations that change the one bring the other up to date. -/
namespace Deeting.Assistants

open Transition

section Names

theorem normalizeTag_stored {raw name : String} (stored : normalizeTag raw = some name) :
    normalizeTag name = some name := by
  have normal (rest : List Char) (ends : ∀ c ∈ ('#' :: rest).getLast?, Stream.isSpace c = false) :
      normalizeTag (.ofList ('#' :: rest)) = some (.ofList ('#' :: rest)) := by
    have kept : Stream.strip ('#' :: rest) = '#' :: rest :=
      Stream.strip_of_solid (fun c first => by cases first; rfl) ends (List.cons_ne_nil _ _)
    rw [normalizeTag, String.toList_ofList, kept]
    rfl
  rw [normalizeTag] at stored
  split at stored
  · cases stored
  · rename_i rest stripped
    obtain rfl := Option.some.inj stored
    exact normal rest fun c last => Stream.getLast?_strip (stripped ▸ last)
  · rename_i filled _
    obtain rfl := Option.some.inj stored
    refine normal _ fun c last => ?_
    rw [List.getLast?_cons_of_ne_nil filled] at last
    exact Stream.getLast?_strip last

theorem mem_normalizeTags {tags : List String} {name : String} :
    name ∈ normalizeTags tags ↔ ∃ raw ∈ tags, normalizeTag raw = some name := by
  simp [normalizeTags]

theorem normalizeTags_stored (tags : List String) (name : String) :
    name ∈ normalizeTags (normalizeTags tags) ↔ name ∈ normalizeTags tags := by
  rw [mem_normalizeTags]
  constructor
  · rintro ⟨stored, mem, normal⟩
    obtain ⟨raw, _, kept⟩ := mem_normalizeTags.mp mem
    obtain rfl := Option.some.inj ((normalizeTag_stored kept).symm.trans normal)
    exact mem
  · intro mem
    obtain ⟨raw, _, kept⟩ := mem_normalizeTags.mp mem
    exact ⟨name, mem, normalizeTag_stored kept⟩

end Names

def Content.tagNames (c : Content) : Finset String := (normalizeTags c.tags).toFinset

namespace World

variable (w : World) (a : ℕ)

def linkedTags : Finset String := ((w.links.filter (·.1 = a)).map Prod.snd).toFinset

def tagsOf (v : Option ℕ) : Finset String := (w.contentOf v).elim ∅ Content.tagNames

def marketRow (visible : ℕ → Bool) (tags : List String) : Option Content :=
  if normalizeTags tags = [] ∨ ∃ tag ∈ normalizeTags tags, (a, tag) ∈ w.links then
    w.marketVersion a visible
  else none

/-- The tags follow the current version, and so does what the market finds by its tags. -/
structure TagsFollow : Prop where
  linked : ∀ a row, w.assistants[a]? = some row → w.linkedTags a = w.tagsOf row.currentVersionId
  found : ∀ visible tags a content, w.marketRow a visible tags = some content ↔
    w.marketVersion a visible = some content ∧
      (normalizeTags tags = [] ∨ ∃ tag ∈ normalizeTags tags, tag ∈ content.tagNames)

def Resyncs (p : VersionUpdate) : Prop := ∃ tags, p.tags = some (some tags) ∧ w.TagsFit tags

/-- What makes another version current leaves the tags the same, but where it syncs them; a version
that is updated has the same tags, or is the current one of the assistant that is synced and of no
other. -/
def KeepsTags : Op → Prop
  | .updateAssistant a p => ∀ row, w.assistants[a]? = some row →
      ∀ status, row.status.next p.status = some status →
      match p.version with
      | none => w.slugClashes a p.shareSlug = false →
          p.currentVersionId.all (· < w.versions.length) →
          w.tagsOf (p.currentVersionId <|> row.currentVersionId) = w.tagsOf row.currentVersionId
      | some payload =>
          let content := w.prepared a row.currentVersionId payload
          content.version.length ≤ 32 → w.semverTaken a content.version = false →
          w.TagsFit content.tags → w.slugClashes a p.shareSlug →
          content.tagNames = w.tagsOf row.currentVersionId
  | .publishAssistant a versionId => ∀ row, w.assistants[a]? = some row →
      w.belongs a versionId → row.status.allows .published →
      w.tagsOf (versionId <|> row.currentVersionId) = w.tagsOf row.currentVersionId
  | .createVersion a p setAsCurrent => ∀ row, w.assistants[a]? = some row →
      w.semverTaken a p.content.version = false → setAsCurrent →
      (stored p.content).tagNames = w.tagsOf row.currentVersionId
  | .updateVersion a v p => ∀ old, w.getForAssistant a v = some old →
      ∀ content, p.patch old.content = some content → w.semverClashes a v content.version = false →
      ∀ (b : ℕ) row, w.assistants[b]? = some row →
        content.tagNames = w.tagsOf row.currentVersionId ∨
          (row.currentVersionId = some v ↔ b = a ∧ w.Resyncs p)
  | .createAssistant .. | .submit _ | .approve _ | .reject _ | .installAssistant ..
  | .updateInstall .. => True

structure Rooted : Prop where
  links : ∀ a, w.assistants.length ≤ a → w.linkedTags a = ∅
  versions : ∀ version ∈ w.versions, version.assistantId < w.assistants.length
  current : ∀ (a : ℕ) row v, w.assistants[a]? = some row → row.currentVersionId = some v →
    v < w.versions.length

end World

section Views

variable {w : World} {a : ℕ} {tags : List String}

theorem mem_linkedTags {name : String} : name ∈ w.linkedTags a ↔ (a, name) ∈ w.links := by
  simp [World.linkedTags]

theorem tagsFollow_iff : w.TagsFollow ↔ ∀ (a : ℕ) row, w.assistants[a]? = some row →
    w.linkedTags a = w.tagsOf row.currentVersionId := by
  refine ⟨World.TagsFollow.linked, fun linked => ⟨linked, fun visible tags a content => ?_⟩⟩
  have carried (shown : w.marketVersion a visible = some content) (tag : String) :
      (a, tag) ∈ w.links ↔ tag ∈ content.tagNames := by
    obtain ⟨row, here, shown⟩ := Option.bind_eq_some_iff.mp shown
    split at shown
    · rw [← mem_linkedTags, linked a row here, World.tagsOf, shown]
      rfl
    · cases shown
  rw [World.marketRow]
  constructor
  · intro row
    split at row
    · rename_i asked
      refine ⟨row, asked.imp_right ?_⟩
      rintro ⟨tag, mem, link⟩
      exact ⟨tag, mem, (carried row tag).mp link⟩
    · cases row
  · rintro ⟨shown, asked⟩
    rw [if_pos, shown]
    refine asked.imp_right ?_
    rintro ⟨tag, mem, carries⟩
    exact ⟨tag, mem, (carried shown tag).mpr carries⟩

theorem linkedTags_sync (b : ℕ) : (w.syncAssistantTags a tags).linkedTags b =
    if b = a ∧ w.TagsFit tags then (normalizeTags tags).toFinset else w.linkedTags b := by
  rw [World.syncAssistantTags]
  by_cases fit : w.TagsFit tags
  · rw [if_pos fit]
    ext name
    simp only [mem_linkedTags, World.relink, World.addTags, fit, and_true]
    by_cases same : b = a
    · subst same
      by_cases linked : (b, name) ∈ w.links <;> simp [linked]
    · simp [same, mem_linkedTags, Ne.symm same]
  · simp [fit, World.addTags, World.linkedTags]

theorem linkedTags_sync_content (content : Content) :
    (w.syncAssistantTags a content.tags).linkedTags a =
      if w.TagsFit content.tags then content.tagNames else w.linkedTags a := by
  rw [linkedTags_sync]
  simp only [true_and]
  rfl

theorem linkedTags_of_fit (content : Content) (fit : w.TagsFit content.tags) :
    (w.syncAssistantTags a content.tags).linkedTags a = content.tagNames :=
  (linkedTags_sync_content content).trans (if_pos fit)

end Views

structure Touched (w w' : World) (a : ℕ) : Prop where
  grown : w.assistants.length ≤ w'.assistants.length
  others : ∀ b : ℕ, b ≠ a → w'.assistants[b]? = w.assistants[b]?
  linked : ∀ b, b ≠ a → w'.linkedTags b = w.linkedTags b
  longer : w.versions.length ≤ w'.versions.length
  owners : ∀ version ∈ w'.versions, version.assistantId = a ∨ version ∈ w.versions

section Touches

variable {w w' : World} {a : ℕ} {row : Assistant} {content : Content}

theorem Touched.trans {w'' : World} (first : Touched w w' a) (second : Touched w' w'' a) :
    Touched w w'' a where
  grown := first.grown.trans second.grown
  others b other := (second.others b other).trans (first.others b other)
  linked b other := (second.linked b other).trans (first.linked b other)
  longer := first.longer.trans second.longer
  owners version mem := (second.owners version mem).elim .inl (first.owners version)

theorem touched_setAssistant (row : Assistant) : Touched w (w.setAssistant a row) a where
  grown := by simp [World.setAssistant]
  others b other := List.getElem?_set_ne (Ne.symm other)
  linked _ _ := rfl
  longer := Nat.le_refl _
  owners _ := .inr

theorem touched_addVersion (content : Content) : Touched w (w.addVersion a content) a where
  grown := Nat.le_refl _
  others _ _ := rfl
  linked _ _ := rfl
  longer := by simp [World.addVersion]
  owners version mem := by
    obtain old | new := List.mem_append.mp mem
    · exact .inr old
    · obtain rfl := List.mem_singleton.mp new
      exact .inl rfl

theorem touched_insertAssistant (row : Assistant) (content : Content) :
    Touched w (w.insertAssistant row content) w.assistants.length := by
  have appended : Touched w { w with assistants := w.assistants ++ [row] } w.assistants.length := by
    refine ⟨by simp, fun b other => ?_, fun _ _ => rfl, Nat.le_refl _, fun _ => .inr⟩
    simp only [List.getElem?_append, List.getElem?_singleton]
    grind
  exact appended.trans (touched_addVersion content)

theorem touched_sync (tags : List String) : Touched w (w.syncAssistantTags a tags) a where
  grown := by simp
  others _ _ := by rw [World.sync_assistants]
  linked b other := by rw [linkedTags_sync, if_neg fun both => other both.1]
  longer := by simp
  owners version mem := by
    rw [World.sync_versions] at mem
    exact .inr mem

theorem touched_versionAdded (status : Status) (content : Content) :
    Touched w (w.versionAdded a row status content) a :=
  ((touched_setAssistant _).trans (touched_addVersion content)).trans (touched_sync content.tags)

theorem touched_setContent {v : ℕ} {old : AssistantVersion}
    (found : w.getForAssistant a v = some old) (content : Content) :
    Touched w (w.setContent v content) a where
  grown := Nat.le_refl _
  others _ _ := rfl
  linked _ _ := rfl
  longer := by simp [World.setContent]
  owners version mem := by
    obtain ⟨u, there⟩ := List.mem_iff_getElem?.mp mem
    rw [World.setContent_versions] at there
    split at there
    · rename_i same
      obtain ⟨here, mine⟩ := getForAssistant_eq_some.mp found
      rw [same, here] at there
      obtain rfl := Option.some.inj there
      exact .inl mine
    · exact .inr (List.mem_of_getElem? there)

theorem rooted_of_touched (rooted : w.Rooted) (touched : Touched w w' a)
    (there : w'.assistants[a]? = some row)
    (current : ∀ v, row.currentVersionId = some v → v < w'.versions.length) : w'.Rooted where
  links b absent := by
    have other : b ≠ a := by
      rintro rfl
      rw [List.getElem?_eq_none absent] at there
      cases there
    rw [touched.linked b other]
    exact rooted.links b (touched.grown.trans absent)
  versions version mem := by
    obtain mine | old := touched.owners version mem
    · rw [mine]
      exact (List.getElem?_eq_some_iff.mp there).1
    · exact (rooted.versions version old).trans_le touched.grown
  current b row' v here named := by
    by_cases same : b = a
    · subst same
      obtain rfl := Option.some.inj (there.symm.trans here)
      exact current v named
    · rw [touched.others b same] at here
      exact (rooted.current b row' v here named).trans_le touched.longer

theorem tagsOf_of_longer (versions : w.versions <+: w'.versions) {current : Option ℕ}
    (known : ∀ v, current = some v → v < w.versions.length) :
    w'.tagsOf current = w.tagsOf current := by
  cases current with
  | none => rfl
  | some v =>
    have there := List.prefix_iff_getElem?.mp versions v (known v rfl)
    simp only [World.tagsOf, World.contentOf, Option.bind_some]
    rw [there, List.getElem?_eq_getElem (known v rfl)]

theorem tagsFollow_iff_of_touched (rooted : w.Rooted) (follow : w.TagsFollow)
    (touched : Touched w w' a) (versions : w.versions <+: w'.versions)
    (there : w'.assistants[a]? = some row) :
    w'.TagsFollow ↔ w'.linkedTags a = w'.tagsOf row.currentVersionId := by
  rw [tagsFollow_iff]
  constructor
  · intro all
    exact all a row there
  · intro one b row' here
    by_cases same : b = a
    · subst same
      obtain rfl := Option.some.inj (there.symm.trans here)
      exact one
    · rw [touched.others b same] at here
      rw [touched.linked b same, follow.linked b row' here,
        tagsOf_of_longer versions fun v => rooted.current b row' v here]

theorem prefix_of_added (added : w'.versions = (w.addVersion a content).versions) :
    w.versions <+: w'.versions := by
  rw [added]
  exact List.prefix_append _ _

theorem tagsOf_of_added (added : w'.versions = (w.addVersion a content).versions) :
    w'.tagsOf (some w.versions.length) = content.tagNames := by
  rw [World.tagsOf, (names_of_added added).2]
  rfl

theorem settled_of_touched (rooted : w.Rooted) (follow : w.TagsFollow) (touched : Touched w w' a)
    (versions : w.versions <+: w'.versions) (there : w'.assistants[a]? = some row)
    (current : ∀ v, row.currentVersionId = some v → v < w'.versions.length) {admitted : Prop}
    (linked : w'.linkedTags a = w'.tagsOf row.currentVersionId ↔ admitted) :
    w'.Rooted ∧ (w'.TagsFollow ↔ admitted) :=
  ⟨rooted_of_touched rooted touched there current,
    (tagsFollow_iff_of_touched rooted follow touched versions there).trans linked⟩

theorem settled_of_current (rooted : w.Rooted) (follow : w.TagsFollow) (touched : Touched w w' a)
    (versions : w'.versions = (w.addVersion a content).versions) (there : w'.assistants[a]?.isSome)
    (linked : w'.linkedTags a = content.tagNames) (row : Assistant)
    (current : row.currentVersionId = some w.versions.length) :
    (w'.setAssistant a row).Rooted ∧ (w'.setAssistant a row).TagsFollow := by
  have named := World.setAssistant_assistants there row a
  rw [if_pos rfl] at named
  have added : (w'.setAssistant a row).versions = (w.addVersion a content).versions := versions
  have settled := settled_of_touched rooted follow (touched.trans (touched_setAssistant row))
    (prefix_of_added added) named (fun v same => ?_) (iff_true_intro ?_)
  · exact ⟨settled.1, settled.2.mpr trivial⟩
  · obtain rfl := Option.some.inj (current.symm.trans same)
    rw [added]
    simp [World.addVersion]
  · rw [current, tagsOf_of_added added, ← linked]
    rfl

end Touches

section Steps

variable {w : World} {a : ℕ} {row : Assistant}

theorem known_of_belongs {given : Option ℕ} (belongs : w.belongs a given) (v : ℕ)
    (named : given = some v) : v < w.versions.length := by
  subst named
  have present : (w.getForAssistant a v).isSome := belongs
  obtain ⟨version, found⟩ := Option.isSome_iff_exists.mp present
  exact (List.getElem?_eq_some_iff.mp (getForAssistant_eq_some.mp found).1).1

theorem known_orElse {given current : Option ℕ} {n : ℕ} (first : ∀ v, given = some v → v < n)
    (second : ∀ v, current = some v → v < n) (v : ℕ) (named : (given <|> current) = some v) :
    v < n := by
  cases given with
  | none => exact second v named
  | some u => exact first v named

theorem keepsTags_createAssistant (rooted : w.Rooted) (follow : w.TagsFollow) (owner : Option ℕ)
    (p : AssistantCreate) :
    (w.createAssistant owner p).Rooted ∧ (w.createAssistant owner p).TagsFollow := by
  refine (World.createAssistant_iff (P := fun w => w.Rooted ∧ w.TagsFollow) ⟨rooted, follow⟩ owner
    p).mpr fun _ => ?_
  simp only
  generalize stored p.version.content = content
  have touched := touched_insertAssistant (w := w) (p.row owner) content
  have kept : ((w.insertAssistant (p.row owner) content).syncAssistantTags w.assistants.length
      content.tags).assistants[w.assistants.length]? = some (p.row owner) := by
    simp [World.insertAssistant, World.addVersion]
  have versions : ((w.insertAssistant (p.row owner) content).syncAssistantTags w.assistants.length
      content.tags).versions = (w.addVersion w.assistants.length content).versions :=
    World.sync_versions
  have synced := touched.trans (touched_sync content.tags)
  split
  · rename_i fit
    exact settled_of_current rooted follow synced versions (by rw [kept]; rfl)
      (linkedTags_of_fit content fit)
      { p.row owner with currentVersionId := some w.versions.length } rfl
  · rename_i unfit
    have unlinked : ((w.insertAssistant (p.row owner) content).syncAssistantTags
        w.assistants.length content.tags).linkedTags w.assistants.length = ∅ := by
      rw [linkedTags_sync, if_neg fun both => unfit both.2]
      exact rooted.links _ (Nat.le_refl _)
    obtain ⟨rooted', follow'⟩ := settled_of_touched rooted follow synced (prefix_of_added versions)
      kept (fun v named => absurd named (Option.some_ne_none v).symm) (iff_true_intro unlinked)
    exact ⟨rooted', follow'.mpr trivial⟩

theorem keepsTags_publishAssistant (rooted : w.Rooted) (follow : w.TagsFollow)
    (versionId : Option ℕ) :
    (w.publishAssistant a versionId).Rooted ∧
      ((w.publishAssistant a versionId).TagsFollow ↔
        w.KeepsTags (.publishAssistant a versionId)) := by
  have each (row : Assistant) (here : w.assistants[a]? = some row) (belongs : w.belongs a versionId) :
      let published := w.setAssistant a
        { row with status := .published, currentVersionId := versionId <|> row.currentVersionId }
      published.Rooted ∧ (published.TagsFollow ↔
        w.tagsOf (versionId <|> row.currentVersionId) = w.tagsOf row.currentVersionId) := by
    have there := World.setAssistant_assistants (by rw [here]; rfl)
      { row with status := .published, currentVersionId := versionId <|> row.currentVersionId } a
    rw [if_pos rfl] at there
    refine settled_of_touched rooted follow (touched_setAssistant _) (List.prefix_refl _) there
      (known_orElse (known_of_belongs belongs) (rooted.current a row · here)) ?_
    rw [eq_comm, ← follow.linked a row here]
    rfl
  constructor
  · exact (World.publishAssistant_iff rooted versionId).mpr fun row here belongs _ =>
      (each row here belongs).1
  · exact (World.publishAssistant_iff follow versionId).trans
      (forall₄_congr fun row here belongs _ => (each row here belongs).2)

theorem keepsTags_createVersion (rooted : w.Rooted) (follow : w.TagsFollow) (p : VersionCreate)
    (setAsCurrent : Bool) :
    (w.createVersion a p setAsCurrent).Rooted ∧
      ((w.createVersion a p setAsCurrent).TagsFollow ↔
        w.KeepsTags (.createVersion a p setAsCurrent)) := by
  have touched := touched_addVersion (w := w) (a := a) (stored p.content)
  have versions : w.versions <+: (w.addVersion a (stored p.content)).versions :=
    List.prefix_append _ _
  have added (row : Assistant) (here : w.assistants[a]? = some row) :
      (w.addVersion a (stored p.content)).Rooted ∧
        ((w.addVersion a (stored p.content)).TagsFollow ↔ True) := by
    refine settled_of_touched rooted follow touched versions here
      (fun v named => (rooted.current a row v here named).trans_le touched.longer)
      (iff_true_intro ?_)
    rw [tagsOf_of_longer versions fun v => rooted.current a row v here]
    exact follow.linked a row here
  have current (row : Assistant) (here : w.assistants[a]? = some row) :
      let made := (w.addVersion a (stored p.content)).setAssistant a
        { row with currentVersionId := some w.versions.length }
      made.Rooted ∧ (made.TagsFollow ↔
        (stored p.content).tagNames = w.tagsOf row.currentVersionId) := by
    have there := World.setAssistant_assistants
      (show (w.addVersion a (stored p.content)).assistants[a]?.isSome by
        rw [World.addVersion, here]
        rfl)
      { row with currentVersionId := some w.versions.length } a
    rw [if_pos rfl] at there
    refine settled_of_touched rooted follow (touched.trans (touched_setAssistant _)) versions there
      (fun v named => ?_) ?_
    · obtain rfl := Option.some.inj named
      simp [World.setAssistant, World.addVersion]
    · have same : ((w.addVersion a (stored p.content)).setAssistant a
          { row with currentVersionId := some w.versions.length }).versions =
            (w.addVersion a (stored p.content)).versions := rfl
      rw [tagsOf_of_added same, eq_comm, ← follow.linked a row here]
      rfl
  constructor
  · refine (World.createVersion_iff rooted p setAsCurrent).mpr fun row here _ => ?_
    cases setAsCurrent with
    | false => exact (added row here).1
    | true => exact (current row here).1
  · refine (World.createVersion_iff follow p setAsCurrent).trans
      (forall₃_congr fun row here _ => ?_)
    cases setAsCurrent with
    | false => simpa using (added row here).2
    | true => simpa using (current row here).2

theorem keepsTags_updated (rooted : w.Rooted) (follow : w.TagsFollow)
    (here : w.assistants[a]? = some row) (p : AssistantUpdate) (status : Status)
    (known : p.currentVersionId.all (· < w.versions.length)) :
    (w.setAssistant a (row.updated p status (p.currentVersionId <|> row.currentVersionId))).Rooted ∧
      ((w.setAssistant a
          (row.updated p status (p.currentVersionId <|> row.currentVersionId))).TagsFollow ↔
        w.tagsOf (p.currentVersionId <|> row.currentVersionId) =
          w.tagsOf row.currentVersionId) := by
  have there := World.setAssistant_assistants (by rw [here]; rfl)
    (row.updated p status (p.currentVersionId <|> row.currentVersionId)) a
  rw [if_pos rfl] at there
  have given (v : ℕ) (named : p.currentVersionId = some v) : v < w.versions.length := by
    simpa [named] using known
  refine settled_of_touched rooted follow (touched_setAssistant _) (List.prefix_refl _) there
    (known_orElse given (rooted.current a row · here)) ?_
  rw [eq_comm, ← follow.linked a row here]
  rfl

theorem linkedTags_versionAdded (status : Status) (content : Content) :
    (w.versionAdded a row status content).linkedTags a =
      if w.TagsFit content.tags then content.tagNames else w.linkedTags a :=
  linkedTags_sync_content content

/-- An update with a version whose row is not committed: the links may already be those of the new
version. -/
theorem keepsTags_versionAdded (rooted : w.Rooted) (follow : w.TagsFollow)
    (here : w.assistants[a]? = some row) (status : Status) (content : Content) :
    (w.versionAdded a row status content).Rooted ∧
      ((w.versionAdded a row status content).TagsFollow ↔
        (w.TagsFit content.tags → content.tagNames = w.tagsOf row.currentVersionId)) := by
  have made := versioned here status content
  have touched : Touched w (w.versionAdded a row status content) a :=
    touched_versionAdded status content
  have versions := prefix_of_added made.versions
  refine settled_of_touched rooted follow touched versions made.row
    (fun v named => (rooted.current a row v here named).trans_le touched.longer) ?_
  rw [tagsOf_of_longer versions fun v => rooted.current a row v here, linkedTags_versionAdded]
  split
  · rename_i fit
    exact ⟨fun same _ => same, fun keeps => keeps fit⟩
  · rename_i unfit
    exact iff_of_true (follow.linked a row here) fun fit => absurd fit unfit

theorem keepsTags_versionNamed (rooted : w.Rooted) (follow : w.TagsFollow)
    (here : w.assistants[a]? = some row) (p : AssistantUpdate) (status : Status)
    {content : Content} (fit : w.TagsFit content.tags) :
    let named := (w.versionAdded a row status content).setAssistant a
      (row.updated p status (some w.versions.length))
    named.Rooted ∧ named.TagsFollow := by
  have made := versioned here status content
  exact settled_of_current rooted follow (touched_versionAdded status content) made.versions
    (by rw [made.row]; rfl) ((linkedTags_versionAdded status content).trans (if_pos fit))
    (row.updated p status (some w.versions.length)) rfl

theorem keepsTags_updateAssistant (rooted : w.Rooted) (follow : w.TagsFollow)
    (p : AssistantUpdate) :
    (w.updateAssistant a p).Rooted ∧
      ((w.updateAssistant a p).TagsFollow ↔ w.KeepsTags (.updateAssistant a p)) := by
  constructor
  · refine (World.updateAssistant_iff rooted p).mpr fun row here status _ => ?_
    cases p.version with
    | none => exact fun _ known => (keepsTags_updated rooted follow here p status known).1
    | some payload =>
      intro _ _
      split
      · rename_i complete
        exact (keepsTags_versionNamed rooted follow here p status complete.1).1
      · exact (keepsTags_versionAdded rooted follow here status _).1
  · refine (World.updateAssistant_iff follow p).trans
      (forall₄_congr fun row here status _ => ?_)
    cases p.version with
    | none =>
      exact forall₂_congr fun _ known => (keepsTags_updated rooted follow here p status known).2
    | some payload =>
      refine forall₂_congr fun _ _ => ?_
      split
      · rename_i complete
        obtain ⟨fit, apart⟩ := complete
        refine iff_of_true (keepsTags_versionNamed rooted follow here p status fit).2
          fun _ clash => ?_
        rw [apart] at clash
        cases clash
      · rename_i partial_
        refine (keepsTags_versionAdded rooted follow here status _).2.trans
          (forall_congr' fun fit => ?_)
        have clash : w.slugClashes a p.shareSlug = true :=
          Bool.of_not_eq_false fun apart => partial_ ⟨fit, apart⟩
        simp [clash]

theorem tagNames_of_patch {p : VersionUpdate} {old content : Content} {tags : List String}
    (patched : p.patch old = some content) (given : p.tags = some (some tags)) :
    content.tagNames = (normalizeTags tags).toFinset := by
  obtain ⟨version, -, patched⟩ := Option.bind_eq_some_iff.mp patched
  obtain ⟨name, -, patched⟩ := Option.bind_eq_some_iff.mp patched
  obtain ⟨systemPrompt, -, patched⟩ := Option.bind_eq_some_iff.mp patched
  obtain rfl := Option.some.inj patched
  ext tag
  simp [Content.tagNames, given, normalizeTags_stored]

theorem tagsOf_setContent {v : ℕ} {old : AssistantVersion} {content : Content}
    (found : w.versions[v]? = some old) (current : Option ℕ) :
    (w.setContent v content).tagsOf current =
      if current = some v then content.tagNames else w.tagsOf current := by
  cases current with
  | none => rfl
  | some u =>
    simp only [World.tagsOf, World.contentOf, Option.bind_some, World.setContent_versions,
      Option.some.injEq]
    split
    · rename_i same
      rw [same, found]
      rfl
    · rfl

theorem keepsTags_rewritten {w' : World} {v : ℕ} {old : AssistantVersion} {content : Content}
    {Resynced : Prop} (rooted : w.Rooted) (follow : w.TagsFollow)
    (found : w.getForAssistant a v = some old) (touched : Touched w w' a)
    (assistants : w'.assistants = w.assistants)
    (versions : w'.versions = (w.setContent v content).versions)
    (linked : ∀ b, (b = a ∧ Resynced → w'.linkedTags b = content.tagNames) ∧
      (¬ (b = a ∧ Resynced) → w'.linkedTags b = w.linkedTags b)) :
    w'.Rooted ∧ (w'.TagsFollow ↔ ∀ (b : ℕ) row, w.assistants[b]? = some row →
      content.tagNames = w.tagsOf row.currentVersionId ∨
        (row.currentVersionId = some v ↔ b = a ∧ Resynced)) := by
  obtain ⟨there, mine⟩ := getForAssistant_eq_some.mp found
  constructor
  · have present := rooted.versions old (List.mem_of_getElem? there)
    rw [mine] at present
    refine rooted_of_touched rooted touched
      (by rw [assistants]; exact List.getElem?_eq_getElem present) fun u named => ?_
    exact (rooted.current a _ u (List.getElem?_eq_getElem present) named).trans_le touched.longer
  · rw [tagsFollow_iff, assistants]
    refine forall_congr' fun b => forall_congr' fun row => forall_congr' fun here => ?_
    have tags : w'.tagsOf row.currentVersionId =
        if row.currentVersionId = some v then content.tagNames
        else w.tagsOf row.currentVersionId := by
      rw [← tagsOf_setContent there, World.tagsOf, World.contentOf, versions]
      rfl
    have before := follow.linked b row here
    rw [tags]
    by_cases resynced : b = a ∧ Resynced
    · rw [(linked b).1 resynced]
      by_cases current : row.currentVersionId = some v <;> simp [current, resynced]
    · rw [(linked b).2 resynced, before, iff_false_right resynced]
      by_cases current : row.currentVersionId = some v <;> simp [current, eq_comm]

theorem keepsTags_synced {v : ℕ} {p : VersionUpdate} {old : AssistantVersion} {content : Content}
    {tags : List String} (rooted : w.Rooted) (follow : w.TagsFollow)
    (found : w.getForAssistant a v = some old) (patched : p.patch old.content = some content)
    (given : p.tags = some (some tags)) :
    let synced := (w.setContent v content).syncAssistantTags a tags
    synced.Rooted ∧ (synced.TagsFollow ↔ ∀ (b : ℕ) row, w.assistants[b]? = some row →
      content.tagNames = w.tagsOf row.currentVersionId ∨
        (row.currentVersionId = some v ↔ b = a ∧ w.Resyncs p)) := by
  have resyncs : w.Resyncs p ↔ w.TagsFit tags := by
    simp [World.Resyncs, given]
  refine keepsTags_rewritten rooted follow found
    ((touched_setContent found content).trans (touched_sync tags)) World.sync_assistants
    World.sync_versions fun b => ?_
  rw [resyncs, linkedTags_sync, tagNames_of_patch patched given]
  exact ⟨fun synced => if_pos synced, fun kept => if_neg kept⟩

theorem keepsTags_unsynced {v : ℕ} {p : VersionUpdate} {old : AssistantVersion} {content : Content}
    (rooted : w.Rooted) (follow : w.TagsFollow) (found : w.getForAssistant a v = some old)
    (kept : ∀ tags, p.tags = some (some tags) → False) :
    (w.setContent v content).Rooted ∧
      ((w.setContent v content).TagsFollow ↔ ∀ (b : ℕ) row, w.assistants[b]? = some row →
        content.tagNames = w.tagsOf row.currentVersionId ∨
          (row.currentVersionId = some v ↔ b = a ∧ w.Resyncs p)) := by
  refine keepsTags_rewritten rooted follow found (touched_setContent found content) rfl rfl
    fun b => ⟨fun synced => ?_, fun _ => rfl⟩
  obtain ⟨-, tags, given, -⟩ := synced
  exact (kept tags given).elim

theorem keepsTags_updateVersion (rooted : w.Rooted) (follow : w.TagsFollow) (v : ℕ)
    (p : VersionUpdate) :
    (w.updateVersion a v p).Rooted ∧
      ((w.updateVersion a v p).TagsFollow ↔ w.KeepsTags (.updateVersion a v p)) := by
  constructor
  · refine (World.updateVersion_iff rooted v p).mpr fun old found content patched _ => ?_
    split
    · rename_i given
      exact (keepsTags_synced rooted follow found patched given).1
    · rename_i kept
      exact (keepsTags_unsynced rooted follow found kept).1
  · refine (World.updateVersion_iff follow v p).trans (forall₂_congr fun old found =>
      forall₃_congr fun content patched _ => ?_)
    split
    · rename_i given
      exact (keepsTags_synced rooted follow found patched given).2
    · rename_i kept
      exact (keepsTags_unsynced rooted follow found kept).2

end Steps

section Runs

variable {w w' : World}

theorem keepsTags_of_unedited (rooted : w.Rooted) (follow : w.TagsFollow) (unedited : Unedited w w')
    (links : w'.links = w.links) : w'.Rooted ∧ w'.TagsFollow := by
  have linked (b : ℕ) : w'.linkedTags b = w.linkedTags b := by
    rw [World.linkedTags, links]
    rfl
  have tags (current : Option ℕ) : w'.tagsOf current = w.tagsOf current := by
    rw [World.tagsOf, World.contentOf, unedited.versions]
    rfl
  refine ⟨⟨fun b absent => ?_, ?_, ?_⟩, tagsFollow_iff.mpr fun b row here => ?_⟩
  · rw [unedited.assistants] at absent
    rw [linked]
    exact rooted.links b absent
  · rw [unedited.assistants, unedited.versions]
    exact rooted.versions
  · rw [unedited.assistants, unedited.versions]
    exact rooted.current
  · rw [unedited.assistants] at here
    rw [linked, tags]
    exact follow.linked b row here

theorem keepsTags_step (rooted : w.Rooted) (follow : w.TagsFollow) (op : Op) :
    (w.step op).Rooted ∧ ((w.step op).TagsFollow ↔ w.KeepsTags op) := by
  have settled {w' : World} (unedited : Unedited w w') (links : w'.links = w.links) :
      w'.Rooted ∧ (w'.TagsFollow ↔ True) := by
    obtain ⟨rooted', follow'⟩ := keepsTags_of_unedited rooted follow unedited links
    exact ⟨rooted', iff_true_intro follow'⟩
  cases op with
  | createAssistant owner p =>
    obtain ⟨rooted', follow'⟩ := keepsTags_createAssistant rooted follow owner p
    exact ⟨rooted', iff_true_intro follow'⟩
  | updateAssistant a p => exact keepsTags_updateAssistant rooted follow p
  | publishAssistant a versionId => exact keepsTags_publishAssistant rooted follow versionId
  | createVersion a p setAsCurrent => exact keepsTags_createVersion rooted follow p setAsCurrent
  | updateVersion a v p => exact keepsTags_updateVersion rooted follow v p
  | submit a =>
    simp only [World.step, World.submit]
    split <;> exact settled ⟨rfl, rfl⟩ rfl
  | approve a =>
    simp only [World.step, World.approve]
    split <;> exact settled ⟨rfl, rfl⟩ rfl
  | reject a =>
    simp only [World.step, World.reject]
    split <;> exact settled ⟨rfl, rfl⟩ rfl
  | installAssistant a user followLatest pinned =>
    simp only [World.step, World.installAssistant]
    split
    · exact settled ⟨rfl, rfl⟩ rfl
    · split <;> exact settled ⟨rfl, rfl⟩ rfl
  | updateInstall a user p =>
    simp only [World.step, World.updateInstall]
    split <;> exact settled ⟨rfl, rfl⟩ rfl

theorem rooted_empty : World.Rooted {} :=
  ⟨fun _ _ => rfl, fun _ mem => (nomatch mem), fun _ _ _ here => nomatch here⟩

theorem tagsFollow_empty : World.TagsFollow {} := tagsFollow_iff.mpr fun _ _ here => nomatch here

/-- In every run from the empty database, the tags follow the current versions exactly where every
call keeps them. -/
theorem tagsFollow_throughout_iff (ops : List Op) :
    (∀ first, first <+: ops → ∀ w, run (total World.step) {} first = some w → w.TagsFollow) ↔
      Along (total World.step) World.KeepsTags {} ops := by
  refine forall_prefix_iff_along (P := fun w => w.Rooted ∧ w.TagsFollow) (fun both => both.2) ?_ ?_
    ?_ ⟨rooted_empty, tagsFollow_empty⟩
  · rintro w op w' ⟨rooted, follow⟩ keeps taken
    obtain rfl := Option.some.inj taken
    obtain ⟨rooted', follows⟩ := keepsTags_step rooted follow op
    exact ⟨rooted', follows.mpr keeps⟩
  · rintro w op w' ⟨rooted, follow⟩ taken after
    obtain rfl := Option.some.inj taken
    exact (keepsTags_step rooted follow op).2.mp after
  · rintro w op idle
    cases idle

def verse : Content where
  version := "0.1.0"
  name := "Poet"
  systemPrompt := "Write."
  tags := ["verse"]

/-- An assistant is created with one tag, and gets a version with another. -/
def versionRetagged : List Op :=
  [.createAssistant (some 1) { version := { content := verse } },
    .createVersion 0 { content := { verse with version := "0.2.0", tags := ["prose"] } } true]

/-- The links are those of the version before. -/
theorem stale_tags_linked :
    ∃ w, run (total World.step) {} versionRetagged = some w ∧ ¬ w.TagsFollow := by
  refine ⟨_, rfl, fun follow => ?_⟩
  have linked := follow.linked 0 _ rfl
  exact absurd linked (by decide +kernel)

end Runs

end Deeting.Assistants
