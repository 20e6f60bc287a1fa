import Deeting.Stream.Accumulator
import Deeting.Texts

/-! `AssistantService`, `AssistantTagService`, `ReviewService` and the installations: what each
operation leaves in the database. Rows are named by their place, and none is deleted. Every
repository call commits, so an operation that fails halfway leaves what it had committed. -/
namespace Deeting.Assistants

inductive Visibility where
  | private_ | unlisted | public_
  deriving DecidableEq

inductive Status where
  | draft | published | archived
  deriving DecidableEq

inductive ReviewStatus where
  | draft | pending | approved | rejected | suspended
  deriving DecidableEq

structure Content where
  version : String
  name : String
  description : Option String := none
  systemPrompt : String
  modelConfig : Json := .obj []
  skillRefs : Json := .arr []
  tags : List String := []
  changelog : Option String := none
  publishedAt : Option ℕ := none

structure AssistantVersion where
  assistantId : ℕ
  content : Content

structure Assistant where
  ownerUserId : Option ℕ
  visibility : Visibility
  status : Status
  shareSlug : Option String
  summary : Option String
  iconId : Option String
  currentVersionId : Option ℕ

structure Install where
  userId : ℕ
  assistantId : ℕ
  followLatest : Bool
  pinnedVersionId : Option ℕ
  alias_ : Option String := none
  iconOverride : Option String := none
  isEnabled : Bool := true
  sortOrder : ℤ := 0

/-- The database. `approved` remembers the content that was current at the last approval. -/
structure World where
  assistants : List Assistant := []
  versions : List AssistantVersion := []
  tags : List String := []
  links : List (ℕ × String) := []
  reviews : ℕ → Option ReviewStatus := fun _ => none
  installs : List Install := []
  approved : ℕ → Option Content := fun _ => none

section Payloads

/-- `AssistantVersionCreate`; `versionSet` where the request names a version. -/
structure VersionCreate where
  content : Content
  versionSet : Bool := false

structure AssistantCreate where
  visibility : Visibility := .private_
  status : Status := .draft
  shareSlug : Option String := none
  summary : Option String := none
  iconId : Option String := none
  version : VersionCreate

structure AssistantUpdate where
  visibility : Option Visibility := none
  status : Option Status := none
  shareSlug : Option String := none
  currentVersionId : Option ℕ := none
  summary : Option String := none
  iconId : Option String := none
  version : Option VersionCreate := none

/-- `AssistantVersionUpdate`; the outer `none` is a field that is not in the request. -/
structure VersionUpdate where
  version : Option (Option String) := none
  name : Option (Option String) := none
  description : Option (Option String) := none
  systemPrompt : Option (Option String) := none
  modelConfig : Option Json := none
  skillRefs : Option Json := none
  tags : Option (Option (List String)) := none
  changelog : Option (Option String) := none
  publishedAt : Option (Option ℕ) := none

/-- `AssistantInstallUpdate`, likewise. -/
structure InstallUpdate where
  pinnedVersionId : Option (Option ℕ) := none
  followLatest : Option (Option Bool) := none
  alias_ : Option (Option String) := none
  iconOverride : Option (Option String) := none
  isEnabled : Option (Option Bool) := none
  sortOrder : Option (Option ℤ) := none

end Payloads

section Tags

def normalizeTag (raw : String) : Option String :=
  match Stream.strip raw.toList with
  | [] => none
  | '#' :: rest => some (.ofList ('#' :: rest))
  | name => some (.ofList ('#' :: name))

def normalizeTags (tags : List String) : List String := (tags.filterMap normalizeTag).eraseDups

/-- The content that `_create_version_internal` stores. -/
def stored (content : Content) : Content := { content with tags := normalizeTags content.tags }

def fitsTag (name : String) : Bool := name.length ≤ 50

end Tags

section Versions

/-- `_bump_semver`; what is no version of three numbers starts anew. -/
def bumpSemver (version : String) : String :=
  let text := version.toList
  let text := if text.getLast? = some '\n' then text.dropLast else text
  match (text.splitOn '.').mapM Texts.decimal? with
  | some [major, minor, patch] =>
    toString major ++ "." ++ toString minor ++ "." ++ toString (patch + 1)
  | _ => "0.1.0"

def freeVersion (taken : String → Bool) : ℕ → String → String
  | 0, version => version
  | n + 1, version => if taken version then freeVersion taken n (bumpSemver version) else version

end Versions

/-- `AssistantStateMachine.validate_transition`. -/
def Status.allows : Status → Status → Bool
  | .draft, _ => true
  | .published, .published | .published, .archived => true
  | .archived, .archived => true
  | _, _ => false

/-- The status after an update, where it may have the one it names. -/
def Status.next (current : Status) : Option Status → Option Status
  | none => some current
  | some target => if current.allows target then some target else none

def AssistantCreate.row (p : AssistantCreate) (owner : Option ℕ) : Assistant where
  ownerUserId := owner
  visibility := p.visibility
  status := p.status
  shareSlug := p.shareSlug
  summary := p.summary
  iconId := p.iconId
  currentVersionId := none

def Assistant.updated (row : Assistant) (p : AssistantUpdate) (status : Status)
    (current : Option ℕ) : Assistant where
  ownerUserId := row.ownerUserId
  visibility := p.visibility.getD row.visibility
  status := status
  shareSlug := p.shareSlug <|> row.shareSlug
  summary := p.summary <|> row.summary
  iconId := p.iconId <|> row.iconId
  currentVersionId := current

def VersionUpdate.patch (p : VersionUpdate) (c : Content) : Option Content := do
  let version ← p.version.getD (some c.version)
  let name ← p.name.getD (some c.name)
  let systemPrompt ← p.systemPrompt.getD (some c.systemPrompt)
  some
    { version := version
      name := name
      description := p.description.getD c.description
      systemPrompt := systemPrompt
      modelConfig := p.modelConfig.getD c.modelConfig
      skillRefs := p.skillRefs.getD c.skillRefs
      tags := (p.tags.map fun tags => normalizeTags (tags.getD [])).getD c.tags
      changelog := p.changelog.getD c.changelog
      publishedAt := p.publishedAt.getD c.publishedAt }

/-- The `update_data` of an installation; a `null` counts as absent but for what is stored. -/
def InstallUpdate.data (p : InstallUpdate) (current : Option ℕ) : InstallUpdate :=
  let pinned := p.pinnedVersionId.join
  let data :=
    if pinned.isSome ∧ p.followLatest.join = none then { p with followLatest := some (some false) }
    else p
  match p.followLatest.join, pinned, current with
  | some true, _, _ => { data with pinnedVersionId := some none }
  | some false, none, some v => { data with pinnedVersionId := some (some v) }
  | _, _, _ => data

def InstallUpdate.patch (p : InstallUpdate) (i : Install) : Option Install := do
  let followLatest ← p.followLatest.getD (some i.followLatest)
  let isEnabled ← p.isEnabled.getD (some i.isEnabled)
  let sortOrder ← p.sortOrder.getD (some i.sortOrder)
  some
    { userId := i.userId
      assistantId := i.assistantId
      followLatest := followLatest
      pinnedVersionId := p.pinnedVersionId.getD i.pinnedVersionId
      alias_ := p.alias_.getD i.alias_
      iconOverride := p.iconOverride.getD i.iconOverride
      isEnabled := isEnabled
      sortOrder := sortOrder }

namespace World

variable (w : World) (a : ℕ)

section Reads

def getForAssistant (v : ℕ) : Option AssistantVersion :=
  (w.versions[v]?).filter (·.assistantId = a)

def belongs (v : Option ℕ) : Bool := v.all fun v => (w.getForAssistant a v).isSome

def contentOf (v : Option ℕ) : Option Content :=
  (v.bind (w.versions[·]?)).map AssistantVersion.content

/-- `get_by_semver` finds a version. -/
def semverTaken (version : String) : Bool :=
  w.versions.any fun row => row.assistantId = a ∧ row.content.version = version

/-- The unique constraint on a version, for all but the `v`-th. -/
def semverClashes (v : ℕ) (version : String) : Bool :=
  w.versions.zipIdx.any fun (row, i) =>
    i ≠ v ∧ row.assistantId = a ∧ row.content.version = version

/-- The unique constraint on `share_slug`, for all but the `a`-th assistant. -/
def slugClashes (slug : Option String) : Bool :=
  slug.isSome && w.assistants.zipIdx.any fun (row, i) => i ≠ a ∧ row.shareSlug = slug

end Reads

section Writes

def setAssistant (row : Assistant) : World := { w with assistants := w.assistants.set a row }

def addVersion (content : Content) : World :=
  { w with versions := w.versions ++ [{ assistantId := a, content := content }] }

def setContent (v : ℕ) (content : Content) : World :=
  { w with versions := w.versions.modify v fun row => { row with content := content } }

def missingTags (tags : List String) : List String := (normalizeTags tags).filter (· ∉ w.tags)

def addTags (tags : List String) : World :=
  { w with tags := w.tags ++ (w.missingTags tags).takeWhile fitsTag }

instance (link : ℕ × String) : Decidable (link ∈ w.links) := inferInstance

def relink (tags : List String) : World :=
  { w with
    links := w.links.filter (fun link => link.1 ≠ a ∨ link.2 ∈ normalizeTags tags) ++
      ((normalizeTags tags).filter fun name => (a, name) ∉ w.links).map (a, ·) }

def TagsFit (tags : List String) : Prop := (w.missingTags tags).all fitsTag

instance (tags : List String) : Decidable (w.TagsFit tags) := inferInstanceAs (Decidable (_ = _))

/-- `sync_assistant_tags`; a tag that does not fit raises before the links change. -/
def syncAssistantTags (tags : List String) : World :=
  if w.TagsFit tags then (w.addTags tags).relink a tags else w.addTags tags

end Writes

section Operations

def insertAssistant (row : Assistant) (content : Content) : World :=
  ({ w with assistants := w.assistants ++ [row] } : World).addVersion w.assistants.length content

/-- `create_assistant`; the version becomes the current one last. -/
def createAssistant (owner : Option ℕ) (p : AssistantCreate) : World :=
  let a := w.assistants.length
  let content := stored p.version.content
  let made := w.insertAssistant (p.row owner) content
  if w.slugClashes a p.shareSlug then w
  else if w.TagsFit content.tags then
    (made.syncAssistantTags a content.tags).setAssistant a
      { p.row owner with currentVersionId := some w.versions.length }
  else made.syncAssistantTags a content.tags

/-- `_prepare_version_payload`, and what is stored of it. -/
def prepared (current : Option ℕ) (p : VersionCreate) : Content :=
  if p.versionSet ∧ p.content.version ≠ "" ∧ ¬ w.semverTaken a p.content.version then
    stored p.content
  else
    let base := (current.bind (w.getForAssistant a)).map (·.content.version)
    let base := (base.filter (· ≠ "")).getD "0.1.0"
    let version := freeVersion (w.semverTaken a) (w.versions.length + 1) (bumpSemver base)
    stored { p.content with version := version }

/-- A version of an update: its insertion commits the new status with it, and its tags are synced
before the rest of the row is committed. -/
def versionAdded (row : Assistant) (status : Status) (content : Content) : World :=
  ((w.setAssistant a { row with status := status }).addVersion a content).syncAssistantTags a
    content.tags

def updateAssistant (p : AssistantUpdate) : World :=
  match w.assistants[a]? with
  | none => w
  | some row =>
    match row.status.next p.status with
    | none => w
    | some status =>
      match p.version with
      | none =>
        if w.slugClashes a p.shareSlug ∨ ¬ p.currentVersionId.all (· < w.versions.length) then w
        else w.setAssistant a (row.updated p status (p.currentVersionId <|> row.currentVersionId))
      | some payload =>
        let content := w.prepared a row.currentVersionId payload
        if 32 < content.version.length ∨ w.semverTaken a content.version then w
        else
          let synced := w.versionAdded a row status content
          if w.TagsFit content.tags ∧ ¬ w.slugClashes a p.shareSlug then
            synced.setAssistant a (row.updated p status (some w.versions.length))
          else synced

def publishAssistant (versionId : Option ℕ) : World :=
  match w.assistants[a]? with
  | none => w
  | some row =>
    if ¬ w.belongs a versionId ∨ ¬ row.status.allows .published then w
    else
      w.setAssistant a
        { row with status := .published, currentVersionId := versionId <|> row.currentVersionId }

def createVersion (p : VersionCreate) (setAsCurrent : Bool) : World :=
  match w.assistants[a]? with
  | none => w
  | some row =>
    if w.semverTaken a p.content.version then w
    else
      let made := w.addVersion a (stored p.content)
      if setAsCurrent then
        made.setAssistant a { row with currentVersionId := some w.versions.length }
      else made

def updateVersion (v : ℕ) (p : VersionUpdate) : World :=
  match w.getForAssistant a v with
  | none => w
  | some row =>
    match p.patch row.content with
    | none => w
    | some content =>
      if w.semverClashes a v content.version then w
      else
        match p.tags with
        | some (some tags) => (w.setContent v content).syncAssistantTags a tags
        | _ => w.setContent v content

def setReview (status : ReviewStatus) : World :=
  { w with reviews := Function.update w.reviews a (some status) }

/-- `submit`, from any status, for an assistant that is there. -/
def submit : World := if a < w.assistants.length then w.setReview a .pending else w

def approve : World :=
  match w.reviews a with
  | some .pending | some .approved =>
    { w.setReview a .approved with
      approved := Function.update w.approved a
        (w.contentOf ((w.assistants[a]?).bind Assistant.currentVersionId)) }
  | _ => w

def reject : World :=
  match w.reviews a with
  | some .pending | some .rejected => w.setReview a .rejected
  | _ => w

/-- What `ensure_assistant_access` and the market ask of an assistant that is not one's own. -/
def Listed (row : Assistant) : Prop :=
  row.visibility = .public_ ∧ row.status = .published ∧
    (row.ownerUserId.isSome → w.reviews a = some .approved)

instance (row : Assistant) : Decidable (w.Listed a row) :=
  inferInstanceAs (Decidable (_ ∧ _ ∧ (_ → _)))

def installOf (user : ℕ) : Option Install :=
  w.installs.find? fun i => i.userId = user ∧ i.assistantId = a

def installAssistant (user : ℕ) (followLatest : Bool) (pinned : Option ℕ) : World :=
  match w.assistants[a]? with
  | none => w
  | some row =>
    if ¬ (row.ownerUserId = some user ∨ w.Listed a row) ∨ (w.installOf a user).isSome ∨
        ¬ w.belongs a pinned then w
    else
      let follows := followLatest && pinned.isNone
      let install : Install :=
        { userId := user
          assistantId := a
          followLatest := follows
          pinnedVersionId := if follows then none else pinned <|> row.currentVersionId }
      { w with installs := w.installs ++ [install] }

def updateInstall (user : ℕ) (p : InstallUpdate) : World :=
  if ¬ w.belongs a p.pinnedVersionId.join then w
  else
    let data := p.data ((w.assistants[a]?).bind Assistant.currentVersionId)
    { w with
      installs := w.installs.map fun i =>
        if i.userId = user ∧ i.assistantId = a then (data.patch i).getD i else i }

end Operations

end World

inductive Op where
  | createAssistant (owner : Option ℕ) (p : AssistantCreate)
  | updateAssistant (a : ℕ) (p : AssistantUpdate)
  | publishAssistant (a : ℕ) (versionId : Option ℕ)
  | createVersion (a : ℕ) (p : VersionCreate) (setAsCurrent : Bool)
  | updateVersion (a v : ℕ) (p : VersionUpdate)
  | submit (a : ℕ)
  | approve (a : ℕ)
  | reject (a : ℕ)
  | installAssistant (a user : ℕ) (followLatest : Bool) (pinned : Option ℕ)
  | updateInstall (a user : ℕ) (p : InstallUpdate)

def World.step (w : World) : Op → World
  | .createAssistant owner p => w.createAssistant owner p
  | .updateAssistant a p => w.updateAssistant a p
  | .publishAssistant a versionId => w.publishAssistant a versionId
  | .createVersion a p setAsCurrent => w.createVersion a p setAsCurrent
  | .updateVersion a v p => w.updateVersion a v p
  | .submit a => w.submit a
  | .approve a => w.approve a
  | .reject a => w.reject a
  | .installAssistant a user followLatest pinned => w.installAssistant a user followLatest pinned
  | .updateInstall a user p => w.updateInstall a user p

section Updates

variable {p : InstallUpdate} {current : Option ℕ} {i : Install}

namespace InstallUpdate

/-- A `null` is given for what may not be null. -/
def Refused (p : InstallUpdate) : Prop :=
  p.isEnabled = some none ∨ p.sortOrder = some none ∨
    p.followLatest = some none ∧ p.pinnedVersionId.join = none

instance (p : InstallUpdate) : Decidable p.Refused := inferInstanceAs (Decidable (_ ∨ _ ∨ _))

def follows (p : InstallUpdate) (i : Install) : Bool :=
  if p.Refused then i.followLatest
  else p.followLatest.join.getD (i.followLatest && p.pinnedVersionId.join.isNone)

def pins (p : InstallUpdate) (current : Option ℕ) (i : Install) : Option ℕ :=
  match p.followLatest.join with
  | some true => none
  | some false => p.pinnedVersionId.join <|> current <|> p.pinnedVersionId.getD i.pinnedVersionId
  | none => p.pinnedVersionId.getD i.pinnedVersionId

@[simp] theorem data_isEnabled : (p.data current).isEnabled = p.isEnabled := by
  simp only [data]
  split <;> split <;> rfl

@[simp] theorem data_sortOrder : (p.data current).sortOrder = p.sortOrder := by
  simp only [data]
  split <;> split <;> rfl

theorem data_followLatest : (p.data current).followLatest =
    if p.pinnedVersionId.join.isSome ∧ p.followLatest.join = none then some (some false)
    else p.followLatest := by
  simp only [data]
  split <;> split <;> rfl

theorem data_pinnedVersionId :
    (p.data current).pinnedVersionId.getD i.pinnedVersionId = p.pins current i := by
  simp only [data, pins]
  cases follow : p.followLatest.join with
  | none => cases p.pinnedVersionId.join <;> rfl
  | some follows =>
    cases follows with
    | true => simp
    | false =>
      rcases pinned : p.pinnedVersionId with _ | _ | v <;> cases current <;> simp [pinned]

theorem patch_refused (refused : p.Refused) : (p.data current).patch i = none := by
  obtain enabled | order | ⟨follow, pinned⟩ := refused
  · simp [patch, enabled]
  · simp [patch, order]
  · simp [patch, data_followLatest, follow, pinned]

theorem patch_accepted (accepted : ¬ p.Refused) : ∃ i', (p.data current).patch i = some i' ∧
    i'.userId = i.userId ∧ i'.assistantId = i.assistantId ∧ i'.followLatest = p.follows i ∧
    i'.pinnedVersionId = p.pins current i := by
  obtain ⟨enabled, order, follow⟩ := not_or.mp accepted |>.imp_right not_or.mp
  have follow : (p.data current).followLatest.getD (some i.followLatest) =
      some (p.follows i) := by
    rw [follows, if_neg accepted, data_followLatest]
    rcases fields : p.followLatest with _ | _ | follows <;>
      rcases pinned : p.pinnedVersionId with _ | _ | v <;> simp_all
  obtain ⟨enabled, enables⟩ : ∃ enabled, p.isEnabled.getD (some i.isEnabled) = some enabled := by
    rcases fields : p.isEnabled with _ | _ | enabled <;> simp_all
  obtain ⟨order, orders⟩ : ∃ order, p.sortOrder.getD (some i.sortOrder) = some order := by
    rcases fields : p.sortOrder with _ | _ | order <;> simp_all
  simp only [patch, data_isEnabled, data_sortOrder, follow, enables, orders, Option.bind_eq_bind,
    Option.bind_some]
  exact ⟨_, rfl, rfl, rfl, rfl, data_pinnedVersionId⟩

theorem patched (p : InstallUpdate) (current : Option ℕ) (i : Install) :
    let i' := ((p.data current).patch i).getD i
    i'.userId = i.userId ∧ i'.assistantId = i.assistantId ∧ i'.followLatest = p.follows i ∧
      i'.pinnedVersionId = if p.Refused then i.pinnedVersionId else p.pins current i := by
  by_cases refused : p.Refused
  · rw [patch_refused refused, Option.getD_none, if_pos refused, follows, if_pos refused]
    exact ⟨rfl, rfl, rfl, rfl⟩
  · obtain ⟨i', patched, user, assistant, follow, pinned⟩ := @patch_accepted p current i refused
    rw [patched, Option.getD_some, if_neg refused]
    exact ⟨user, assistant, follow, pinned⟩

end InstallUpdate
end Updates

namespace World

section Frames

variable {w : World} {a : ℕ} {tags : List String} {content : Content}

@[simp] theorem sync_assistants : (w.syncAssistantTags a tags).assistants = w.assistants := by
  rw [syncAssistantTags]
  split <;> rfl

@[simp] theorem sync_versions : (w.syncAssistantTags a tags).versions = w.versions := by
  rw [syncAssistantTags]
  split <;> rfl

@[simp] theorem sync_reviews : (w.syncAssistantTags a tags).reviews = w.reviews := by
  rw [syncAssistantTags]
  split <;> rfl

@[simp] theorem sync_installs : (w.syncAssistantTags a tags).installs = w.installs := by
  rw [syncAssistantTags]
  split <;> rfl

@[simp] theorem sync_approved : (w.syncAssistantTags a tags).approved = w.approved := by
  rw [syncAssistantTags]
  split <;> rfl

theorem addVersion_versions (v : ℕ) :
    (w.addVersion a content).versions[v]? =
      if v = w.versions.length then some { assistantId := a, content := content }
      else w.versions[v]? := by
  simp only [addVersion, List.getElem?_append, List.getElem?_singleton]
  grind

theorem setAssistant_assistants (here : w.assistants[a]?.isSome) (row : Assistant) (b : ℕ) :
    (w.setAssistant a row).assistants[b]? = if b = a then some row else w.assistants[b]? := by
  simp only [setAssistant, List.getElem?_set]
  grind

theorem setContent_versions (v u : ℕ) :
    (w.setContent v content).versions[u]? =
      if u = v then (w.versions[u]?).map fun version => { version with content := content }
      else w.versions[u]? := by
  simp only [setContent, List.getElem?_modify]
  grind

end Frames

/-! An invariant after an operation is one of what the operation leaves where it is not refused. -/
section Outcomes

variable {w : World} {a : ℕ} {P : World → Prop}

theorem createAssistant_iff (kept : P w) (owner : Option ℕ) (p : AssistantCreate) :
    P (w.createAssistant owner p) ↔
      (w.slugClashes w.assistants.length p.shareSlug = false →
        let content := stored p.version.content
        let made := (w.insertAssistant (p.row owner) content).syncAssistantTags w.assistants.length
          content.tags
        if w.TagsFit content.tags then
          P (made.setAssistant w.assistants.length
            { p.row owner with currentVersionId := some w.versions.length })
        else P made) := by
  rw [createAssistant]
  cases clash : w.slugClashes w.assistants.length p.shareSlug with
  | true => simpa using kept
  | false =>
    simp only [Bool.false_eq_true, if_false, forall_const]
    split <;> rfl

theorem publishAssistant_iff (kept : P w) (versionId : Option ℕ) :
    P (w.publishAssistant a versionId) ↔
      ∀ row, w.assistants[a]? = some row → w.belongs a versionId → row.status.allows .published →
        P (w.setAssistant a
          { row with status := .published, currentVersionId := versionId <|> row.currentVersionId }) := by
  rw [publishAssistant]
  cases w.assistants[a]? with
  | none => simpa using kept
  | some row =>
    simp only [Option.some.injEq, forall_eq']
    by_cases accepted : w.belongs a versionId ∧ row.status.allows .published
    · simp [accepted]
    · rw [if_pos (by tauto)]
      exact iff_of_true kept fun belongs allowed => absurd ⟨belongs, allowed⟩ accepted

theorem createVersion_iff (kept : P w) (p : VersionCreate) (setAsCurrent : Bool) :
    P (w.createVersion a p setAsCurrent) ↔
      ∀ row, w.assistants[a]? = some row → w.semverTaken a p.content.version = false →
        let made := w.addVersion a (stored p.content)
        if setAsCurrent then
          P (made.setAssistant a { row with currentVersionId := some w.versions.length })
        else P made := by
  rw [createVersion]
  cases w.assistants[a]? with
  | none => simpa using kept
  | some row =>
    cases w.semverTaken a p.content.version with
    | true => simpa using kept
    | false => cases setAsCurrent <;> simp

theorem updateVersion_iff (kept : P w) (v : ℕ) (p : VersionUpdate) :
    P (w.updateVersion a v p) ↔
      ∀ old, w.getForAssistant a v = some old → ∀ content, p.patch old.content = some content →
        w.semverClashes a v content.version = false →
          match p.tags with
          | some (some tags) => P ((w.setContent v content).syncAssistantTags a tags)
          | _ => P (w.setContent v content) := by
  rw [updateVersion]
  cases w.getForAssistant a v with
  | none => simpa using kept
  | some old =>
    cases patched : p.patch old.content with
    | none => simpa [patched] using kept
    | some content =>
      cases clash : w.semverClashes a v content.version with
      | true => simpa [patched, clash] using kept
      | false =>
        simp only [Option.some.injEq, forall_eq', patched, clash, Bool.false_eq_true, if_false,
          forall_const]
        split <;> rfl

theorem updateAssistant_iff (kept : P w) (p : AssistantUpdate) :
    P (w.updateAssistant a p) ↔
      ∀ row, w.assistants[a]? = some row → ∀ status, row.status.next p.status = some status →
        match p.version with
        | none => w.slugClashes a p.shareSlug = false →
            p.currentVersionId.all (· < w.versions.length) →
            P (w.setAssistant a (row.updated p status (p.currentVersionId <|> row.currentVersionId)))
        | some payload =>
            let content := w.prepared a row.currentVersionId payload
            content.version.length ≤ 32 → w.semverTaken a content.version = false →
              if w.TagsFit content.tags ∧ w.slugClashes a p.shareSlug = false then
                P ((w.versionAdded a row status content).setAssistant a
                  (row.updated p status (some w.versions.length)))
              else P (w.versionAdded a row status content) := by
  rw [updateAssistant]
  cases w.assistants[a]? with
  | none => simpa using kept
  | some row =>
    cases next : row.status.next p.status with
    | none => simpa [next] using kept
    | some status =>
      simp only [Option.some.injEq, forall_eq', next]
      cases p.version with
      | none =>
        by_cases accepted : w.slugClashes a p.shareSlug = false ∧
            p.currentVersionId.all (· < w.versions.length)
        · simp [accepted]
        · rw [if_pos (by simpa [-not_and, not_and_or] using accepted)]
          exact iff_of_true kept fun free known => absurd ⟨free, known⟩ accepted
      | some payload =>
        simp only
        generalize w.prepared a row.currentVersionId payload = content
        by_cases accepted : content.version.length ≤ 32 ∧ w.semverTaken a content.version = false
        · simp only [Nat.not_lt.mpr accepted.1, accepted, Bool.false_eq_true, or_self, if_false,
            forall_const, Bool.not_eq_true]
          split <;> rfl
        · rw [if_pos (by simpa [-not_and, not_and_or] using accepted)]
          exact iff_of_true kept fun short free => absurd ⟨short, free⟩ accepted

end Outcomes

end World

end Deeting.Assistants
