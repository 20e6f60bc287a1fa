import Deeting.Assistants.Service
import Deeting.Transition

/-! What other users obtain of an assistant, and when it is what was approved: the review is of
the assistant, and its versions change under it. -/
namespace Deeting.Assistants

open Transition

/-- What an `AssistantSummaryVersion` shows of a version's content. -/
structure SummaryVersion where
  version : String
  name : String
  description : Option String
  systemPrompt : Option String
  tags : List String
  publishedAt : Option ℕ
  deriving DecidableEq

inductive Page where
  | market
  | installs
  deriving DecidableEq

def Page.shows (page : Page) (content : Content) : SummaryVersion where
  version := content.version
  name := content.name
  description := content.description
  systemPrompt := if page = .installs then some content.systemPrompt else none
  tags := content.tags
  publishedAt := content.publishedAt

namespace World

variable (w : World) (a : ℕ)

/-- The version in a row of `build_market_query`; `visible` are the system assistants shown. -/
def marketVersion (visible : ℕ → Bool) : Option Content :=
  (w.assistants[a]?).bind fun row =>
    if w.Listed a row ∧ (row.ownerUserId = none → visible a) then w.contentOf row.currentVersionId
    else none

/-- The version in a row of `build_install_query`. -/
def installedVersion (i : Install) : Option Content :=
  (w.assistants[i.assistantId]?).bind fun row =>
    if row.status = .archived then none
    else if i.followLatest then w.contentOf row.currentVersionId
    else w.contentOf (i.pinnedVersionId <|> row.currentVersionId)

/-- The user obtains the content on the page: from the market, or from an installation that
follows. -/
def Obtains (user : ℕ) (content : Content) : Page → Prop
  | .market => ∃ visible, w.marketVersion a visible = some content
  | .installs => ∃ i ∈ w.installs, i.userId = user ∧ i.assistantId = a ∧ i.followLatest ∧
      w.installedVersion i = some content

def Names (current : Option ℕ) : Prop := ∃ v, current = some v ∧ (w.getForAssistant a v).isSome

/-- The page shows the content as it shows the approved one. -/
def ShowsApproved (page : Page) (content : Option Content) : Prop :=
  (w.approved a).map page.shows = content.map page.shows

structure ReviewedAt (row : Assistant) (owner : ℕ) : Prop where
  names : w.Names a row.currentVersionId
  approved : ∀ page user content, user ≠ owner → w.Obtains a user content page →
    w.ShowsApproved a page (some content)

def Reviewed : Prop :=
  ∀ a row owner, w.assistants[a]? = some row → row.ownerUserId = some owner →
    w.ReviewedAt a row owner

def OpenTo (owner : ℕ) (visibility : Visibility) (status : Status) : Page → Prop
  | .market => visibility = .public_ ∧ status = .published ∧ w.reviews a = some .approved
  | .installs => status ≠ .archived ∧
      ∃ i ∈ w.installs, i.assistantId = a ∧ i.followLatest ∧ i.userId ≠ owner

def Serves (owner : ℕ) (visibility : Visibility) (status : Status) (content : Option Content) :
    Prop :=
  ∀ page, w.OpenTo a owner visibility status page → w.ShowsApproved a page content

/-- Where an operation leaves an assistant open to others, its current content is shown as the
approved one; and it makes no version current that is another assistant's, or none at all. -/
def Admits : Op → Prop
  | .createAssistant owner p => w.slugClashes w.assistants.length p.shareSlug = false →
      owner.isSome → w.TagsFit (stored p.version.content).tags
  | .updateAssistant a p => ∀ row, w.assistants[a]? = some row →
      ∀ status, row.status.next p.status = some status →
      match p.version with
      | none => w.slugClashes a p.shareSlug = false →
          p.currentVersionId.all (· < w.versions.length) →
          ∀ owner, row.ownerUserId = some owner → w.belongs a p.currentVersionId ∧
            w.Serves a owner (p.visibility.getD row.visibility) status
              (w.contentOf (p.currentVersionId <|> row.currentVersionId))
      | some payload =>
          let content := w.prepared a row.currentVersionId payload
          content.version.length ≤ 32 → w.semverTaken a content.version = false →
          ∀ owner, row.ownerUserId = some owner →
            if w.TagsFit content.tags ∧ w.slugClashes a p.shareSlug = false then
              w.Serves a owner (p.visibility.getD row.visibility) status (some content)
            else w.Serves a owner row.visibility status (w.contentOf row.currentVersionId)
  | .publishAssistant a versionId => ∀ row, w.assistants[a]? = some row →
      w.belongs a versionId → row.status.allows .published →
      ∀ owner, row.ownerUserId = some owner →
        w.Serves a owner row.visibility .published
          (w.contentOf (versionId <|> row.currentVersionId))
  | .createVersion a p setAsCurrent => ∀ row, w.assistants[a]? = some row →
      w.semverTaken a p.content.version = false → setAsCurrent →
      ∀ owner, row.ownerUserId = some owner →
        w.Serves a owner row.visibility row.status (some (stored p.content))
  | .updateVersion a v p => ∀ old, w.getForAssistant a v = some old →
      ∀ content, p.patch old.content = some content →
      w.semverClashes a v content.version = false →
      ∀ row, w.assistants[a]? = some row → row.currentVersionId = some v →
      ∀ owner, row.ownerUserId = some owner →
        w.Serves a owner row.visibility row.status (some content)
  | .updateInstall a user p => ∀ row, w.assistants[a]? = some row →
      ∀ owner, row.ownerUserId = some owner → user ≠ owner →
      w.belongs a p.pinnedVersionId.join → row.status ≠ .archived →
      (∃ i ∈ w.installs, i.userId = user ∧ i.assistantId = a ∧ p.follows i) →
      w.ShowsApproved a .installs (w.contentOf row.currentVersionId)
  | .installAssistant a user followLatest pinned => followLatest → pinned = none →
      ∀ row, w.assistants[a]? = some row → w.Listed a row → w.installOf a user = none →
      ∀ owner, row.ownerUserId = some owner → user ≠ owner →
        w.ShowsApproved a .installs (w.contentOf row.currentVersionId)
  | .submit _ | .approve _ | .reject _ => True

structure Grounded : Prop where
  reviews : ∀ a, w.assistants.length ≤ a → w.reviews a = none
  installs : ∀ i ∈ w.installs, i.assistantId < w.assistants.length

end World

section Views

variable {w : World} {a owner : ℕ} {row : Assistant}

theorem contentOf_of_names {current : Option ℕ} (names : w.Names a current) :
    ∃ content, w.contentOf current = some content := by
  obtain ⟨v, rfl, found⟩ := names
  obtain ⟨version, found⟩ := Option.isSome_iff_exists.mp found
  obtain ⟨found, -⟩ := Option.filter_eq_some_iff.mp found
  exact ⟨version.content, by simp [World.contentOf, found]⟩

theorem reviewedAt_iff (here : w.assistants[a]? = some row) (owned : row.ownerUserId = some owner) :
    w.ReviewedAt a row owner ↔ w.Names a row.currentVersionId ∧
      w.Serves a owner row.visibility row.status (w.contentOf row.currentVersionId) := by
  constructor
  · intro reviewed
    refine ⟨reviewed.names, fun page open_ => ?_⟩
    obtain ⟨content, current⟩ := contentOf_of_names reviewed.names
    rw [current]
    cases page with
    | market =>
      obtain ⟨shown, published, approved⟩ := open_
      refine reviewed.approved .market (owner + 1) content (Nat.succ_ne_self owner)
        ⟨fun _ => true, ?_⟩
      simp [World.marketVersion, World.Listed, here, shown, published, approved, current]
    | installs =>
      obtain ⟨live, i, mem, same, follows, other⟩ := open_
      refine reviewed.approved .installs i.userId content other ⟨i, mem, rfl, same, follows, ?_⟩
      simp [World.installedVersion, same, here, live, follows, current]
  · rintro ⟨names, serves⟩
    refine ⟨names, fun page user content other obtains => ?_⟩
    cases page with
    | market =>
      obtain ⟨visible, shown⟩ := obtains
      simp only [World.marketVersion, here, Option.bind_some] at shown
      split at shown
      · rename_i listed
        obtain ⟨⟨public_, published, approved⟩, -⟩ := listed
        rw [← shown]
        exact serves .market ⟨public_, published, approved (by rw [owned]; rfl)⟩
      · cases shown
    | installs =>
      obtain ⟨i, mem, rfl, same, follows, shown⟩ := obtains
      simp only [World.installedVersion, same, here, Option.bind_some, follows, if_true] at shown
      split at shown
      · cases shown
      · rename_i live
        rw [← shown]
        exact serves .installs ⟨live, i, mem, same, follows, other⟩

end Views

structure Edited (w w' : World) (a : ℕ) : Prop where
  reviews : w'.reviews = w.reviews
  installs : w'.installs = w.installs
  approved : w'.approved = w.approved
  others : ∀ b : ℕ, b ≠ a → w'.assistants[b]? = w.assistants[b]?
  versions : ∀ (v : ℕ) version, w.versions[v]? = some version → version.assistantId ≠ a →
    w'.versions[v]? = some version

section Edits

variable {w w' : World} {a b owner : ℕ} {row : Assistant} {content : Content}

theorem getForAssistant_eq_some {v : ℕ} {version : AssistantVersion} :
    w.getForAssistant a v = some version ↔
      w.versions[v]? = some version ∧ version.assistantId = a := by
  simp [World.getForAssistant, Option.filter_eq_some_iff]

theorem serves_of_edited (edited : Edited w w' a) {visibility : Visibility} {status : Status}
    {current : Option Content} :
    w'.Serves b owner visibility status current ↔ w.Serves b owner visibility status current := by
  refine forall_congr' fun page => ?_
  cases page <;>
    simp only [World.OpenTo, World.ShowsApproved, edited.reviews, edited.installs, edited.approved]

theorem names_of_kept {current : Option ℕ} (names : w.Names b current)
    (kept : ∀ v version, current = some v → w.getForAssistant b v = some version →
      w'.versions[v]? = some version) :
    w'.Names b current ∧ w'.contentOf current = w.contentOf current := by
  obtain ⟨v, rfl, found⟩ := names
  obtain ⟨version, found⟩ := Option.isSome_iff_exists.mp found
  obtain ⟨there, mine⟩ := getForAssistant_eq_some.mp found
  have there' := kept v version rfl found
  refine ⟨⟨v, rfl, ?_⟩, by simp [World.contentOf, there, there']⟩
  rw [getForAssistant_eq_some.mpr ⟨there', mine⟩]
  rfl

theorem reviewedAt_of_edited (edited : Edited w w' a) (other : b ≠ a)
    (here : w.assistants[b]? = some row) (owned : row.ownerUserId = some owner)
    (reviewed : w.ReviewedAt b row owner) : w'.ReviewedAt b row owner := by
  obtain ⟨names, serves⟩ := (reviewedAt_iff here owned).mp reviewed
  have kept (v : ℕ) (version : AssistantVersion) (_ : row.currentVersionId = some v)
      (found : w.getForAssistant b v = some version) : w'.versions[v]? = some version := by
    obtain ⟨there, rfl⟩ := getForAssistant_eq_some.mp found
    exact edited.versions v version there other
  obtain ⟨names', same⟩ := names_of_kept names kept
  refine (reviewedAt_iff ((edited.others b other).trans here) owned).mpr ⟨names', ?_⟩
  rw [same, serves_of_edited edited]
  exact serves

theorem reviewed_iff_of_edited (edited : Edited w w' a) (reviewed : w.Reviewed) :
    w'.Reviewed ↔ ∀ row owner, w'.assistants[a]? = some row → row.ownerUserId = some owner →
      w'.ReviewedAt a row owner := by
  constructor
  · intro all
    exact all a
  · intro edited_ b row owner here owned
    by_cases same : b = a
    · subst same
      exact edited_ row owner here owned
    · have before := (edited.others b same).symm.trans here
      exact reviewedAt_of_edited edited same before owned (reviewed b row owner before owned)

theorem reviewed_iff_of_row (edited : Edited w w' a) (reviewed : w.Reviewed)
    (there : w'.assistants[a]? = some row) (owned : row.ownerUserId = some owner) :
    w'.Reviewed ↔ w'.Names a row.currentVersionId ∧
      w.Serves a owner row.visibility row.status (w'.contentOf row.currentVersionId) := by
  rw [reviewed_iff_of_edited edited reviewed, ← serves_of_edited edited,
    ← reviewedAt_iff there owned]
  constructor
  · intro all
    exact all row owner there owned
  · intro one row' owner' there' owned'
    obtain rfl := Option.some.inj (there.symm.trans there')
    obtain rfl := Option.some.inj (owned.symm.trans owned')
    exact one

theorem reviewed_of_unowned (edited : Edited w w' a) (reviewed : w.Reviewed)
    (there : w'.assistants[a]? = some row) (unowned : row.ownerUserId = none) : w'.Reviewed := by
  refine (reviewed_iff_of_edited edited reviewed).mpr fun row' owner there' owned => ?_
  obtain rfl := Option.some.inj (there.symm.trans there')
  rw [unowned] at owned
  cases owned

theorem edited_setAssistant (row : Assistant) : Edited w (w.setAssistant a row) a := by
  refine ⟨rfl, rfl, rfl, fun b other => ?_, fun _ _ found _ => found⟩
  exact List.getElem?_set_ne (Ne.symm other)

theorem edited_addVersion (content : Content) : Edited w (w.addVersion a content) a := by
  refine ⟨rfl, rfl, rfl, fun _ _ => rfl, fun v version found _ => ?_⟩
  rw [World.addVersion_versions, if_neg, found]
  rintro rfl
  simp at found

theorem edited_sync (tags : List String) : Edited w (w.syncAssistantTags a tags) a :=
  ⟨World.sync_reviews, World.sync_installs, World.sync_approved,
    fun _ _ => by rw [World.sync_assistants], fun _ _ found _ => by rwa [World.sync_versions]⟩

theorem Edited.trans {w'' : World} (first : Edited w w' a) (second : Edited w' w'' a) :
    Edited w w'' a where
  reviews := second.reviews.trans first.reviews
  installs := second.installs.trans first.installs
  approved := second.approved.trans first.approved
  others b other := (second.others b other).trans (first.others b other)
  versions v version found other :=
    second.versions v version (first.versions v version found other) other

theorem edited_setContent {v : ℕ} {version : AssistantVersion}
    (mine : w.getForAssistant a v = some version) (content : Content) :
    Edited w (w.setContent v content) a := by
  refine ⟨rfl, rfl, rfl, fun _ _ => rfl, fun u other found foreign => ?_⟩
  rw [World.setContent_versions, if_neg, found]
  rintro rfl
  obtain ⟨here, rfl⟩ := getForAssistant_eq_some.mp mine
  exact foreign (by rw [Option.some.inj (found.symm.trans here)])

end Edits

section Steps

variable {w w' : World} {a owner : ℕ} {row : Assistant} {content : Content}

theorem names_of_version {v : ℕ} (there : w.versions[v]? = some ⟨a, content⟩) :
    w.Names a (some v) ∧ w.contentOf (some v) = some content := by
  have found : w.getForAssistant a v = some ⟨a, content⟩ := getForAssistant_eq_some.mpr ⟨there, rfl⟩
  exact ⟨⟨v, rfl, by rw [found]; rfl⟩, by simp [World.contentOf, there]⟩

theorem names_of_added (added : w'.versions = (w.addVersion a content).versions) :
    w'.Names a (some w.versions.length) ∧ w'.contentOf (some w.versions.length) = some content := by
  refine names_of_version ?_
  rw [added, World.addVersion_versions, if_pos rfl]

theorem not_names_none : ¬ w.Names a none := by
  rintro ⟨v, none, _⟩
  cases none

theorem not_openTo_new (grounded : w.Grounded) (visibility : Visibility) (status : Status)
    (page : Page) : ¬ w.OpenTo w.assistants.length owner visibility status page := by
  cases page with
  | market =>
    rintro ⟨-, -, approved⟩
    rw [grounded.reviews _ (Nat.le_refl _)] at approved
    cases approved
  | installs =>
    rintro ⟨-, i, mem, same, -⟩
    exact absurd (grounded.installs i mem) (same ▸ Nat.lt_irrefl _)

theorem edited_insertAssistant (row : Assistant) (content : Content) :
    Edited w (w.insertAssistant row content) w.assistants.length := by
  have appended : Edited w { w with assistants := w.assistants ++ [row] } w.assistants.length := by
    refine ⟨rfl, rfl, rfl, fun b other => ?_, fun _ _ found _ => found⟩
    simp only [List.getElem?_append, List.getElem?_singleton]
    grind
  exact appended.trans (edited_addVersion content)

theorem reviewed_createAssistant (grounded : w.Grounded) (reviewed : w.Reviewed)
    (owner : Option ℕ) (p : AssistantCreate) :
    (w.createAssistant owner p).Reviewed ↔ w.Admits (.createAssistant owner p) := by
  refine (World.createAssistant_iff reviewed owner p).trans (forall_congr' fun _ => ?_)
  simp only
  generalize stored p.version.content = content
  have inserted := edited_insertAssistant (w := w) (p.row owner) content
  have synced := inserted.trans (edited_sync content.tags)
  have kept : ((w.insertAssistant (p.row owner) content).syncAssistantTags w.assistants.length
      content.tags).assistants[w.assistants.length]? = some (p.row owner) := by
    simp [World.insertAssistant, World.addVersion]
  by_cases fit : w.TagsFit content.tags
  · rw [if_pos fit]
    simp only [fit, implies_true, iff_true]
    generalize named_eq : { p.row owner with currentVersionId := some w.versions.length } = named
    have edited := synced.trans (edited_setAssistant named)
    have there := World.setAssistant_assistants (by rw [kept]; rfl) named w.assistants.length
    rw [if_pos rfl] at there
    have owned : named.ownerUserId = owner := named_eq ▸ rfl
    cases owner with
    | none => exact reviewed_of_unowned edited reviewed there owned
    | some owner =>
      refine (reviewed_iff_of_row edited reviewed there owned).mpr ⟨?_, fun page open_ => ?_⟩
      · have added : (((w.insertAssistant (p.row (some owner)) content).syncAssistantTags
            w.assistants.length content.tags).setAssistant w.assistants.length named).versions =
              (w.addVersion w.assistants.length content).versions := World.sync_versions
        rw [← named_eq] at added ⊢
        exact (names_of_added added).1
      · exact absurd open_ (not_openTo_new grounded _ _ page)
  · rw [if_neg fit]
    cases owner with
    | none => simpa using reviewed_of_unowned synced reviewed kept rfl
    | some owner =>
      rw [reviewed_iff_of_row synced reviewed kept rfl]
      simp [fit, AssistantCreate.row, not_names_none]

/-- A version that is given is named if it is the assistant's, and else the one before. -/
theorem names_orElse_iff {given current : Option ℕ} (names : w.Names a current) :
    w.Names a (given <|> current) ↔ w.belongs a given := by
  cases given with
  | none => exact iff_of_true names rfl
  | some v => simp [World.Names, World.belongs]

theorem reviewed_iff_of_owners (edited : Edited w w' a) (reviewed : w.Reviewed)
    (there : w'.assistants[a]? = some row) {admitted : ℕ → Prop}
    (each : ∀ owner, row.ownerUserId = some owner → (w'.Names a row.currentVersionId ∧
      w.Serves a owner row.visibility row.status (w'.contentOf row.currentVersionId) ↔
        admitted owner)) :
    w'.Reviewed ↔ ∀ owner, row.ownerUserId = some owner → admitted owner := by
  cases owned : row.ownerUserId with
  | none => simpa using reviewed_of_unowned edited reviewed there owned
  | some owner =>
    rw [reviewed_iff_of_row edited reviewed there owned, each owner owned]
    simp

theorem reviewed_publishAssistant (reviewed : w.Reviewed) (versionId : Option ℕ) :
    (w.publishAssistant a versionId).Reviewed ↔ w.Admits (.publishAssistant a versionId) := by
  refine (World.publishAssistant_iff reviewed versionId).trans
    (forall₄_congr fun row here belongs _ => ?_)
  have there := World.setAssistant_assistants (by rw [here]; rfl)
    { row with status := .published, currentVersionId := versionId <|> row.currentVersionId } a
  rw [if_pos rfl] at there
  refine reviewed_iff_of_owners (edited_setAssistant _) reviewed there fun owner owned => ?_
  exact and_iff_right ((names_orElse_iff (reviewed a row owner here owned).names).mpr belongs)

theorem reviewed_of_kept (edited : Edited w w' a) (reviewed : w.Reviewed)
    (same : w'.assistants[a]? = w.assistants[a]?)
    (kept : ∀ row v version, w.assistants[a]? = some row → row.currentVersionId = some v →
      w.getForAssistant a v = some version → w'.versions[v]? = some version) : w'.Reviewed := by
  refine (reviewed_iff_of_edited edited reviewed).mpr fun row owner there owned => ?_
  have here := same.symm.trans there
  obtain ⟨names, serves⟩ := (reviewedAt_iff here owned).mp (reviewed a row owner here owned)
  obtain ⟨names', content⟩ := names_of_kept names fun v version => kept row v version here
  refine (reviewedAt_iff there owned).mpr ⟨names', ?_⟩
  rw [content, serves_of_edited edited]
  exact serves

theorem addVersion_kept {v : ℕ} {version : AssistantVersion}
    (found : w.getForAssistant a v = some version) (content : Content) :
    (w.addVersion a content).versions[v]? = some version := by
  obtain ⟨there, _⟩ := getForAssistant_eq_some.mp found
  rw [World.addVersion_versions, if_neg, there]
  rintro rfl
  simp at there

theorem reviewed_createVersion (reviewed : w.Reviewed) (p : VersionCreate) (setAsCurrent : Bool) :
    (w.createVersion a p setAsCurrent).Reviewed ↔ w.Admits (.createVersion a p setAsCurrent) := by
  refine (World.createVersion_iff reviewed p setAsCurrent).trans
    (forall₃_congr fun row here _ => ?_)
  have edited := edited_addVersion (w := w) (a := a) (stored p.content)
  cases setAsCurrent with
  | false =>
    simp only [Bool.false_eq_true, if_false, false_implies, iff_true]
    exact reviewed_of_kept edited reviewed rfl fun _ _ _ _ _ found => addVersion_kept found _
  | true =>
    simp only [if_true, forall_const]
    have there := World.setAssistant_assistants
      (show (w.addVersion a (stored p.content)).assistants[a]?.isSome by
        rw [World.addVersion, here]
        rfl)
      { row with currentVersionId := some w.versions.length } a
    rw [if_pos rfl] at there
    refine reviewed_iff_of_owners (edited.trans (edited_setAssistant _)) reviewed there
      fun owner owned => ?_
    have added : ((w.addVersion a (stored p.content)).setAssistant a
        { row with currentVersionId := some w.versions.length }).versions =
          (w.addVersion a (stored p.content)).versions := rfl
    obtain ⟨names, content⟩ := names_of_added added
    rw [content]
    exact and_iff_right names

theorem reviewed_rewritten {v : ℕ} {old : AssistantVersion} (reviewed : w.Reviewed)
    (found : w.getForAssistant a v = some old) (edited : Edited w w' a)
    (same : w'.assistants = w.assistants)
    (versions : w'.versions = (w.setContent v content).versions) :
    w'.Reviewed ↔ ∀ row, w.assistants[a]? = some row → row.currentVersionId = some v →
      ∀ owner, row.ownerUserId = some owner →
        w.Serves a owner row.visibility row.status (some content) := by
  have there : w'.versions[v]? = some ⟨a, content⟩ := by
    obtain ⟨there, rfl⟩ := getForAssistant_eq_some.mp found
    rw [versions, World.setContent_versions, if_pos rfl, there]
    rfl
  cases here : w.assistants[a]? with
  | none =>
    simp only [reduceCtorEq, false_implies, implies_true, iff_true]
    refine (reviewed_iff_of_edited edited reviewed).mpr fun row _ here' => ?_
    rw [same, here] at here'
    cases here'
  | some row =>
    simp only [Option.some.injEq, forall_eq']
    by_cases current : row.currentVersionId = some v
    · simp only [current, forall_const]
      refine reviewed_iff_of_owners edited reviewed ((congrArg (·[a]?) same).trans here)
        fun owner owned => ?_
      obtain ⟨names, shown⟩ := names_of_version there
      rw [current, shown]
      exact and_iff_right names
    · simp only [current, false_implies, iff_true]
      refine reviewed_of_kept edited reviewed (congrArg (·[a]?) same)
        fun row' u version here' named mine => ?_
      obtain rfl := Option.some.inj (here.symm.trans here')
      rw [versions, World.setContent_versions, if_neg fun same : u = v => current (same ▸ named)]
      exact (getForAssistant_eq_some.mp mine).1

theorem reviewed_updateVersion (reviewed : w.Reviewed) (v : ℕ) (p : VersionUpdate) :
    (w.updateVersion a v p).Reviewed ↔ w.Admits (.updateVersion a v p) := by
  refine (World.updateVersion_iff reviewed v p).trans (forall₂_congr fun old found =>
    forall₃_congr fun content _ _ => ?_)
  have edited := edited_setContent found content
  split
  · rename_i tags _
    exact reviewed_rewritten reviewed found (edited.trans (edited_sync tags))
      World.sync_assistants World.sync_versions
  · exact reviewed_rewritten reviewed found edited rfl rfl

theorem reviewed_updated (reviewed : w.Reviewed) (here : w.assistants[a]? = some row)
    (p : AssistantUpdate) (status : Status) :
    (w.setAssistant a
        (row.updated p status (p.currentVersionId <|> row.currentVersionId))).Reviewed ↔
      ∀ owner, row.ownerUserId = some owner → w.belongs a p.currentVersionId ∧
        w.Serves a owner (p.visibility.getD row.visibility) status
          (w.contentOf (p.currentVersionId <|> row.currentVersionId)) := by
  have there := World.setAssistant_assistants (by rw [here]; rfl)
    (row.updated p status (p.currentVersionId <|> row.currentVersionId)) a
  rw [if_pos rfl] at there
  refine reviewed_iff_of_owners (edited_setAssistant _) reviewed there fun owner owned => ?_
  exact and_congr_left' (names_orElse_iff (reviewed a row owner here owned).names)

structure Versioned (w made : World) (a : ℕ) (row : Assistant) (content : Content) : Prop where
  edited : Edited w made a
  row : made.assistants[a]? = some row
  versions : made.versions = (w.addVersion a content).versions

theorem versioned (here : w.assistants[a]? = some row) (status : Status) (content : Content) :
    Versioned w (w.versionAdded a row status content) a { row with status := status } content where
  edited :=
    ((edited_setAssistant _).trans (edited_addVersion content)).trans (edited_sync content.tags)
  row := by
    rw [World.versionAdded, World.sync_assistants]
    exact (World.setAssistant_assistants (by rw [here]; rfl) _ a).trans (if_pos rfl)
  versions := by
    rw [World.versionAdded, World.sync_versions]
    rfl

theorem reviewed_of_versioned {made : World} {status : Status} (reviewed : w.Reviewed)
    (here : w.assistants[a]? = some row)
    (versioned : Versioned w made a { row with status := status } content) :
    made.Reviewed ↔ ∀ owner, row.ownerUserId = some owner →
      w.Serves a owner row.visibility status (w.contentOf row.currentVersionId) := by
  refine reviewed_iff_of_owners versioned.edited reviewed versioned.row fun owner owned => ?_
  obtain ⟨names, same⟩ := names_of_kept (reviewed a row owner here owned).names
    fun v version _ found =>
      (congrArg (·[v]?) versioned.versions).trans (addVersion_kept found content)
  simp only
  rw [same]
  exact and_iff_right names

theorem reviewed_of_versioned_current {made : World} {row' named : Assistant}
    (reviewed : w.Reviewed) (versioned : Versioned w made a row' content)
    (current : named.currentVersionId = some w.versions.length) :
    (made.setAssistant a named).Reviewed ↔ ∀ owner, named.ownerUserId = some owner →
      w.Serves a owner named.visibility named.status (some content) := by
  have there := World.setAssistant_assistants (by rw [versioned.row]; rfl) named a
  rw [if_pos rfl] at there
  refine reviewed_iff_of_owners (versioned.edited.trans (edited_setAssistant _)) reviewed there
    fun owner owned => ?_
  have added : (made.setAssistant a named).versions = (w.addVersion a content).versions :=
    versioned.versions
  obtain ⟨names, shown⟩ := names_of_added added
  rw [current, shown]
  exact and_iff_right names

theorem reviewed_updateAssistant (reviewed : w.Reviewed) (p : AssistantUpdate) :
    (w.updateAssistant a p).Reviewed ↔ w.Admits (.updateAssistant a p) := by
  refine (World.updateAssistant_iff reviewed p).trans (forall₄_congr fun row here status _ => ?_)
  cases p.version with
  | none => exact forall₂_congr fun _ _ => reviewed_updated reviewed here p status
  | some payload =>
    refine forall₂_congr fun _ _ => ?_
    have made := versioned here status (w.prepared a row.currentVersionId payload)
    split
    · exact reviewed_of_versioned_current reviewed made rfl
    · exact reviewed_of_versioned reviewed here made

end Steps

end Deeting.Assistants
