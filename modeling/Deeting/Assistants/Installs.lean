import Deeting.Assistants.Review

/-! Installations follow an assistant or are pinned to a version of it. Each call puts the two fields
together anew, and a `null` that is given for the version unpins without following. -/
namespace Deeting.Assistants

open Transition

/-- A call of `AssistantMarketService` that writes an installation. -/
inductive InstallCall where
  | install (a user : ℕ) (followLatest : Bool) (pinned : Option ℕ)
  | update (a user : ℕ) (p : InstallUpdate)

def InstallCall.op : InstallCall → Op
  | install a user followLatest pinned => .installAssistant a user followLatest pinned
  | update a user p => .updateInstall a user p

namespace World

variable (w : World)

def currentOf (a : ℕ) : Option ℕ := (w.assistants[a]?).bind Assistant.currentVersionId

def SettledAs (a : ℕ) (followLatest : Bool) (pinned : Option ℕ) : Prop :=
  followLatest = true ∧ pinned = none ∨ followLatest = false ∧ w.Names a pinned

/-- So is every installation of an assistant that has a current version. -/
def Settled : Prop := ∀ i ∈ w.installs, w.currentOf i.assistantId ≠ none →
  w.SettledAs i.assistantId i.followLatest i.pinnedVersionId

/-- No update gives a `null` for the version of a pinned installation and says nothing of following
the latest; and where the current version is to be pinned, it is one of the assistant's own. -/
def Settles : InstallCall → Prop
  | .install a user followLatest pinned => ∀ row, w.assistants[a]? = some row →
      row.ownerUserId = some user ∨ w.Listed a row → w.installOf a user = none →
      followLatest = false → pinned = none → row.currentVersionId ≠ none →
      w.Names a row.currentVersionId
  | .update a user p => w.belongs a p.pinnedVersionId.join → ¬ p.Refused →
      w.currentOf a ≠ none → ∀ i ∈ w.installs, i.userId = user → i.assistantId = a →
      match p.followLatest.join with
      | some true => True
      | some false => p.pinnedVersionId.join = none → w.Names a (w.currentOf a)
      | none => p.pinnedVersionId = some none → i.followLatest = true

end World

section Steps

variable {w : World} {a user : ℕ}

theorem settled_installs {installs : List Install} :
    World.Settled { w with installs := installs } ↔ ∀ i ∈ installs,
      w.currentOf i.assistantId ≠ none →
        w.SettledAs i.assistantId i.followLatest i.pinnedVersionId := Iff.rfl

theorem names_of_belongs {v : ℕ} (belongs : w.belongs a (some v)) : w.Names a (some v) :=
  ⟨v, rfl, by simpa [World.belongs] using belongs⟩

theorem settled_installAssistant (settled : w.Settled) (followLatest : Bool) (pinned : Option ℕ) :
    (w.installAssistant a user followLatest pinned).Settled ↔
      w.Settles (.install a user followLatest pinned) := by
  simp only [World.installAssistant, World.Settles]
  cases here : w.assistants[a]? with
  | none => simpa using settled
  | some row =>
    have current : w.currentOf a = row.currentVersionId := by simp [World.currentOf, here]
    simp only [Option.some.injEq, forall_eq']
    by_cases refused : ¬ (row.ownerUserId = some user ∨ w.Listed a row) ∨
        (w.installOf a user).isSome ∨ ¬ w.belongs a pinned
    · rw [if_pos refused]
      refine iff_of_true settled fun access fresh _ unpinned _ => ?_
      obtain denied | there | foreign := refused
      · exact absurd access denied
      · rw [fresh] at there
        cases there
      · exact absurd (by rw [unpinned]; rfl) foreign
    · rw [if_neg refused, settled_installs, List.forall_mem_append, List.forall_mem_singleton]
      refine (and_iff_right settled).trans ?_
      obtain ⟨allowed, refused⟩ := not_or.mp refused
      simp only [not_or, not_not, Option.not_isSome_iff_eq_none] at refused
      obtain ⟨fresh, belongs⟩ := refused
      simp only [current, not_not.mp allowed, fresh, forall_const]
      cases pinned with
      | some v =>
        refine iff_of_true (fun _ => .inr ⟨by simp, ?_⟩) (by simp)
        simpa using names_of_belongs belongs
      | none =>
        cases followLatest with
        | true => exact iff_of_true (fun _ => .inl ⟨rfl, rfl⟩) (by simp)
        | false => simp [World.SettledAs]

theorem settledAs_updated {p : InstallUpdate} {i : Install}
    (belongs : w.belongs a p.pinnedVersionId.join) (accepted : ¬ p.Refused)
    (current : w.currentOf a ≠ none)
    (settled : w.SettledAs a i.followLatest i.pinnedVersionId) :
    w.SettledAs a (p.follows i) (p.pins (w.currentOf a) i) ↔
      match p.followLatest.join with
      | some true => True
      | some false => p.pinnedVersionId.join = none → w.Names a (w.currentOf a)
      | none => p.pinnedVersionId = some none → i.followLatest = true := by
  rw [InstallUpdate.follows, if_neg accepted, InstallUpdate.pins]
  cases follow : p.followLatest.join with
  | some follows =>
    cases follows with
    | true => simp [World.SettledAs]
    | false =>
      cases pinned : p.pinnedVersionId.join with
      | some v =>
        rw [pinned] at belongs
        simpa [World.SettledAs] using names_of_belongs belongs
      | none =>
        obtain ⟨v, known⟩ := Option.ne_none_iff_exists'.mp current
        simp [World.SettledAs, known]
  | none =>
    rcases pinned : p.pinnedVersionId with _ | _ | v
    · simpa using settled
    · simp [World.SettledAs, World.Names]
    · rw [pinned] at belongs
      simpa [World.SettledAs] using names_of_belongs belongs

theorem settled_updateInstall (settled : w.Settled) (p : InstallUpdate) :
    (w.updateInstall a user p).Settled ↔ w.Settles (.update a user p) := by
  simp only [World.updateInstall, World.Settles]
  by_cases belongs : w.belongs a p.pinnedVersionId.join
  · rw [if_neg (not_not.mpr belongs), settled_installs, List.forall_mem_map]
    simp only [belongs, forall_const]
    by_cases refused : p.Refused
    · refine iff_of_true (fun i mem => ?_) fun accepted => absurd refused accepted
      rw [InstallUpdate.patch_refused refused, Option.getD_none, ite_self]
      exact settled i mem
    · have each (i : Install) (mem : i ∈ w.installs) (mine : i.assistantId = a)
          (current : w.currentOf a ≠ none) :
          let i' := ((p.data (w.currentOf a)).patch i).getD i
          w.SettledAs i'.assistantId i'.followLatest i'.pinnedVersionId ↔
            match p.followLatest.join with
            | some true => True
            | some false => p.pinnedVersionId.join = none → w.Names a (w.currentOf a)
            | none => p.pinnedVersionId = some none → i.followLatest = true := by
        subst mine
        obtain ⟨-, assistant, follow, pinned⟩ := p.patched (w.currentOf i.assistantId) i
        rw [if_neg refused] at pinned
        simp only [assistant, follow, pinned]
        exact settledAs_updated belongs refused current (settled i mem current)
      simp only [refused, not_false_eq_true, forall_const]
      constructor
      · rintro all current i mem rfl rfl
        have updated := all i mem
        rw [if_pos ⟨rfl, rfl⟩] at updated
        refine (each i mem rfl current).mp (updated ?_)
        rwa [(p.patched _ i).2.1]
      · intro meets i mem
        by_cases mine : i.userId = user ∧ i.assistantId = a
        · rw [if_pos mine]
          intro current
          rw [(p.patched _ i).2.1, mine.2] at current
          exact (each i mem mine.2 current).mpr (meets current i mem mine.1 mine.2)
        · rw [if_neg mine]
          exact settled i mem
  · rw [if_pos belongs]
    simpa [belongs] using settled

theorem settled_step (settled : w.Settled) (call : InstallCall) :
    (w.step call.op).Settled ↔ w.Settles call := by
  cases call with
  | install a user followLatest pinned => exact settled_installAssistant settled followLatest pinned
  | update a user p => exact settled_updateInstall settled p

end Steps

def onePoet : World := World.createAssistant {} (some 1)
  { visibility := .public_
    status := .published
    version := { content := { version := "0.1.0", name := "Poet", systemPrompt := "Write." } } }

theorem onePoet_settled : onePoet.Settled := fun _ mem => nomatch mem

/-- From where every installation follows or is pinned, all calls leave them so exactly where each
call does. -/
theorem installs_settled_iff (w : World) (settled : w.Settled) (calls : List InstallCall) :
    (∀ first, first <+: calls → ∀ t,
      run (total fun w (call : InstallCall) => w.step call.op) w first = some t → t.Settled) ↔
      Along (total fun w (call : InstallCall) => w.step call.op) World.Settles w calls := by
  refine forall_prefix_iff_along (P := World.Settled) id ?_ ?_ ?_ settled
  · rintro w call t settled settles taken
    obtain rfl := Option.some.inj taken
    exact (settled_step settled call).mpr settles
  · rintro w call t settled taken after
    obtain rfl := Option.some.inj taken
    exact (settled_step settled call).mp after
  · rintro w call idle
    cases idle

def rejoining : List InstallCall :=
  [.install 0 1 false none, .update 0 1 { followLatest := some (some true) }]

theorem rejoining_settled :
    ∃ t, run (total fun w (call : InstallCall) => w.step call.op) onePoet rejoining = some t ∧
      t.Settled := by
  have determined : Along (total fun w (call : InstallCall) => w.step call.op) World.Settles onePoet
      rejoining := by
    refine (along_cons_of_step rfl).mpr ⟨fun row here _ _ _ _ _ => ?_, ?_⟩
    · obtain rfl := Option.some.inj here
      exact ⟨0, rfl, rfl⟩
    · exact (along_cons_of_step rfl).mpr ⟨fun _ _ _ _ _ _ _ => trivial, trivial⟩
  exact ⟨_, rfl, (installs_settled_iff onePoet onePoet_settled rejoining).mpr determined _
    (List.prefix_refl _) _ rfl⟩

/-- A `null` for the version unpins the installation, which does not follow the assistant either. -/
theorem unpinned_by_null :
    onePoet.Settled ∧ ∃ t, run (total fun w (call : InstallCall) => w.step call.op) onePoet
      [.install 0 1 false none, .update 0 1 { pinnedVersionId := some none }] = some t ∧
      ¬ t.Settled := by
  refine ⟨onePoet_settled, _, rfl, fun settled => ?_⟩
  obtain ⟨follows, -⟩ | ⟨-, v, pinned, -⟩ :=
    settled _ (List.mem_singleton.mpr rfl) (Option.some_ne_none 0)
  · exact Bool.false_ne_true follows
  · exact Option.some_ne_none v (Eq.symm pinned)

end Deeting.Assistants
