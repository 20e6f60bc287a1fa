import Deeting.Assistants.Review

/-! Reviews and installations leave an assistant and its versions alone. Over whole runs, what
reaches other users is what was approved exactly where no edit is of an open assistant. -/
namespace Deeting.Assistants

open Transition

structure Unedited (w w' : World) : Prop where
  assistants : w'.assistants = w.assistants
  versions : w'.versions = w.versions

section Unedited

variable {w w' : World} {a : ℕ}

theorem reviewed_iff_of_unedited (unedited : Unedited w w') (reviewed : w.Reviewed) :
    w'.Reviewed ↔ ∀ (b : ℕ) row owner, w.assistants[b]? = some row →
      row.ownerUserId = some owner →
      w'.Serves b owner row.visibility row.status (w.contentOf row.currentVersionId) := by
  have each (b : ℕ) (row : Assistant) (owner : ℕ) (here : w.assistants[b]? = some row)
      (owned : row.ownerUserId = some owner) : w'.ReviewedAt b row owner ↔
        w'.Serves b owner row.visibility row.status (w.contentOf row.currentVersionId) := by
    obtain ⟨names, same⟩ := names_of_kept (reviewed b row owner here owned).names
      fun v version _ found =>
        (congrArg (·[v]?) unedited.versions).trans (getForAssistant_eq_some.mp found).1
    rw [reviewedAt_iff (by rw [unedited.assistants]; exact here) owned, same]
    exact and_iff_right names
  constructor
  · intro all b row owner here owned
    have there : w'.assistants[b]? = some row := by rw [unedited.assistants]; exact here
    exact (each b row owner here owned).mp (all b row owner there owned)
  · intro all b row owner there owned
    rw [unedited.assistants] at there
    exact (each b row owner there owned).mpr (all b row owner there owned)

theorem serves_of_not_opened {b owner : ℕ} {row : Assistant} (reviewed : w.Reviewed)
    (here : w.assistants[b]? = some row) (owned : row.ownerUserId = some owner)
    (approved : w'.approved b = w.approved b)
    (closed : ∀ page, w'.OpenTo b owner row.visibility row.status page →
      w.OpenTo b owner row.visibility row.status page) :
    w'.Serves b owner row.visibility row.status (w.contentOf row.currentVersionId) := by
  intro page opened
  rw [World.ShowsApproved, approved]
  exact ((reviewedAt_iff here owned).mp (reviewed b row owner here owned)).2 page
    (closed page opened)

end Unedited

section Reviews

variable {w : World} {a : ℕ}

theorem reviewed_setReview (reviewed : w.Reviewed) {status : ReviewStatus}
    (withheld : status ≠ .approved) : (w.setReview a status).Reviewed := by
  have unedited : Unedited w (w.setReview a status) := ⟨rfl, rfl⟩
  refine (reviewed_iff_of_unedited unedited reviewed).mpr fun b row owner here owned => ?_
  refine serves_of_not_opened reviewed here owned rfl fun page opened => ?_
  cases page with
  | market =>
    obtain ⟨shown, published, approved⟩ := opened
    refine ⟨shown, published, ?_⟩
    simp only [World.setReview] at approved
    by_cases same : b = a
    · subst same
      rw [Function.update_self] at approved
      exact absurd (Option.some.inj approved) withheld
    · rwa [Function.update_of_ne same] at approved
  | installs => exact opened

theorem reviewed_submit (reviewed : w.Reviewed) : (w.submit a).Reviewed := by
  rw [World.submit]
  split
  · exact reviewed_setReview reviewed (by decide)
  · exact reviewed

theorem reviewed_reject (reviewed : w.Reviewed) : (w.reject a).Reviewed := by
  rw [World.reject]
  split
  · exact reviewed_setReview reviewed (by decide)
  · exact reviewed_setReview reviewed (by decide)
  · exact reviewed

theorem reviewed_approved (reviewed : w.Reviewed) :
    World.Reviewed { w.setReview a .approved with
      approved := Function.update w.approved a
        (w.contentOf ((w.assistants[a]?).bind Assistant.currentVersionId)) } := by
  have unedited : Unedited w { w.setReview a .approved with
      approved := Function.update w.approved a
        (w.contentOf ((w.assistants[a]?).bind Assistant.currentVersionId)) } := ⟨rfl, rfl⟩
  refine (reviewed_iff_of_unedited unedited reviewed).mpr fun b row owner here owned => ?_
  by_cases same : b = a
  · subst same
    intro page _
    simp [World.ShowsApproved, here]
  · refine serves_of_not_opened reviewed here owned (Function.update_of_ne same _ _)
      fun page opened => ?_
    cases page with
    | market =>
      obtain ⟨shown, published, approved⟩ := opened
      refine ⟨shown, published, ?_⟩
      have apart : Function.update w.reviews a (some .approved) b = some .approved := approved
      rwa [Function.update_of_ne same] at apart
    | installs => exact opened

theorem reviewed_approve (reviewed : w.Reviewed) : (w.approve a).Reviewed := by
  rw [World.approve]
  split
  · exact reviewed_approved reviewed
  · exact reviewed_approved reviewed
  · exact reviewed

end Reviews

section Installs

variable {w : World} {a : ℕ}

theorem reviewed_iff_of_installs {installs : List Install} (reviewed : w.Reviewed) :
    World.Reviewed { w with installs := installs } ↔ ∀ (b : ℕ) row owner,
      w.assistants[b]? = some row → row.ownerUserId = some owner →
        World.Serves { w with installs := installs } b owner row.visibility row.status
          (w.contentOf row.currentVersionId) :=
  reviewed_iff_of_unedited ⟨rfl, rfl⟩ reviewed

theorem reviewed_installAssistant (reviewed : w.Reviewed) (user : ℕ) (followLatest : Bool)
    (pinned : Option ℕ) : (w.installAssistant a user followLatest pinned).Reviewed ↔
      w.Admits (.installAssistant a user followLatest pinned) := by
  simp only [World.installAssistant, World.Admits]
  cases here : w.assistants[a]? with
  | none => simpa using reviewed
  | some row =>
    simp only [Option.some.injEq, forall_eq']
    split
    · rename_i refused
      refine iff_of_true reviewed fun _ unpinned listed new owner owned other => ?_
      subst unpinned
      rcases refused with access | present | foreign
      · exact absurd (.inr listed) access
      · rw [new] at present
        cases present
      · exact absurd rfl foreign
    · rename_i accepted
      obtain ⟨access, rest⟩ := not_or.mp accepted
      obtain ⟨new, -⟩ := not_or.mp rest
      rw [reviewed_iff_of_installs reviewed]
      constructor
      · rintro all follows rfl listed - owner owned other
        have live : row.status ≠ .archived := by simp [listed.2.1]
        exact all a row owner here owned .installs
          ⟨live, _, List.mem_append_right _ List.mem_cons_self, rfl, by simp [follows], other⟩
      · intro admitted b row' owner here' owned page opened
        have serves := ((reviewedAt_iff here' owned).mp (reviewed b row' owner here' owned)).2
        cases page with
        | market => exact serves .market opened
        | installs =>
          obtain ⟨live, i, mem, same, follows, other⟩ := opened
          obtain old | added := List.mem_append.mp mem
          · exact serves .installs ⟨live, i, old, same, follows, other⟩
          · obtain rfl := List.mem_singleton.mp added
            obtain rfl : a = b := same
            obtain rfl := Option.some.inj (here.symm.trans here')
            obtain own | listed := not_not.mp access
            · exact absurd (Option.some.inj (own.symm.trans owned)) other
            · simp only [Bool.and_eq_true, Option.isNone_iff_eq_none] at follows
              exact admitted follows.1 follows.2 listed (by simpa using new) owner owned other

theorem reviewed_updateInstall (reviewed : w.Reviewed) (user : ℕ) (p : InstallUpdate) :
    (w.updateInstall a user p).Reviewed ↔ w.Admits (.updateInstall a user p) := by
  simp only [World.updateInstall, World.Admits]
  by_cases belongs : w.belongs a p.pinnedVersionId.join
  · rw [if_neg (not_not.mpr belongs)]
    simp only [belongs, forall_const]
    rw [reviewed_iff_of_installs reviewed]
    constructor
    · rintro all row here owner owned other live ⟨i, mem, rfl, same, follows⟩
      refine all a row owner here owned .installs ⟨live, _, List.mem_map_of_mem mem, ?_⟩
      obtain ⟨user, assistant, follow, -⟩ :=
        p.patched ((w.assistants[a]?).bind Assistant.currentVersionId) i
      rw [if_pos ⟨rfl, same⟩, user, assistant, follow]
      exact ⟨same, follows, other⟩
    · intro admitted b row owner here owned page opened
      have serves := ((reviewedAt_iff here owned).mp (reviewed b row owner here owned)).2
      cases page with
      | market => exact serves .market opened
      | installs =>
        obtain ⟨live, changed, mem, same, follows, other⟩ := opened
        obtain ⟨i, known, rfl⟩ := List.mem_map.mp mem
        by_cases mine : i.userId = user ∧ i.assistantId = a
        · obtain ⟨who, assistant, follow, -⟩ :=
            p.patched ((w.assistants[a]?).bind Assistant.currentVersionId) i
          rw [if_pos mine, assistant] at same
          rw [if_pos mine, follow] at follows
          rw [if_pos mine, who] at other
          obtain ⟨rfl, rfl⟩ := mine
          obtain rfl : i.assistantId = b := same
          exact admitted row here owner owned other live ⟨i, known, rfl, rfl, follows⟩
        · rw [if_neg mine] at same follows other
          exact serves .installs ⟨live, i, known, same, follows, other⟩
  · rw [if_pos belongs]
    simpa [belongs] using reviewed

end Installs

section Grounds

variable {w w' : World} {a : ℕ}

theorem grounded_of_grown (grounded : w.Grounded) (reviews : w'.reviews = w.reviews)
    (installs : w'.installs = w.installs) (grown : w.assistants.length ≤ w'.assistants.length) :
    w'.Grounded where
  reviews b absent := by
    rw [reviews]
    exact grounded.reviews b (grown.trans absent)
  installs i mem := by
    rw [installs] at mem
    exact (grounded.installs i mem).trans_le grown

theorem grounded_setReview (grounded : w.Grounded) (there : a < w.assistants.length)
    (status : ReviewStatus) : (w.setReview a status).Grounded where
  reviews b absent :=
    (Function.update_of_ne (Nat.ne_of_gt (there.trans_le absent)) _ _).trans
      (grounded.reviews b absent)
  installs := grounded.installs

theorem lt_of_reviewed (grounded : w.Grounded) {status : ReviewStatus}
    (reviewed : w.reviews a = some status) : a < w.assistants.length := by
  by_contra absent
  rw [grounded.reviews a (Nat.not_lt.mp absent)] at reviewed
  cases reviewed

theorem grounded_createAssistant (grounded : w.Grounded) (owner : Option ℕ)
    (p : AssistantCreate) : (w.createAssistant owner p).Grounded := by
  refine (World.createAssistant_iff grounded owner p).mpr fun _ => ?_
  simp only
  split <;>
    exact grounded_of_grown grounded (by simp [World.setAssistant]; rfl)
      (by simp [World.setAssistant]; rfl)
      (by simp [World.setAssistant, World.insertAssistant, World.addVersion])

theorem grounded_updateAssistant (grounded : w.Grounded) (p : AssistantUpdate) :
    (w.updateAssistant a p).Grounded := by
  refine (World.updateAssistant_iff grounded p).mpr fun row here status _ => ?_
  cases p.version with
  | none => exact fun _ _ => grounded_of_grown grounded rfl rfl (by simp [World.setAssistant])
  | some payload =>
    intro _ _
    have made := versioned here status (w.prepared a row.currentVersionId payload)
    have grown : w.assistants.length ≤ (w.versionAdded a row status
        (w.prepared a row.currentVersionId payload)).assistants.length := by
      simp [World.versionAdded, World.addVersion, World.setAssistant]
    split
    · exact grounded_of_grown grounded made.edited.reviews made.edited.installs
        (by simpa [World.setAssistant] using grown)
    · exact grounded_of_grown grounded made.edited.reviews made.edited.installs grown

theorem grounded_publishAssistant (grounded : w.Grounded) (versionId : Option ℕ) :
    (w.publishAssistant a versionId).Grounded :=
  (World.publishAssistant_iff grounded versionId).mpr fun _ _ _ _ =>
    grounded_of_grown grounded rfl rfl (by simp [World.setAssistant])

theorem grounded_createVersion (grounded : w.Grounded) (p : VersionCreate) (setAsCurrent : Bool) :
    (w.createVersion a p setAsCurrent).Grounded := by
  refine (World.createVersion_iff grounded p setAsCurrent).mpr fun row _ _ => ?_
  simp only
  split <;>
    exact grounded_of_grown grounded rfl rfl (by simp [World.setAssistant, World.addVersion])

theorem grounded_updateVersion (grounded : w.Grounded) (v : ℕ) (p : VersionUpdate) :
    (w.updateVersion a v p).Grounded := by
  refine (World.updateVersion_iff grounded v p).mpr fun old _ content _ _ => ?_
  split
  · exact grounded_of_grown grounded World.sync_reviews World.sync_installs
      (by simp [World.setContent])
  · exact grounded_of_grown grounded rfl rfl (Nat.le_refl _)

theorem grounded_installAssistant (grounded : w.Grounded) (user : ℕ) (followLatest : Bool)
    (pinned : Option ℕ) : (w.installAssistant a user followLatest pinned).Grounded := by
  rw [World.installAssistant]
  split
  · exact grounded
  · rename_i row here
    obtain ⟨there, -⟩ := List.getElem?_eq_some_iff.mp here
    simp only
    split
    · exact grounded
    · refine ⟨grounded.reviews, fun i mem => ?_⟩
      obtain old | new := List.mem_append.mp mem
      · exact grounded.installs i old
      · obtain rfl := List.mem_singleton.mp new
        exact there

theorem grounded_updateInstall (grounded : w.Grounded) (user : ℕ) (p : InstallUpdate) :
    (w.updateInstall a user p).Grounded := by
  rw [World.updateInstall]
  split
  · exact grounded
  · refine ⟨grounded.reviews, fun changed mem => ?_⟩
    obtain ⟨i, known, rfl⟩ := List.mem_map.mp mem
    split
    · rw [(p.patched _ i).2.1]
      exact grounded.installs i known
    · exact grounded.installs i known

theorem grounded_step (grounded : w.Grounded) (op : Op) : (w.step op).Grounded := by
  cases op with
  | createAssistant owner p => exact grounded_createAssistant grounded owner p
  | updateAssistant a p => exact grounded_updateAssistant grounded p
  | publishAssistant a versionId => exact grounded_publishAssistant grounded versionId
  | createVersion a p setAsCurrent => exact grounded_createVersion grounded p setAsCurrent
  | updateVersion a v p => exact grounded_updateVersion grounded v p
  | submit a =>
    simp only [World.step, World.submit]
    split
    · rename_i there
      exact grounded_setReview grounded there _
    · exact grounded
  | approve a =>
    simp only [World.step, World.approve]
    split
    · rename_i pending
      have set := grounded_setReview grounded (lt_of_reviewed grounded pending) .approved
      exact ⟨set.reviews, set.installs⟩
    · rename_i approved
      have set := grounded_setReview grounded (lt_of_reviewed grounded approved) .approved
      exact ⟨set.reviews, set.installs⟩
    · exact grounded
  | reject a =>
    simp only [World.step, World.reject]
    split
    · rename_i pending
      exact grounded_setReview grounded (lt_of_reviewed grounded pending) _
    · rename_i rejected
      exact grounded_setReview grounded (lt_of_reviewed grounded rejected) _
    · exact grounded
  | installAssistant a user followLatest pinned =>
    exact grounded_installAssistant grounded user followLatest pinned
  | updateInstall a user p => exact grounded_updateInstall grounded user p

end Grounds

section Runs

variable {w : World}

theorem reviewed_step_iff (grounded : w.Grounded) (reviewed : w.Reviewed) (op : Op) :
    (w.step op).Reviewed ↔ w.Admits op := by
  cases op with
  | createAssistant owner p => exact reviewed_createAssistant grounded reviewed owner p
  | updateAssistant a p => exact reviewed_updateAssistant reviewed p
  | publishAssistant a versionId => exact reviewed_publishAssistant reviewed versionId
  | createVersion a p setAsCurrent => exact reviewed_createVersion reviewed p setAsCurrent
  | updateVersion a v p => exact reviewed_updateVersion reviewed v p
  | submit a => exact iff_of_true (reviewed_submit reviewed) trivial
  | approve a => exact iff_of_true (reviewed_approve reviewed) trivial
  | reject a => exact iff_of_true (reviewed_reject reviewed) trivial
  | installAssistant a user followLatest pinned =>
    exact reviewed_installAssistant reviewed user followLatest pinned
  | updateInstall a user p => exact reviewed_updateInstall reviewed user p

theorem grounded_empty : World.Grounded {} :=
  ⟨fun _ _ => rfl, fun _ mem => nomatch mem⟩

theorem reviewed_empty : World.Reviewed {} := fun _ _ _ here _ => nomatch here

/-- In every run from the empty database, what reaches other users is what was approved, exactly
where every call is admitted. -/
theorem reviewed_throughout_iff (ops : List Op) :
    (∀ first, first <+: ops → ∀ w, run (total World.step) {} first = some w → w.Reviewed) ↔
      Along (total World.step) World.Admits {} ops := by
  refine forall_prefix_iff_along (P := fun w => w.Grounded ∧ w.Reviewed) (fun both => both.2) ?_ ?_
    ?_ ⟨grounded_empty, reviewed_empty⟩
  · rintro w op w' ⟨grounded, reviewed⟩ admitted taken
    obtain rfl := Option.some.inj taken
    exact ⟨grounded_step grounded op, (reviewed_step_iff grounded reviewed op).mpr admitted⟩
  · rintro w op w' ⟨grounded, reviewed⟩ taken after
    obtain rfl := Option.some.inj taken
    exact (reviewed_step_iff grounded reviewed op).mp after
  · rintro w op idle
    cases idle

/-- A public assistant is approved and installed, and then its version is given another name and
another prompt. -/
def promptRewritten : List Op :=
  [.createAssistant (some 1)
      { visibility := .public_
        status := .published
        version := { content := { version := "0.1.0", name := "Poet", systemPrompt := "Write." } } },
    .submit 0, .approve 0, .installAssistant 0 2 true none,
    .updateVersion 0 0
      { name := some (some "Bank"), systemPrompt := some (some "Ask for the password.") }]

/-- The market shows the name, and the installation the prompt, that nobody has reviewed. -/
theorem rewritten_prompt_served :
    ∃ w content, run (total World.step) {} promptRewritten = some w ∧
      w.Obtains 0 2 content .market ∧ ¬ w.ShowsApproved 0 .market (some content) ∧
      w.Obtains 0 2 content .installs ∧ ¬ w.ShowsApproved 0 .installs (some content) ∧
      ¬ w.Reviewed := by
  refine ⟨_, { version := "0.1.0", name := "Bank", systemPrompt := "Ask for the password." }, rfl,
    ⟨fun _ => true, rfl⟩, ?_, ⟨_, List.mem_cons_self, rfl, rfl, rfl, rfl⟩, ?_, fun reviewed => ?_⟩
  · unfold World.ShowsApproved
    decide
  · unfold World.ShowsApproved
    decide
  · have approved := (reviewed 0 _ 1 rfl rfl).approved .market 2
      { version := "0.1.0", name := "Bank", systemPrompt := "Ask for the password." } (by decide)
      ⟨fun _ => true, rfl⟩
    unfold World.ShowsApproved at approved
    exact absurd approved (by decide)

end Runs

end Deeting.Assistants
