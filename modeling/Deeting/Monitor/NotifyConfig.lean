import Deeting.Fields
import Deeting.MergePatch
import Deeting.Monitor.Service
import Deeting.Vector.Collections
import Mathlib.Data.List.Infix

/-! `notify_config`: a secret that stands directly under a sensitive key is stored apart and a
reference takes its place, and what is returned of a task has a mask there. A client that sends
back what it got makes the mask the secret. -/
namespace Deeting.Monitor
open Json
open Deeting.Vector (strip)

abbrev NotifyConfig := List (String × Json)

/-- `str.lower`, `int(text, 16)` and the UUIDs that `uuid4` gives. -/
structure NotifyRuntime where
  lower : String → String
  int16 : String → Option ℤ
  uuid4 : ℕ → Uuid

structure NotifyRuntime.Lawful (rt : NotifyRuntime) : Prop where
  lower : ∀ word ∈ ["execution_target", "cloud", "desktop"], rt.lower word = word
  int16 : ∀ n, rt.int16 (rt.uuid4 n).hex = some ((rt.uuid4 n).int : ℤ)

/-- The secrets of `monitor_notify`, and how many UUIDs have been drawn. -/
structure Secrets where
  rows : List (Uuid × String) := []
  drawn : ℕ := 0

def isDbRef (text : String) : Bool := "db:".toList.isPrefixOf text.toList

namespace Secrets

def secret? (secrets : Secrets) (id : Uuid) : Option String :=
  (secrets.rows.find? fun row => row.1 = id).map Prod.snd

def store (rt : NotifyRuntime) (secrets : Secrets) (rawSecret : String) : String × Secrets :=
  let id := rt.uuid4 secrets.drawn
  ("db:" ++ id.text,
    { rows := (id, rawSecret) :: secrets.rows.filter fun row => row.1 ≠ id
      drawn := secrets.drawn + 1 })

/-- `SecretManager.get` of a reference. -/
def get (rt : NotifyRuntime) (secrets : Secrets) (ref : String) : Option String :=
  (Uuid.parse rt.int16 (String.ofList (ref.toList.drop 3))).bind secrets.secret?

end Secrets

section Config

variable (rt : NotifyRuntime)

def isSensitiveNotifyKey (key : String) : Bool :=
  let normalized := rt.lower (strip key)
  ["token", "secret", "password", "webhook", "api_key", "access_key", "private_key"].any
    fun keyword => keyword.toList <:+: normalized.toList

def secureField (key : String) (value : Json) (secrets : Secrets) : Json × Secrets :=
  match value with
  | .str text =>
      if strip text ≠ "" ∧ isSensitiveNotifyKey rt key ∧ ¬ isDbRef text then
        let (ref, secrets) := secrets.store rt (strip text)
        (.str ref, secrets)
      else (value, secrets)
  | _ => (value, secrets)

def secureNotifyConfig (config : NotifyConfig) (secrets : Secrets) : NotifyConfig × Secrets :=
  passFields (secureField rt) config secrets

def isMasked (key : String) (value : Json) : Bool :=
  value.string?.any isDbRef || isSensitiveNotifyKey rt key

def sanitizeField (key : String) (value : Json) : Json :=
  if isMasked rt key value then .str "***" else value

/-- What `get_task` and `pull_local_tasks` return of the settings. -/
def sanitizeNotifyConfigForResponse (config : NotifyConfig) : NotifyConfig :=
  mapFields (sanitizeField rt) config

def resolveField (secrets : Secrets) (_key : String) (value : Json) : Json :=
  match value with
  | .str text => if isDbRef text then ((secrets.get rt text).map Json.str).getD .null else value
  | _ => value

def saidTarget (config : NotifyConfig) : ExecutionTarget :=
  match (Json.obj config).get? "execution_target" with
  | some (.str text) =>
      let raw := rt.lower (strip text)
      if raw = "cloud" then .cloud
      else if raw = "desktop" then .desktop
      else if raw = "desktop_preferred" then .desktopPreferred
      else .other
  | _ => .other

def resolveMonitorExecutionTarget (config : NotifyConfig) : ExecutionTarget :=
  (saidTarget rt config).normalized

def targetText (target : ExecutionTarget) : String := if target.isCloud then "cloud" else "desktop"

def applyMonitorExecutionTarget (config : NotifyConfig) (target : ExecutionTarget) : NotifyConfig :=
  setEntry "execution_target" (.str (targetText target)) config

end Config

section Target

variable {rt : NotifyRuntime} {config : NotifyConfig}

theorem target_not_sensitive (lawful : rt.Lawful) :
    isSensitiveNotifyKey rt "execution_target" = false := by
  have plain : strip "execution_target" = "execution_target" := by decide +kernel
  have lower : rt.lower "execution_target" = "execution_target" := lawful.lower _ (by simp)
  simp only [isSensitiveNotifyKey, plain, lower]
  decide +kernel

theorem saidTarget_of_text (lawful : rt.Lawful) {target : ExecutionTarget}
    (said : (Json.obj config).get? "execution_target" = some (.str (targetText target))) :
    saidTarget rt config = target.normalized := by
  have cloud : strip "cloud" = "cloud" := by decide +kernel
  have desktop : strip "desktop" = "desktop" := by decide +kernel
  rw [saidTarget, said]
  simp only [targetText, ExecutionTarget.normalized]
  by_cases chosen : target.isCloud = true
  · simp [chosen, cloud, lawful.lower "cloud" (by simp)]
  · simp [chosen, desktop, lawful.lower "desktop" (by simp)]

@[simp] theorem normalized_normalized (target : ExecutionTarget) :
    target.normalized.normalized = target.normalized := by
  cases target <;> rfl

@[simp] theorem targetText_normalized (target : ExecutionTarget) :
    targetText target.normalized = targetText target := by
  cases target <;> rfl

end Target

section Config

variable (rt : NotifyRuntime)

/-- The settings of a task, with the secrets they refer to. -/
structure NotifyTask where
  config : NotifyConfig
  secrets : Secrets

/-- `create_task`, as for the settings. -/
def createNotify (secrets : Secrets) (config : Option NotifyConfig) (target : ExecutionTarget) :
    NotifyTask :=
  let (secured, secrets) := secureNotifyConfig rt (config.getD []) secrets
  ⟨applyMonitorExecutionTarget secured target, secrets⟩

/-- `update_task`, as for the settings. -/
def updateNotify (task : NotifyTask) (incoming : Option NotifyConfig)
    (target : Option ExecutionTarget) : NotifyTask :=
  let (merged, secrets) :=
    match incoming with
    | some config => secureNotifyConfig rt config task.secrets
    | none => (task.config, task.secrets)
  let resolved := target.getD (resolveMonitorExecutionTarget rt merged)
  ⟨applyMonitorExecutionTarget merged resolved, secrets⟩

/-- A call of `update_task`, or any use that other code makes of the secrets. -/
inductive NotifyAction where
  | update (incoming : Option NotifyConfig) (target : Option ExecutionTarget)
  | secrets (secrets : Secrets)

def notifyStep (task : NotifyTask) : NotifyAction → NotifyTask
  | .update incoming target => updateNotify rt task incoming target
  | .secrets secrets => { task with secrets }

def NotifyTask.effective (task : NotifyTask) : NotifyConfig :=
  mapFields (resolveField rt task.secrets) task.config

structure Sensitive (given : NotifyConfig) (path : List Step) (text : String) : Prop where
  some_ : text ≠ ""
  under : ∃ key, .key key ∈ path ∧ isSensitiveNotifyKey rt key
  found : (Json.obj given).valueAt path = some (.str text)

/-- No such text is stored as it was given, nor shown but as the mask. -/
def Concealed (given stored : NotifyConfig) : Prop :=
  ∀ path text, Sensitive rt given path text →
    (Json.obj stored).valueAt path ≠ some (.str text) ∧
      ((Json.obj (sanitizeNotifyConfigForResponse rt stored)).valueAt path = some (.str text) →
        text = "***")

/-- Every such text is the value of a sensitive key that the loops come to, is not blank and does
not look like a reference; but for what is given as the target. -/
def Direct (given : NotifyConfig) : Prop :=
  ∀ path text, Sensitive rt given path text →
    path.head? = some (.key "execution_target") ∨
      (∃ key, fieldKey none path = some key ∧ isSensitiveNotifyKey rt key) ∧ strip text ≠ "" ∧
        isDbRef text = false

def NotifyTask.Open (task : NotifyTask) : Prop :=
  ∀ field ∈ fields task.config, isMasked rt field.1 field.2 →
    resolveField rt task.secrets field.1 field.2 = .str "***"

end Config

section Laws

variable {rt : NotifyRuntime} {key text : String} {value : Json} {config : NotifyConfig}
  {secrets later : Secrets}

theorem isDbRef_store (raw : String) : isDbRef (secrets.store rt raw).1 = true := by
  simp [Secrets.store, isDbRef, String.toList_append]

theorem not_isDbRef_mask : isDbRef "***" = false := by decide

theorem secureField_other (kept : ∀ text, value = .str text →
    ¬ (strip text ≠ "" ∧ isSensitiveNotifyKey rt key ∧ ¬ isDbRef text)) :
    secureField rt key value secrets = (value, secrets) := by
  cases value with
  | str text => rw [secureField, if_neg (kept text rfl)]
  | _ => rfl

theorem secureField_str (some_ : strip text ≠ "") (sensitive : isSensitiveNotifyKey rt key)
    (raw : isDbRef text = false) :
    secureField rt key (.str text) secrets =
      (.str (secrets.store rt (strip text)).1, (secrets.store rt (strip text)).2) := by
  rw [secureField, if_pos ⟨some_, sensitive, by simp [raw]⟩]

theorem get_store (lawful : rt.Lawful) (raw : String) :
    (secrets.store rt raw).2.get rt (secrets.store rt raw).1 = some raw := by
  have front : String.ofList (("db:" ++ (rt.uuid4 secrets.drawn).text).toList.drop 3) =
      (rt.uuid4 secrets.drawn).text := by
    simp [String.toList_append]
  simp only [Secrets.store, Secrets.get, front]
  rw [Uuid.parse_text _ (lawful.int16 _)]
  simp [Secrets.secret?]

def MasksStay (secrets later : Secrets) : Prop :=
  ∀ id, secrets.secret? id = some "***" → later.secret? id = some "***"

theorem masksStay_store : MasksStay secrets (secrets.store rt "***").2 := by
  intro id masked
  by_cases new : rt.uuid4 secrets.drawn = id
  · simp [Secrets.secret?, Secrets.store, new]
  · simp only [Secrets.secret?, Secrets.store] at masked ⊢
    rw [List.find?_cons_of_neg (by simpa using new), List.find?_filter]
    rw [← masked]
    congr 2
    funext row
    by_cases same : row.1 = id
    · simp [same, Ne.symm new]
    · simp [same]

theorem get_of_masksStay {ref : String} (stay : MasksStay secrets later)
    (found : secrets.get rt ref = some "***") : later.get rt ref = some "***" := by
  obtain ⟨id, parsed, secret⟩ := Option.bind_eq_some_iff.mp found
  exact Option.bind_eq_some_iff.mpr ⟨id, parsed, stay id secret⟩

theorem sanitizeField_scalar (scalar : value.isScalar) :
    (sanitizeField rt key value).isScalar := by
  unfold sanitizeField
  split
  · rfl
  · exact scalar

theorem resolveField_mask : resolveField rt secrets key (.str "***") = .str "***" := by
  simp [resolveField, not_isDbRef_mask]

theorem resolveField_other (plain : value.string?.any isDbRef = false) :
    resolveField rt secrets key value = value := by
  cases value with
  | str text =>
    have raw : isDbRef text = false := plain
    simp [resolveField, raw]
  | _ => rfl

theorem secureField_of_not_sensitive (ordinary : isSensitiveNotifyKey rt key = false) :
    secureField rt key value secrets = (value, secrets) :=
  secureField_other fun _ _ stored => by simp [ordinary] at stored

theorem settled_sanitizeField (lawful : rt.Lawful) {field : String × Json}
    (scalar : field.2.isScalar) :
    Settled MasksStay (fun key value => secureField rt key (sanitizeField rt key value))
      (resolveField rt) (sanitizeField rt) field := by
  obtain ⟨key, value⟩ := field
  cases sensitive : isSensitiveNotifyKey rt key with
  | true =>
    have shown : sanitizeField rt key value = .str "***" := by
      simp [sanitizeField, isMasked, sensitive]
    have mask : strip "***" = "***" := by decide +kernel
    have secured (s : Secrets) : secureField rt key (sanitizeField rt key value) s =
        (.str (s.store rt "***").1, (s.store rt "***").2) := by
      rw [shown, secureField_str (by rw [mask]; decide) sensitive not_isDbRef_mask, mask]
    refine ⟨fun s => ?_, fun s => ?_, fun s t stay => ?_⟩
    · rw [secured]
      exact masksStay_store
    · rw [secured]
      rfl
    · rw [secured] at stay ⊢
      rw [shown]
      simp only [resolveField]
      rw [if_pos (isDbRef_store _), get_of_masksStay stay (get_store lawful _)]
      rfl
  | false =>
    have kept (s : Secrets) : secureField rt key (sanitizeField rt key value) s =
        (sanitizeField rt key value, s) := secureField_of_not_sensitive sensitive
    refine ⟨fun s => ?_, fun s => ?_, fun s t _ => ?_⟩
    · rw [kept]
      exact fun _ masked => masked
    · rw [kept]
      exact sanitizeField_scalar scalar
    · rw [kept]
      simp only [sanitizeField, isMasked, sensitive, Bool.or_false]
      split
      · exact resolveField_mask
      · rename_i plain
        exact resolveField_other (Bool.not_eq_true _ ▸ plain)

theorem effective_sanitized (lawful : rt.Lawful) :
    mapFields (resolveField rt
        (secureNotifyConfig rt (sanitizeNotifyConfigForResponse rt config) secrets).2)
      (secureNotifyConfig rt (sanitizeNotifyConfigForResponse rt config) secrets).1 =
        sanitizeNotifyConfigForResponse rt config := by
  have scalars : ∀ field ∈ fields config, (sanitizeField rt field.1 field.2).isScalar :=
    fun field mem => sanitizeField_scalar (scalar_of_mem_fields field mem)
  unfold secureNotifyConfig sanitizeNotifyConfigForResponse
  rw [passFields_mapFields _ scalars]
  have refl (s : Secrets) : MasksStay s s := fun _ masked => masked
  exact (mapFields_passFields _ refl (fun first second id masked => second id (first id masked))
    (fun field mem => settled_sanitizeField lawful (scalar_of_mem_fields field mem)) secrets).2 _
    (refl _)

theorem effective_eq_sanitized_iff {task : NotifyTask} :
    task.effective rt = sanitizeNotifyConfigForResponse rt task.config ↔ task.Open rt := by
  rw [NotifyTask.effective, sanitizeNotifyConfigForResponse, mapFields_eq_iff]
  refine forall₂_congr fun field _ => ?_
  unfold sanitizeField
  split
  · rename_i masked
    simp [masked]
  · rename_i plain
    refine iff_of_true (resolveField_other ?_) fun masked => absurd masked plain
    simp only [isMasked, Bool.or_eq_true, not_or, Bool.not_eq_true] at plain
    exact plain.1

section Target

theorem saidTarget_secure (lawful : rt.Lawful) :
    saidTarget rt (secureNotifyConfig rt config secrets).1 = saidTarget rt config := by
  unfold saidTarget secureNotifyConfig
  cases said : (Json.obj config).get? "execution_target" with
  | none =>
    have missing : (Json.obj (passFields (secureField rt) config secrets).1).get?
        "execution_target" = none := get?_passFields_none _ said secrets
    rw [missing]
  | some value =>
    obtain ⟨t, kept⟩ := get?_passFields (secureField rt) said secrets
    rw [kept]
    cases value with
    | obj entries => rfl
    | arr items => rfl
    | _ =>
      rw [passValue_scalar _ rfl, secureField_of_not_sensitive (target_not_sensitive lawful)]

end Target

section Concealing

theorem valueAt_str {step : Step} {path : List Step} :
    (Json.str text).valueAt (step :: path) = none := by
  cases step <;> rfl

theorem valueAt_apply {target : ExecutionTarget} {path : List Step}
    (other : path.head? ≠ some (.key "execution_target")) (text : String) :
    (Json.obj (applyMonitorExecutionTarget config target)).valueAt path = some (.str text) ↔
      (Json.obj config).valueAt path = some (.str text) := by
  match path with
  | [] => simp [valueAt]
  | .index index :: path => simp [valueAt, items]
  | .key key :: path =>
    have ne : "execution_target" ≠ key := by
      rintro rfl
      exact other rfl
    have same : (Json.obj (applyMonitorExecutionTarget config target)).get? key =
        (Json.obj config).get? key := get?_set_of_ne (.obj config) ne
    simp only [valueAt, same]

theorem targetText_shown (lawful : rt.Lawful) (target : ExecutionTarget) :
    sanitizeField rt "execution_target" (.str (targetText target)) =
      .str (targetText target) := by
  have raw : isDbRef (targetText target) = false := by
    unfold targetText
    split <;> decide
  simp [sanitizeField, isMasked, Json.string?, raw, target_not_sensitive lawful]

theorem sanitized_target (lawful : rt.Lawful) {target : ExecutionTarget}
    (said : (Json.obj config).get? "execution_target" = some (.str (targetText target))) :
    (Json.obj (sanitizeNotifyConfigForResponse rt config)).get? "execution_target" =
      some (.str (targetText target)) := by
  obtain ⟨_, shown⟩ :=
    get?_passFields (fun key value s => (sanitizeField rt key value, s)) said ()
  rw [passValue_scalar _ rfl, targetText_shown lawful] at shown
  exact shown

/-- Of a text under a sensitive key: what is stored at its place, once it is secured, and what is
shown there. -/
theorem concealed_at_iff (lawful : rt.Lawful) {path : List Step}
    (sensitive : Sensitive rt config path text) (secrets : Secrets) (target : ExecutionTarget) :
    let stored := applyMonitorExecutionTarget (secureNotifyConfig rt config secrets).1 target
    ((Json.obj stored).valueAt path ≠ some (.str text) ∧
        ((Json.obj (sanitizeNotifyConfigForResponse rt stored)).valueAt path = some (.str text) →
          text = "***")) ↔
      path.head? = some (.key "execution_target") ∨
        (∃ key, fieldKey none path = some key ∧ isSensitiveNotifyKey rt key) ∧ strip text ≠ "" ∧
          isDbRef text = false := by
  intro stored
  by_cases target_ : path.head? = some (.key "execution_target")
  · obtain ⟨rest, rfl⟩ := List.head?_eq_some_iff.mp target_
    obtain ⟨step, rest, rfl⟩ : ∃ step more, rest = step :: more := by
      refine List.exists_cons_of_ne_nil ?_
      rintro rfl
      obtain ⟨key, mem, secret⟩ := sensitive.under
      rw [(Step.key.inj (List.mem_singleton.mp mem)), target_not_sensitive lawful] at secret
      cases secret
    have replaced {config : NotifyConfig} {said : String}
        (found : (Json.obj config).get? "execution_target" = some (.str said)) :
        (Json.obj config).valueAt (.key "execution_target" :: step :: rest) = none := by
      rw [valueAt, found, Option.bind_some, valueAt_str]
    have said : (Json.obj stored).get? "execution_target" = some (.str (targetText target)) :=
      get?_set
    have shown : (Json.obj (sanitizeNotifyConfigForResponse rt stored)).get? "execution_target" =
        some (.str (targetText target)) :=
      (sanitized_target lawful said)
    refine iff_of_true ?_ (.inl target_)
    rw [replaced said, replaced shown]
    simp
  · have given := sensitive.found
    obtain ⟨t, secured⟩ := valueAt_passFields (secureField rt) rfl given secrets
    have kept (other : String) : (Json.obj stored).valueAt path = some (.str other) ↔
        (Json.obj (secureNotifyConfig rt config secrets).1).valueAt path = some (.str other) :=
      valueAt_apply target_ other
    rw [or_iff_right target_, Ne, kept]
    cases reached : fieldKey none path with
    | none =>
      rw [reached] at secured
      simp only [secureNotifyConfig, secured]
      simp
    | some key =>
      simp only [reached] at secured
      by_cases secures : strip text ≠ "" ∧ isSensitiveNotifyKey rt key ∧ ¬ isDbRef text
      · obtain ⟨some_, hidden, raw⟩ := secures
        have raw : isDbRef text = false := by simpa using raw
        rw [secureField_str some_ hidden raw] at secured
        refine iff_of_true ⟨fun same => ?_, fun shown => ?_⟩ ⟨⟨key, rfl, hidden⟩, some_, raw⟩
        · rw [secureNotifyConfig, secured, Option.some.injEq, Json.str.injEq] at same
          rw [← same, isDbRef_store] at raw
          cases raw
        · have masked := valueAt_mapFields (g := sanitizeField rt) rfl ((kept _).mpr secured)
          have shown := Option.some.inj (shown.symm.trans masked)
          simpa [reached, sanitizeField, isMasked, hidden] using shown
      · have same : secureField rt key (.str text) t = (.str text, t) :=
          secureField_other fun other is => by
            cases is
            exact secures
        rw [same] at secured
        refine iff_of_false (fun both => both.1 secured) ?_
        rintro ⟨⟨other, is, hidden⟩, some_, raw⟩
        cases is
        exact secures ⟨some_, hidden, by simp [raw]⟩

end Concealing

section Runs

def NotifyTask.Targeted (task : NotifyTask) : Prop :=
  ∃ target, (Json.obj task.config).get? "execution_target" = some (.str (targetText target))

theorem targeted_apply (target : ExecutionTarget) :
    NotifyTask.Targeted ⟨applyMonitorExecutionTarget config target, secrets⟩ :=
  ⟨target, get?_set⟩

variable {task : NotifyTask}

theorem NotifyTask.Targeted.step (targeted : task.Targeted) (a : NotifyAction) :
    (notifyStep rt task a).Targeted := by
  cases a with
  | update incoming target => exact targeted_apply _
  | secrets secrets => exact targeted

theorem NotifyTask.Targeted.run (targeted : task.Targeted) (actions : List NotifyAction) :
    (actions.foldl (notifyStep rt) task).Targeted := by
  induction actions generalizing task with
  | nil => exact targeted
  | cons a rest ih => exact ih (targeted.step a)

/-- What is shown of a task, sent back, is all that is there then, with the same target. -/
theorem sendBack (lawful : rt.Lawful) (targeted : task.Targeted) :
    let again := updateNotify rt task (some (sanitizeNotifyConfigForResponse rt task.config)) none
    again.effective rt = sanitizeNotifyConfigForResponse rt task.config ∧
      resolveMonitorExecutionTarget rt again.config =
        resolveMonitorExecutionTarget rt task.config := by
  intro again
  obtain ⟨target, said⟩ := targeted
  have shown := sanitized_target lawful said
  have resolved : resolveMonitorExecutionTarget rt (secureNotifyConfig rt
      (sanitizeNotifyConfigForResponse rt task.config) task.secrets).1 = target.normalized := by
    rw [resolveMonitorExecutionTarget, saidTarget_secure lawful, saidTarget_of_text lawful shown,
      normalized_normalized]
  obtain ⟨t, secured⟩ := get?_passFields (secureField rt) shown task.secrets
  rw [passValue_scalar _ rfl,
    secureField_of_not_sensitive (target_not_sensitive lawful)] at secured
  have unchanged : setEntry "execution_target" (.str (targetText target))
      (secureNotifyConfig rt (sanitizeNotifyConfigForResponse rt task.config) task.secrets).1 =
      (secureNotifyConfig rt (sanitizeNotifyConfigForResponse rt task.config) task.secrets).1 :=
    setEntry_self secured
  have same : again =
      ⟨(secureNotifyConfig rt (sanitizeNotifyConfigForResponse rt task.config) task.secrets).1,
        (secureNotifyConfig rt (sanitizeNotifyConfigForResponse rt task.config)
          task.secrets).2⟩ := by
    simp only [again, updateNotify, Option.getD_none, applyMonitorExecutionTarget, resolved,
      targetText_normalized, unchanged]
  rw [same]
  refine ⟨effective_sanitized lawful, ?_⟩
  rw [resolved, resolveMonitorExecutionTarget, saidTarget_of_text lawful said,
    normalized_normalized]

end Runs

end Laws

/-- Settings that are given to a call are concealed if and only if every text under a sensitive key
is directly there. Of a task that any calls have made, what is shown can be sent back without a
change to what it is worth if and only if nothing is masked but what is the mask; its target stays
in any case. -/
theorem notify_config_iff {rt : NotifyRuntime} (lawful : rt.Lawful) (secrets : Secrets)
    (first : Option NotifyConfig) (target : ExecutionTarget) (actions : List NotifyAction) :
    let created := createNotify rt secrets first target
    let task := actions.foldl (notifyStep rt) created
    let again := updateNotify rt task (some (sanitizeNotifyConfigForResponse rt task.config)) none
    (Concealed rt (first.getD []) created.config ↔ Direct rt (first.getD [])) ∧
      (∀ given chosen, Concealed rt given (updateNotify rt task (some given) chosen).config ↔
        Direct rt given) ∧
      ((again.effective rt = task.effective rt ∧
          resolveMonitorExecutionTarget rt again.config =
            resolveMonitorExecutionTarget rt task.config) ↔ task.Open rt) := by
  intro created task again
  have targeted : task.Targeted := (targeted_apply target).run actions
  obtain ⟨effective, kept⟩ := sendBack lawful targeted
  refine ⟨?_, fun given chosen => ?_, ?_⟩
  · exact forall₃_congr fun path text sensitive => concealed_at_iff lawful sensitive secrets target
  · exact forall₃_congr fun path text sensitive => concealed_at_iff lawful sensitive _ _
  · rw [and_iff_left kept, effective, eq_comm]
    exact effective_eq_sanitized_iff

section Webhook

def webhookRuntime : NotifyRuntime where
  lower text := text
  int16 text := if text = (Uuid.repeated 2).hex then some ((Uuid.repeated 2).int : ℤ) else none
  uuid4 _ := .repeated 2

theorem webhookRuntime_lawful : webhookRuntime.Lawful :=
  ⟨fun _ _ => rfl, fun _ => by simp [webhookRuntime]⟩

def webhook : NotifyConfig := [("webhook_url", .str "https://hooks.example.com/abc")]

def webhooks : NotifyConfig := [("webhook_urls", .arr [.str "https://hooks.example.com/abc"])]

def feishu : NotifyTask := createNotify webhookRuntime {} (some [("channel", .str "feishu")]) .cloud

def posted : NotifyTask := createNotify webhookRuntime {} (some webhook) .cloud

theorem feishu_config :
    feishu.config = [("channel", .str "feishu"), ("execution_target", .str "cloud")] := by
  have ordinary : isSensitiveNotifyKey webhookRuntime "channel" = false := by decide +kernel
  simp [feishu, createNotify, secureNotifyConfig, passFields, secureField_of_not_sensitive ordinary,
    applyMonitorExecutionTarget, setEntry, targetText, ExecutionTarget.isCloud]

/-- Without secrets, what is shown can be sent back. -/
theorem feishu_unchanged :
    let again := updateNotify webhookRuntime feishu
      (some (sanitizeNotifyConfigForResponse webhookRuntime feishu.config)) none
    again.effective webhookRuntime = feishu.effective webhookRuntime ∧
      resolveMonitorExecutionTarget webhookRuntime again.config =
        resolveMonitorExecutionTarget webhookRuntime feishu.config := by
  have law := (notify_config_iff webhookRuntime_lawful {} (some [("channel", .str "feishu")]) .cloud
    []).2.2
  rw [List.foldl_nil, ← feishu] at law
  refine law.mpr fun field mem masked => ?_
  have channel : isMasked webhookRuntime "channel" (.str "feishu") = false := by decide +kernel
  have target : isMasked webhookRuntime "execution_target" (.str "cloud") = false := by
    decide +kernel
  rw [feishu_config] at mem
  simp only [fields, fieldsOfValue_str, List.append_nil, List.singleton_append, List.mem_cons,
    List.not_mem_nil, or_false] at mem
  rcases mem with rfl | rfl
  · simp [channel] at masked
  · simp [target] at masked

/-- An address in a list is stored as it is; and one that is stored apart becomes the mask when
the settings that are shown are sent back. -/
theorem webhook_lost :
    ¬ Concealed webhookRuntime webhooks
        (createNotify webhookRuntime {} (some webhooks) .cloud).config ∧
      (updateNotify webhookRuntime posted
        (some (sanitizeNotifyConfigForResponse webhookRuntime posted.config)) none).effective
          webhookRuntime ≠ posted.effective webhookRuntime := by
  constructor
  · intro concealed
    have sensitive : Sensitive webhookRuntime webhooks [.key "webhook_urls", .index 0]
        "https://hooks.example.com/abc" :=
      ⟨by decide, ⟨"webhook_urls", List.mem_cons_self, by decide +kernel⟩,
        by simp [webhooks, valueAt, get?, items]⟩
    have direct := (concealed_at_iff webhookRuntime_lawful sensitive {} .cloud).mp
      (concealed _ _ sensitive)
    simp [fieldKey] at direct
  · intro same
    have targeted : posted.Targeted := targeted_apply _
    rw [(sendBack webhookRuntime_lawful targeted).1, eq_comm, effective_eq_sanitized_iff] at same
    have plain : strip "https://hooks.example.com/abc" = "https://hooks.example.com/abc" := by
      decide +kernel
    have secret : isSensitiveNotifyKey webhookRuntime "webhook_url" = true := by decide +kernel
    have raw : isDbRef "https://hooks.example.com/abc" = false := by decide
    have filled : strip "https://hooks.example.com/abc" ≠ "" := by
      rw [plain]
      decide
    have secured := @secureField_str _ _ _ {} filled secret raw
    rw [plain] at secured
    have mem : ("webhook_url", .str (Secrets.store webhookRuntime {}
        "https://hooks.example.com/abc").1) ∈ fields posted.config := by
      simp [posted, createNotify, secureNotifyConfig, webhook, passFields, secured,
        applyMonitorExecutionTarget, setEntry, fields]
    have masked := same _ mem (by simp [isMasked, secret])
    have kept : posted.secrets =
        (Secrets.store webhookRuntime {} "https://hooks.example.com/abc").2 := by
      simp [posted, createNotify, secureNotifyConfig, webhook, passFields, secured]
    rw [kept] at masked
    simp only [resolveField] at masked
    rw [if_pos (isDbRef_store _), get_store webhookRuntime_lawful] at masked
    have texts := Json.str.inj masked
    revert texts
    decide

end Webhook

end Deeting.Monitor
