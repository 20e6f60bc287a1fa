import Mathlib.Data.List.Nodup
import Deeting.Assets.Links

/-! Uploads in local mode: the asset rows that stand for a content, the files behind their
keys, and the links under which files are written. Requests come one after the other. -/
namespace Deeting.Assets

open Transition

/-- What the host provides: the digest, the tables of `mimetypes`, `str.lower`, and the date
part of a key. -/
structure Host where
  sha256 : List UInt8 → String
  guessType : String → Option String
  guessExtension : String → Option String
  lower : String → String
  datePart : ℤ → String

abbrev Path := List (List Char)

section Files

/-- The parts of `_local_path_for_object_key`, `none` where it raises. -/
def localPath (objectKey : String) : Option Path :=
  let parts := ((normalizeObjectKey objectKey).toList.splitOn '/').filter fun part => part ≠ []
  if parts.isEmpty || parts.any (fun part => part = ['.'] || part = ['.', '.']) then none
  else some parts

abbrev Files := Path → Option (List UInt8)

variable (host : Host) (settings : Settings)

def orDefault (type : Option String) : String :=
  if type.getD "" = "" then "application/octet-stream" else type.getD ""

/-- `load_asset_bytes`, `none` where it raises. -/
def loadAssetBytes (files : Files) (objectKey : String) : Option (List UInt8 × String) := do
  let path ← localPath objectKey
  let body ← files path
  return (body, orDefault (host.guessType (String.ofList (path.getLast?.getD []))))

/-- `type.split(";", 1)[0].strip().lower()`. -/
def mainType (type : String) : String :=
  host.lower (String.ofList (Stream.strip (type.toList.takeWhile fun c => c ≠ ';')))

/-- Whether `_ensure_local_object_valid` lets an object pass. -/
def localObjectValid (body : List UInt8) (detected contentHash : String) (sizeBytes : ℕ)
    (contentType : String) : Bool :=
  body.length = sizeBytes &&
    (mainType host detected = "" || mainType host contentType = "" ||
      mainType host detected = mainType host contentType) &&
    host.sha256 body = contentHash

def guessExt (contentType : String) : String :=
  let guessed := (host.guessExtension contentType).getD ""
  if contentType ≠ "" ∧ guessed ≠ "" then String.ofList (guessed.toList.dropWhile fun c => c = '.')
  else "bin"

/-- `uid` is what `uuid4` draws. -/
def buildObjectKey (now : ℤ) (uid ext : String) (kind : Option String) : String :=
  let base := normalizePrefix settings.assetOssPrefix
  let kind := kind.getD ""
  let folder :=
    if kind = "" then base
    else if base = "" then normalizePrefix kind else base ++ "/" ++ normalizePrefix kind
  let dated := host.datePart now ++ "/" ++ uid ++ "." ++ ext
  if folder = "" then dated else folder ++ "/" ++ dated

/-- `store_local_asset_object`: the path that is written, and the files after it; `none` where
it raises. -/
def storeLocalAssetObject (files : Files) (objectKey : String) (data : List UInt8) :
    Option (Path × Files) :=
  if data.isEmpty then none
  else (localPath objectKey).map fun path => (path, Function.update files path (some data))

end Files

section Table

structure MediaAsset where
  contentHash : String
  sizeBytes : ℕ
  contentType : String
  objectKey : String
  deriving DecidableEq

def MediaAsset.content (asset : MediaAsset) : String × ℕ := (asset.contentHash, asset.sizeBytes)

structure AssetTable where
  rows : List MediaAsset
  uniqueContent : (rows.map MediaAsset.content).Nodup
  uniqueKey : (rows.map MediaAsset.objectKey).Nodup

def AssetTable.empty : AssetTable := ⟨[], List.nodup_nil, List.nodup_nil⟩

def AssetTable.getByHash (t : AssetTable) (contentHash : String) (sizeBytes : ℕ) :
    Option MediaAsset :=
  t.rows.find? fun row => row.content = (contentHash, sizeBytes)

/-- `create_asset`, `none` where a unique constraint is violated. -/
def AssetTable.createAsset (t : AssetTable) (asset : MediaAsset) : Option AssetTable :=
  if fresh : asset.content ∉ t.rows.map MediaAsset.content ∧
      asset.objectKey ∉ t.rows.map MediaAsset.objectKey then
    some ⟨asset :: t.rows, List.nodup_cons.mpr ⟨fresh.1, t.uniqueContent⟩,
      List.nodup_cons.mpr ⟨fresh.2, t.uniqueKey⟩⟩
  else none

def AssetTable.deleteAsset (t : AssetTable) (asset : MediaAsset) : AssetTable where
  rows := t.rows.filter fun row => row ≠ asset
  uniqueContent := t.uniqueContent.sublist (List.filter_sublist.map _)
  uniqueKey := t.uniqueKey.sublist (List.filter_sublist.map _)

end Table

section Requests

/-- `answered` is for the statements: the content and the object key of each answer that
carried an `asset_url`. -/
structure UploadWorld (σ : Type) where
  now : ℤ
  files : Files
  assets : AssetTable
  uploadLinks : List (Link σ)
  answered : List MediaAsset

def UploadWorld.initial (σ : Type) (now : ℤ) : UploadWorld σ :=
  ⟨now, fun _ => none, .empty, [], []⟩

structure InitRequest where
  contentHash : String
  sizeBytes : ℕ
  contentType : String
  kind : Option String := none
  expiresSeconds : Option ℤ := none
  isPublic : Bool := false

structure CompleteRequest where
  objectKey : String
  contentHash : String
  sizeBytes : ℕ
  contentType : String
  isPublic : Bool := false

/-- `deletes` tells whether the removal of a stale row goes through. -/
inductive UploadAction (σ : Type) where
  | tick (seconds : ℕ)
  | initUpload (request : InitRequest) (uid : String) (deletes : Bool)
  | uploadLocalAsset (link : Link σ) (body : List UInt8)
  | completeUpload (request : CompleteRequest)

variable {σ : Type} (host : Host) (h : Hmac σ) (settings : Settings)

/-- The answer with the URL of an asset; a signed one cannot be built without a secret. -/
def UploadWorld.answer (w : UploadWorld σ) (isPublic : Bool) (asset : MediaAsset) :
    UploadWorld σ :=
  if isPublic || (buildSignedAssetUrl h settings w.now asset.objectKey none).isSome then
    { w with answered := asset :: w.answered }
  else w

/-- `_validate_existing` in local mode. -/
def UploadWorld.validateExisting (w : UploadWorld σ) (asset : MediaAsset)
    (request : InitRequest) : Bool :=
  match loadAssetBytes host w.files asset.objectKey with
  | none => false
  | some (body, detected) =>
      localObjectValid host body detected request.contentHash request.sizeBytes
        request.contentType

/-- `presign_asset_put_url` in local mode. -/
def UploadWorld.presign (w : UploadWorld σ) (request : InitRequest) (uid : String) :
    UploadWorld σ :=
  let key := buildObjectKey host settings w.now uid (guessExt host request.contentType)
    request.kind
  match buildSignedAssetUploadUrl h settings w.now key (some (request.expiresSeconds.getD 3600)) with
  | none => w
  | some link => { w with uploadLinks := link :: w.uploadLinks }

def UploadWorld.initUpload (w : UploadWorld σ) (request : InitRequest) (uid : String)
    (deletes : Bool) : UploadWorld σ :=
  match w.assets.getByHash request.contentHash request.sizeBytes with
  | none => w.presign host h settings request uid
  | some existing =>
      if w.validateExisting host existing request then
        w.answer h settings request.isPublic existing
      else
        let w := if deletes then { w with assets := w.assets.deleteAsset existing } else w
        w.presign host h settings request uid

def UploadWorld.completeUpload (w : UploadWorld σ) (request : CompleteRequest) :
    UploadWorld σ :=
  match loadAssetBytes host w.files request.objectKey with
  | none => w
  | some (body, detected) =>
      if localObjectValid host body detected request.contentHash request.sizeBytes
          request.contentType then
        match w.assets.getByHash request.contentHash request.sizeBytes with
        | some existing => w.answer h settings request.isPublic existing
        | none =>
            let asset : MediaAsset :=
              ⟨request.contentHash, request.sizeBytes, request.contentType, request.objectKey⟩
            match w.assets.createAsset asset with
            | none => w
            | some assets => { w with assets }.answer h settings request.isPublic asset
      else w

variable [DecidableEq σ] (route : String → Option String)

/-- What an upload writes, `none` if it is refused. -/
def UploadWorld.written (w : UploadWorld σ) (link : Link σ) (body : List UInt8) :
    Option (Path × Files) :=
  match route link.safeKey with
  | none => none
  | some key =>
      match uploadLocalAssetAdmits h settings w.now key link.expires link.sig with
      | .error _ => none
      | .ok () => storeLocalAssetObject w.files key body

/-- Uploads are made with the links that `init_upload` has issued. -/
def UploadWorld.step (w : UploadWorld σ) : UploadAction σ → Option (UploadWorld σ)
  | .tick seconds => some { w with now := w.now + seconds }
  | .initUpload request uid deletes => some (w.initUpload host h settings request uid deletes)
  | .uploadLocalAsset link body =>
      if link ∈ w.uploadLinks then
        some (match w.written h settings route link body with
          | none => w
          | some (_, files) => { w with files })
      else none
  | .completeUpload request => some (w.completeUpload host h settings request)

end Requests

section Invariant

variable {σ : Type} [DecidableEq σ] {host : Host} {h : Hmac σ} {settings : Settings}
  {route : String → Option String} {w : UploadWorld σ} {files : Files} {asset : MediaAsset}

def Backed (host : Host) (files : Files) (asset : MediaAsset) : Prop :=
  ∃ body type, loadAssetBytes host files asset.objectKey = some (body, type) ∧
    host.sha256 body = asset.contentHash ∧ body.length = asset.sizeBytes

/-- Whatever has been answered is served as answered, for as long as its row is there. -/
def UploadWorld.Addressed (host : Host) (w : UploadWorld σ) : Prop :=
  ∀ asset ∈ w.answered, asset ∈ w.assets.rows → Backed host w.files asset

/-- No upload puts another content into the file of an asset row. -/
def UploadWorld.Preserving (host : Host) (h : Hmac σ) (settings : Settings)
    (route : String → Option String) (w : UploadWorld σ) : UploadAction σ → Prop
  | .uploadLocalAsset link body => link ∈ w.uploadLinks →
      ∀ path files, w.written h settings route link body = some (path, files) →
        ∀ asset ∈ w.assets.rows, localPath asset.objectKey = some path →
          host.sha256 body = asset.contentHash ∧ body.length = asset.sizeBytes
  | _ => True

/-- Every row has been answered; without a secret there is nothing at all. -/
structure UploadWorld.Kept (settings : Settings) (w : UploadWorld σ) : Prop where
  answered : ∀ asset ∈ w.assets.rows, asset ∈ w.answered
  idle : signingSecret settings = none →
    w.uploadLinks = [] ∧ w.assets.rows = [] ∧ w.files = fun _ => none

theorem localObjectValid_content {body : List UInt8} {detected contentHash contentType : String}
    {sizeBytes : ℕ}
    (valid : localObjectValid host body detected contentHash sizeBytes contentType = true) :
    host.sha256 body = contentHash ∧ body.length = sizeBytes := by
  simp only [localObjectValid, Bool.and_eq_true, decide_eq_true_eq] at valid
  exact ⟨valid.2, valid.1.1⟩

theorem AssetTable.getByHash_eq_some {t : AssetTable} {contentHash : String} {sizeBytes : ℕ}
    (found : t.getByHash contentHash sizeBytes = some asset) :
    asset ∈ t.rows ∧ asset.contentHash = contentHash ∧ asset.sizeBytes = sizeBytes := by
  have content := List.find?_some found
  simp only [MediaAsset.content, Prod.mk.injEq, decide_eq_true_eq] at content
  exact ⟨List.mem_of_find?_eq_some found, content⟩

theorem AssetTable.rows_createAsset {t t' : AssetTable} (created : t.createAsset asset = some t') :
    t'.rows = asset :: t.rows := by
  rw [createAsset] at created
  split at created
  · cases created
    rfl
  · cases created

variable (host files) in
theorem loadAssetBytes_update {path : Path} (body : List UInt8) {key : String}
    (same : localPath key = some path) :
    (loadAssetBytes host (Function.update files path (some body)) key).map Prod.fst =
      some body := by
  rw [loadAssetBytes, same]
  simp only [Option.bind_eq_bind, Option.bind_some, Function.update_self, Option.pure_def,
    Option.map_some]

theorem loadAssetBytes_update_of_ne {path : Path} {body : List UInt8} {key : String}
    (ne : localPath key ≠ some path) :
    loadAssetBytes host (Function.update files path (some body)) key =
      loadAssetBytes host files key := by
  rw [loadAssetBytes, loadAssetBytes]
  cases found : localPath key with
  | none => rfl
  | some other =>
    have apart : other ≠ path := fun same => ne (found.trans (congrArg some same))
    simp only [Option.bind_eq_bind, Option.bind_some, Function.update_of_ne apart]

theorem written_eq_some {link : Link σ} {body : List UInt8} {path : Path}
    (written : w.written h settings route link body = some (path, files)) :
    files = Function.update w.files path (some body) ∧ signingSecret settings ≠ none := by
  rw [UploadWorld.written] at written
  split at written
  · cases written
  · rename_i key routed
    split at written
    · cases written
    · rename_i admitted
      constructor
      · rw [storeLocalAssetObject] at written
        split at written
        · cases written
        · obtain ⟨other, -, same⟩ := Option.map_eq_some_iff.mp written
          cases same
          rfl
      · intro unconfigured
        rw [uploadLocalAssetAdmits] at admitted
        split at admitted
        · cases admitted
        · have signed := (verify_eq_ok_iff.mp admitted).2.1
          rw [hmacSignature, unconfigured] at signed
          cases signed

/-- All that is asked of a state: it can be kept, and then the answers hold good. -/
structure UploadWorld.Sound (host : Host) (settings : Settings) (w : UploadWorld σ) : Prop where
  kept : w.Kept settings
  addressed : w.Addressed host

omit [DecidableEq σ] in
theorem UploadWorld.Sound.backed (sound : w.Sound host settings) (row : asset ∈ w.assets.rows) :
    Backed host w.files asset :=
  sound.addressed asset (sound.kept.answered asset row) row

omit [DecidableEq σ] in
theorem UploadWorld.Sound.answer (sound : w.Sound host settings) (isPublic : Bool)
    (backed : Backed host w.files asset) :
    (w.answer h settings isPublic asset).Sound host settings := by
  rw [UploadWorld.answer]
  split
  · refine ⟨⟨fun row mem => List.mem_cons_of_mem _ (sound.kept.answered row mem),
      sound.kept.idle⟩, fun other mem row => ?_⟩
    rcases List.mem_cons.mp mem with rfl | mem
    · exact backed
    · exact sound.addressed other mem row
  · exact sound

omit [DecidableEq σ] in
theorem UploadWorld.Sound.presign (sound : w.Sound host settings) (request : InitRequest)
    (uid : String) : (w.presign host h settings request uid).Sound host settings := by
  rw [UploadWorld.presign]
  split
  · exact sound
  · rename_i link built
    have configured : signingSecret settings ≠ none :=
      configured_of_build .upload built
    exact ⟨⟨sound.kept.answered, fun unconfigured => absurd unconfigured configured⟩,
      sound.addressed⟩

omit [DecidableEq σ] in
theorem UploadWorld.Sound.deleteAsset (sound : w.Sound host settings) :
    UploadWorld.Sound host settings { w with assets := w.assets.deleteAsset asset } := by
  refine ⟨⟨fun row mem => sound.kept.answered row (List.mem_of_mem_filter mem),
    fun unconfigured => ?_⟩,
    fun other mem row => sound.addressed other mem (List.mem_of_mem_filter row)⟩
  obtain ⟨links, rows, files⟩ := sound.kept.idle unconfigured
  refine ⟨links, List.filter_eq_nil_iff.mpr fun row mem => ?_, files⟩
  rw [rows] at mem
  cases mem

omit [DecidableEq σ] in
theorem UploadWorld.Sound.initUpload (sound : w.Sound host settings) (request : InitRequest)
    (uid : String) (deletes : Bool) :
    (w.initUpload host h settings request uid deletes).Sound host settings := by
  rw [UploadWorld.initUpload]
  split
  · exact sound.presign request uid
  · rename_i existing found
    obtain ⟨row, -⟩ := AssetTable.getByHash_eq_some found
    split
    · exact sound.answer _ (sound.backed row)
    · cases deletes with
      | true => exact sound.deleteAsset.presign request uid
      | false => exact sound.presign request uid

omit [DecidableEq σ] in
theorem UploadWorld.Kept.configured (kept : w.Kept settings) {key : String}
    {loaded : List UInt8 × String} (found : loadAssetBytes host w.files key = some loaded) :
    signingSecret settings ≠ none := by
  intro unconfigured
  rw [loadAssetBytes, (kept.idle unconfigured).2.2] at found
  cases path : localPath key <;> simp [path] at found

omit [DecidableEq σ] in
theorem answer_of_configured (configured : signingSecret settings ≠ none) (isPublic : Bool) :
    w.answer h settings isPublic asset = { w with answered := asset :: w.answered } := by
  obtain ⟨link, built⟩ := exists_build (h := h) configured .download w.now asset.objectKey none
  have built : buildSignedAssetUrl h settings w.now asset.objectKey none = some link := built
  rw [UploadWorld.answer, built]
  simp

omit [DecidableEq σ] in
theorem UploadWorld.Sound.completeUpload (sound : w.Sound host settings)
    (request : CompleteRequest) :
    (w.completeUpload host h settings request).Sound host settings := by
  rw [UploadWorld.completeUpload]
  split
  · exact sound
  · rename_i body detected loaded
    split
    · rename_i valid
      split
      · rename_i existing found
        exact sound.answer _ (sound.backed (AssetTable.getByHash_eq_some found).1)
      · dsimp only
        split
        · exact sound
        · rename_i assets created
          have configured := sound.kept.configured loaded
          have rows := AssetTable.rows_createAsset created
          have backed : Backed host w.files ⟨request.contentHash, request.sizeBytes,
              request.contentType, request.objectKey⟩ :=
            ⟨body, detected, loaded, localObjectValid_content valid⟩
          rw [answer_of_configured configured]
          constructor
          · refine ⟨fun row mem => ?_, fun unconfigured => absurd unconfigured configured⟩
            rw [rows] at mem
            exact (List.mem_cons.mp mem).elim (fun same => same ▸ List.mem_cons_self)
              fun old => List.mem_cons_of_mem _ (sound.kept.answered row old)
          · intro asset answered row
            rw [rows] at row
            rcases List.mem_cons.mp row with rfl | old
            · exact backed
            · exact sound.backed old
    · exact sound

theorem UploadWorld.Sound.written_iff (sound : w.Sound host settings) {link : Link σ}
    {body : List UInt8} {path : Path}
    (written : w.written h settings route link body = some (path, files)) :
    UploadWorld.Addressed host { w with files } ↔
      ∀ asset ∈ w.assets.rows, localPath asset.objectKey = some path →
        host.sha256 body = asset.contentHash ∧ body.length = asset.sizeBytes := by
  obtain ⟨rfl, -⟩ := written_eq_some written
  constructor
  · intro addressed asset row same
    obtain ⟨body', type, loaded, content⟩ :=
      addressed asset (sound.kept.answered asset row) row
    have served := loadAssetBytes_update host w.files body same
    rw [loaded, Option.map_some, Option.some.injEq] at served
    exact served ▸ content
  · intro preserving asset answered row
    by_cases same : localPath asset.objectKey = some path
    · have served := loadAssetBytes_update host w.files body same
      obtain ⟨⟨body', type⟩, found, rfl⟩ := Option.map_eq_some_iff.mp served
      exact ⟨body', type, found, preserving asset row same⟩
    · obtain ⟨body', type, loaded, content⟩ := sound.backed row
      exact ⟨body', type, (loadAssetBytes_update_of_ne same).trans loaded, content⟩

theorem UploadWorld.Sound.step_iff (sound : w.Sound host settings) {a : UploadAction σ}
    {w' : UploadWorld σ} (taken : w.step host h settings route a = some w') :
    w'.Addressed host ↔ w.Preserving host h settings route a := by
  cases a with
  | tick seconds =>
    obtain rfl := Option.some.inj taken
    exact iff_of_true sound.addressed trivial
  | initUpload request uid deletes =>
    obtain rfl := Option.some.inj taken
    exact iff_of_true (sound.initUpload request uid deletes).addressed trivial
  | completeUpload request =>
    obtain rfl := Option.some.inj taken
    exact iff_of_true (sound.completeUpload request).addressed trivial
  | uploadLocalAsset link body =>
    rw [UploadWorld.step] at taken
    split at taken
    · rename_i issued
      obtain rfl := Option.some.inj taken
      rw [UploadWorld.Preserving, imp_iff_right issued]
      split
      · rename_i refused
        refine iff_of_true sound.addressed fun path files written => ?_
        rw [refused] at written
        cases written
      · rename_i path files written
        rw [sound.written_iff written]
        constructor
        · intro preserving path' files' written'
          rw [written] at written'
          cases written'
          exact preserving
        · exact fun preserving => preserving path files written
    · cases taken

theorem UploadWorld.Kept.step (sound : w.Sound host settings) {a : UploadAction σ}
    {w' : UploadWorld σ} (taken : w.step host h settings route a = some w') :
    w'.Kept settings := by
  cases a with
  | tick seconds =>
    obtain rfl := Option.some.inj taken
    exact ⟨sound.kept.answered, sound.kept.idle⟩
  | initUpload request uid deletes =>
    obtain rfl := Option.some.inj taken
    exact (sound.initUpload request uid deletes).kept
  | completeUpload request =>
    obtain rfl := Option.some.inj taken
    exact (sound.completeUpload request).kept
  | uploadLocalAsset link body =>
    rw [UploadWorld.step] at taken
    split at taken
    · cases taken
      split
      · exact sound.kept
      · rename_i path files written
        exact ⟨sound.kept.answered, fun unconfigured =>
          absurd unconfigured (written_eq_some written).2⟩
    · cases taken

end Invariant

section Runs

variable {σ : Type} [DecidableEq σ]

/-- What has been answered is served, throughout a sequence of requests, just when none of the
uploads puts another content into the file of an asset row. -/
theorem uploads_addressed_iff (host : Host) (h : Hmac σ) (settings : Settings)
    (route : String → Option String) (now : ℤ) (actions : List (UploadAction σ)) :
    (∀ first, first <+: actions → ∀ w,
      run (UploadWorld.step host h settings route) (.initial σ now) first = some w →
        w.Addressed host) ↔
    Along (UploadWorld.step host h settings route)
      (UploadWorld.Preserving host h settings route) (.initial σ now) actions := by
  refine forall_prefix_iff_along (P := UploadWorld.Sound host settings)
    (fun sound => sound.addressed) ?_ ?_ ?_ ⟨⟨?_, ?_⟩, ?_⟩
  · intro w a w' sound preserving taken
    exact ⟨UploadWorld.Kept.step sound taken, (sound.step_iff taken).mpr preserving⟩
  · intro w a w' sound taken addressed
    exact (sound.step_iff taken).mp addressed
  · intro w a stuck
    cases a with
    | uploadLocalAsset link body =>
      intro issued
      rw [UploadWorld.step, if_pos issued] at stuck
      cases stuck
    | _ => trivial
  · intro asset row
    cases row
  · exact fun _ => ⟨rfl, rfl, rfl⟩
  · intro asset answered
    cases answered

def plainHost : Host where
  sha256 bytes := String.ofList (bytes.map fun b => Char.ofNat b.toNat)
  guessType _ := some "text/plain"
  guessExtension _ := some ".txt"
  lower := id
  datePart _ := "2026/01/01"

def uploadedKey : String := "assets/2026/01/01/u1.txt"

def replacedUpload : List (UploadAction String) :=
  let link : Link String := ⟨uploadedKey, 4600, uploadedKey ++ "\n4600"⟩
  [.initUpload ⟨"hi", 2, "text/plain", none, none, false⟩ "u1" true,
    .uploadLocalAsset link [104, 105],
    .completeUpload ⟨uploadedKey, "hi", 2, "text/plain", false⟩,
    .uploadLocalAsset link [110, 111]]

theorem replaced_upload_not_addressed : ¬ ∀ (host : Host) (h : Hmac String)
    (settings : Settings) (route : String → Option String) (now : ℤ)
    (actions : List (UploadAction String)), ∀ first, first <+: actions → ∀ w,
      run (UploadWorld.step host h settings route) (.initial String now) first = some w →
        w.Addressed host := by
  intro always
  have addressed := always plainHost plainHmac { secretKey := "secret", mode := .local }
    Texts.unquote 1000 replacedUpload _ List.prefix_rfl
  have reached : (run (UploadWorld.step plainHost plainHmac
      { secretKey := "secret", mode := .local } Texts.unquote) (.initial String 1000)
        replacedUpload).map (fun w => (w.answered, w.assets.rows,
          (loadAssetBytes plainHost w.files uploadedKey).map Prod.fst)) =
      some ([⟨"hi", 2, "text/plain", uploadedKey⟩], [⟨"hi", 2, "text/plain", uploadedKey⟩],
        some [110, 111]) := by decide +kernel
  obtain ⟨w, ended, same⟩ := Option.map_eq_some_iff.mp reached
  simp only [Prod.mk.injEq] at same
  obtain ⟨answered, rows, served⟩ := same
  obtain ⟨body, type, loaded, digest, -⟩ := addressed w ended ⟨"hi", 2, "text/plain", uploadedKey⟩
    (by simp [answered]) (by simp [rows])
  rw [loaded, Option.map_some, Option.some.injEq] at served
  cases served
  exact absurd digest (by decide +kernel)

end Runs

end Deeting.Assets
