import Mathlib.Logic.Function.Basic
import Deeting.Stream.Accumulator
import Deeting.Texts

/-! `asset_storage_service`: object keys, their files in local mode, and signed links. The
HMAC is any function without collisions, the tables of `mimetypes` are any functions, a time
is `int(time.time())`. -/
namespace Deeting.Assets

/-- `hmac.new(secret, message, sha256).hexdigest()`. -/
structure Hmac (σ : Type) where
  digest : String → String → σ
  injective : ∀ secret, Function.Injective (digest secret)

inductive StorageMode where
  | local
  | oss
  deriving DecidableEq

/-- `mode` is `get_effective_asset_storage_mode()`. -/
structure Settings where
  secretKey : String
  environment : String := "production"
  assetOssPrefix : String := "assets"
  assetSignedUrlTtlSeconds : ℤ := 3600
  mode : StorageMode

section Keys

def toSlash (c : Char) : Char := if c = '\\' then '/' else c

def lstripSlash (text : List Char) : List Char := text.dropWhile fun c => c = '/'

def stripSlash (text : List Char) : List Char := (lstripSlash (lstripSlash text).reverse).reverse

def normalizePrefix (value : String) : String :=
  String.ofList ((stripSlash (Stream.strip value.toList)).map toSlash)

def normalizeObjectKey (key : String) : String :=
  String.ofList ((lstripSlash key.toList).map toSlash)

/-- The check of `verify_signed_asset_request` on the key alone. -/
def underPrefix (settings : Settings) (key : String) : Bool :=
  let base := normalizePrefix settings.assetOssPrefix
  base = "" || (base ++ "/").toList.isPrefixOf key.toList

theorem normalizeObjectKey_eq_iff {key : String} :
    normalizeObjectKey key = key ↔ key.toList.head? ≠ some '/' ∧ '\\' ∉ key.toList := by
  rw [normalizeObjectKey, ← String.toList_inj, String.toList_ofList]
  have clean : ∀ {text : List Char}, '\\' ∉ text → text.map toSlash = text := by
    intro text none
    refine (List.map_congr_left fun c mem => if_neg ?_).trans (List.map_id text)
    rintro rfl
    exact none mem
  constructor
  · intro same
    have none : '\\' ∉ key.toList := by
      rw [← same]
      intro mem
      obtain ⟨c, -, slash⟩ := List.mem_map.mp mem
      rw [toSlash] at slash
      split at slash
      · exact absurd slash (by decide)
      · rename_i other
        exact other slash
    refine ⟨fun slash => ?_, none⟩
    cases text : key.toList with
    | nil => simp [text] at slash
    | cons c rest =>
      have same := congrArg List.length same
      have shorter : (lstripSlash rest).length ≤ rest.length :=
        (List.dropWhile_sublist _).length_le
      rw [text, List.head?_cons, Option.some.injEq] at slash
      rw [text, List.length_map, lstripSlash, List.dropWhile_cons_of_pos (by simpa using slash)]
        at same
      rw [lstripSlash] at shorter
      simp only [List.length_cons] at same
      omega
  · rintro ⟨first, none⟩
    have whole : lstripSlash key.toList = key.toList := by
      cases text : key.toList with
      | nil => rfl
      | cons c rest =>
        rw [text, List.head?_cons, ne_eq, Option.some.injEq] at first
        rw [lstripSlash, List.dropWhile_cons_of_neg (by simpa using first)]
    rw [whole, clean none]

end Keys

section Signatures

variable {σ : Type} (h : Hmac σ) (settings : Settings)

/-- The key of `_hmac_signature`; without one it raises `AssetStorageNotConfigured`. -/
def signingSecret : Option String :=
  if settings.secretKey = "" then
    if settings.environment.toLower ∈ ["test", "development"] then some "test-secret" else none
  else some settings.secretKey

def hmacSignature (objectKey : String) (expiresAt : ℤ) : Option σ :=
  (signingSecret settings).map fun secret =>
    h.digest secret (objectKey ++ "\n" ++ expiresAt.repr)

/-- `quote(…, safe="/")` keeps letters, digits and these. -/
def keptByte (b : UInt8) : Bool :=
  let n := b.toNat
  (48 ≤ n ∧ n < 58) ∨ (65 ≤ n ∧ n < 91) ∨ (97 ≤ n ∧ n < 123) ∨ n ∈ [95, 46, 45, 126, 47]

/-- What of a link the holder sends: its path after `/media/assets/`, or after
`/media/assets/upload/local/`, and its query. -/
structure Link (σ : Type) where
  safeKey : String
  expires : ℤ
  sig : σ
  deriving DecidableEq

def expiresAt (now : ℤ) (ttlSeconds : Option ℤ) : ℤ :=
  let ttl := ttlSeconds.getD 0
  let standard := settings.assetSignedUrlTtlSeconds
  now + max 1 (if ttl ≠ 0 then ttl else if standard ≠ 0 then standard else 3600)

def signLink (now : ℤ) (objectKey : String) (ttlSeconds : Option ℤ) : Option (Link σ) :=
  let expires := expiresAt settings now ttlSeconds
  (hmacSignature h settings objectKey expires).map fun sig =>
    ⟨Texts.quote keptByte (normalizeObjectKey objectKey), expires, sig⟩

def buildSignedAssetUrl (now : ℤ) (objectKey : String) (ttlSeconds : Option ℤ) :
    Option (Link σ) :=
  signLink h settings now objectKey ttlSeconds

def buildSignedAssetUploadUrl (now : ℤ) (objectKey : String) (ttlSeconds : Option ℤ) :
    Option (Link σ) :=
  signLink h settings now objectKey ttlSeconds

inductive RequestError where
  | expired
  | badSignature
  | outsidePrefix
  | notConfigured
  | notLocal
  deriving DecidableEq

/-- The details of the `SignedAssetUrlError`s. -/
def RequestError.detail : RequestError → String
  | .expired => "signed url expired"
  | .badSignature => "invalid signature"
  | .outsidePrefix => "invalid object key prefix"
  | .notConfigured => "SECRET_KEY 未配置，无法生成签名"
  | .notLocal => "ASSET_STORAGE_MODE!=local 不支持本地直传"

variable [DecidableEq σ]

def verifySignedAssetRequest (now : ℤ) (objectKey : String) (expires : ℤ) (sig : σ) :
    Except RequestError Unit :=
  if expires ≤ now then .error .expired
  else
    match hmacSignature h settings objectKey expires with
    | none => .error .notConfigured
    | some expected =>
        if sig ≠ expected then .error .badSignature
        else if !underPrefix settings objectKey then .error .outsidePrefix
        else .ok ()

/-- What `get_asset` asks of a request before it looks for the object. -/
def getAssetAdmits (now : ℤ) (objectKey : String) (expires : ℤ) (sig : σ) :
    Except RequestError Unit :=
  verifySignedAssetRequest h settings now objectKey expires sig

/-- What `upload_local_asset` asks of a request before it writes. -/
def uploadLocalAssetAdmits (now : ℤ) (objectKey : String) (expires : ℤ) (sig : σ) :
    Except RequestError Unit :=
  if settings.mode ≠ .local then .error .notLocal
  else verifySignedAssetRequest h settings now objectKey expires sig

variable {h settings} {now expires expires' : ℤ} {key key' : String} {sig : σ}

theorem verify_eq_ok_iff : verifySignedAssetRequest h settings now key expires sig = .ok () ↔
    now < expires ∧ hmacSignature h settings key expires = some sig ∧
      underPrefix settings key = true := by
  rw [verifySignedAssetRequest]
  split
  · rename_i late
    exact iff_of_false (by simp) fun accepted => absurd accepted.1 (by omega)
  · rename_i early
    cases signed : hmacSignature h settings key expires with
    | none => simp
    | some expected =>
      by_cases same : sig = expected
      · cases under : underPrefix settings key with
        | true => simp [same]; omega
        | false => simp [same]
      · simp [same, Ne.symm same]

omit [DecidableEq σ] in
theorem hmacSignature_injective (first : hmacSignature h settings key expires = some sig)
    (second : hmacSignature h settings key' expires' = some sig) :
    key = key' ∧ expires = expires' := by
  rw [hmacSignature] at first second
  cases secret : signingSecret settings with
  | none => simp [secret] at first
  | some secret' =>
    rw [secret, Option.map_some, Option.some.injEq] at first second
    exact Texts.text_repr_injective (h.injective secret' (first.trans second.symm))

theorem keptByte_plain : Texts.Plain keptByte := by
  intro b kept
  simp only [keptByte, List.mem_cons, List.not_mem_nil, or_false, decide_eq_true_eq] at kept
  omega

/-- A server that hands on the unquoted path finds the key that was signed just when
normalising has not changed it. -/
theorem unquote_safeKey_iff : Texts.unquote (Texts.quote keptByte (normalizeObjectKey key)) =
    some key ↔ key.toList.head? ≠ some '/' ∧ '\\' ∉ key.toList := by
  rw [Texts.unquote_quote keptByte_plain, Option.some.injEq, normalizeObjectKey_eq_iff]

end Signatures

end Deeting.Assets
