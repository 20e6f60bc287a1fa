import Deeting.Assets.Storage
import Deeting.Transition

/-! Who can do what with the links that have been issued. Requests change no link, so they are
asked of each state: what it would admit of anyone who holds some issued signature. -/
namespace Deeting.Assets

open Transition

inductive LinkKind where
  | download
  | upload
  deriving DecidableEq

/-- A link, the builder it is from and the key it was built for. -/
structure Issued (σ : Type) where
  kind : LinkKind
  objectKey : String
  link : Link σ

structure LinkWorld (σ : Type) where
  now : ℤ
  issued : List (Issued σ)

/-- Time passes, a builder is called, a user has keys signed. -/
inductive LinkAction where
  | tick (seconds : ℕ)
  | buildSignedAssetUrl (objectKey : String) (ttlSeconds : Option ℤ)
  | buildSignedAssetUploadUrl (objectKey : String) (ttlSeconds : Option ℤ)
  | signAssets (objectKeys : List String) (expiresSeconds : Option ℤ)

section World

variable {σ : Type} (h : Hmac σ) (settings : Settings)

/-- The keys that `AssetSignRequest` leaves. -/
def cleanKeys (objectKeys : List String) : List String :=
  (objectKeys.map fun key => String.ofList (Stream.strip key.toList)).filter fun key => key ≠ ""

def LinkKind.build : LinkKind → ℤ → String → Option ℤ → Option (Link σ)
  | .download => buildSignedAssetUrl h settings
  | .upload => buildSignedAssetUploadUrl h settings

def LinkWorld.issue (kind : LinkKind) (objectKeys : List String) (ttlSeconds : Option ℤ)
    (w : LinkWorld σ) : LinkWorld σ :=
  { w with issued := w.issued ++ objectKeys.filterMap fun key =>
      (kind.build h settings w.now key ttlSeconds).map fun link => ⟨kind, key, link⟩ }

def LinkWorld.step (w : LinkWorld σ) : LinkAction → LinkWorld σ
  | .tick seconds => { w with now := w.now + seconds }
  | .buildSignedAssetUrl key ttl => w.issue h settings .download [key] ttl
  | .buildSignedAssetUploadUrl key ttl => w.issue h settings .upload [key] ttl
  | .signAssets keys expires => w.issue h settings .download (cleanKeys keys) expires

def LinkWorld.HasIssued (w : LinkWorld σ) (kind : LinkKind) (key : String) (expires : ℤ) :
    Prop :=
  ∃ i ∈ w.issued, i.kind = kind ∧ i.objectKey = key ∧ i.link.expires = expires

variable [DecidableEq σ] (route : String → Option String)

/-- No request is admitted but for what its signature was issued for, and each live download
link of a key under the prefix works. `route` is how the server gets the object key from the
path of a link. -/
structure LinkWorld.Confined (w : LinkWorld σ) : Prop where
  upload : ∀ i ∈ w.issued, ∀ key expires,
    uploadLocalAssetAdmits h settings w.now key expires i.link.sig = .ok () →
      w.HasIssued .upload key expires
  download : ∀ i ∈ w.issued, ∀ key expires,
    getAssetAdmits h settings w.now key expires i.link.sig = .ok () →
      w.HasIssued .download key expires
  serves : ∀ i ∈ w.issued, i.kind = .download → underPrefix settings i.objectKey = true →
    w.now < i.link.expires → ∃ key, route i.link.safeKey = some key ∧
      getAssetAdmits h settings w.now key i.link.expires i.link.sig = .ok ()

/-- What a link of the kind for a key under the prefix needs so as to do no harm: that the
other handler is closed or the key is also issued for it, and that the key survives its own
link. -/
def LinkWorld.Harmless (w : LinkWorld σ) (kind : LinkKind) (key : String) (expires : ℤ) :
    Prop :=
  match kind with
  | .download => (settings.mode = .local → w.HasIssued .upload key expires) ∧
      route (Texts.quote keptByte (normalizeObjectKey key)) = some key
  | .upload => w.HasIssued .download key expires

def LinkWorld.HarmlessAll (w : LinkWorld σ) (kind : LinkKind) (keys : List String)
    (ttl : Option ℤ) : Prop :=
  ∀ key ∈ keys, signingSecret settings ≠ none → underPrefix settings key = true →
    w.Harmless settings route kind key (expiresAt settings w.now ttl)

def LinkWorld.Admissible (w : LinkWorld σ) : LinkAction → Prop
  | .tick _ => True
  | .buildSignedAssetUrl key ttl => w.HarmlessAll settings route .download [key] ttl
  | .buildSignedAssetUploadUrl key ttl => w.HarmlessAll settings route .upload [key] ttl
  | .signAssets keys expires => w.HarmlessAll settings route .download (cleanKeys keys) expires

end World

section Invariant

variable {σ : Type} {h : Hmac σ} {settings : Settings} {route : String → Option String}
  {w : LinkWorld σ} {kind other : LinkKind} {key : String} {keys : List String}
  {expires : ℤ} {ttl : Option ℤ}

def LinkWorld.Genuine (h : Hmac σ) (settings : Settings) (w : LinkWorld σ) : Prop :=
  ∀ i ∈ w.issued, hmacSignature h settings i.objectKey i.link.expires = some i.link.sig ∧
    i.link.safeKey = Texts.quote keptByte (normalizeObjectKey i.objectKey)

/-- Every live link of a key under the prefix can be used by the handlers it was issued for,
and by no other. -/
def LinkWorld.Paired (settings : Settings) (route : String → Option String)
    (w : LinkWorld σ) : Prop :=
  ∀ i ∈ w.issued, underPrefix settings i.objectKey = true → w.now < i.link.expires →
    (settings.mode = .local → w.HasIssued .upload i.objectKey i.link.expires) ∧
    w.HasIssued .download i.objectKey i.link.expires ∧
    (i.kind = .download → route i.link.safeKey = some i.objectKey)

theorem LinkWorld.Genuine.confined_iff [DecidableEq σ] (genuine : w.Genuine h settings) :
    w.Confined h settings route ↔ w.Paired settings route := by
  constructor
  · intro confined i mem under live
    have verified : getAssetAdmits h settings w.now i.objectKey i.link.expires i.link.sig =
        .ok () := verify_eq_ok_iff.mpr ⟨live, (genuine i mem).1, under⟩
    refine ⟨fun inLocal => confined.upload i mem _ _ ?_, confined.download i mem _ _ verified,
      fun download => ?_⟩
    · rw [uploadLocalAssetAdmits, if_neg (not_not.mpr inLocal)]
      exact verified
    · obtain ⟨key, routed, admitted⟩ := confined.serves i mem download under live
      have signed := (verify_eq_ok_iff.mp admitted).2.1
      rw [routed, (hmacSignature_injective signed (genuine i mem).1).1]
  · intro paired
    have own : ∀ i ∈ w.issued, ∀ key expires,
        verifySignedAssetRequest h settings w.now key expires i.link.sig = .ok () →
          key = i.objectKey ∧ expires = i.link.expires ∧
            underPrefix settings i.objectKey = true ∧ w.now < i.link.expires := by
      intro i mem key expires admitted
      obtain ⟨live, signed, under⟩ := verify_eq_ok_iff.mp admitted
      obtain ⟨rfl, rfl⟩ := hmacSignature_injective signed (genuine i mem).1
      exact ⟨rfl, rfl, under, live⟩
    constructor
    · intro i mem key expires admitted
      rw [uploadLocalAssetAdmits] at admitted
      split at admitted
      · cases admitted
      · rename_i inLocal
        obtain ⟨rfl, rfl, under, live⟩ := own i mem key expires admitted
        exact (paired i mem under live).1 (not_not.mp inLocal)
    · intro i mem key expires admitted
      obtain ⟨rfl, rfl, under, live⟩ := own i mem key expires admitted
      exact (paired i mem under live).2.1
    · intro i mem download under live
      exact ⟨i.objectKey, (paired i mem under live).2.2 download,
        verify_eq_ok_iff.mpr ⟨live, (genuine i mem).1, under⟩⟩

theorem build_eq_some {now : ℤ} {link : Link σ} : kind.build h settings now key ttl = some link ↔
    link.expires = expiresAt settings now ttl ∧
      hmacSignature h settings key link.expires = some link.sig ∧
      link.safeKey = Texts.quote keptByte (normalizeObjectKey key) := by
  have built : kind.build h settings now key ttl = signLink h settings now key ttl := by
    cases kind <;> rfl
  cases link
  rw [built, signLink, Option.map_eq_some_iff]
  constructor
  · rintro ⟨sig, signed, same⟩
    obtain ⟨safeKey, expires, rfl⟩ := Link.mk.inj same
    subst expires
    exact ⟨rfl, signed, safeKey.symm⟩
  · rintro ⟨rfl, signed, rfl⟩
    exact ⟨_, signed, rfl⟩

theorem mem_issue {i : Issued σ} : i ∈ (w.issue h settings kind keys ttl).issued ↔
    i ∈ w.issued ∨ i.kind = kind ∧ i.objectKey ∈ keys ∧
      kind.build h settings w.now i.objectKey ttl = some i.link := by
  simp only [LinkWorld.issue, List.mem_append, List.mem_filterMap, Option.map_eq_some_iff]
  refine or_congr_right ?_
  constructor
  · rintro ⟨key, mem, link, built, rfl⟩
    exact ⟨rfl, mem, built⟩
  · rintro ⟨rfl, mem, built⟩
    exact ⟨i.objectKey, mem, i.link, built, rfl⟩

theorem LinkWorld.Genuine.issue (genuine : w.Genuine h settings) :
    (w.issue h settings kind keys ttl).Genuine h settings := by
  intro i mem
  rcases mem_issue.mp mem with old | ⟨-, -, built⟩
  · exact genuine i old
  · exact (build_eq_some.mp built).2

theorem LinkWorld.HasIssued.issue (issued : w.HasIssued other key expires) :
    (w.issue h settings kind keys ttl).HasIssued other key expires := by
  obtain ⟨i, mem, same⟩ := issued
  exact ⟨i, mem_issue.mpr (.inl mem), same⟩

theorem hasIssued_of_issue (ne : other ≠ kind)
    (issued : (w.issue h settings kind keys ttl).HasIssued other key expires) :
    w.HasIssued other key expires := by
  obtain ⟨i, mem, same⟩ := issued
  rcases mem_issue.mp mem with old | ⟨new, -⟩
  · exact ⟨i, old, same⟩
  · exact absurd (same.1.symm.trans new) ne

theorem lt_expiresAt (settings : Settings) (now : ℤ) (ttl : Option ℤ) :
    now < expiresAt settings now ttl := by
  simp only [expiresAt]
  omega

theorem exists_build (configured : signingSecret settings ≠ none) (kind : LinkKind) (now : ℤ)
    (key : String) (ttl : Option ℤ) :
    ∃ link : Link σ, kind.build h settings now key ttl = some link := by
  obtain ⟨secret, found⟩ := Option.ne_none_iff_exists'.mp configured
  have signed : hmacSignature h settings key (expiresAt settings now ttl) =
      some (h.digest secret (key ++ "\n" ++ (expiresAt settings now ttl).repr)) := by
    rw [hmacSignature, found]
    rfl
  exact ⟨⟨Texts.quote keptByte (normalizeObjectKey key), expiresAt settings now ttl, _⟩,
    build_eq_some.mpr ⟨rfl, signed, rfl⟩⟩

theorem configured_of_build (kind : LinkKind) {now : ℤ} {link : Link σ}
    (built : kind.build h settings now key ttl = some link) : signingSecret settings ≠ none := by
  intro none
  have signed := (build_eq_some.mp built).2.1
  rw [hmacSignature, none] at signed
  cases signed

theorem LinkWorld.Paired.issue_iff (paired : w.Paired settings route) :
    (w.issue h settings kind keys ttl).Paired settings route ↔
      w.HarmlessAll settings route kind keys ttl := by
  constructor
  · intro paired' key mem configured under
    obtain ⟨link, built⟩ := exists_build (h := h) configured kind w.now key ttl
    obtain ⟨expires, -, safeKey⟩ := build_eq_some.mp built
    have live : w.now < link.expires := expires ▸ lt_expiresAt settings w.now ttl
    obtain ⟨upload, download, routed⟩ :=
      paired' ⟨kind, key, link⟩ (mem_issue.mpr (.inr ⟨rfl, mem, built⟩)) under live
    rw [← expires]
    cases kind with
    | download =>
      refine ⟨fun inLocal => hasIssued_of_issue (by decide) (upload inLocal), ?_⟩
      rw [← safeKey]
      exact routed rfl
    | upload => exact hasIssued_of_issue (by decide) download
  · intro harmless i mem under live
    rcases mem_issue.mp mem with old | ⟨kind', mem', built⟩
    · obtain ⟨upload, download, routed⟩ := paired i old under live
      exact ⟨fun inLocal => (upload inLocal).issue, download.issue, routed⟩
    · obtain ⟨expires, -, safeKey⟩ := build_eq_some.mp built
      have safe := harmless i.objectKey mem' (configured_of_build _ built) under
      have itself : (w.issue h settings kind keys ttl).HasIssued kind i.objectKey
          i.link.expires := ⟨i, mem, kind', rfl, rfl⟩
      rw [← expires] at safe
      cases kind with
      | download =>
        refine ⟨fun inLocal => (safe.1 inLocal).issue, itself, fun _ => ?_⟩
        rw [safeKey]
        exact safe.2
      | upload =>
        refine ⟨fun _ => itself, LinkWorld.HasIssued.issue safe, fun download => ?_⟩
        rw [kind'] at download
        cases download

end Invariant

section Runs

variable {σ : Type} {h : Hmac σ} {settings : Settings} {route : String → Option String}
  {w : LinkWorld σ}

theorem LinkWorld.Genuine.step (genuine : w.Genuine h settings) (a : LinkAction) :
    (w.step h settings a).Genuine h settings := by
  cases a with
  | tick seconds => exact genuine
  | buildSignedAssetUrl key ttl => exact genuine.issue
  | buildSignedAssetUploadUrl key ttl => exact genuine.issue
  | signAssets keys expires => exact genuine.issue

theorem LinkWorld.Paired.step_iff (paired : w.Paired settings route) (a : LinkAction) :
    (w.step h settings a).Paired settings route ↔ w.Admissible settings route a := by
  cases a with
  | tick seconds =>
    refine iff_of_true (fun i mem under live => paired i mem under ?_) trivial
    have later : w.now + seconds < i.link.expires := live
    omega
  | buildSignedAssetUrl key ttl => exact paired.issue_iff
  | buildSignedAssetUploadUrl key ttl => exact paired.issue_iff
  | signAssets keys expires => exact paired.issue_iff

/-- Links grant what they were issued for, throughout a run of the builders, just when no link
that would do harm is issued. -/
theorem links_confined_iff [DecidableEq σ] (h : Hmac σ) (settings : Settings)
    (route : String → Option String) (now : ℤ) (actions : List LinkAction) :
    (∀ first, first <+: actions → ∀ w,
      run (total (LinkWorld.step h settings)) ⟨now, []⟩ first = some w →
        w.Confined h settings route) ↔
    Along (total (LinkWorld.step h settings)) (LinkWorld.Admissible settings route) ⟨now, []⟩
      actions := by
  refine forall_prefix_iff_along
    (P := fun w => w.Genuine h settings ∧ w.Paired settings route)
    (fun good => good.1.confined_iff.mpr good.2) ?_ ?_ ?_ ⟨?_, ?_⟩
  · intro w a w' good admissible taken
    cases taken
    exact ⟨good.1.step a, (good.2.step_iff a).mpr admissible⟩
  · intro w a w' good taken confined
    cases taken
    exact (good.2.step_iff a).mp ((good.1.step a).confined_iff.mp confined)
  · intro w a stuck
    cases stuck
  · intro i mem
    cases mem
  · intro i mem
    cases mem

def plainHmac : Hmac String := ⟨fun _ message => message, fun _ _ _ same => same⟩

/-- Whoever may read an asset may replace it: the link of `sign_assets` is taken by
`upload_local_asset`. -/
theorem read_link_not_confined : ¬ ∀ (h : Hmac String) (settings : Settings)
    (route : String → Option String) (now : ℤ) (actions : List LinkAction),
      ∀ first, first <+: actions → ∀ w,
        run (total (LinkWorld.step h settings)) ⟨now, []⟩ first = some w →
          w.Confined h settings route := by
  intro always
  have confined := always plainHmac { secretKey := "secret", mode := .local } Texts.unquote 1000
    [.signAssets ["assets/report.pdf"] none] _ List.prefix_rfl _ rfl
  have given : ∃ i ∈ (LinkWorld.step plainHmac { secretKey := "secret", mode := .local } ⟨1000, []⟩
      (.signAssets ["assets/report.pdf"] none)).issued,
        i.link.sig = "assets/report.pdf\n4600" := by decide +kernel
  obtain ⟨i, mem, sig⟩ := given
  have uploaded := confined.upload i mem "assets/report.pdf" 4600 (by
    rw [sig]
    decide +kernel)
  revert uploaded
  unfold LinkWorld.HasIssued
  decide +kernel

/-- Whoever follows a link asks for the normalised key, and is admitted while the link lasts just
when this is the key that was signed, and under the prefix. -/
theorem link_admitted_iff {σ : Type} [DecidableEq σ] {h : Hmac σ} {settings : Settings} {now : ℤ}
    {key : String} {ttlSeconds : Option ℤ} {link : Link σ} (later : ℤ)
    (signed : buildSignedAssetUrl h settings now key ttlSeconds = some link) :
    Texts.unquote link.safeKey = some (normalizeObjectKey key) ∧
      (getAssetAdmits h settings later (normalizeObjectKey key) link.expires link.sig = .ok () ↔
        later < link.expires ∧ key.toList.head? ≠ some '/' ∧ '\\' ∉ key.toList ∧
          underPrefix settings key = true) := by
  obtain ⟨sig, digest, rfl⟩ := Option.map_eq_some_iff.mp signed
  refine ⟨Texts.unquote_quote keptByte_plain _, ?_⟩
  rw [getAssetAdmits, verify_eq_ok_iff]
  constructor
  · rintro ⟨early, again, under⟩
    have same : normalizeObjectKey key = key := (hmacSignature_injective again digest).1
    obtain ⟨first, plain⟩ := normalizeObjectKey_eq_iff.mp same
    exact ⟨early, first, plain, same ▸ under⟩
  · rintro ⟨early, first, plain, under⟩
    have same := normalizeObjectKey_eq_iff.mpr ⟨first, plain⟩
    rw [same]
    exact ⟨early, digest, under⟩

theorem link_admitted_spaced : ∃ link,
    buildSignedAssetUrl plainHmac { secretKey := "secret", mode := .local } 1000 "assets/a b.png"
        none = some link ∧
      link.safeKey = "assets/a%20b.png" ∧
      Texts.unquote link.safeKey = some (normalizeObjectKey "assets/a b.png") ∧
        (getAssetAdmits plainHmac { secretKey := "secret", mode := .local } 2000
            (normalizeObjectKey "assets/a b.png") link.expires link.sig = .ok () ↔
          2000 < link.expires ∧ "assets/a b.png".toList.head? ≠ some '/' ∧
            '\\' ∉ "assets/a b.png".toList ∧
              underPrefix { secretKey := "secret", mode := .local } "assets/a b.png" = true) :=
  ⟨_, rfl, by decide +kernel, link_admitted_iff 2000 rfl⟩

end Runs

end Deeting.Assets
