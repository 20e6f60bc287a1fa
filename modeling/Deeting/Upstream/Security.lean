import Deeting.Addresses
import Deeting.Upstream.Polling
import Deeting.Upstream.StreamRetry

/-! `is_safe_upstream_url`, and the URLs that one call of the upstream requests: the first one and
the redirects of every attempt, which are checked, and the polls, which are not. -/
namespace Deeting.Upstream

open Addresses (Address Network ipAddress ipNetwork)
open Texts (decimal?)
open Deeting.Stream (orElse strip)

section Urls

structure ParsedUrl where
  scheme : String
  hostname : Option String
  portText : Option (List Char)
  deriving DecidableEq

/-- The text before and after the first `c`. -/
def partition (c : Char) (text : List Char) : List Char × List Char :=
  (text.takeWhile (· ≠ c), (text.dropWhile (· ≠ c)).drop 1)

/-- The text after the last `c`, or all of it. -/
def afterLast (c : Char) (text : List Char) : List Char := (text.reverse.takeWhile (· ≠ c)).reverse

def isSchemeChar (c : Char) : Bool :=
  c.toNat < 128 && (c.isAlphanum || c ∈ ['+', '-', '.'])

def splitScheme (url : List Char) : List Char × List Char :=
  let (scheme, rest) := partition ':' url
  if ':' ∈ url ∧ (scheme.head?.any Char.isAlpha) ∧ scheme.all isSchemeChar then
    (scheme.map Char.toLower, rest)
  else ([], url)

/-- `_check_bracketed_host`: an IPv6 address, or one of a version to come. -/
def bracketedHost (host : List Char) : Bool :=
  if host.head? = some 'v' then
    let (version, rest) := partition '.' (host.drop 1)
    version ≠ [] ∧ version.all (fun c => (Texts.hexValue c).isSome) ∧ rest ≠ []
  else (ipAddress (.ofList host)) matches some (.v6 _)

/-- `_checknetloc`: what `normalize` makes of it holds no separators. -/
def checkNetloc (normalize : String → String) (netloc : List Char) : Bool :=
  let plain := netloc.filter (· ∉ ['@', ':', '#', '?'])
  let normalized := (normalize (.ofList plain)).toList
  netloc.all (·.toNat < 128) || normalized = plain || normalized.all (· ∉ ['/', '?', '#', '@', ':'])

/-- The host and the port of a `netloc`; the host in lower case but for its zone. -/
def hostAndPort (netloc : List Char) : Option String × Option (List Char) :=
  let hostinfo := afterLast '@' netloc
  let (host, port) :=
    if '[' ∈ hostinfo then
      let (host, rest) := partition ']' (partition '[' hostinfo).2
      (host, (partition ':' rest).2)
    else partition ':' hostinfo
  let (name, zone) := partition '%' host
  let host := if '%' ∈ host then name.map Char.toLower ++ '%' :: zone else name.map Char.toLower
  (if host = [] then none else some (.ofList host), if port = [] then none else some port)

/-- `urlparse`, `none` where it raises. -/
def urlparse (normalize : String → String) (url : String) : Option ParsedUrl :=
  let text := (url.toList.dropWhile (·.toNat ≤ 32)).filter (· ∉ ['\t', '\r', '\n'])
  let (scheme, rest) := splitScheme text
  let netloc :=
    if rest.take 2 = ['/', '/'] then (rest.drop 2).takeWhile (· ∉ ['/', '?', '#']) else []
  if ('[' ∈ netloc) ≠ (']' ∈ netloc) then none
  else if '[' ∈ netloc ∧ ¬ bracketedHost (partition ']' (partition '[' netloc).2).1 then none
  else if ¬ checkNetloc normalize netloc then none
  else
    some
      { scheme := .ofList scheme
        hostname := (hostAndPort netloc).1
        portText := (hostAndPort netloc).2 }

/-- `port or (443 if scheme == "https" else 80)`, `none` where `port` raises. -/
def ParsedUrl.port (u : ParsedUrl) : Option ℕ :=
  let default := if u.scheme = "https" then 443 else 80
  match u.portText with
  | none => some default
  | some text => ((decimal? text).filter (· ≤ 65535)).map fun n => if n = 0 then default else n

end Urls

/-- `_normalize_list` has made lists of both. -/
structure SecuritySettings where
  outboundWhitelist : List String
  blockedSubnets : List String
  allowCustomUpstream : Bool := true
  allowInternalNetworks : Bool := false

/-- What `getaddrinfo` gives: texts of addresses, an `OSError`, or another exception. -/
inductive Resolution where
  | found (ips : List String)
  | osError
  | raised

/-- Name resolution, `unicodedata.normalize` with NFKC, and `urljoin`. -/
structure Net where
  getaddrinfo : String → ℕ → Resolution
  normalize : String → String
  urljoin : String → String → Option String

def SecuritySettings.networks (s : SecuritySettings) : List Network :=
  s.blockedSubnets.filterMap ipNetwork

def isHostnameWhitelisted (hostname : String) (whitelist : List String) : Bool :=
  let host := strip (hostname.toList.map Char.toLower)
  hostname ≠ "" && whitelist.any fun allowed =>
    let allowed := strip (allowed.toList.map Char.toLower)
    if allowed.take 2 = ['*', '.'] then allowed.drop 1 <:+ host || host = allowed.drop 2
    else allowed ≠ [] && host = allowed

section Check

variable (s : SecuritySettings) (net : Net)

def ParsedUrl.addresses (u : ParsedUrl) (host : String) : List Address :=
  match ipAddress host with
  | some ip => [ip]
  | none =>
    match u.port.map (net.getaddrinfo host) with
    | some (.found ips) => ips.filterMap ipAddress
    | _ => []

def blocked (ip : Address) : Bool := s.networks.any (·.contains ip)

/-- `is_safe_upstream_url`, `none` where it raises. -/
def isSafeUpstreamUrl (url : String) : Option Bool :=
  if url = "" then some false
  else
    match urlparse net.normalize url with
    | none => some false
    | some parsed =>
      if parsed.scheme ≠ "http" ∧ parsed.scheme ≠ "https" then some false
      else
        match parsed.hostname with
        | none => some false
        | some hostname =>
          if isHostnameWhitelisted hostname s.outboundWhitelist then some true
          else if ¬ s.allowCustomUpstream then some false
          else if s.allowInternalNetworks then some true
          else
            match ipAddress hostname with
            | some ip => some !(blocked s ip)
            | none =>
              match parsed.port.map (net.getaddrinfo hostname) with
              | none | some .raised => none
              | some .osError => some false
              | some (.found ips) => some !((ips.filterMap ipAddress).any (blocked s))

def checks : Checks where
  safe := isSafeUpstreamUrl s net
  urljoin := net.urljoin

end Check

/-- What `execute` goes by when it sends. -/
structure UpstreamCall where
  url : String
  allowedModels : List String := []
  model : Option String := none
  proxyMaxRetries : ℤ := 1
  stream : Bool := false
  asyncConfig : Json := .obj []
  headers : Json := .obj []

/-- What comes back: for each attempt and hop, and for each poll. -/
structure Replies where
  plain : ℕ → ℕ → Answer Json
  streamed : ℕ → ℕ → Answer StreamedResponse
  polls : ℕ → PollAnswer
  clock : Clock

namespace UpstreamCall

variable (s : SecuritySettings) (net : Net) (env : Readings) (c : UpstreamCall) (replies : Replies)

def asyncEnabled : Bool := c.asyncConfig.get "enabled" matches .bool true

def streamCall : StreamCall where
  allowedModels := c.allowedModels
  model := c.model
  url := c.url
  checks := checks s net
  proxyMaxRetries := c.proxyMaxRetries

/-- `_request_with_redirects` for the `i`-th attempt. -/
def fetch (i : ℕ) : List String × Except RequestError Json :=
  followRedirects (checks s net) maxUpstreamRedirects (replies.plain i) c.url

/-- What ends the `i`-th attempt of `_call_upstream`. -/
def fetchEnds (i : ℕ) : Option RequestError :=
  match (c.fetch s net replies i).2 with
  | .ok _ => none
  | .error error => some error

/-- How many attempts `_call_upstream` makes. -/
def fetches : ℕ := rounds (c.fetchEnds s net replies) ((c.streamCall s net).proxyAttempts - 1) 0

def streams : Bool := c.stream && !c.asyncEnabled

/-- The URLs of the `i`-th attempt. -/
def attemptUrls (i : ℕ) : List String :=
  if c.streams then
    (followRedirects (checks s net) maxUpstreamRedirects (replies.streamed i) c.url).1
  else (c.fetch s net replies i).1

def attempts : ℕ :=
  if c.streams then (c.streamCall s net).made replies.streamed else c.fetches s net replies

def starts : Prop := isSafeUpstreamUrl s net c.url = some true ∧ (c.streamCall s net).allowed

instance : Decidable (c.starts s net) := inferInstanceAs (Decidable (_ ∧ _))

def attempted : List String :=
  if c.starts s net then
    (List.range (c.attempts s net replies)).flatMap (c.attemptUrls s net replies)
  else []

/-- The requests of `_poll_async_result`; the loop has one round. -/
def polled : List String :=
  if c.starts s net ∧ c.asyncEnabled then
    match (c.fetch s net replies (c.fetches s net replies - 1)).2 with
    | .error _ => []
    | .ok body =>
      let submitted := normalizeJsonResponse body
      match prepare env c.asyncConfig submitted c.headers c.url with
      | .error _ => []
      | .ok poll =>
        let ended := pollAsyncResult env c.asyncConfig submitted c.headers c.url replies.polls
          replies.clock 1
        List.replicate ((ended.map Ended.polls).getD 0) (poll.url.string?.getD "")
  else []

def requested : List String := c.attempted s net replies ++ c.polled s net env replies

end UpstreamCall

section Confinement

variable (s : SecuritySettings) (net : Net)

/-- The host of the URL is whitelisted, or none of its addresses counts as a blocked one. -/
def Allowed (url : String) : Prop :=
  ∀ parsed host, urlparse net.normalize url = some parsed → parsed.hostname = some host →
    isHostnameWhitelisted host s.outboundWhitelist ∨
      ∀ ip ∈ parsed.addresses net host, ¬ blocked s ip.unmapped

/-- No address of a host that is not whitelisted stands for a blocked IPv4 address. -/
def NoMapped (url : String) : Prop :=
  ∀ parsed host, urlparse net.normalize url = some parsed → parsed.hostname = some host →
    ¬ isHostnameWhitelisted host s.outboundWhitelist →
      ∀ ip ∈ parsed.addresses net host, ∀ four, ip.ipv4Mapped = some four → ¬ blocked s four

variable {s net} {url : String}

theorem not_blocked_of_safe (internal : s.allowInternalNetworks = false)
    (safe : isSafeUpstreamUrl s net url = some true) {parsed : ParsedUrl} {host : String}
    (parses : urlparse net.normalize url = some parsed) (named : parsed.hostname = some host) :
    isHostnameWhitelisted host s.outboundWhitelist ∨
      ∀ ip ∈ parsed.addresses net host, ¬ blocked s ip := by
  simp only [isSafeUpstreamUrl, parses, named, internal] at safe
  by_cases listed : isHostnameWhitelisted host s.outboundWhitelist
  · exact .inl listed
  right
  unfold ParsedUrl.addresses
  grind

/-- A checked URL is allowed exactly when no address of it is a blocked one in disguise. -/
theorem allowed_iff_noMapped (internal : s.allowInternalNetworks = false)
    (safe : isSafeUpstreamUrl s net url = some true) : Allowed s net url ↔ NoMapped s net url := by
  constructor
  · intro allowed parsed host parses named unlisted ip mem four mapped
    have clear := (allowed parsed host parses named).resolve_left unlisted ip mem
    rwa [Address.unmapped_of_mapped mapped] at clear
  · intro plain parsed host parses named
    obtain listed | clear := not_blocked_of_safe internal safe parses named
    · exact .inl listed
    by_cases listed : isHostnameWhitelisted host s.outboundWhitelist
    · exact .inl listed
    right
    intro ip mem
    cases mapped : ip.ipv4Mapped with
    | none =>
      rw [Address.unmapped_of_not_mapped mapped]
      exact clear ip mem
    | some four =>
      rw [Address.unmapped_of_mapped mapped]
      exact plain parsed host parses named listed ip mem four mapped

end Confinement

section Requests

variable {s : SecuritySettings} {net : Net} {env : Readings} {c : UpstreamCall} {replies : Replies}

theorem attemptUrls_spec (i : ℕ) :
    ∃ later, c.attemptUrls s net replies i = c.url :: later ∧
      later.length ≤ maxUpstreamRedirects ∧
      ∀ url ∈ later, isSafeUpstreamUrl s net url = some true := by
  unfold UpstreamCall.attemptUrls
  split
  · exact followRedirects_requested
  · exact followRedirects_requested

theorem attempted_safe {url : String} (requested : url ∈ c.attempted s net replies) :
    isSafeUpstreamUrl s net url = some true := by
  unfold UpstreamCall.attempted at requested
  split at requested
  · rename_i starts
    obtain ⟨i, _, mem⟩ := List.mem_flatMap.mp requested
    obtain ⟨later, urls, _, checked⟩ := @attemptUrls_spec s net c replies i
    rw [urls] at mem
    rcases List.mem_cons.mp mem with rfl | after
    · exact starts.1
    · exact checked url after
  · cases requested

end Requests

/-- Every request goes where it may, and no attempt follows too many redirects. -/
structure Confined (s : SecuritySettings) (net : Net) (env : Readings) (c : UpstreamCall)
    (replies : Replies) : Prop where
  allowed : ∀ url ∈ c.requested s net env replies, Allowed s net url
  few : ∀ i, (c.attemptUrls s net replies i).length ≤ maxUpstreamRedirects + 1

/-- The requests stay out of the blocked networks exactly when no checked URL has a blocked IPv4
address in disguise and the poll URL, which nothing checks, is allowed. -/
theorem requests_confined_iff (s : SecuritySettings) (net : Net) (env : Readings) (c : UpstreamCall)
    (replies : Replies) (internal : s.allowInternalNetworks = false) :
    Confined s net env c replies ↔
      (∀ url ∈ c.attempted s net replies, NoMapped s net url) ∧
        ∀ url ∈ c.polled s net env replies, Allowed s net url := by
  have same (url : String) (requested : url ∈ c.attempted s net replies) :
      Allowed s net url ↔ NoMapped s net url :=
    allowed_iff_noMapped internal (attempted_safe requested)
  constructor
  · intro confined
    obtain ⟨checked, polls⟩ := List.forall_mem_append.mp confined.allowed
    exact ⟨fun url requested => (same url requested).mp (checked url requested), polls⟩
  · rintro ⟨plain, polls⟩
    refine ⟨List.forall_mem_append.mpr ⟨fun url requested => ?_, polls⟩, fun i => ?_⟩
    · exact (same url requested).mpr (plain url requested)
    · obtain ⟨later, urls, few, _⟩ := @attemptUrls_spec s net c replies i
      rw [urls]
      exact Nat.succ_le_succ few

section Metadata

def blocklist : SecuritySettings where
  outboundWhitelist := ["localhost", "127.0.0.1", "api.openai.com"]
  blockedSubnets := ["127.0.0.0/8", "10.0.0.0/8", "169.254.0.0/16", "::1/128", "fc00::/7"]

/-- One public host, absolute redirects, and texts that are in normal form. -/
def publicNet : Net where
  getaddrinfo := fun host _ =>
    if host = "images.example" then .found ["93.184.216.34"] else .osError
  normalize := id
  urljoin := fun _ location => some location

/-- The configuration of an image provider with this URL for the polls. -/
def pollingAt (url : String) : UpstreamCall where
  url := "https://images.example/v1/images"
  asyncConfig := .obj
    [("enabled", .bool true),
     ("task_id_extraction", .obj [("key_path", .str "body.id")]),
     ("poll", .obj
       [("url_template", .str url),
        ("status_check", .obj
          [("location", .str "body.status"), ("success_values", .arr [.str "succeeded"])])])]

/-- The submit is answered with a task, and its first poll finds it done. -/
def submits : Replies where
  plain := fun _ _ => .final submitted
  streamed := fun _ _ => .failed (.other "no stream")
  polls := runsFor 0
  clock := everyFive

/-- Polls at the provider itself. -/
theorem polls_of_provider_confined :
    Confined blocklist publicNet literal (pollingAt "https://images.example/v1/tasks/7") submits := by
  have first : (pollingAt "https://images.example/v1/tasks/7").attempted blocklist publicNet submits =
      ["https://images.example/v1/images"] := by decide +kernel
  have polls : (pollingAt "https://images.example/v1/tasks/7").polled blocklist publicNet literal
      submits = ["https://images.example/v1/tasks/7"] := by decide +kernel
  have clear (url : String) (host : urlparse id url = some ⟨"https", some "images.example", none⟩) :
      Allowed blocklist publicNet url := by
    intro parsed name parses named
    obtain rfl := Option.some.inj (host.symm.trans parses)
    obtain rfl := Option.some.inj named
    exact .inr (by decide +kernel)
  have checked : ∀ url ∈ (pollingAt "https://images.example/v1/tasks/7").attempted blocklist publicNet
      submits, NoMapped blocklist publicNet url := by
    rw [first]
    refine List.forall_mem_singleton.mpr ((allowed_iff_noMapped rfl ?_).mp (clear _ ?_)) <;>
      decide +kernel
  refine (requests_confined_iff blocklist publicNet literal
    (pollingAt "https://images.example/v1/tasks/7") submits rfl).mpr ⟨checked, ?_⟩
  rw [polls]
  exact List.forall_mem_singleton.mpr (clear _ (by decide +kernel))

def mappedUpstream : UpstreamCall where
  url := "https://[::ffff:169.254.169.254]/v1/chat/completions"

/-- A poll URL at the metadata service is requested, and so is the service under its IPv6 name. -/
theorem metadata_service_requested :
    ¬ Confined blocklist publicNet literal (pollingAt "http://169.254.169.254/latest") submits ∧
      ¬ Confined blocklist publicNet literal mappedUpstream submits := by
  constructor
  · intro confined
    have polls : (pollingAt "http://169.254.169.254/latest").polled blocklist publicNet literal submits =
        ["http://169.254.169.254/latest"] := by decide +kernel
    have allowed := confined.allowed "http://169.254.169.254/latest"
      (List.mem_append_right _ (polls ▸ List.mem_singleton_self _))
    have clear := allowed ⟨"http", some "169.254.169.254", none⟩ _ (by decide +kernel) rfl
    exact absurd clear (by decide +kernel)
  · intro confined
    have first : mappedUpstream.attempted blocklist publicNet submits =
        ["https://[::ffff:169.254.169.254]/v1/chat/completions"] := by decide +kernel
    have allowed := confined.allowed "https://[::ffff:169.254.169.254]/v1/chat/completions"
      (List.mem_append_left _ (first ▸ List.mem_singleton_self _))
    have clear := allowed ⟨"https", some "::ffff:169.254.169.254", none⟩ _ (by decide +kernel) rfl
    exact absurd clear (by decide +kernel)

end Metadata

end Deeting.Upstream
