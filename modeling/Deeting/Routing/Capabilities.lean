import Deeting.Agent.ToolCalls
import Deeting.IgnoreCase

/-! The names of model capabilities: an alias is made canonical, and a capability is looked for
under every name it has. -/
namespace Deeting.Routing
open Deeting.Agent (stripText)

/-- `_CAPABILITY_ALIAS_TO_CANONICAL`. -/
def capabilityAliases : List (String × String) :=
  [("chat", "chat"), ("chat_completion", "chat"), ("chat_completions", "chat"),
    ("text_generation", "chat"), ("text", "chat"), ("reasoning", "chat"), ("code", "chat"),
    ("vision", "chat"), ("embedding", "embedding"), ("embeddings", "embedding"),
    ("vector", "embedding"), ("image_generation", "image_generation"),
    ("image", "image_generation"), ("image_gen", "image_generation"),
    ("text_to_image", "image_generation"), ("text_to_speech", "text_to_speech"),
    ("tts", "text_to_speech"), ("speech", "text_to_speech"), ("speech_to_text", "speech_to_text"),
    ("stt", "speech_to_text"), ("audio", "speech_to_text"), ("audio_to_text", "speech_to_text"),
    ("transcription", "speech_to_text"), ("video_generation", "video_generation"),
    ("video", "video_generation"), ("video_gen", "video_generation"),
    ("text_to_video", "video_generation"), ("t2v", "video_generation")]

def prefixRules : List (String × String) :=
  [("text-embedding", "embedding"), ("embedding", "embedding"), ("ada-embedding", "embedding"),
    ("whisper", "speech_to_text"), ("tts-", "text_to_speech"), ("gpt-image", "image_generation"),
    ("dall-e", "image_generation"), ("sd", "image_generation"), ("flux", "image_generation"),
    ("glm-image", "image_generation"), ("qwen-image", "image_generation"),
    ("doubao-seedance", "video_generation"), ("doubao-video", "video_generation"),
    ("kling", "video_generation"), ("cogvideox", "video_generation"),
    ("wan-x", "video_generation"), ("gen-", "video_generation"), ("claude", "chat")]

/-- `REGEX_RULES`, each expression by the words it finds. -/
def wordRules : List (List String × String) :=
  [(["embed", "embedding"], "embedding"),
    (["whisper", "transcrib", "stt", "speech-to-text"], "speech_to_text"),
    (["tts", "text-to-speech"], "text_to_speech"),
    (["dalle", "dall-e", "dall_e", "sd", "sdxl", "flux", "image", "img", "pixart", "kolors",
      "kandinsky"], "image_generation"),
    (["seedance", "videogen", "video-gen", "video_gen", "runway", "kling", "cogvideo", "wanx",
      "wan-x", "wan_x", "hunyuanvideo", "hunyuan-video", "hunyuan_video"], "video_generation")]

/-- `replace` of one character. -/
def swap (old new : Char) (text : String) : String :=
  String.ofList (text.toList.map fun c => if c = old then new else c)

section
variable (lower : String → String)

def normalizeToken (value : String) : String :=
  swap ' ' '_' (swap '-' '_' (lower (stripText value)))

def normalizeCapability (capability : String) : Option String :=
  let token := normalizeToken lower capability
  if token = "" then none
  else some (((capabilityAliases.find? fun entry => entry.1 = token).map Prod.snd).getD token)

/-- `normalize_capabilities`, with `chat` for none. -/
def normalizeCapabilities (capabilities : List String) : List String :=
  let normalized := capabilities.foldl (fun names capability =>
    match normalizeCapability lower capability with
    | none => names
    | some canonical => if canonical ∈ names then names else names ++ [canonical]) []
  if normalized = [] then (normalizeCapability lower "chat").toList else normalized

def guessCapabilities (modelId : String) : List String :=
  match prefixRules.find? fun rule => rule.1.toList.isPrefixOf (lower modelId).toList with
  | some rule => [rule.2]
  | none =>
    match wordRules.find? fun rule =>
        rule.1.any fun word => IgnoreCase.occursIn word.toList modelId.toList with
    | some rule => [rule.2]
    | none => ["chat"]

def joinName (names : List String) (name : String) : List String :=
  if name ∈ names then names else names ++ [name]

/-- `_CAPABILITY_EXPANSION_MAP`. -/
def otherNames (canonical : String) : List String :=
  (capabilityAliases.filter fun entry => entry.2 = canonical ∧ entry.1 ≠ canonical).map Prod.fst

def expandCapabilities (capability : String) : List String :=
  match normalizeCapability lower capability with
  | none => []
  | some canonical =>
      let kebabs := (otherNames canonical).flatMap fun name => [name, swap '_' '-' name]
      let raw := lower (stripText capability)
      let names := joinName (kebabs.foldl joinName [canonical]) (swap '_' '-' canonical)
      if raw = "" then names else joinName names raw

variable {lower} {names : List String} {name other : String}

theorem mem_joinName : name ∈ joinName names other ↔ name ∈ names ∨ name = other := by
  rw [joinName]
  split
  · rename_i present
    refine (or_iff_left_of_imp ?_).symm
    rintro rfl
    exact present
  · rw [List.mem_append, List.mem_singleton]

theorem mem_foldl_joinName (added : List String) :
    name ∈ added.foldl joinName names ↔ name ∈ names ∨ name ∈ added := by
  induction added generalizing names with
  | nil => simp
  | cons head rest ih => rw [List.foldl_cons, ih, mem_joinName, List.mem_cons, or_assoc]

theorem canonical_mem {capability canonical : String}
    (named : normalizeCapability lower capability = some canonical) :
    canonical ∈ expandCapabilities lower capability := by
  have among : canonical ∈ joinName (((otherNames canonical).flatMap fun name =>
      [name, swap '_' '-' name]).foldl joinName [canonical]) (swap '_' '-' canonical) :=
    mem_joinName.mpr (.inl ((mem_foldl_joinName _).mpr (.inl List.mem_cons_self)))
  simp only [expandCapabilities, named]
  split
  · exact among
  · exact mem_joinName.mpr (.inl among)

theorem expandCapabilities_eq_nil {capability : String} :
    expandCapabilities lower capability = [] ↔ normalizeCapability lower capability = none := by
  constructor
  · intro none_
    cases named : normalizeCapability lower capability with
    | none => rfl
    | some canonical =>
      have among := canonical_mem named
      rw [none_] at among
      cases among
  · intro none_
    simp only [expandCapabilities, none_]

theorem expandCapabilities_empty (empty : lower "" = "") : expandCapabilities lower "" = [] := by
  rw [expandCapabilities_eq_nil, normalizeCapability, normalizeToken]
  have plain : stripText "" = "" := rfl
  rw [plain, empty]
  rfl

end
end Deeting.Routing
