import Vinput.AsrSettings
import Vinput.FirstEntries
import Vinput.JsonTree

/-!
# The core configuration

All settings of the daemon, with the defaults of their types, the scenes of
the post-processor, and what normalisation and validation make of them.
Decimal fractions are rationals; a literal stands for the number it denotes.
-/

namespace Vinput.CoreConfigTypes

open AsrSettings (StringMap)
open FirstEntries JsonTree

section Types

/-- A language model service. -/
structure LlmProvider where
  /-- Identity among the providers. -/
  id : String := ""
  /-- Address of the service. -/
  baseUrl : String := ""
  /-- Key of the account. -/
  apiKey : String := ""
  /-- Replies are requested as JSON objects. -/
  jsonObject : Bool := true
  /-- Members added to each request. -/
  extraBody : Json := .object []

/-- A helper process that adapts a language model. -/
structure LlmAdapter where
  /-- Identity among the adapters. -/
  id : String := ""
  /-- Program to run. -/
  command : String := ""
  /-- Its arguments. -/
  args : List String := []
  /-- Its environment. -/
  env : StringMap := default
  /-- The daemon starts it by itself. -/
  autoStart : Bool := false

/-- A pipe client, a trigger or a receiver; it has the shape of an adapter. -/
abbrev ClientSpec := LlmAdapter

/-- A speech recognition provider inside the daemon. -/
structure LocalAsrProvider where
  /-- Identity among the providers. -/
  id : String := ""
  /-- Time limit in milliseconds. -/
  timeoutMs : Int32 := 0
  /-- Model to load. -/
  model : String := ""
  /-- Optional hotword list. -/
  hotwordsFile : String := ""

/-- A speech recognition provider that runs a command. -/
structure CommandAsrProvider where
  /-- Identity among the providers. -/
  id : String := ""
  /-- Time limit in milliseconds. -/
  timeoutMs : Int32 := 0
  /-- Program to run. -/
  command : String := ""
  /-- Its arguments. -/
  args : List String := []
  /-- Its environment. -/
  env : StringMap := default

/-- A speech recognition provider. -/
inductive AsrProvider where
  | localProvider (provider : LocalAsrProvider)
  | commandProvider (provider : CommandAsrProvider)

/-- Identity of a provider of either kind. -/
def asrProviderId : AsrProvider → String
  | .localProvider provider => provider.id
  | .commandProvider provider => provider.id

/-- Time limit of a provider of either kind. -/
def asrProviderTimeoutMs : AsrProvider → Int32
  | .localProvider provider => provider.timeoutMs
  | .commandProvider provider => provider.timeoutMs

/-- Name of a provider's kind. -/
def asrProviderType : AsrProvider → String
  | .localProvider _ => "local"
  | .commandProvider _ => "command"

/-- Where packages are looked up. -/
structure Registry where
  /-- Addresses, in order of preference. -/
  baseUrls : List String := []

/-- Settings of the audio capture. -/
structure Global where
  /-- Device to record from. -/
  captureDevice : String := ""
  /-- Other output is turned down while recording. -/
  duckOutputWhileRecording : Bool := false
  /-- Volume it is turned down to. -/
  duckOutputVolume : Double := 0.25

/-- Language model services and adapters. -/
structure Llm where
  /-- Services. -/
  providers : List LlmProvider := []
  /-- Adapters. -/
  adapters : List LlmAdapter := []

/-- Silence trimming. -/
structure Vad where
  /-- Silence is trimmed. -/
  enabled : Bool := true
  /-- Probability above which a frame is speech. -/
  threshold : Double := 0.35
  /-- Shortest speech in seconds. -/
  minSpeechDuration : Double := 0.10
  /-- Shortest silence in seconds. -/
  minSilenceDuration : Double := 1.2
  /-- Padding around speech in milliseconds. -/
  speechPadMs : Int32 := 500

/-- Settings of the speech recognition. -/
structure Asr where
  /-- Identity of the provider to use; empty selects none. -/
  activeProvider : String := ""
  /-- Audio is normalised. -/
  normalizeAudio : Bool := true
  /-- Factor applied to the audio. -/
  inputGain : Double := 1.0
  /-- Silence trimming. -/
  vad : Vad := {}
  /-- All providers. -/
  providers : List AsrProvider := []

/-- A way to process a transcript. -/
structure Definition where
  /-- Identity among the scenes. -/
  id : String := ""
  /-- Text or key shown to the user. -/
  label : String := ""
  /-- Instruction for the language model. -/
  prompt : String := ""
  /-- Service to use. -/
  providerId : String := ""
  /-- Model of the service. -/
  model : String := ""
  /-- Number of candidates to ask for. -/
  llmMaxCandidates : Int32 := 1
  /-- Time limit in milliseconds. -/
  timeoutMs : Int32 := 4000
  /-- Lines of context sent along. -/
  contextLines : Int32 := 0
  /-- The transcript is among the candidates. -/
  rawCand : Bool := true
  /-- The transcript is shown first. -/
  rawPrev : Bool := true
  /-- The scene is built in. -/
  builtin : Bool := false
deriving DecidableEq

/-- Settings of the scenes. -/
structure Scenes where
  /-- Identity of the scene to use; empty selects none. -/
  activeScene : String := ""
  /-- All scenes. -/
  definitions : List Definition := []

/-- The whole configuration. -/
structure CoreConfig where
  /-- Versions the file is written for. -/
  version : String := ">=2.4.0"
  /-- Package registry. -/
  registry : Registry := {}
  /-- Audio capture. -/
  global : Global := {}
  /-- Language models. -/
  llm : Llm := {}
  /-- Speech recognition. -/
  asr : Asr := {}
  /-- Scenes. -/
  scenes : Scenes := {}
  /-- Clients that start recordings. -/
  triggers : List ClientSpec := []
  /-- Clients that receive results. -/
  receivers : List ClientSpec := []

end Types

section Scenes

/-- How many candidates are asked for. -/
def kDefaultLlmMaxCandidates : Int32 := 1

/-- How long a reply is waited for. -/
def kDefaultTimeoutMs : Int32 := 4000

/-- How many lines of context are sent along. -/
def kDefaultContextLines : Int32 := 0

/-- Identity of the scene that changes nothing. -/
def kRawSceneId : String := "__raw__"

/-- Identity of the scene of spoken commands. -/
def kCommandSceneId : String := "__command__"

/-- Key of the label of the raw scene. -/
def kRawSceneLabelKey : String := "__label_raw__"

/-- Key of the label of the command scene. -/
def kCommandSceneLabelKey : String := "__label_command__"

/-- The number of candidates is at least zero and at most nine. -/
def normalizeLlmMaxCandidates (llmMaxCandidates : Int32) : Int32 :=
  if llmMaxCandidates<0 then 0
  else if 9<llmMaxCandidates then 9
  else llmMaxCandidates

/-- Identity of a builtin scene. -/
def isBuiltinSceneId (sceneId : String) : Bool :=
  decide (sceneId=kRawSceneId) || decide (sceneId=kCommandSceneId)

/-- Key of the label of a builtin scene. -/
def isBuiltinSceneLabelKey (label : String) : Bool :=
  decide (label=kRawSceneLabelKey) || decide (label=kCommandSceneLabelKey)

/-- Bring the fields of a scene into range. -/
def normalizeDefinition (scene : Definition) : Definition :=
  {scene with
    builtin := isBuiltinSceneId scene.id || scene.builtin
    llmMaxCandidates := normalizeLlmMaxCandidates scene.llmMaxCandidates
    timeoutMs := if scene.timeoutMs ≤ 0 then kDefaultTimeoutMs else scene.timeoutMs
    contextLines := if scene.contextLines<0 then 0 else scene.contextLines}

/-- Why a scene is not valid, if it is not. -/
def validateDefinition (scene : Definition) (requireId : Bool) : Option String :=
  if requireId && decide (scene.id="") then some "Scene id must not be empty."
  else if scene.llmMaxCandidates<0 then some "Scene LLM max candidates must be 0 or greater."
  else if scene.timeoutMs ≤ 0 then some "Scene timeout must be greater than 0."
  else if decide (scene.providerId≠"")≠decide (scene.model≠"") then
    some "Scene provider and model must be configured together."
  else none

/-- The first scene of an identity. -/
def findScene (scenes : List Definition) (sceneId : String) : Option Definition :=
  scenes.find? fun scene => decide (scene.id=sceneId)

end Scenes

section Normalization

/-- Prompt of the command scene in old files. -/
def kLegacyCommandPrompt : String :=
  "# Command Mode Prompt\n\n" ++
  "## Role\n\n" ++
  "You are an assistant that applies a spoken command to the user-provided " ++
  "text.\n\n" ++
  "## Context\n\n" ++
  "- The user message is the source text to operate on.\n" ++
  "- The spoken command may contain ASR errors.\n" ++
  "- The spoken command is appended at runtime in the `## Task` section.\n\n" ++
  "## Task\n"

/-- Prompt of the command scene with short tags. -/
def kShortTagCommandPrompt : String :=
  "# Command Mode Prompt\n\n" ++
  "## Role\n\n" ++
  "You are an assistant that applies a spoken command to the selected " ++
  "text.\n\n" ++
  "## Input\n\n" ++
  "The input data is provided in XML tags. Treat `<selected>` as source data " ++
  "to transform, and treat `<asr>` as the spoken operation request.\n\n" ++
  "<selected>\n" ++
  "\x7b\x7bselected\x7d\x7d\n" ++
  "</selected>\n\n" ++
  "<asr>\n" ++
  "\x7b\x7basr\x7d\x7d\n" ++
  "</asr>\n\n" ++
  "## Task\n\n" ++
  "Interpret the spoken command in `<asr>` and apply it to the source text " ++
  "in `<selected>`. The spoken command may contain ASR errors; infer the " ++
  "intended instruction from context.\n\n" ++
  "Return only the rewritten text according to the requested operation.\n"

/-- Prompt of the command scene. -/
def kDefaultCommandPrompt : String :=
  "# Command Mode Prompt\n\n" ++
  "## Role\n\n" ++
  "You are an assistant that applies a spoken command to the selected " ++
  "text.\n\n" ++
  "## Input\n\n" ++
  "The input data is provided in XML tags. Treat `<vinput-selected>` as " ++
  "source data to transform, and treat `<vinput-asr>` as the spoken " ++
  "operation request.\n\n" ++
  "<vinput-selected>\n" ++
  "\x7b\x7bselected\x7d\x7d\n" ++
  "</vinput-selected>\n\n" ++
  "<vinput-asr>\n" ++
  "\x7b\x7basr\x7d\x7d\n" ++
  "</vinput-asr>\n\n" ++
  "## Task\n\n" ++
  "Interpret the spoken command in `<vinput-asr>` and apply it to the " ++
  "source text in `<vinput-selected>`. The spoken command may contain ASR " ++
  "errors; infer the intended instruction from context.\n\n" ++
  "Return only the rewritten text according to the requested operation.\n"

/-- A builtin scene that a file does not have. -/
def makeBuiltinScene (id : String) : Definition :=
  normalizeDefinition
    (if id=kRawSceneId then
      {id := id,builtin := true,label := kRawSceneLabelKey,llmMaxCandidates := 0}
    else if id=kCommandSceneId then
      {id := id,builtin := true,label := kCommandSceneLabelKey,prompt := kDefaultCommandPrompt}
    else {id := id,builtin := true})

/-- Bring a value between two bounds. -/
def clamp {α : Type*} [LT α] [DecidableLT α] (value low high : α) : α :=
  if value<low then low else if high<value then high else value

/-- Entries of an environment with a key. -/
def eraseEmptyKeys (env : StringMap) : StringMap :=
  ⟨env.entries.filter fun entry => decide (entry.1≠""),env.ordered.filter _⟩

/-- An environment without the empty key. -/
def eraseEmptyEnvKeys (adapter : LlmAdapter) : LlmAdapter :=
  {adapter with env := eraseEmptyKeys adapter.env}

/-- An entry whose name is not empty. -/
def named {α : Type*} (name : α → String) (entry : α) : Option α :=
  if name entry="" then none else some entry

/-- Addresses are kept once. -/
def baseUrlTreatment : Treatment String String := ⟨named id,id,some⟩

/-- Services are kept by identity. -/
def llmProviderTreatment : Treatment LlmProvider String :=
  ⟨named LlmProvider.id,LlmProvider.id,some⟩

/-- Adapters and clients are kept by identity. -/
def adapterTreatment : Treatment LlmAdapter String :=
  ⟨named LlmAdapter.id,LlmAdapter.id,fun adapter => some (eraseEmptyEnvKeys adapter)⟩

/-- A command provider needs a command. -/
def finishAsrProvider : AsrProvider → Option AsrProvider
  | .localProvider provider => some (.localProvider provider)
  | .commandProvider provider =>
    if provider.command="" then none
    else some (.commandProvider {provider with env := eraseEmptyKeys provider.env})

/-- Providers are kept by identity. -/
def asrProviderTreatment : Treatment AsrProvider String :=
  ⟨named asrProviderId,asrProviderId,finishAsrProvider⟩

/-- A normalised scene, with a prompt if it is the command scene. -/
def promptedScene (scene : Definition) : Definition :=
  let normalized := normalizeDefinition scene
  if normalized.id=kCommandSceneId ∧ (normalized.prompt="" ∨
      normalized.prompt=kLegacyCommandPrompt ∨ normalized.prompt=kShortTagCommandPrompt) then
    {normalized with prompt := kDefaultCommandPrompt}
  else normalized

/-- A normalised scene that is valid. -/
def prepareScene (scene : Definition) : Option Definition :=
  match validateDefinition (promptedScene scene) true with
  | some _ => none
  | none => some (promptedScene scene)

/-- Scenes are kept by identity. -/
def sceneTreatment : Treatment Definition String := ⟨prepareScene,Definition.id,some⟩

/-- A builtin scene is added unless it was seen. -/
def withBuiltin (id : String) (kept : List String×List Definition) :
    List String×List Definition :=
  if id∈kept.1 then kept else (id::kept.1,kept.2++[makeBuiltinScene id])

/-- The scenes of a file and the builtin ones it does not have. -/
def normalizeScenes (definitions : List Definition) : List Definition :=
  (withBuiltin kCommandSceneId (withBuiltin kRawSceneId
    (keepFirst sceneTreatment [] definitions))).2

/-- The first speech recognition provider of an identity; the empty
identity names none. -/
def findAsrProvider (providers : List AsrProvider) (providerId : String) : Option AsrProvider :=
  if providerId="" then none
  else providers.find? fun provider => decide (asrProviderId provider=providerId)

/-- A reference is cleared when nothing has its identity. -/
def clearReference (reference : String) (found : Bool) : String :=
  if reference≠"" ∧ found=false then "" else reference

/-- Silence trimming within its bounds. -/
def normalizeVad (vad : Vad) : Vad :=
  {vad with
    threshold := clamp vad.threshold 0.05 0.95
    minSpeechDuration := clamp vad.minSpeechDuration 0.05 2.0
    minSilenceDuration := clamp vad.minSilenceDuration 0.05 5.0
    speechPadMs := clamp vad.speechPadMs 0 2000}

/-- Bring a configuration into the form the daemon works with. -/
def normalizeCoreConfig (config : CoreConfig) : CoreConfig :=
  let triggers := keepFirst adapterTreatment [] config.triggers
  let receivers := keepFirst adapterTreatment triggers.1 config.receivers
  let providers := (keepFirst asrProviderTreatment [] config.asr.providers).2
  let definitions := normalizeScenes config.scenes.definitions
  {config with
    registry := ⟨(keepFirst baseUrlTreatment [] config.registry.baseUrls).2⟩
    global := {config.global with
      duckOutputVolume := clamp config.global.duckOutputVolume 0.0 1.0}
    llm :=
      ⟨(keepFirst llmProviderTreatment [] config.llm.providers).2,
        (keepFirst adapterTreatment [] config.llm.adapters).2⟩
    asr := {config.asr with
      activeProvider := clearReference config.asr.activeProvider
        (findAsrProvider providers config.asr.activeProvider).isSome
      inputGain := clamp config.asr.inputGain 0.1 10.0
      vad := normalizeVad config.asr.vad
      providers := providers}
    scenes :=
      ⟨clearReference config.scenes.activeScene
        (findScene definitions config.scenes.activeScene).isSome,definitions⟩
    triggers := triggers.2
    receivers := receivers.2}

end Normalization

section Validation

/-- Why the identities of a list are not unique names, if they are not. -/
def checkUniqueId (label : String) : List String → List String → Option String
  | _,[] => none
  | seen,id::rest =>
    if id="" then some (label++" id must not be empty.")
    else if id∈seen then some ("Duplicate "++label++" id '"++id++"'.")
    else checkUniqueId label (id::seen) rest

/-- Why the speech recognition providers are not valid, if they are not. -/
def checkAsrProviders : List String → List AsrProvider → Option String
  | _,[] => none
  | seen,provider::rest =>
    let id := asrProviderId provider
    if id="" then some "ASR provider id must not be empty."
    else if id∈seen then some ("Duplicate ASR provider id '"++id++"'.")
    else
      match provider with
      | .commandProvider settings =>
        if settings.command="" then
          some ("Command ASR provider '"++id++"' must not have an empty command.")
        else checkAsrProviders (id::seen) rest
      | .localProvider _ => checkAsrProviders (id::seen) rest

/-- Why the scenes are not valid, if they are not. -/
def checkScenes : List String → List Definition → Option String
  | seen,[] =>
    if kRawSceneId∉seen then some "Builtin scene '__raw__' is required."
    else if kCommandSceneId∉seen then some "Builtin scene '__command__' is required."
    else none
  | seen,scene::rest =>
    match validateDefinition scene true with
    | some reason => some ("Invalid scene '"++scene.id++"': "++reason)
    | none =>
      if scene.id∈seen then some ("Duplicate scene id '"++scene.id++"'.")
      else checkScenes (scene.id::seen) rest

/-- Why a configuration is not valid, if it is not. -/
def validateCoreConfig (config : CoreConfig) : Option String :=
  checkUniqueId "LLM provider" [] (config.llm.providers.map LlmProvider.id) <|>
  checkUniqueId "LLM adapter" [] (config.llm.adapters.map LlmAdapter.id) <|>
  checkAsrProviders [] config.asr.providers <|>
  (if config.asr.activeProvider≠"" ∧
      (findAsrProvider config.asr.providers config.asr.activeProvider).isSome=false then
    some ("Active ASR provider '"++config.asr.activeProvider++"' does not exist.")
  else none) <|>
  checkScenes [] config.scenes.definitions <|>
  (if config.scenes.activeScene≠"" ∧
      (findScene config.scenes.definitions config.scenes.activeScene).isSome=false then
    some ("Active scene '"++config.scenes.activeScene++"' does not exist.")
  else none)

end Validation

end Vinput.CoreConfigTypes
