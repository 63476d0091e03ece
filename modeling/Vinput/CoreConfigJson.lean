import Mathlib.Data.String.Basic
import Vinput.CoreConfigTypes

/-!
# The configuration file

Every section has a wire form whose members are left out when they hold a
default. The wire forms are written to and read from JSON trees; a text is
what the reader makes of it, so a tree that was written is the tree that is
read. A section of the wrong type is skipped.
-/

namespace Vinput.CoreConfigJson

open AsrSettings (StringMap)
open CoreConfigTypes JsonTree

section Access

/-- The strings of an array. -/
def strings : Json → List String
  | .array elements => elements.filterMap readText
  | _ => []

/-- An array of strings. -/
def fromStrings (values : List String) : Json := .array (values.map .text)

/-- Entries in key order with one more. -/
def assignEntry (key value : String) : List (String×String) → List (String×String)
  | [] => [(key,value)]
  | (name,old)::rest =>
    if key<name then (key,value)::(name,old)::rest
    else if key=name then (key,value)::rest
    else (name,old)::assignEntry key value rest

/-- An entry after an assignment is the new one or an old one. -/
theorem mem_assignEntry {key value : String} {entries : List (String×String)}
    {entry : String×String} (h : entry∈assignEntry key value entries) :
    entry=(key,value) ∨ entry∈entries := by
  induction entries with
  | nil => exact .inl (List.mem_singleton.mp h)
  | cons first rest ih =>
    obtain ⟨name,old⟩ := first
    dsimp only [assignEntry] at h
    split at h
    · exact List.mem_cons.mp h
    · split at h
      · rcases List.mem_cons.mp h with hnew | hrest
        · exact .inl hnew
        · exact .inr (List.mem_cons_of_mem _ hrest)
      · rcases List.mem_cons.mp h with hfirst | hrest
        · exact .inr (hfirst ▸ List.mem_cons_self)
        · exact (ih hrest).imp_right (List.mem_cons_of_mem _)

/-- An assignment keeps the order of the keys. -/
theorem assignEntry_ordered (key value : String) {entries : List (String×String)}
    (ordered : entries.Pairwise fun left right => left.1<right.1) :
    (assignEntry key value entries).Pairwise fun left right => left.1<right.1 := by
  induction entries with
  | nil => exact List.pairwise_singleton _ _
  | cons first rest ih =>
    obtain ⟨name,old⟩ := first
    obtain ⟨hfirst,hrest⟩ := List.pairwise_cons.mp ordered
    dsimp only [assignEntry]
    split
    · rename_i hless
      refine .cons ?_ ordered
      intro entry hentry
      rcases List.mem_cons.mp hentry with hname | hlater
      · rw [hname]
        exact hless
      · exact lt_trans hless (hfirst entry hlater)
    · rename_i hnot
      split
      · rename_i hsame
        refine .cons ?_ hrest
        intro entry hentry
        rw [hsame]
        exact hfirst entry hentry
      · rename_i hother
        refine .cons ?_ (ih hrest)
        intro entry hentry
        rcases mem_assignEntry hentry with hnew | hold
        · rw [hnew]
          exact lt_of_le_of_ne (not_lt.mp hnot) (Ne.symm hother)
        · exact hfirst entry hold

/-- A map with one more entry. -/
def assign (map : StringMap) (key value : String) : StringMap :=
  ⟨assignEntry key value map.entries,assignEntry_ordered key value map.ordered⟩

/-- The strings of an object; the first of a key counts. -/
def stringMap : Json → StringMap
  | .object members =>
    members.foldr (fun entry map => match entry.2 with
      | .text value => assign map entry.1 value
      | _ => map) default
  | _ => default

/-- An object of strings. -/
def fromStringMap (values : StringMap) : Json :=
  .object (values.entries.map fun entry => (entry.1,.text entry.2))

end Access

section Wire

/-- A language model service in a file. -/
structure LlmProviderWire where
  id : String := ""
  baseUrl : Option String := none
  apiKey : Option String := none
  jsonObject : Option Bool := none
  extraBody : Option Json := none

/-- An adapter in a file. -/
structure LlmAdapterWire where
  id : String := ""
  command : String := ""
  args : Option Json := none
  env : Option Json := none
  autoStart : Option Bool := none

/-- A client in a file. -/
abbrev ClientSpecWire := LlmAdapterWire

/-- A speech recognition provider of either kind in a file. -/
structure AsrProviderWire where
  id : String := ""
  type : String := ""
  model : Option String := none
  hotwordsFile : Option String := none
  command : Option String := none
  args : Option Json := none
  env : Option Json := none
  timeoutMs : Option Int32 := none

/-- Settings of the audio capture in a file. -/
structure GlobalWire where
  captureDevice : String := ""
  duckOutputWhileRecording : Bool := false
  duckOutputVolume : Double := 0.25

/-- Silence trimming in a file. -/
structure VadWire where
  enabled : Bool := true
  threshold : Double := 0.35
  minSpeechDuration : Double := 0.10
  minSilenceDuration : Double := 1.2
  speechPadMs : Int32 := 500

/-- The package registry in a file. -/
structure RegistryWire where
  baseUrls : Option Json := none

/-- A scene in a file. -/
structure SceneWire where
  id : String := ""
  label : Option String := none
  prompt : Option String := none
  providerId : Option String := none
  model : Option String := none
  count : Option Int32 := none
  timeoutMs : Option Int32 := none
  contextLines : Option Int32 := none
  rawCand : Option Bool := none
  rawPrev : Option Bool := none

/-- Language models in a file. -/
structure LlmWire where
  providers : Option (List LlmProviderWire) := none
  adapters : Option (List LlmAdapterWire) := none

/-- Speech recognition in a file. -/
structure AsrWire where
  activeProvider : String := ""
  normalizeAudio : Bool := true
  inputGain : Double := 1.0
  vad : Option VadWire := none
  providers : Option (List AsrProviderWire) := none

/-- Scenes in a file. -/
structure ScenesWire where
  activeScene : String := ""
  definitions : Option (List SceneWire) := none

/-- A whole file. -/
structure CoreConfigWire where
  version : Option Json := none
  registry : Option RegistryWire := none
  global : Option GlobalWire := none
  asr : Option AsrWire := none
  llm : Option LlmWire := none
  scenes : Option ScenesWire := none
  triggers : Option (List ClientSpecWire) := none
  receivers : Option (List ClientSpecWire) := none

end Wire

section FromWire

/-- The members added to a request; anything but an object adds none. -/
def extraBodyOf : Option Json → Json
  | some body => if body.isObject then body else .object []
  | none => .object []

/-- A service; absent members keep their values. -/
def LlmProviderWire.fromWire (wire : LlmProviderWire) (provider : LlmProvider) : LlmProvider :=
  {id := wire.id
   baseUrl := wire.baseUrl.getD provider.baseUrl
   apiKey := wire.apiKey.getD provider.apiKey
   jsonObject := wire.jsonObject.getD provider.jsonObject
   extraBody := extraBodyOf wire.extraBody}

/-- An adapter or a client. -/
def LlmAdapterWire.fromWire (wire : LlmAdapterWire) (adapter : LlmAdapter) : LlmAdapter :=
  {id := wire.id
   command := wire.command
   args := (wire.args.map strings).getD adapter.args
   env := (wire.env.map stringMap).getD adapter.env
   autoStart := wire.autoStart.getD adapter.autoStart}

/-- Unknown kinds keep the provider as it is. -/
def AsrProviderWire.fromWire (wire : AsrProviderWire) (provider : AsrProvider) : AsrProvider :=
  if wire.type="local" then
    .localProvider
      {id := wire.id
       model := wire.model.getD ""
       hotwordsFile := wire.hotwordsFile.getD ""
       timeoutMs := wire.timeoutMs.getD 0}
  else if wire.type="command" then
    .commandProvider
      {id := wire.id
       command := wire.command.getD ""
       args := (wire.args.map strings).getD []
       env := (wire.env.map stringMap).getD default
       timeoutMs := wire.timeoutMs.getD 0}
  else provider

/-- The settings of the audio capture. -/
def GlobalWire.fromWire (wire : GlobalWire) : Global :=
  {captureDevice := wire.captureDevice
   duckOutputWhileRecording := wire.duckOutputWhileRecording
   duckOutputVolume := wire.duckOutputVolume}

/-- The silence trimming. -/
def VadWire.fromWire (wire : VadWire) : Vad :=
  {enabled := wire.enabled
   threshold := wire.threshold
   minSpeechDuration := wire.minSpeechDuration
   minSilenceDuration := wire.minSilenceDuration
   speechPadMs := wire.speechPadMs}

/-- The registry; empty addresses are left out. -/
def RegistryWire.fromWire (wire : RegistryWire) : Registry :=
  ⟨((wire.baseUrls.map strings).getD []).filter fun url => decide (url≠"")⟩

/-- A scene; absent members have their defaults. -/
def SceneWire.fromWire (wire : SceneWire) (scene : Definition) : Definition :=
  {scene with
    id := wire.id
    label := wire.label.getD ""
    prompt := wire.prompt.getD ""
    providerId := wire.providerId.getD ""
    model := wire.model.getD ""
    llmMaxCandidates := wire.count.getD kDefaultLlmMaxCandidates
    timeoutMs := wire.timeoutMs.getD kDefaultTimeoutMs
    contextLines := wire.contextLines.getD kDefaultContextLines
    rawCand := wire.rawCand.getD true
    rawPrev := wire.rawPrev.getD true}

/-- The language models. -/
def LlmWire.fromWire (wire : LlmWire) (llm : Llm) : Llm :=
  {providers := (wire.providers.map fun entries => entries.map fun entry =>
     entry.fromWire {}).getD llm.providers
   adapters := (wire.adapters.map fun entries => entries.map fun entry =>
     entry.fromWire {}).getD llm.adapters}

/-- The speech recognition. -/
def AsrWire.fromWire (wire : AsrWire) (asr : Asr) : Asr :=
  {activeProvider := wire.activeProvider
   normalizeAudio := wire.normalizeAudio
   inputGain := wire.inputGain
   vad := (wire.vad.map VadWire.fromWire).getD asr.vad
   providers := (wire.providers.map fun entries => entries.map fun entry =>
     entry.fromWire (.localProvider {})).getD asr.providers}

/-- The scenes. -/
def ScenesWire.fromWire (wire : ScenesWire) (scenes : Scenes) : Scenes :=
  {activeScene := wire.activeScene
   definitions := (wire.definitions.map fun entries => entries.map fun entry =>
     entry.fromWire {}).getD scenes.definitions}

end FromWire

section ToWire

/-- A member that is left out when a condition fails. -/
def given {α : Type*} (condition : Prop) [Decidable condition] (value : α) : Option α :=
  if condition then some value else none

/-- The object has no members. -/
def isEmptyObject : Json → Bool
  | .object members => members.isEmpty
  | _ => false

/-- A service; defaults are left out. -/
def LlmProvider.toWire (provider : LlmProvider) : LlmProviderWire :=
  {id := provider.id
   baseUrl := given (provider.baseUrl≠"") provider.baseUrl
   apiKey := given (provider.apiKey≠"") provider.apiKey
   jsonObject := given (provider.jsonObject=false) false
   extraBody := given (provider.extraBody.isObject=true ∧ isEmptyObject provider.extraBody=false)
     provider.extraBody}

/-- An adapter or a client. -/
def LlmAdapter.toWire (adapter : LlmAdapter) : LlmAdapterWire :=
  {id := adapter.id
   command := adapter.command
   args := given (adapter.args≠[]) (fromStrings adapter.args)
   env := given (adapter.env.entries≠[]) (fromStringMap adapter.env)
   autoStart := given (adapter.autoStart=true) true}

/-- A provider with the members of its kind. -/
def AsrProvider.toWire (provider : AsrProvider) : AsrProviderWire :=
  match provider with
  | .localProvider settings =>
    {id := asrProviderId provider
     type := asrProviderType provider
     model := given (settings.model≠"") settings.model
     hotwordsFile := given (settings.hotwordsFile≠"") settings.hotwordsFile
     timeoutMs := given (0<settings.timeoutMs) settings.timeoutMs}
  | .commandProvider settings =>
    {id := asrProviderId provider
     type := asrProviderType provider
     command := given (settings.command≠"") settings.command
     args := given (settings.args≠[]) (fromStrings settings.args)
     env := given (settings.env.entries≠[]) (fromStringMap settings.env)
     timeoutMs := given (0<settings.timeoutMs) settings.timeoutMs}

/-- The settings of the audio capture. -/
def Global.toWire (global : Global) : GlobalWire :=
  {captureDevice := global.captureDevice
   duckOutputWhileRecording := global.duckOutputWhileRecording
   duckOutputVolume := global.duckOutputVolume}

/-- The silence trimming. -/
def Vad.toWire (vad : Vad) : VadWire :=
  {enabled := vad.enabled
   threshold := vad.threshold
   minSpeechDuration := vad.minSpeechDuration
   minSilenceDuration := vad.minSilenceDuration
   speechPadMs := vad.speechPadMs}

/-- The registry. -/
def Registry.toWire (registry : Registry) : RegistryWire :=
  ⟨given (registry.baseUrls≠[]) (fromStrings registry.baseUrls)⟩

/-- A scene; defaults and builtin labels are left out. -/
def Definition.toWire (scene : Definition) : SceneWire :=
  {id := scene.id
   label := given (scene.label≠"" ∧ isBuiltinSceneLabelKey scene.label=false ∧
     isBuiltinSceneId scene.id=false) scene.label
   prompt := given (scene.prompt≠"") scene.prompt
   providerId := given (scene.providerId≠"") scene.providerId
   model := given (scene.model≠"") scene.model
   count := given (scene.llmMaxCandidates≠kDefaultLlmMaxCandidates) scene.llmMaxCandidates
   timeoutMs := given (scene.timeoutMs≠kDefaultTimeoutMs) scene.timeoutMs
   contextLines := given (scene.contextLines≠kDefaultContextLines) scene.contextLines
   rawCand := given (scene.rawCand=false) false
   rawPrev := given (scene.rawPrev=false) false}

/-- The language models. -/
def Llm.toWire (llm : Llm) : LlmWire :=
  ⟨some (llm.providers.map LlmProvider.toWire),some (llm.adapters.map LlmAdapter.toWire)⟩

/-- The speech recognition. -/
def Asr.toWire (asr : Asr) : AsrWire :=
  {activeProvider := asr.activeProvider
   normalizeAudio := asr.normalizeAudio
   inputGain := asr.inputGain
   vad := some (Vad.toWire asr.vad)
   providers := some (asr.providers.map AsrProvider.toWire)}

/-- The scenes. -/
def Scenes.toWire (scenes : Scenes) : ScenesWire :=
  ⟨scenes.activeScene,some (scenes.definitions.map Definition.toWire)⟩

/-- The configuration; lists of clients are left out when they are empty. -/
def CoreConfig.toWire (config : CoreConfig) : CoreConfigWire :=
  {version := some (.text config.version)
   registry := some (Registry.toWire config.registry)
   global := some (Global.toWire config.global)
   asr := some (Asr.toWire config.asr)
   llm := some (Llm.toWire config.llm)
   scenes := some (Scenes.toWire config.scenes)
   triggers := given (config.triggers≠[]) (config.triggers.map LlmAdapter.toWire)
   receivers := given (config.receivers≠[]) (config.receivers.map LlmAdapter.toWire)}

end ToWire

section Meta

/-- Members of a service. -/
def LlmProviderWire.members (wire : LlmProviderWire) : List (String×Option Json) :=
  [("id",some (.text wire.id)),("base_url",wire.baseUrl.map .text),
    ("api_key",wire.apiKey.map .text),("json_object",wire.jsonObject.map .bool),
    ("extra_body",wire.extraBody)]

def LlmProviderWire.write (wire : LlmProviderWire) : Json := ofMembers wire.members

def LlmProviderWire.read (node : Json) : Option LlmProviderWire :=
  if node.isObject then do
    let id ← member "id" readText "" node
    let baseUrl ← optional "base_url" readText node
    let apiKey ← optional "api_key" readText node
    let jsonObject ← optional "json_object" readBool node
    let extraBody ← optional "extra_body" readTree node
    some ⟨id,baseUrl,apiKey,jsonObject,extraBody⟩
  else none

/-- Members of an adapter or a client. -/
def LlmAdapterWire.members (wire : LlmAdapterWire) : List (String×Option Json) :=
  [("id",some (.text wire.id)),("command",some (.text wire.command)),("args",wire.args),
    ("env",wire.env),("auto_start",wire.autoStart.map .bool)]

def LlmAdapterWire.write (wire : LlmAdapterWire) : Json := ofMembers wire.members

def LlmAdapterWire.read (node : Json) : Option LlmAdapterWire :=
  if node.isObject then do
    let id ← member "id" readText "" node
    let command ← member "command" readText "" node
    let args ← optional "args" readTree node
    let env ← optional "env" readTree node
    let autoStart ← optional "auto_start" readBool node
    some ⟨id,command,args,env,autoStart⟩
  else none

/-- Members of a speech recognition provider. -/
def AsrProviderWire.members (wire : AsrProviderWire) : List (String×Option Json) :=
  [("id",some (.text wire.id)),("type",some (.text wire.type)),("model",wire.model.map .text),
    ("hotwords_file",wire.hotwordsFile.map .text),("command",wire.command.map .text),
    ("args",wire.args),("env",wire.env),("timeout_ms",wire.timeoutMs.map writeInt)]

def AsrProviderWire.write (wire : AsrProviderWire) : Json := ofMembers wire.members

def AsrProviderWire.read (node : Json) : Option AsrProviderWire :=
  if node.isObject then do
    let id ← member "id" readText "" node
    let type ← member "type" readText "" node
    let model ← optional "model" readText node
    let hotwordsFile ← optional "hotwords_file" readText node
    let command ← optional "command" readText node
    let args ← optional "args" readTree node
    let env ← optional "env" readTree node
    let timeoutMs ← optional "timeout_ms" readInt node
    some ⟨id,type,model,hotwordsFile,command,args,env,timeoutMs⟩
  else none

/-- Members of the audio capture. -/
def GlobalWire.members (wire : GlobalWire) : List (String×Option Json) :=
  [("capture_device",some (.text wire.captureDevice)),
    ("duck_output_while_recording",some (.bool wire.duckOutputWhileRecording)),
    ("duck_output_volume",some (writeNumber wire.duckOutputVolume))]

def GlobalWire.write (wire : GlobalWire) : Json := ofMembers wire.members

def GlobalWire.read (node : Json) : Option GlobalWire :=
  if node.isObject then do
    let captureDevice ← member "capture_device" readText "" node
    let duckOutputWhileRecording ← member "duck_output_while_recording" readBool false node
    let duckOutputVolume ← member "duck_output_volume" readNumber 0.25 node
    some ⟨captureDevice,duckOutputWhileRecording,duckOutputVolume⟩
  else none

/-- Members of the silence trimming. -/
def VadWire.members (wire : VadWire) : List (String×Option Json) :=
  [("enabled",some (.bool wire.enabled)),("threshold",some (writeNumber wire.threshold)),
    ("min_speech_duration",some (writeNumber wire.minSpeechDuration)),
    ("min_silence_duration",some (writeNumber wire.minSilenceDuration)),
    ("speech_pad_ms",some (writeInt wire.speechPadMs))]

def VadWire.write (wire : VadWire) : Json := ofMembers wire.members

def VadWire.read (node : Json) : Option VadWire :=
  if node.isObject then do
    let enabled ← member "enabled" readBool true node
    let threshold ← member "threshold" readNumber 0.35 node
    let minSpeechDuration ← member "min_speech_duration" readNumber 0.10 node
    let minSilenceDuration ← member "min_silence_duration" readNumber 1.2 node
    let speechPadMs ← member "speech_pad_ms" readInt 500 node
    some ⟨enabled,threshold,minSpeechDuration,minSilenceDuration,speechPadMs⟩
  else none

/-- Members of the package registry. -/
def RegistryWire.members (wire : RegistryWire) : List (String×Option Json) :=
  [("base_urls",wire.baseUrls)]

def RegistryWire.write (wire : RegistryWire) : Json := ofMembers wire.members

def RegistryWire.read (node : Json) : Option RegistryWire :=
  if node.isObject then do
    let baseUrls ← optional "base_urls" readTree node
    some ⟨baseUrls⟩
  else none

/-- Members of a scene. -/
def SceneWire.members (wire : SceneWire) : List (String×Option Json) :=
  [("id",some (.text wire.id)),("label",wire.label.map .text),("prompt",wire.prompt.map .text),
    ("provider_id",wire.providerId.map .text),("model",wire.model.map .text),
    ("count",wire.count.map writeInt),("timeout_ms",wire.timeoutMs.map writeInt),
    ("context_lines",wire.contextLines.map writeInt),("raw_cand",wire.rawCand.map .bool),
    ("raw_prev",wire.rawPrev.map .bool)]

def SceneWire.write (wire : SceneWire) : Json := ofMembers wire.members

def SceneWire.read (node : Json) : Option SceneWire :=
  if node.isObject then do
    let id ← member "id" readText "" node
    let label ← optional "label" readText node
    let prompt ← optional "prompt" readText node
    let providerId ← optional "provider_id" readText node
    let model ← optional "model" readText node
    let count ← optional "count" readInt node
    let timeoutMs ← optional "timeout_ms" readInt node
    let contextLines ← optional "context_lines" readInt node
    let rawCand ← optional "raw_cand" readBool node
    let rawPrev ← optional "raw_prev" readBool node
    some ⟨id,label,prompt,providerId,model,count,timeoutMs,contextLines,rawCand,rawPrev⟩
  else none

/-- Members of the language models. -/
def LlmWire.members (wire : LlmWire) : List (String×Option Json) :=
  [("providers",wire.providers.map (writeArray LlmProviderWire.write)),
    ("adapters",wire.adapters.map (writeArray LlmAdapterWire.write))]

def LlmWire.write (wire : LlmWire) : Json := ofMembers wire.members

def LlmWire.read (node : Json) : Option LlmWire :=
  if node.isObject then do
    let providers ← optional "providers" (readArray LlmProviderWire.read) node
    let adapters ← optional "adapters" (readArray LlmAdapterWire.read) node
    some ⟨providers,adapters⟩
  else none

/-- Members of the speech recognition. -/
def AsrWire.members (wire : AsrWire) : List (String×Option Json) :=
  [("active_provider",some (.text wire.activeProvider)),
    ("normalize_audio",some (.bool wire.normalizeAudio)),
    ("input_gain",some (writeNumber wire.inputGain)),("vad",wire.vad.map VadWire.write),
    ("providers",wire.providers.map (writeArray AsrProviderWire.write))]

def AsrWire.write (wire : AsrWire) : Json := ofMembers wire.members

def AsrWire.read (node : Json) : Option AsrWire :=
  if node.isObject then do
    let activeProvider ← member "active_provider" readText "" node
    let normalizeAudio ← member "normalize_audio" readBool true node
    let inputGain ← member "input_gain" readNumber 1.0 node
    let vad ← optional "vad" VadWire.read node
    let providers ← optional "providers" (readArray AsrProviderWire.read) node
    some ⟨activeProvider,normalizeAudio,inputGain,vad,providers⟩
  else none

/-- Members of the scenes. -/
def ScenesWire.members (wire : ScenesWire) : List (String×Option Json) :=
  [("active_scene",some (.text wire.activeScene)),
    ("definitions",wire.definitions.map (writeArray SceneWire.write))]

def ScenesWire.write (wire : ScenesWire) : Json := ofMembers wire.members

def ScenesWire.read (node : Json) : Option ScenesWire :=
  if node.isObject then do
    let activeScene ← member "active_scene" readText "" node
    let definitions ← optional "definitions" (readArray SceneWire.read) node
    some ⟨activeScene,definitions⟩
  else none

/-- Members of a whole file. -/
def CoreConfigWire.members (wire : CoreConfigWire) : List (String×Option Json) :=
  [("version",wire.version),("registry",wire.registry.map RegistryWire.write),
    ("global",wire.global.map GlobalWire.write),("asr",wire.asr.map AsrWire.write),
    ("llm",wire.llm.map LlmWire.write),("scenes",wire.scenes.map ScenesWire.write),
    ("triggers",wire.triggers.map (writeArray LlmAdapterWire.write)),
    ("receivers",wire.receivers.map (writeArray LlmAdapterWire.write))]

def CoreConfigWire.write (wire : CoreConfigWire) : Json := ofMembers wire.members

end Meta

section Files

/-- A text as the JSON reader sees it. -/
inductive Text where
  | empty
  /-- The reader fails with a message. -/
  | malformed (message : String)
  /-- The reader makes a tree of it. -/
  | tree (root : Json)

/-- The text of a configuration. -/
def coreConfigToJson (config : CoreConfig) : Text := .tree (CoreConfig.toWire config).write

/-- The integer of a number, its fraction cut off. A number no integer can
hold gives the least one, as the machine does. -/
def truncated (value : ℚ) : Int32 :=
  if -2^31 ≤ value.num.tdiv value.den ∧ value.num.tdiv value.den<2^31 then
    Int32.ofInt (value.num.tdiv value.den)
  else Int32.minValue

/-- The version of a file; older files have a number. -/
def readVersion : Option Json → String
  | some (.text version) => version
  | some (.number version) => toString (truncated version).toInt
  | _ => ({} : CoreConfig).version

/-- A section that is missing or carries a mistyped field is skipped. -/
def readSection {α : Type*} (read : Json → Option α) (root : Json) (key : String) : Option α :=
  (root.find key).bind read

/-- The configuration of a root object. -/
def parseRoot (root : Json) : CoreConfig :=
  {version := readVersion (root.find "version")
   registry := ((readSection RegistryWire.read root "registry").map RegistryWire.fromWire).getD {}
   global := ((readSection GlobalWire.read root "global").map GlobalWire.fromWire).getD {}
   llm := ((readSection LlmWire.read root "llm").map fun wire => wire.fromWire {}).getD {}
   scenes := ((readSection ScenesWire.read root "scenes").map fun wire => wire.fromWire {}).getD {}
   asr := ((readSection AsrWire.read root "asr").map fun wire => wire.fromWire {}).getD {}
   triggers := ((readSection (readArray LlmAdapterWire.read) root "triggers").getD []).map
     fun entry => entry.fromWire {}
   receivers := ((readSection (readArray LlmAdapterWire.read) root "receivers").getD []).map
     fun entry => entry.fromWire {}}

/-- The configuration of a text. -/
def coreConfigFromJson : Text → Except String CoreConfig
  | .empty => .error "Config is empty."
  | .malformed message => .error message
  | .tree root =>
    if root.isObject then .ok (parseRoot root) else .error "Config root is not a JSON object."

end Files

end Vinput.CoreConfigJson
