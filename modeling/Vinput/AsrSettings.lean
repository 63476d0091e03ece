import Mathlib.Data.List.Basic
import Mathlib.Data.List.Sort

/-!
# Speech recognition settings and their runtime signature

The part of the core configuration that selects a speech recognition
backend, the JSON tree the daemon builds from it and the compact text of
that tree. The text is a list of bytes because the writer works on blocks
of eight bytes. Two configurations with one signature are one backend to
the reload logic.
-/

namespace Vinput.AsrSettings

/-- Whether audio is collected for one delivery or sent while it arrives. -/
inductive AudioDeliveryMode where
  | buffered
  | chunked
deriving DecidableEq, Repr, Inhabited

/-- What a recognition backend declares about itself. -/
structure BackendCapabilities where
  /-- Delivery mode; backends that say nothing receive chunks. -/
  audioDeliveryMode : AudioDeliveryMode := .chunked
  /-- Results may arrive while audio is still pushed. -/
  supportsStreaming : Bool := false
  /-- Partial transcripts are reported. -/
  supportsPartialResults : Bool := false
  /-- Recognition leaves the machine. -/
  requiresNetwork : Bool := false
  /-- A hotword list is honoured. -/
  supportsHotwords : Bool := false
deriving DecidableEq, Repr, Inhabited

/-- Identity and capabilities of a recognition backend. -/
structure BackendDescriptor where
  /-- Configured provider. -/
  providerId : String := ""
  /-- Kind of the provider. -/
  providerType : String := ""
  /-- Engine behind the provider. -/
  backendId : String := ""
  /-- Declared capabilities. -/
  capabilities : BackendCapabilities := {}
deriving DecidableEq, Repr, Inhabited

/-- A map from strings to strings, held as its entries in key order. -/
structure StringMap where
  /-- All entries, ascending. -/
  entries : List (String×String) := []
  /-- Every key occurs once and the keys ascend. -/
  ordered : entries.Pairwise (fun left right => left.1<right.1) := by decide
deriving DecidableEq

instance : Inhabited StringMap := ⟨{}⟩

/-- A provider that runs a model inside the daemon. -/
structure LocalAsrProvider where
  /-- Identity among the providers. -/
  id : String
  /-- Time limit in milliseconds. -/
  timeoutMs : Int := 0
  /-- Model to load. -/
  model : String := ""
  /-- Optional hotword list. -/
  hotwordsFile : String := ""
deriving DecidableEq

/-- A provider that runs an external command. -/
structure CommandAsrProvider where
  /-- Identity among the providers. -/
  id : String
  /-- Time limit in milliseconds. -/
  timeoutMs : Int := 0
  /-- Program to run. -/
  command : String := ""
  /-- Its arguments. -/
  args : List String := []
  /-- Its environment. -/
  env : StringMap := {}
deriving DecidableEq

/-- A configured provider. -/
inductive AsrProvider where
  | localProvider (provider : LocalAsrProvider)
  | commandProvider (provider : CommandAsrProvider)
deriving DecidableEq

/-- Identity of a provider of either kind. -/
def asrProviderId : AsrProvider → String
  | .localProvider provider => provider.id
  | .commandProvider provider => provider.id

/-- Time limit of a provider of either kind. -/
def asrProviderTimeoutMs : AsrProvider → Int
  | .localProvider provider => provider.timeoutMs
  | .commandProvider provider => provider.timeoutMs

/-- Name of a provider's kind. -/
def asrProviderType : AsrProvider → String
  | .localProvider _ => "local"
  | .commandProvider _ => "command"

/-- The speech recognition settings of the core configuration that the
signature and the backend selection read. -/
structure CoreConfig where
  /-- Identity of the provider to use; empty selects none. -/
  activeProvider : String := ""
  /-- Silence trimming for local models. -/
  vadEnabled : Bool := true
  /-- All configured providers. -/
  providers : List AsrProvider := []
deriving DecidableEq

instance : Inhabited CoreConfig := ⟨{}⟩

/-- First provider of the given identity; the empty identity names none. -/
def findAsrProvider (config : CoreConfig) (providerId : String) : Option AsrProvider :=
  if providerId="" then none
  else config.providers.find? fun provider => asrProviderId provider=providerId

/-- The provider the configuration selects. -/
def activeAsrProvider (config : CoreConfig) : Option AsrProvider :=
  findAsrProvider config config.activeProvider

/-- The local provider inside a provider, if it is one. -/
def AsrProvider.asLocal : AsrProvider → Option LocalAsrProvider
  | .localProvider provider => some provider
  | .commandProvider _ => none

/-- The selected provider when it is local, else the first local one. -/
def preferredLocalAsrProvider (config : CoreConfig) : Option LocalAsrProvider :=
  match (activeAsrProvider config).bind AsrProvider.asLocal with
  | some provider => some provider
  | none => config.providers.findSome? AsrProvider.asLocal

/-- Model of the preferred local provider, empty when there is none. -/
def preferredLocalModel (config : CoreConfig) : String :=
  match preferredLocalAsrProvider config with
  | some provider => provider.model
  | none => ""

/-- Recognition is disabled exactly when no provider is selected; the
reason is shown to the user. -/
def shouldDisableAsr (config : CoreConfig) : Option String :=
  match activeAsrProvider config with
  | none => some "No active ASR provider configured."
  | some _ => none

/-- JSON trees; numbers are the integers the settings hold. -/
inductive Json where
  | number (value : Int)
  | text (value : String)
  | bool (value : Bool)
  | array (elements : List Json)
  | object (members : List (String×Json))

/-- Assignment to a member of an object held in key order. -/
def setMember (key : String) (value : Json) : List (String×Json) → List (String×Json)
  | [] => [(key,value)]
  | (name,old)::rest =>
    if key=name then (name,value)::rest
    else if key<name then (key,value)::(name,old)::rest
    else (name,old)::setMember key value rest

/-- The array of a list of strings. -/
def fromStrings (values : List String) : Json := .array (values.map .text)

/-- The object of a string map. -/
def fromStringMap (values : StringMap) : Json :=
  .object (values.entries.map fun entry => (entry.1,.text entry.2))

/-- Bytes of an ASCII literal or of any text in UTF-8. -/
def bytesOf (text : String) : List UInt8 := text.toUTF8.data.toList

/-- The two-byte escapes of the writer; all other bytes have none. -/
def escapeOf (byte : UInt8) : Option (List UInt8) :=
  if byte=8 then some [92,98]
  else if byte=9 then some [92,116]
  else if byte=10 then some [92,110]
  else if byte=12 then some [92,102]
  else if byte=13 then some [92,114]
  else if byte=34 then some [92,34]
  else if byte=92 then some [92,92]
  else none

/-- A byte that stops the copying of a block: a quote, a backslash or a
control byte. -/
def stopsBlock (byte : UInt8) : Bool := byte=34 || byte=92 || byte<32

/-- Fewer than eight bytes are left: escaped one by one, a control byte
without an escape is copied. -/
def escapeTail (bytes : List UInt8) : List UInt8 :=
  bytes.flatMap fun byte => (escapeOf byte).getD [byte]

/-- Bytes are copied in blocks of eight up to the first stopping byte, which
becomes its two-byte escape; a control byte without an escape becomes two
zero bytes, which makes the text invalid on purpose. -/
def escapeBlocks : ℕ → List UInt8 → List UInt8
  | 0,bytes => escapeTail bytes
  | fuel+1,bytes =>
    if bytes.length≤7 then escapeTail bytes
    else
      let block := bytes.take 8
      let copied := block.takeWhile fun byte => !stopsBlock byte
      match bytes.drop copied.length with
      | [] => copied
      | byte::rest =>
        if copied.length=8 then copied++escapeBlocks fuel (byte::rest)
        else copied++(escapeOf byte).getD [0,0]++escapeBlocks fuel rest

/-- A quoted and escaped string. -/
def quoted (text : String) : List UInt8 :=
  34::escapeBlocks (bytesOf text).length (bytesOf text)++[34]

mutual

/-- Compact JSON text of a tree. -/
def toText : Json → List UInt8
  | .number value => bytesOf (toString value)
  | .text value => quoted value
  | .bool value => if value then bytesOf "true" else bytesOf "false"
  | .array elements => bytesOf "["++elementsText elements++bytesOf "]"
  | .object members => 123::membersText members++[125]

/-- Elements of an array, separated by commas. -/
def elementsText : List Json → List UInt8
  | [] => []
  | [element] => toText element
  | element::rest => toText element++bytesOf ","++elementsText rest

/-- Members of an object, separated by commas. -/
def membersText : List (String×Json) → List UInt8
  | [] => []
  | [(key,value)] => quoted key++bytesOf ":"++toText value
  | (key,value)::rest => quoted key++bytesOf ":"++toText value++bytesOf ","++membersText rest

end

/-- The signature by which the reload logic tells configurations apart: the
selected identity and every setting the backend of that provider reads. -/
def buildRuntimeSignature (config : CoreConfig) : List UInt8 :=
  let selected := setMember "active_provider" (.text config.activeProvider) []
  match activeAsrProvider config with
  | none => toText (.object selected)
  | some provider =>
    let common := setMember "timeout_ms" (.number (asrProviderTimeoutMs provider))
      (setMember "type" (.text (asrProviderType provider))
        (setMember "id" (.text (asrProviderId provider)) []))
    let specific := match provider with
      | .localProvider settings =>
        setMember "vad_enabled" (.bool config.vadEnabled)
          (setMember "hotwords_file" (.text settings.hotwordsFile)
            (setMember "model" (.text settings.model) common))
      | .commandProvider settings =>
        setMember "env" (fromStringMap settings.env)
          (setMember "args" (fromStrings settings.args)
            (setMember "command" (.text settings.command) common))
    toText (.object (setMember "provider" (.object specific) selected))

end Vinput.AsrSettings
