import Vinput.CoreConfigRoundTrip
import Vinput.InterleavedRuns

/-!
# The configuration file and its cache

Threads load and save the configuration while other processes replace its
file. A load stamps the cache with the time and the size it saw before it
read the file, all under the lock of the cache. A save writes the file
first and takes the lock afterwards, and stamps the cache with what the
path has then. What a reader makes of a written text is its tree, unless a
string has a control character that is written without an escape. The file is
the last of all files the path has held; the number of a file stands for its
modification time, which no other has.
-/

namespace Vinput.ConfigStore

open CoreConfigTypes CoreConfigJson InterleavedRuns JsonTree

section Labels

variable (translate : String → String)

/-- Label of a builtin scene. -/
def builtinSceneLabel (sceneId : String) : Option String :=
  if sceneId=kRawSceneId then some (translate "Raw")
  else if sceneId=kCommandSceneId then some (translate "Command")
  else none

/-- Label a key stands for. -/
def builtinSceneLabelFromKey (label : String) : Option String :=
  if label=kRawSceneLabelKey then some (translate "Raw")
  else if label=kCommandSceneLabelKey then some (translate "Command")
  else none

/-- What a scene is shown as. -/
def displayLabel (scene : Definition) : String :=
  match builtinSceneLabelFromKey translate scene.label with
  | some label => label
  | none =>
    if scene.label≠"" then scene.label
    else (builtinSceneLabel translate scene.id).getD scene.id

/-- A builtin scene that is labelled by what it is shown as. -/
def materializeLabel (scene : Definition) : Definition :=
  if isBuiltinSceneId scene.id=true ∧
      (scene.label="" ∨ isBuiltinSceneLabelKey scene.label=true) then
    {scene with label := displayLabel translate scene}
  else scene

/-- Builtin scenes with their labels in the language of the user. -/
def materializeBuiltinSceneLabels (config : CoreConfig) : CoreConfig :=
  {config with scenes := {config.scenes with
    definitions := config.scenes.definitions.map (materializeLabel translate)}}

theorem toWire_materializeLabel (scene : Definition) :
    Definition.toWire (materializeLabel translate scene)=Definition.toWire scene := by
  unfold materializeLabel
  split
  · rename_i hbuiltin
    have hlabel : ∀ label : String, given (label≠"" ∧ isBuiltinSceneLabelKey label=false ∧
        isBuiltinSceneId scene.id=false) label=none := by
      intro label
      exact if_neg fun h => Bool.false_ne_true (h.2.2.symm.trans hbuiltin.1)
    dsimp only [Definition.toWire]
    rw [hlabel,hlabel]
  · rfl

/-- The labels of builtin scenes are not written. -/
theorem toWire_materialize (config : CoreConfig) :
    CoreConfig.toWire (materializeBuiltinSceneLabels translate config)=CoreConfig.toWire config := by
  have hscenes : (config.scenes.definitions.map (materializeLabel translate)).map Definition.toWire=
      config.scenes.definitions.map Definition.toWire := by
    rw [List.map_map]
    exact List.map_congr_left fun scene _ => toWire_materializeLabel translate scene
  dsimp only [CoreConfig.toWire,materializeBuiltinSceneLabels,Scenes.toWire]
  rw [hscenes]

/-- Labels do not change what is written. -/
theorem toJson_materialize (config : CoreConfig) :
    coreConfigToJson (materializeBuiltinSceneLabels translate config)=coreConfigToJson config := by
  unfold coreConfigToJson
  rw [toWire_materialize]

/-- The text that is written of a configuration, as a reader finds it. A control
character without an escape spoils it. -/
def writtenText (config : CoreConfig) : Text :=
  if (CoreConfig.toWire config).write.isClean then coreConfigToJson config
  else .malformed "syntax_error"

theorem writtenText_materialize (config : CoreConfig) :
    writtenText (materializeBuiltinSceneLabels translate config)=writtenText config := by
  unfold writtenText
  rw [toJson_materialize,toWire_materialize]

end Labels

/-- A file at the path. -/
structure File where
  /-- Its text. -/
  text : Text
  /-- Its size in bytes. -/
  size : ℕ

/-- The cache of the process. -/
structure ConfigCache where
  /-- Something is cached. -/
  hasCache : Bool := false
  /-- Time of the file it stands for. -/
  mtime : ℕ := 0
  /-- Size of the file it stands for. -/
  size : ℕ := 0
  /-- The configuration. -/
  cached : CoreConfig := {}

/-- The path and the cache. -/
structure Shared where
  /-- Files the path has held, oldest first. -/
  files : List File := []
  /-- The cache. -/
  cache : ConfigCache := {}
  /-- The lock of the cache is held. -/
  locked : Bool := false

/-- Calls of a thread; another process is a thread that only replaces. -/
inductive Call where
  | load
  | save (config : CoreConfig)
  | replace (file : File)

/-- What the environment decides in one step. -/
structure Oracle where
  /-- Next call. -/
  call : Call := .load
  /-- An operation on the file system fails. -/
  fails : Bool := false
  /-- Size of a written file. -/
  size : ℕ := 0
  /-- The configuration that is shipped, if it can be read. -/
  bundled : Option CoreConfig := none

/-- What a call returns. -/
inductive Outcome where
  /-- A configuration from a file; the path held the files from the first
  number up to the second during the call. -/
  | loaded (since upTo : ℕ) (config : CoreConfig)
  /-- A configuration without a readable file. -/
  | defaulted (config : CoreConfig)
  | saved (ok : Bool)

/-- Where a thread is. -/
inductive Pc where
  | idle (last : Option Outcome)
  /-- Before a load takes the lock. -/
  | loadLock (since : ℕ)
  /-- Before it checks that the file exists. -/
  | loadExists (since : ℕ)
  /-- Before it reads the time. -/
  | loadMtime (since : ℕ)
  /-- Before it reads the size and looks at the cache. -/
  | loadSize (since mtime : ℕ)
  /-- Before it reads the file. -/
  | loadRead (since mtime size : ℕ)
  /-- Before a save writes the file. -/
  | saveWrite (config : CoreConfig)
  /-- Before it takes the lock. -/
  | saveLock (config : CoreConfig)
  /-- Before it checks that the file exists. -/
  | saveExists (config : CoreConfig)
  /-- Before it reads the time. -/
  | saveMtime (config : CoreConfig)
  /-- Before it reads the size and stamps the cache. -/
  | saveSize (config : CoreConfig) (mtime : ℕ)

/-- Time of the current file. -/
def currentMtime (shared : Shared) : ℕ := shared.files.length-1

/-- Size of the current file. -/
def currentSize (shared : Shared) : ℕ := (shared.files.getLast?.map File.size).getD 0

/-- A call returns and the lock is free. -/
def returns (shared : Shared) (outcome : Outcome) : Shared×Pc :=
  ({shared with locked := false},.idle (some outcome))

/-- Nothing is cached any more. -/
def dropCache (shared : Shared) : Shared :=
  {shared with cache := {shared.cache with hasCache := false}}

/-- Something is cached. -/
def stampCache (mtime size : ℕ) (config : CoreConfig) (shared : Shared) : Shared :=
  {shared with cache := ⟨true,mtime,size,config⟩}

/-- A load without a file falls back to what is shipped. -/
def loadDefault (oracle : Oracle) (shared : Shared) : Shared×Pc :=
  match oracle.bundled with
  | none => returns shared (.defaulted {})
  | some config => returns (dropCache shared) (.defaulted (normalizeCoreConfig config))

/-- A load looks at the cache. -/
def lookStep (since mtime size : ℕ) (shared : Shared) : Shared×Pc :=
  if shared.cache.hasCache=true ∧ shared.cache.mtime=mtime ∧ shared.cache.size=size then
    returns shared (.loaded since shared.files.length shared.cache.cached)
  else (shared,.loadRead since mtime size)

/-- A load reads the file. -/
def readStep (oracle : Oracle) (since mtime size : ℕ) (shared : Shared) : Shared×Pc :=
  match oracle.fails,shared.files.getLast? with
  | false,some file =>
    match coreConfigFromJson file.text with
    | .ok config =>
      returns (stampCache mtime size (normalizeCoreConfig config) shared)
        (.loaded since shared.files.length (normalizeCoreConfig config))
    | .error _ =>
      returns (dropCache shared) (.loaded since shared.files.length (normalizeCoreConfig {}))
  | _,_ => returns (dropCache shared) (.defaulted (normalizeCoreConfig {}))

variable (translate : String → String)

/-- A call begins. -/
def beginStep (oracle : Oracle) (shared : Shared) : Shared×Pc :=
  match oracle.call with
  | .load => (shared,.loadLock (currentMtime shared))
  | .save config =>
    if oracle.fails then (shared,.idle (some (.saved false)))
    else
      match validateCoreConfig (normalizeCoreConfig config) with
      | some _ => (shared,.idle (some (.saved false)))
      | none =>
        (shared,.saveWrite (materializeBuiltinSceneLabels translate (normalizeCoreConfig config)))
  | .replace file => ({shared with files := shared.files++[file]},.idle none)

/-- One step of one thread. -/
def next (oracle : Oracle) (shared : Shared) : Pc → Shared×Pc
  | .idle _ => beginStep translate oracle shared
  | .loadLock since =>
    if shared.locked then (shared,.loadLock since)
    else ({shared with locked := true},.loadExists since)
  | .loadExists since =>
    if oracle.fails=true ∨ shared.files=[] then loadDefault oracle shared
    else (shared,.loadMtime since)
  | .loadMtime since =>
    if oracle.fails then loadDefault oracle shared
    else (shared,.loadSize since (currentMtime shared))
  | .loadSize since mtime =>
    if oracle.fails then loadDefault oracle shared
    else lookStep since mtime (currentSize shared) shared
  | .loadRead since mtime size => readStep oracle since mtime size shared
  | .saveWrite config =>
    if oracle.fails then (shared,.idle (some (.saved false)))
    else
      ({shared with files := shared.files++[⟨writtenText config,oracle.size⟩]},
        .saveLock config)
  | .saveLock config =>
    if shared.locked then (shared,.saveLock config)
    else ({shared with locked := true},.saveExists config)
  | .saveExists config =>
    if oracle.fails=true ∨ shared.files=[] then returns (dropCache shared) (.saved true)
    else (shared,.saveMtime config)
  | .saveMtime config =>
    if oracle.fails then returns (dropCache shared) (.saved true)
    else (shared,.saveSize config (currentMtime shared))
  | .saveSize config mtime =>
    if oracle.fails then returns (dropCache shared) (.saved true)
    else returns (stampCache mtime (currentSize shared) config shared) (.saved true)

/-- All threads over one path and one cache. -/
abbrev System := Pool Shared Pc

/-- One step of the whole system. -/
abbrev machine : System → ℕ×Oracle → System := Pool.step (next translate)

/-- Nothing is cached yet; the path may hold a file. -/
def startup (file : Option File) : System := ⟨{files := file.toList},fun _ => .idle none⟩

end Vinput.ConfigStore
