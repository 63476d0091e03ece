import Vinput.FileDownload

/-!
# Installation of models

A model is put together in a temporary directory below the models directory
and then moved to its destination. A model that stands there is moved aside
before and moved back if the new one cannot take its place. What the network,
the library and the system answer at each step is given.
-/

namespace Vinput.ModelInstall

open ArchiveExtraction (Archive Failure Files Place Writer extractArchive)
open FileDownload FilePaths FileTree
open InstalledModels (showPath)
open ResourceIds (modelPathForId)

section Entries

/-- The model's own description in the registry. -/
inductive Manifest where
  | absent
  | malformed
  /-- What is written of it, if it can be. -/
  | object (text : Option (List UInt8))

/-- A model of the registry. -/
structure RemoteModelEntry where
  id : List Char
  urls : List (List Char)
  sha256 : List Char
  vinputModel : Manifest

/-- Answers of the network, the library and the system, in the order of the
steps. A failure is given by its reason. -/
structure Answers where
  /-- What the system says of a step it cannot take. -/
  words : String
  base : Place → Bool
  makesTemp : Bool
  /-- What the system puts into the name of the temporary directory. -/
  suffix : List Char
  /-- One attempt for each address. -/
  attempt : ℕ → Attempt
  removesArchive : Bool
  cancelledAfterDownload : Bool
  hash : Except String (List Char)
  extracted : Place → Bool
  archive : Archive
  extraction : Place → Bool
  lists : Bool
  looks : Bool
  flatten : Failure
  /-- How many entries are read before the listing fails, if it does. -/
  listed : Option ℕ
  move : List Char → Failure
  removesFlatten : Option (List Place)
  manifest : Failure
  /-- The vocabulary that the manifest asks for, and its bytes. -/
  vocabulary : Option (List Char×List UInt8)
  vocabularyParent : Place → Bool
  vocabularyWrite : Failure
  prepared : Failure
  inspected : Failure
  cancelledBeforeInstall : Bool
  stage : Failure
  parent : Place → Bool
  activate : Failure
  rollback : Failure
  /-- All is removed, or only what stands at these places. -/
  cleanUp : Option (List Place)

/-- How an installation ends. -/
inductive Outcome where
  | installed
  | failed (error : String)
  | threw
deriving DecidableEq

/-- The directory of the extracted files. -/
def extractedName : List Char := ['e','x','t','r','a','c','t','e','d']

/-- The directory that is moved aside. -/
def flattenName : List Char := ['f','l','a','t','t','e','n']

/-- The directory of the model that was there. -/
def backupName : List Char := ['p','r','e','v','i','o','u','s','-','i','n','s','t','a','l','l']

/-- The description of a model. -/
def manifestName : List Char := ['v','i','n','p','u','t','-','m','o','d','e','l','.','j','s','o','n']

/-- The name behind the last slash of the first address, without its query, if
there is one. -/
def archiveName (found : RemoteModelEntry) : List Char :=
  let plain := found.id++['.','t','a','r','.','g','z']
  match found.urls.head? with
  | none => plain
  | some url =>
    let name := (url.splitOn '/').getLast?.getD []
    if '/'∈url ∧ name≠[] then name.takeWhile (· ≠ '?') else plain

/-- The checksum of the archive is the expected one. -/
def verifySha256 (expected : List Char) (hash : Except String (List Char)) : Failure :=
  if expected=[] then none
  else
    match hash with
    | .error reason => some reason
    | .ok hex =>
      if hex=expected then none
      else some ("SHA256 mismatch: expected "++String.ofList expected++", got "++String.ofList hex)

end Entries

section Steps

/-- Move something, if the system does and can. -/
def tryRename (words : String) (answer : Failure) (files : Files) (src dst : Place) :
    Except String Files :=
  match answer with
  | some reason => .error reason
  | none =>
    match files.rename src dst with
    | some later => .ok later
    | none => .error words

/-- Write a file, if the system does and can. -/
def tryWrite (words : String) (answer : Failure) (files : Files) (path : Place)
    (bytes : List UInt8) : Except String Files :=
  match answer with
  | some reason => .error reason
  | none =>
    match files.writeFile path bytes with
    | some later => .ok later
    | none => .error words

/-- Remove what stands at a place or below it, or only some of it. -/
def clear (files : Files) (root : Place) : Option (List Place) → Files
  | none => files.removeAll root
  | some gone => (gone.filter fun place => root.isPrefixOf place).foldl Tree.removeAll files

/-- The next step is taken if there is no outcome yet. -/
def andThen (step : Files×Option Outcome) (next : Files → Files×Option Outcome) :
    Files×Option Outcome :=
  match step.2 with
  | some _ => step
  | none => next step.1

/-- Download the archive and check it. -/
def fetch (answers : Answers) (temp : Place) (found : RemoteModelEntry) (files : Files) :
    Files×Option Outcome :=
  let name := archiveName found
  let start := if name.head?=some '/' then [] else temp
  let attempts := found.urls.mapIdx fun i url => {answers.attempt i with url := url}
  let downloaded :=
    downloadFile answers.words answers.removesArchive files start (elements name) attempts
  if downloaded.2.ok=false then
    (downloaded.1,some (.failed
      (if downloaded.2.error="" then "download failed" else downloaded.2.error)))
  else if answers.cancelledAfterDownload then (downloaded.1,some (.failed "download cancelled"))
  else (downloaded.1,(verifySha256 found.sha256 answers.hash).map .failed)

/-- Extract the archive into a directory of its own. -/
def unpack (writer : Writer) (answers : Answers) (temp : Place) (files : Files) :
    Files×Option Outcome :=
  let made := makeDirectories answers.extracted files temp [.name extractedName]
  let extraction :=
    extractArchive writer answers.extraction made.tree (temp++[extractedName]) answers.archive
  match extraction.2 with
  | .extracted => (extraction.1.files,none)
  | .refused error => (extraction.1.files,some (.failed error))
  | .threw => (extraction.1.files,some .threw)

/-- Move the entries of a directory into another; an entry that cannot be moved
stays, and nothing tells of it. -/
def moveEntries (words : String) (move : List Char → Failure) (src dst : Place) :
    Files → List (List Char) → Files
  | files,[] => files
  | files,name::rest =>
    match tryRename words (move name) files (src++[name]) (dst++[name]) with
    | .ok later => moveEntries words move src dst later rest
    | .error _ => moveEntries words move src dst files rest

/-- The directory that is all there is of an archive. -/
def onlyDirectory (files : Files) (extracted : Place) : Option (List Char) :=
  match files.children extracted with
  | [name] => if (directoryAt files extracted [.name name]).isSome then some name else none
  | _ => none

/-- Replace a directory that is all there is by its entries. -/
def flattenModel (answers : Answers) (temp : Place) (files : Files) : Files×Option Outcome :=
  let extracted := temp++[extractedName]
  let flat := temp++[flattenName]
  if answers.lists=false ∨ files.isDirectory extracted=false then (files,some .threw)
  else if (files.children extracted).length=1 ∧ answers.looks=false then (files,some .threw)
  else
    match onlyDirectory files extracted with
    | none => (files,none)
    | some name =>
      match tryRename answers.words answers.flatten files (extracted++[name]) flat with
      | .error _ => (files,none)
      | .ok moved =>
        let entries := moved.children flat
        match answers.listed with
        | some read => (moveEntries answers.words answers.move flat extracted moved
            (entries.take read),some .threw)
        | none => (clear (moveEntries answers.words answers.move flat extracted moved entries) flat
            answers.removesFlatten,none)

/-- Write the description of the registry into the model. -/
def writeManifest (answers : Answers) (temp : Place) (found : RemoteModelEntry) (files : Files) :
    Files×Option Outcome :=
  match found.vinputModel with
  | .absent => (files,none)
  | .malformed => (files,some (.failed "registry field 'vinput_model' must be a JSON object"))
  | .object none => (files,some (.failed "failed to serialize registry model metadata"))
  | .object (some text) =>
    match tryWrite answers.words answers.manifest files (temp++[extractedName,manifestName])
        (text++[10]) with
    | .ok later => (later,none)
    | .error reason => (files,some (.failed ("failed to write vinput-model.json: "++reason)))

/-- Paths in a manifest stay inside the model. -/
def resolveInstallAssetPath (rawPath : List Char) : Except String (List (Element (List Char))) :=
  if rawPath=[] ∨ rawPath.head?=some '/' then
    .error ("model asset path must be relative: "++String.ofList rawPath)
  else if .up∈elements rawPath then
    .error ("model asset path escapes install root: "++String.ofList rawPath)
  else .ok (elements rawPath)

/-- A file is there, perhaps behind links. -/
def isRegularFile (files : Files) (start : Place) (parts : List (Element (List Char))) : Bool :=
  match (walk files maxLinks start parts).bind files.get with
  | some (.file _) => true
  | _ => false

/-- Write the vocabulary unless there is one. -/
def exportVocabulary (answers : Answers) (files : Files) (extracted : Place)
    (parts : List (Element (List Char))) (bytes : List UInt8) : Files×Failure :=
  if isRegularFile files extracted parts then (files,none)
  else
    let made := (makeDirectories answers.vocabularyParent files extracted parts.dropLast).tree
    match directoryAt made extracted parts.dropLast,parts.getLast? with
    | some parent,some (.name name) =>
      match tryWrite answers.words answers.vocabularyWrite made (parent++[name]) bytes with
      | .ok later => (later,none)
      | .error reason => (made,some ("failed to write BPE vocabulary: "++reason))
    | _,_ => (made,some ("failed to write BPE vocabulary: "++answers.words))

/-- Prepare what the manifest asks for. -/
def provision (answers : Answers) (temp : Place) (files : Files) : Files×Option Outcome :=
  let failed (reason : String) : Outcome := .failed ("failed to prepare hotword assets: "++reason)
  match answers.vocabulary with
  | none => (files,answers.prepared.map failed)
  | some (rawPath,bytes) =>
    match resolveInstallAssetPath rawPath with
    | .error reason => (files,some (failed reason))
    | .ok parts =>
      let exported := exportVocabulary answers files (temp++[extractedName]) parts bytes
      (exported.1,(exported.2.or answers.prepared).map failed)

/-- Put a model together in the temporary directory. -/
def assemble (writer : Writer) (answers : Answers) (temp : Place) (found : RemoteModelEntry)
    (files : Files) : Files×Option Outcome :=
  andThen (andThen (andThen (andThen (fetch answers temp found files) (unpack writer answers temp))
    (flattenModel answers temp)) (writeManifest answers temp found)) (provision answers temp)

end Steps

section Replacing

/-- Where the models directory and the temporary directory in it stand, and how
the models directory is written. -/
structure Site where
  shown : Place
  base : Place
  tempName : List Char

/-- The temporary directory. -/
def Site.temp (site : Site) : Place := site.base++[site.tempName]

/-- The backup in it. -/
def Site.backup (site : Site) : Place := site.temp++[backupName]

/-- The place of a model in the directory of its engine, as far as it leads
anywhere. -/
def modelAt (files : Files) (base : Place) (engine name : List Char) : Option Place :=
  (walk files maxLinks base [.name engine]).map fun parent => parent++[name]

/-- Move something between the places of two paths that may lead nowhere. -/
def tryMove (words : String) (answer : Failure) (files : Files) (src dst : Option Place) :
    Except String Files :=
  match src,dst with
  | some src,some dst => tryRename words answer files src dst
  | _,_ => .error (answer.getD words)

/-- A tree, the outcome and whether the temporary directory is left alone. -/
structure Replaced where
  files : Files
  outcome : Outcome
  dismissed : Bool

/-- Move the old model back, if there was one. -/
def rollBack (answers : Answers) (site : Site) (engine name : List Char) (hadExisting : Bool)
    (files : Files) (error : String) : Replaced :=
  if hadExisting=false then ⟨files,.failed error,false⟩
  else
    match tryMove answers.words answers.rollback files (some site.backup)
        (modelAt files site.base engine name) with
    | .ok later => ⟨later,.failed error,false⟩
    | .error reason =>
      ⟨files,.failed (error++"; rollback also failed: "++reason++
        "; previous installation preserved at: "++
          showPath (site.shown++[site.tempName,backupName])),true⟩

/-- Move the new model to its destination. -/
def activateModel (answers : Answers) (site : Site) (engine name : List Char) (hadExisting : Bool)
    (files : Files) : Replaced :=
  let made := makeDirectories answers.parent files site.base [.name engine]
  match made.place with
  | none =>
    rollBack answers site engine name hadExisting made.tree
      ("failed to create model parent directory: "++answers.words)
  | some _ =>
    match tryMove answers.words answers.activate made.tree (some (site.temp++[extractedName]))
        (modelAt made.tree site.base engine name) with
    | .ok later => ⟨later,.installed,false⟩
    | .error reason =>
      rollBack answers site engine name hadExisting made.tree
        ("failed to activate new model installation: "++reason)

/-- Replace the model at its destination by the one that was put together. -/
def replaceModel (answers : Answers) (site : Site) (id : List Char) (files : Files) : Replaced :=
  match modelPathForId id with
  | [engine,name] =>
    match answers.inspected with
    | some reason =>
      ⟨files,.failed ("failed to inspect existing model installation: "++reason),false⟩
    | none =>
      let hadExisting := (walk files maxLinks site.base [.name engine,.name name]).isSome
      if answers.cancelledBeforeInstall then ⟨files,.failed "download cancelled",false⟩
      else
        match if hadExisting=false then .ok files
          else tryMove answers.words answers.stage files (modelAt files site.base engine name)
            (some site.backup) with
        | .ok later => activateModel answers site engine name hadExisting later
        | .error reason =>
          ⟨files,.failed ("failed to stage existing model for replacement: "++reason),false⟩
  | _ => ⟨files,.failed ("invalid model id: "++String.ofList id),false⟩

/-- Where the models directory stands once it is made. -/
def modelsDirectory (answers : Answers) (files : Files) (base : Place) :
    Made (List Char) (List UInt8) :=
  makeDirectories answers.base files [] (base.map .name)

/-- The name of the temporary directory. -/
def tempName (answers : Answers) : List Char := ['.','t','m','p','-']++answers.suffix

/-- Install a model below the models directory. -/
def installModelEntry (writer : Writer) (answers : Answers) (files : Files) (base : Place)
    (found : RemoteModelEntry) : Files×Outcome :=
  let made := modelsDirectory answers files base
  match made.place with
  | none =>
    (made.tree,.failed ("Failed to create directory "++showPath base++": "++answers.words))
  | some root =>
    let site : Site := ⟨base,root,tempName answers⟩
    match if answers.makesTemp then made.tree.makeDirectory site.temp else none with
    | none => (made.tree,.failed ("Failed to create temporary directory: "++answers.words))
    | some started =>
      let assembled := assemble writer answers site.temp found started
      let replaced : Replaced :=
        match assembled.2 with
        | some outcome => ⟨assembled.1,outcome,false⟩
        | none => replaceModel answers site found.id assembled.1
      (if replaced.dismissed then replaced.files
        else clear replaced.files site.temp answers.cleanUp,replaced.outcome)

end Replacing

end Vinput.ModelInstall
