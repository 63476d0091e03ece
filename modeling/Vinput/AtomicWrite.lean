import Vinput.ResolvedPaths

/-!
# Replacing a file as a whole

A text is written to a new file in the directory of the target, brought to the
disk and renamed. The system may refuse each of these steps, write a part of
the text only or be interrupted. Permissions of the new file are left out.
-/

namespace Vinput.AtomicWrite

open FileTree FilePaths PathLeads LexicalPaths SymlinkResolution

/-- Names of files. -/
abbrev Name := List Char

/-- Contents of files. -/
abbrev Bytes := List UInt8

/-- The text of an error. -/
inductive Message where
  | about (failure : Failure Name)
  | text (text : String)

/-- How far the replacement has come. -/
inductive Point where
  | start
  | resolved (path : FsPath Name)
  | ensured (path : FsPath Name)
  /-- The temporary file is open, and bytes remain to be written. -/
  | writing (path : FsPath Name) (tmp : Path Name) (remaining : Bytes)
  | synced (path : FsPath Name) (tmp : Path Name)
  | discarding (tmp : Path Name) (error : Message)
  | failed (error : Message)
  | threw
  | succeeded

/-- What stands where, and how far the replacement has come. -/
structure State where
  tree : Tree Name Bytes
  point : Point

/-- The name at the end of a path as a text. -/
def fileText : Option (Element Name) → Name
  | some (.name name) => name
  | some .here => ['.']
  | some .up => ['.','.']
  | none => []

/-- The name of the temporary file, with the characters that `mkstemp` puts in. -/
def temporaryName (path : FsPath Name) (suffix : List Char) : Name :=
  fileText path.filename++(['.','t','m','p','.']++suffix)

/-- The place of a name in the directory of a path. -/
def placeIn (tree : Tree Name Bytes) (cwd : Path Name) (path : FsPath Name) (name : Name) :
    Option (Path Name) :=
  match path.parentPath.leadsInto tree cwd with
  | .found directory => some (directory++[name])
  | _ => none

/-- `exists` throws where the system cannot tell; directories are made up to the
first that is refused. -/
def ensureParentDirectory (allowed : Path Name → Bool) (reason : String) (tree : Tree Name Bytes)
    (cwd : Path Name) (path : FsPath Name) : State :=
  let parent := path.parentPath
  if parent.empty then ⟨tree,.ensured path⟩
  else
    match parent.leads tree cwd with
    | .found _ => ⟨tree,.ensured path⟩
    | .looped => ⟨tree,.threw⟩
    | _ =>
      let made := makeDirectories allowed tree (parent.start cwd) parent.elements
      match made.place with
      | some _ => ⟨made.tree,.ensured path⟩
      | none => ⟨made.tree,.failed (.about ⟨"Failed to create directory ",parent,": "++reason⟩)⟩

/-- Write behind what an open file holds. -/
def append (tree : Tree Name Bytes) (tmp : Path Name) (written : Bytes) : Option (Tree Name Bytes) :=
  match tree.get tmp with
  | some (.file content) => tree.writeFile tmp (content++written)
  | _ => none

/-- The steps of a replacement; the system decides which of them is taken. -/
inductive Step (refusals : Refusals Name) (cwd : Path Name) (target : FsPath Name)
    (content : Bytes) : State → State → Prop where
  | unresolved {tree failure} :
    resolveSymlinkPath refusals tree cwd target=.error failure →
    Step refusals cwd target content ⟨tree,.start⟩ ⟨tree,.failed (.about failure)⟩
  | resolve {tree path} :
    resolveSymlinkPath refusals tree cwd target=.ok path →
    Step refusals cwd target content ⟨tree,.start⟩ ⟨tree,.resolved path⟩
  | ensure {tree path} (allowed reason) :
    Step refusals cwd target content ⟨tree,.resolved path⟩
      (ensureParentDirectory allowed reason tree cwd path)
  | mkstempFailed {tree path} (reason) :
    Step refusals cwd target content ⟨tree,.ensured path⟩
      ⟨tree,.failed (.text ("mkstemp failed: "++reason))⟩
  | mkstemp {tree path tmp opened} (suffix) :
    placeIn tree cwd path (temporaryName path suffix)=some tmp → tree.get tmp=none →
    tree.writeFile tmp []=some opened →
    Step refusals cwd target content ⟨tree,.ensured path⟩ ⟨opened,.writing path tmp content⟩
  | written {tree path tmp remaining later} (count) :
    remaining≠[] → append tree tmp (remaining.take count)=some later →
    Step refusals cwd target content ⟨tree,.writing path tmp remaining⟩
      ⟨later,.writing path tmp (remaining.drop count)⟩
  | interrupted {tree path tmp remaining} :
    remaining≠[] →
    Step refusals cwd target content ⟨tree,.writing path tmp remaining⟩
      ⟨tree,.writing path tmp remaining⟩
  | writeFailed {tree path tmp remaining} (reason) :
    remaining≠[] →
    Step refusals cwd target content ⟨tree,.writing path tmp remaining⟩
      ⟨tree,.discarding tmp (.text ("write failed: "++reason))⟩
  | fsync {tree path tmp} :
    Step refusals cwd target content ⟨tree,.writing path tmp []⟩ ⟨tree,.synced path tmp⟩
  | fsyncFailed {tree path tmp} (reason) :
    Step refusals cwd target content ⟨tree,.writing path tmp []⟩
      ⟨tree,.discarding tmp (.text ("fsync failed: "++reason))⟩
  /-- Only a name can be replaced. -/
  | rename {tree path tmp name place later} :
    path.filename=some (.name name) → placeIn tree cwd path name=some place →
    tree.rename tmp place=some later →
    Step refusals cwd target content ⟨tree,.synced path tmp⟩ ⟨later,.succeeded⟩
  | renameFailed {tree path tmp} (reason) :
    Step refusals cwd target content ⟨tree,.synced path tmp⟩
      ⟨tree,.discarding tmp (.text ("rename failed: "++reason))⟩
  | unlink {tree tmp error later} :
    tree.remove tmp=some later →
    Step refusals cwd target content ⟨tree,.discarding tmp error⟩ ⟨later,.failed error⟩

/-- States of a replacement that begins with a tree. -/
inductive Reaches (refusals : Refusals Name) (tree : Tree Name Bytes) (cwd : Path Name)
    (target : FsPath Name) (content : Bytes) : State → Prop where
  | start : Reaches refusals tree cwd target content ⟨tree,.start⟩
  | step {state next} : Reaches refusals tree cwd target content state →
    Step refusals cwd target content state next → Reaches refusals tree cwd target content next

/-- What reading a path gives. -/
def reading (tree : Tree Name Bytes) (cwd : Path Name) (path : FsPath Name) : Option Bytes :=
  match path.leads tree cwd with
  | .found place =>
    match tree.get place with
    | some (.file content) => some content
    | _ => none
  | _ => none

end Vinput.AtomicWrite
