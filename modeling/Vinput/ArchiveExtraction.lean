import Mathlib.Data.Int.Notation
import Vinput.FilePaths
import Vinput.InstalledModels

/-!
# Extraction of archives

The entries of an archive are checked and written one after the other into a
directory that earlier entries have changed already. An archive is what the
library presents of it, together with what its calls answer; what the writer
makes of a call is only known to stay at the place the call is about.
-/

namespace Vinput.ArchiveExtraction

open FilePaths FileTree
open InstalledModels (isPathWithinRoot)

section Archives

/-- Names are texts and contents are bytes. -/
abbrev Files := Tree (List Char) (List UInt8)

/-- A place in the file system. -/
abbrev Place := Path (List Char)

/-- The reason why a call failed, if it did. -/
abbrev Failure := Option String

/-- The kinds of entries. -/
inductive FileType where
  | regular
  | directory
  | symlink
  | other
deriving DecidableEq

/-- A run of bytes and where it belongs. -/
structure Block where
  bytes : List UInt8
  offset : ℤ

/-- An entry as the library hands it out. -/
structure Entry where
  pathname : Option (List Char)
  filetype : FileType
  symlink : Option (List Char)
  hardlink : Option (List Char)
  /-- `none` if the size is not set. -/
  size : Option ℤ
  /-- Answer to writing the header. -/
  header : Failure
  /-- The blocks that are delivered, each with the answer to writing it. -/
  blocks : List (Block×Failure)
  /-- What ends the blocks: their end, or a failure. -/
  blocksEnd : Failure
  /-- Answer to finishing the entry. -/
  finish : Failure

/-- How an archive opens, its entries and what ends them. -/
structure Archive where
  opening : Failure
  entries : List Entry
  /-- What ends the entries: their end, or a failure. -/
  ending : Failure

/-- A size that is not set reads as zero. -/
def Entry.knownSize (entry : Entry) : ℤ := entry.size.getD 0

/-- The entry is a link of either kind. -/
def Entry.isLink (entry : Entry) : Bool := entry.symlink.isSome || entry.hardlink.isSome

/-- The entry is a file or a directory. -/
def Entry.isPlain (entry : Entry) : Bool :=
  decide (entry.filetype=.regular) || decide (entry.filetype=.directory)

/-- A call of the writer. -/
inductive Action where
  | header (entry : Entry)
  | data (block : Block)
  | finish

/-- A call that asks for no link and no special file. -/
def Action.isPlain : Action → Bool
  | .header entry => entry.isPlain && !entry.isLink
  | _ => true

/-- What the writer makes of its calls. -/
structure Writer where
  act : Files → Place → Action → Files
  confined : ∀ files place action path, ¬place<+:path →
    (act files place action).get path=files.get path
  /-- Plain calls make files and directories only. -/
  plain : ∀ files place action, action.isPlain=true → ∀ path,
    (act files place action).get path=files.get path ∨
      (act files place action).get path=none ∨
      (act files place action).get path=some .directory ∨
      ∃ content, (act files place action).get path=some (.file content)

/-- Bytes with a block put over them. -/
def overlay (content : List UInt8) (block : Block) : List UInt8 :=
  let offset := block.offset.toNat
  content.take offset++List.replicate (offset-content.length) 0++block.bytes++
    content.drop (offset+block.bytes.length)

/-- Make what is asked for, if the system can. -/
def diskAct (files : Files) (place : Place) : Action → Files
  | .header entry =>
    if entry.filetype=.directory then (files.makeDirectory place).getD files
    else (files.writeFile place []).getD files
  | .data block =>
    match files.get place with
    | some (.file content) => (files.writeFile place (overlay content block)).getD files
    | _ => files
  | .finish => files

/-- A call changes its place alone, to a directory or a file. -/
theorem diskAct_get (files : Files) (place : Place) (action : Action) (path : Place) :
    (diskAct files place action).get path=files.get path ∨
      place=path ∧ ((diskAct files place action).get path=some .directory ∨
        ∃ content, (diskAct files place action).get path=some (.file content)) := by
  have hwrite : ∀ content, ((files.writeFile place content).getD files).get path=files.get path ∨
      place=path ∧ ∃ content',
        ((files.writeFile place content).getD files).get path=some (.file content') := by
    intro content
    cases hlater : files.writeFile place content with
    | none => exact .inl rfl
    | some later =>
      rw [Option.getD_some,Tree.get_writeFile hlater]
      by_cases hsame : place=path
      · exact .inr ⟨hsame,content,if_pos hsame⟩
      · exact .inl (if_neg hsame)
  cases action with
  | header entry =>
    rw [diskAct]
    split_ifs
    · cases hlater : files.makeDirectory place with
      | none => exact .inl rfl
      | some later =>
        rw [Option.getD_some,(Tree.get_makeDirectory hlater).2]
        by_cases hsame : place=path
        · exact .inr ⟨hsame,.inl (if_pos hsame)⟩
        · exact .inl (if_neg hsame)
    · exact (hwrite []).imp_right fun h => ⟨h.1,.inr h.2⟩
  | data block =>
    rw [diskAct]
    split
    · exact (hwrite _).imp_right fun h => ⟨h.1,.inr h.2⟩
    · exact .inl rfl
  | finish => exact .inl rfl

/-- A writer that makes what it is asked for. -/
def diskWriter : Writer where
  act := diskAct
  confined := by
    intro files place action path hpath
    obtain hsame | ⟨rfl,_⟩ := diskAct_get files place action path
    · exact hsame
    · exact absurd (List.prefix_refl place) hpath
  plain := by
    intro files place action _ path
    exact (diskAct_get files place action path).imp_right fun h => .inr h.2

end Archives

section Extraction

/-- How far an extraction has come. -/
structure Extraction where
  files : Files
  /-- Directories that were made. -/
  created : List Place
  /-- Where the paths lead that were given to the writer. -/
  handed : List Place
  /-- Calls of the library that failed. -/
  failures : List String
  /-- The blocks that were written of each entry. -/
  written : List (Entry×List Block)

/-- How an extraction ends. -/
inductive Outcome where
  | extracted
  | refused (error : String)
  | threw
deriving DecidableEq

/-- The checks of an entry before anything is made for it. -/
def refusal (entry : Entry) (path : List Char) : Option String :=
  if path.head?=some '/' then some ("archive contains absolute path: "++String.ofList path)
  else if .up∈elements path then
    some ("archive contains path traversal component: "++String.ofList path)
  else if entry.isLink then some ("archive contains link entry: "++String.ofList path)
  else if entry.isPlain=false then
    some ("archive contains unsupported entry type: "++String.ofList path)
  else none

/-- Make the directories of a path below the destination, and the destination
itself if it is missing. -/
def createDirectories (allowed : Place → Bool) (files : Files) (dest : Place)
    (parts : List (Element (List Char))) : Made (List Char) (List UInt8) :=
  if (files.get dest).isSome then makeDirectories allowed files dest parts
  else
    match if allowed dest then files.makeDirectory dest else none with
    | none => ⟨files,[],none⟩
    | some made =>
      let later := makeDirectories allowed made dest parts
      {later with created := dest::later.created}

/-- The place of a path that exists. -/
def weaklyCanonical (files : Files) (place : Place) (parts : List (Element (List Char))) :
    Option Place :=
  walk files maxLinks place parts

/-- Where the last part of a path leads from its parent. -/
def lastPlace (files : Files) (parent : Place) : Option (Element (List Char)) → Place
  | some (.name name) => (walk files maxLinks parent [.name name]).getD (parent++[name])
  | _ => parent

/-- Below the destination a name is written where it stands. -/
theorem lastPlace_inside {files : Files} {dest place : Place} (hlinks : NoLinks files dest)
    (hplace : dest<+:place)
    (last : Option (Element (List Char))) : dest<+:lastPlace files place last := by
  cases last with
  | none => exact hplace
  | some part =>
    cases part with
    | here => exact hplace
    | up => exact hplace
    | name name =>
      have hchild : dest<+:place++[name] := hplace.trans (List.prefix_append _ _)
      rw [lastPlace,walk_name hlinks hplace]
      split_ifs
      · exact hchild
      · exact hchild

/-- The tree after the blocks, the blocks that were written and the error. -/
def copyBlocks (writer : Writer) (place : Place) (files : Files) (blocksEnd : Failure) :
    List (Block×Failure) → Files×List Block×Failure
  | [] => (files,[],blocksEnd.map ("archive read error: "++ ·))
  | (block,answer)::rest =>
    let after := writer.act files place (.data block)
    match answer with
    | some reason => (after,[],some ("failed to write data: "++reason))
    | none =>
      let later := copyBlocks writer place after blocksEnd rest
      (later.1,block::later.2.1,later.2.2)

/-- Write an entry whose place was checked. -/
def writeEntry (writer : Writer) (state : Extraction) (entry : Entry) (place : Place) :
    Extraction×Option Outcome :=
  let started := {state with files := writer.act state.files place (.header entry)
                             handed := state.handed++[place]}
  match entry.header with
  | some reason =>
    let error := "failed to write header: "++reason
    ({started with failures := started.failures++[error]},some (.refused error))
  | none =>
    let copied :=
      if 0<entry.knownSize then
        copyBlocks writer place started.files entry.blocksEnd entry.blocks
      else (started.files,[],none)
    match copied.2.2 with
    | some error =>
      ({started with files := copied.1
                     failures := started.failures++[error]},some (.refused error))
    | none =>
      ({started with files := writer.act copied.1 place .finish
                     failures := started.failures++entry.finish.toList
                     written := started.written++[(entry,copied.2.1)]},none)

/-- Writing an entry ends the extraction only by refusing it. -/
theorem writeEntry_outcome {writer : Writer} {state : Extraction} {entry : Entry}
    {place : Place} {outcome : Outcome}
    (h : (writeEntry writer state entry place).2=some outcome) :
    ∃ error, outcome=.refused error := by
  rw [writeEntry] at h
  dsimp only at h
  split at h
  · exact ⟨_,(Option.some.inj h).symm⟩
  · split at h
    · exact ⟨_,(Option.some.inj h).symm⟩
    · cases h

/-- One entry; an outcome ends the extraction. The system's own words are left
out of the error about directories. -/
def extractEntry (writer : Writer) (allowed : Place → Bool) (dest : Place) (state : Extraction)
    (entry : Entry) : Extraction×Option Outcome :=
  match entry.pathname with
  | none => ({state with written := state.written++[(entry,[])]},none)
  | some path =>
    match refusal entry path with
    | some error => (state,some (.refused error))
    | none =>
      let full := elements path
      let checked := if entry.filetype=.directory then full else full.dropLast
      let made := createDirectories allowed state.files dest checked
      let prepared := {state with files := made.tree
                                  created := state.created++made.created}
      match made.place with
      | none => (prepared,some (.refused "failed to prepare extraction path"))
      | some _ =>
        match weaklyCanonical made.tree dest checked with
        | none => (prepared,some .threw)
        | some canonical =>
          if isPathWithinRoot canonical dest=false then
            (prepared,some (.refused ("archive entry escapes extraction root: "++
              String.ofList path)))
          else
            let place :=
              if entry.filetype=.directory then canonical
              else lastPlace made.tree canonical full.getLast?
            writeEntry writer prepared entry place

/-- No entry ends an extraction with success. -/
theorem extractEntry_outcome {writer : Writer} {allowed : Place → Bool} {dest : Place}
    {state : Extraction} {entry : Entry} :
    (extractEntry writer allowed dest state entry).2≠some .extracted := by
  rw [extractEntry]
  cases entry.pathname with
  | none => simp
  | some path =>
    dsimp only
    cases refusal entry path with
    | some error => simp
    | none =>
      dsimp only
      generalize (if entry.filetype=.directory then elements path
        else (elements path).dropLast)=checked
      cases (createDirectories allowed state.files dest checked).place with
      | none => simp
      | some made =>
        dsimp only
        cases weaklyCanonical (createDirectories allowed state.files dest checked).tree dest
            checked with
        | none => simp
        | some canonical =>
          dsimp only
          by_cases hroot : isPathWithinRoot canonical dest=false
          · rw [if_pos hroot]
            simp
          · rw [if_neg hroot]
            intro h
            obtain ⟨error,herror⟩ := writeEntry_outcome h
            cases herror

/-- The entries that are left. -/
def extractEntries (writer : Writer) (allowed : Place → Bool) (dest : Place) (ending : Failure) :
    Extraction → List Entry → Extraction×Outcome
  | state,[] =>
    match ending with
    | some reason =>
      let error := "archive iteration error: "++reason
      ({state with failures := state.failures++[error]},.refused error)
    | none => (state,.extracted)
  | state,entry::rest =>
    let next := extractEntry writer allowed dest state entry
    match next.2 with
    | some outcome => (next.1,outcome)
    | none => extractEntries writer allowed dest ending next.1 rest

/-- Extract an archive to the place its destination leads to. -/
def extractArchive (writer : Writer) (allowed : Place → Bool) (files : Files) (dest : Place)
    (archive : Archive) : Extraction×Outcome :=
  match archive.opening with
  | some reason =>
    let error := "failed to open archive: "++reason
    (⟨files,[],[],[error],[]⟩,.refused error)
  | none => extractEntries writer allowed dest archive.ending ⟨files,[],[],[],[]⟩ archive.entries

end Extraction

end Vinput.ArchiveExtraction
