import Vinput.ExtractionSafety
import Vinput.ModelInstall

/-!
# What the steps of an installation change

The temporary directory is new and nothing in it leads elsewhere. As long as
the archive is put into it, all that is put together stays in it.
-/

namespace Vinput.InstallStages

open ArchiveExtraction (Failure Files Place Writer extractArchive)
open ExtractionSafety (extractArchive_contained stays_of_no_up)
open FileDownload FilePaths FileTree ModelInstall

section Operations

variable {files later : Files} {root src dst path : Place} {words : String} {answer : Failure}

/-- A rename that succeeds is one of the files. -/
theorem tryRename_ok (h : tryRename words answer files src dst=.ok later) :
    files.rename src dst=some later := by
  cases answer with
  | some reason => cases h
  | none =>
    rw [tryRename] at h
    cases hmoved : files.rename src dst with
    | none => simp [hmoved] at h
    | some moved =>
      rw [hmoved] at h
      rw [Except.ok.inj h]

theorem tryWrite_ok {bytes : List UInt8} (h : tryWrite words answer files path bytes=.ok later) :
    files.writeFile path bytes=some later := by
  cases answer with
  | some reason => cases h
  | none =>
    rw [tryWrite] at h
    cases hwritten : files.writeFile path bytes with
    | none => simp [hwritten] at h
    | some written =>
      rw [hwritten] at h
      rw [Except.ok.inj h]

/-- A move that succeeds has both places. -/
theorem tryMove_ok {source target : Option Place}
    (h : tryMove words answer files source target=.ok later) :
    ∃ src dst, source=some src ∧ target=some dst ∧ files.rename src dst=some later := by
  cases source with
  | none => cases h
  | some src =>
    cases target with
    | none => cases h
    | some dst => exact ⟨src,dst,rfl,rfl,tryRename_ok h⟩

/-- What is removed in part stays below as well. -/
theorem clear_changed (hroot : root<+:path) (gone : Option (List Place)) :
    Changed root files (clear files path gone) := by
  cases gone with
  | none => exact changed_removeAll hroot
  | some places =>
    have hplaces : ∀ place∈places.filter fun place => path.isPrefixOf place, root<+:place := by
      intro place hplace
      exact hroot.trans (List.isPrefixOf_iff_prefix.mp (List.mem_filter.mp hplace).2)
    rw [clear]
    generalize places.filter (fun place => path.isPrefixOf place)=removed at hplaces
    induction removed generalizing files with
    | nil => exact Changed.refl
    | cons place rest ih =>
      obtain ⟨hplace,hrest⟩ := List.forall_mem_cons.mp hplaces
      exact (changed_removeAll hplace).trans (ih hrest)

/-- Moving entries changes nothing outside. -/
theorem moveEntries_changed {move : List Char → Failure} (hplain : AllPlain root files)
    (hsrc : root<+:src) (hdst : root<+:dst) (names : List (List Char)) :
    Changed root files (moveEntries words move src dst files names) := by
  induction names generalizing files with
  | nil => exact Changed.refl
  | cons name rest ih =>
    rw [moveEntries]
    cases hmoved : tryRename words (move name) files (src++[name]) (dst++[name]) with
    | error reason => exact ih hplain
    | ok later =>
      have hchanged : Changed root files later :=
        changed_rename hplain (hsrc.trans (List.prefix_append _ _))
          (hdst.trans (List.prefix_append _ _)) (tryRename_ok hmoved)
      exact hchanged.trans (ih (hplain.changed hchanged))

end Operations

section Steps

variable {files : Files} {temp : Place} {writer : Writer} {answers : Answers}
  {found : RemoteModelEntry}

/-- The archive is put into the temporary directory. -/
def ArchiveStays (found : RemoteModelEntry) : Prop :=
  (archiveName found).head?≠some '/' ∧ stays 0 (elements (archiveName found)).dropLast=true

/-- The download changes the temporary directory only. -/
theorem fetch_changed (hplain : AllPlain temp files) (htemp : temp≠[]) (hstays : ArchiveStays found) :
    Changed temp files (fetch answers temp found files).1 := by
  rw [fetch]
  simp only [if_neg hstays.1]
  have hdownloaded : Changed temp files (downloadFile answers.words answers.removesArchive files temp
      (elements (archiveName found))
      (found.urls.mapIdx fun i url => {answers.attempt i with url := url})).1 :=
    downloadFile_changed hplain htemp hstays.2 _ _
  split_ifs
  all_goals exact hdownloaded

theorem unpack_changed (hplain : AllPlain temp files) :
    Changed temp files (unpack writer answers temp files).1 := by
  have hmade : Changed temp files
      (makeDirectories answers.extracted files temp [.name extractedName]).tree :=
    made_changed hplain rfl
  have hlinks : NoLinks (makeDirectories answers.extracted files temp [.name extractedName]).tree
      (temp++[extractedName]) :=
    fun path hpath => (hplain.changed hmade).noLinks path ((List.prefix_append _ _).trans hpath)
  have hextracted : Changed temp files (extractArchive writer answers.extraction
      (makeDirectories answers.extracted files temp [.name extractedName]).tree
      (temp++[extractedName]) answers.archive).1.files :=
    hmade.trans ((extractArchive_contained hlinks answers.archive).changed.mono
      (List.prefix_append _ _))
  rw [unpack]
  split
  all_goals exact hextracted

theorem flattenModel_changed (hplain : AllPlain temp files) :
    Changed temp files (flattenModel answers temp files).1 := by
  have hextracted : temp<+:temp++[extractedName] := List.prefix_append _ _
  have hflat : temp<+:temp++[flattenName] := List.prefix_append _ _
  rw [flattenModel]
  dsimp only
  split_ifs
  · exact Changed.refl
  · exact Changed.refl
  · cases onlyDirectory files (temp++[extractedName]) with
    | none => exact Changed.refl
    | some name =>
      dsimp only
      cases hmoved : tryRename answers.words answers.flatten files (temp++[extractedName]++[name])
          (temp++[flattenName]) with
      | error reason => exact Changed.refl
      | ok moved =>
        have hfirst : Changed temp files moved :=
          changed_rename hplain (hextracted.trans (List.prefix_append _ _)) hflat
            (tryRename_ok hmoved)
        have hentries : ∀ names, Changed temp files (moveEntries answers.words answers.move
            (temp++[flattenName]) (temp++[extractedName]) moved names) :=
          fun names => hfirst.trans
            (moveEntries_changed (hplain.changed hfirst) hflat hextracted names)
        dsimp only
        cases answers.listed with
        | some read => exact hentries _
        | none => exact (hentries _).trans (clear_changed hflat _)

theorem writeManifest_changed : Changed temp files (writeManifest answers temp found files).1 := by
  rw [writeManifest]
  split
  · exact Changed.refl
  · exact Changed.refl
  · exact Changed.refl
  · split
    · rename_i hwritten
      exact changed_writeFile (List.prefix_append _ _) (tryWrite_ok hwritten)
    · exact Changed.refl

/-- The exported vocabulary lies in the extracted directory. -/
theorem exportVocabulary_changed {extracted : Place} {parts : List (Element (List Char))}
    (hplain : AllPlain extracted files) (hlevel : .up∉parts) (bytes : List UInt8) :
    Changed extracted files (exportVocabulary answers files extracted parts bytes).1 := by
  have hstays : stays 0 parts.dropLast=true :=
    stays_of_no_up fun hup => hlevel (List.mem_of_mem_dropLast hup)
  have hmade : Changed extracted files
      (makeDirectories answers.vocabularyParent files extracted parts.dropLast).tree :=
    made_changed hplain hstays
  rw [exportVocabulary]
  split_ifs
  · exact Changed.refl
  · dsimp only
    split
    · rename_i parent name hparent hname
      have hinside : extracted<+:parent :=
        (housed_directoryAt (hplain.changed hmade) hstays hparent).inside
      split
      · rename_i hwritten
        exact hmade.trans (changed_writeFile (hinside.trans (List.prefix_append _ _))
          (tryWrite_ok hwritten))
      · exact hmade
    · exact hmade

/-- A path that is accepted has no step up. -/
theorem resolveInstallAssetPath_ok {rawPath : List Char} {parts : List (Element (List Char))}
    (h : resolveInstallAssetPath rawPath=.ok parts) : .up∉parts ∧ parts=elements rawPath := by
  rw [resolveInstallAssetPath] at h
  split_ifs at h with hrelative hlevel
  rw [← Except.ok.inj h]
  exact ⟨hlevel,rfl⟩

/-- Providing for the engine changes the temporary directory only. -/
theorem provision_changed (hplain : AllPlain temp files) :
    Changed temp files (provision answers temp files).1 := by
  rw [provision]
  dsimp only
  split
  · exact Changed.refl
  · split
    · exact Changed.refl
    · rename_i hresolved
      have hinside : temp<+:temp++[extractedName] := List.prefix_append _ _
      exact (exportVocabulary_changed (fun path hpath => hplain path (hinside.trans hpath))
        (resolveInstallAssetPath_ok hresolved).1 _).mono hinside

/-- The next step is taken in the tree the last one leaves. -/
theorem andThen_changed {step : Files×Option Outcome} {next : Files → Files×Option Outcome}
    (hplain : AllPlain temp files) (hstep : Changed temp files step.1)
    (hnext : ∀ later, AllPlain temp later → Changed temp later (next later).1) :
    Changed temp files (andThen step next).1 := by
  rw [andThen]
  cases step.2 with
  | some outcome => exact hstep
  | none => exact hstep.trans (hnext _ (hplain.changed hstep))

/-- All that is put together stays in the temporary directory. -/
theorem assemble_changed (hplain : AllPlain temp files) (htemp : temp≠[])
    (hstays : ArchiveStays found) :
    Changed temp files (assemble writer answers temp found files).1 := by
  have hfetch : Changed temp files (fetch answers temp found files).1 :=
    fetch_changed hplain htemp hstays
  have hunpack : Changed temp files (andThen (fetch answers temp found files)
      (unpack writer answers temp)).1 :=
    andThen_changed hplain hfetch fun _ hlater => unpack_changed hlater
  have hflatten : Changed temp files (andThen (andThen (fetch answers temp found files)
      (unpack writer answers temp)) (flattenModel answers temp)).1 :=
    andThen_changed hplain hunpack fun _ hlater => flattenModel_changed hlater
  have hmanifest : Changed temp files (andThen (andThen (andThen (fetch answers temp found files)
      (unpack writer answers temp)) (flattenModel answers temp)) (writeManifest answers temp found)).1 :=
    andThen_changed hplain hflatten fun _ _ => writeManifest_changed
  exact andThen_changed hplain hmanifest fun _ hlater => provision_changed hlater

end Steps

section Start

variable {files made started : Files} {root place : Place} {answers : Answers} {base : Place}

/-- The temporary directory is new, so that nothing in it leads elsewhere. -/
theorem plain_makeDirectory (h : made.makeDirectory place=some started) : AllPlain place started := by
  obtain ⟨hnone,hget⟩ := Tree.get_makeDirectory h
  intro path hpath
  rw [hget]
  split_ifs
  · exact .inr (.inl rfl)
  · exact .inl (made.get_below hnone hpath)

end Start

end Vinput.InstallStages
