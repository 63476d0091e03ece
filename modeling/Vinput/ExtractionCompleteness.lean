import Vinput.ArchiveExtraction

/-!
# What a finished extraction has written

An extraction that goes on to the end has written each block it asked for and
has met no failure it looks at. It does not ask for the blocks of an entry
without a positive size, and it does not look at how an entry is finished.
-/

namespace Vinput.ExtractionCompleteness

open ArchiveExtraction FilePaths FileTree

section Steps

variable {writer : Writer} {allowed : Place → Bool} {files : Files} {dest place : Place}
  {state : Extraction} {entry : Entry} {ending : Failure}

/-- The blocks of an entry that the extraction asks for. -/
def asked (entry : Entry) : List Block :=
  if entry.pathname≠none ∧ 0<entry.knownSize then entry.blocks.map Prod.fst else []

/-- Failures of an entry that the extraction does not look at. -/
def overlooked (entry : Entry) : List String :=
  if entry.pathname=none then [] else entry.finish.toList

/-- A copy without an error has written all blocks. -/
theorem copyBlocks_written {blocksEnd : Failure} {blocks : List (Block×Failure)}
    (h : (copyBlocks writer place files blocksEnd blocks).2.2=none) :
    (copyBlocks writer place files blocksEnd blocks).2.1=blocks.map Prod.fst := by
  induction blocks generalizing files with
  | nil => rfl
  | cons first rest ih =>
    obtain ⟨block,answer⟩ := first
    cases answer with
    | some reason => cases h
    | none =>
      have hrest : (copyBlocks writer place (writer.act files place (.data block)) blocksEnd
          rest).2.1=rest.map Prod.fst := ih h
      simp [copyBlocks,hrest]

/-- An entry that was written without an error. -/
theorem writeEntry_written (h : (writeEntry writer state entry place).2=none) :
    (writeEntry writer state entry place).1.written=
        state.written++[(entry,if 0<entry.knownSize then entry.blocks.map Prod.fst else [])] ∧
      (writeEntry writer state entry place).1.failures=
        state.failures++entry.finish.toList := by
  rw [writeEntry] at h ⊢
  cases hheader : entry.header with
  | some reason =>
    rw [hheader] at h
    cases h
  | none =>
    rw [hheader] at h
    dsimp only at h ⊢
    by_cases hsize : 0<entry.knownSize
    · simp only [if_pos hsize] at h ⊢
      cases hcopied : (copyBlocks writer place (writer.act state.files place (.header entry))
          entry.blocksEnd entry.blocks).2.2 with
      | some error =>
        rw [hcopied] at h
        cases h
      | none =>
        dsimp only
        rw [copyBlocks_written hcopied]
        exact ⟨rfl,rfl⟩
    · simp [if_neg hsize]

/-- An entry that the extraction goes on after. -/
theorem extractEntry_written (h : (extractEntry writer allowed dest state entry).2=none) :
    (extractEntry writer allowed dest state entry).1.written=
        state.written++[(entry,asked entry)] ∧
      (extractEntry writer allowed dest state entry).1.failures=
        state.failures++overlooked entry := by
  rw [extractEntry] at h ⊢
  cases hname : entry.pathname with
  | none => simp [asked,overlooked,hname]
  | some path =>
    rw [hname] at h
    dsimp only at h ⊢
    cases hrefusal : refusal entry path with
    | some error =>
      rw [hrefusal] at h
      cases h
    | none =>
      rw [hrefusal] at h
      dsimp only at h ⊢
      generalize (if entry.filetype=.directory then elements path
        else (elements path).dropLast)=checked at h ⊢
      cases hplace : (createDirectories allowed state.files dest checked).place with
      | none =>
        rw [hplace] at h
        cases h
      | some made =>
        rw [hplace] at h
        dsimp only at h ⊢
        cases hcanonical : weaklyCanonical (createDirectories allowed state.files dest checked).tree
            dest checked with
        | none =>
          rw [hcanonical] at h
          cases h
        | some canonical =>
          rw [hcanonical] at h
          dsimp only at h ⊢
          by_cases hroot : InstalledModels.isPathWithinRoot canonical dest=false
          · rw [if_pos hroot] at h
            cases h
          · rw [if_neg hroot] at h ⊢
            have hwritten := writeEntry_written h
            simpa [asked,overlooked,hname] using hwritten

/-- All entries of an extraction that goes on to the end. -/
theorem extractEntries_written {entries : List Entry}
    (h : (extractEntries writer allowed dest ending state entries).2=.extracted) :
    (extractEntries writer allowed dest ending state entries).1.written=
        state.written++entries.map (fun entry => (entry,asked entry)) ∧
      (extractEntries writer allowed dest ending state entries).1.failures=
        state.failures++entries.flatMap overlooked := by
  induction entries generalizing state with
  | nil =>
    cases ending with
    | some reason => cases h
    | none => simp [extractEntries]
  | cons first rest ih =>
    simp only [extractEntries] at h ⊢
    cases houtcome : (extractEntry writer allowed dest state first).2 with
    | some outcome =>
      rw [houtcome] at h
      dsimp only at h
      rw [h] at houtcome
      exact absurd houtcome extractEntry_outcome
    | none =>
      rw [houtcome] at h
      dsimp only at h ⊢
      obtain ⟨hwritten,hfailures⟩ := extractEntry_written houtcome
      obtain ⟨hrestWritten,hrestFailures⟩ := ih h
      rw [hrestWritten,hrestFailures,hwritten,hfailures]
      simp

end Steps

section Completeness

variable {writer : Writer} {allowed : Place → Bool} {files : Files} {dest : Place}
  {archive : Archive}

/-- All that an archive delivers has been written, and no call failed. -/
structure Complete (archive : Archive) (result : Extraction×Outcome) : Prop where
  entries : result.1.written.map Prod.fst=archive.entries
  blocks : ∀ pair∈result.1.written, pair.1.filetype=.regular →
    pair.2=pair.1.blocks.map Prod.fst
  calls : result.1.failures=[]

/-- An entry that an extraction does not lose anything of. -/
structure Kept (entry : Entry) : Prop where
  sized : entry.filetype=.regular → entry.blocks≠[] → entry.pathname≠none ∧ 0<entry.knownSize
  finished : entry.pathname≠none → entry.finish=none

/-- All blocks are asked for when the entry has a name and a size. -/
theorem asked_eq {entry : Entry} :
    asked entry=entry.blocks.map Prod.fst ↔
      (entry.blocks≠[] → entry.pathname≠none ∧ 0<entry.knownSize) := by
  rw [asked]
  split_ifs with hasked
  · simp [hasked]
  · simp only [hasked,imp_false,not_not,ne_eq]
    constructor
    · intro h
      exact List.map_eq_nil_iff.mp h.symm
    · intro h
      rw [h,List.map_nil]

/-- Nothing is overlooked when the entry is finished or has no name. -/
theorem overlooked_eq_nil {entry : Entry} :
    overlooked entry=[] ↔ (entry.pathname≠none → entry.finish=none) := by
  rw [overlooked]
  split_ifs with hname
  · simp [hname]
  · simp [hname]

/-- What an archive that was opened and read to its end has written. -/
theorem extractArchive_written
    (h : (extractArchive writer allowed files dest archive).2=.extracted) :
    (extractArchive writer allowed files dest archive).1.written=
        archive.entries.map (fun entry => (entry,asked entry)) ∧
      (extractArchive writer allowed files dest archive).1.failures=
        archive.entries.flatMap overlooked := by
  rw [extractArchive] at h ⊢
  cases hopening : archive.opening with
  | some reason =>
    rw [hopening] at h
    cases h
  | none =>
    rw [hopening] at h
    dsimp only at h ⊢
    have hentries := extractEntries_written h
    simpa using hentries

/-- A finished extraction is complete if and only if each regular entry with
blocks has a path and a positive size, and each entry is finished well. -/
theorem extraction_complete (writer : Writer) (allowed : Place → Bool) (files : Files)
    (dest : Place) (archive : Archive)
    (h : (extractArchive writer allowed files dest archive).2=.extracted) :
    Complete archive (extractArchive writer allowed files dest archive) ↔
      ∀ entry∈archive.entries, Kept entry := by
  obtain ⟨hwritten,hfailures⟩ := extractArchive_written h
  constructor
  · intro hcomplete entry hentry
    constructor
    · intro hregular
      have hpair : (entry,asked entry)∈
          (extractArchive writer allowed files dest archive).1.written := by
        rw [hwritten]
        exact List.mem_map_of_mem hentry
      exact asked_eq.mp (hcomplete.blocks _ hpair hregular)
    · have hnone : archive.entries.flatMap overlooked=[] := by rw [← hfailures,hcomplete.calls]
      exact overlooked_eq_nil.mp (List.flatMap_eq_nil_iff.mp hnone entry hentry)
  · intro hkept
    constructor
    · rw [hwritten,List.map_map]
      exact List.map_id _
    · rw [hwritten]
      intro pair hpair hregular
      obtain ⟨entry,hentry,rfl⟩ := List.mem_map.mp hpair
      exact asked_eq.mpr ((hkept entry hentry).sized hregular)
    · rw [hfailures,List.flatMap_eq_nil_iff]
      intro entry hentry
      exact overlooked_eq_nil.mpr (hkept entry hentry).finished

/-- A directory that holds nothing. -/
def emptyRoot : Files where
  entries := [([],.directory)]
  rooted := by
    intro path name h
    simp [lookup] at h

/-- A regular entry with one block. -/
def oneBlock (size : Option ℤ) (finish : Failure) : Archive where
  opening := none
  entries := [⟨some ['a'],.regular,none,none,size,none,[(⟨[7],0⟩,none)],none,finish⟩]
  ending := none

/-- An archive with one block is extracted completely. -/
theorem extraction_complete_oneBlock :
    Complete (oneBlock (some 1) none)
      (extractArchive diskWriter (fun _ => true) emptyRoot [] (oneBlock (some 1) none)) := by
  rw [extraction_complete diskWriter (fun _ => true) emptyRoot [] (oneBlock (some 1) none)
    (by decide +kernel)]
  intro entry hentry
  rw [List.mem_singleton.mp hentry]
  constructor
  · intro _ _
    exact ⟨by simp,by decide⟩
  · simp

/-- A file whose size is not set stays empty, and a file that could not be
finished counts as extracted. -/
theorem unsized_lost :
    ((extractArchive diskWriter (fun _ => true) emptyRoot [] (oneBlock none none)).2=.extracted ∧
      ¬Complete (oneBlock none none)
        (extractArchive diskWriter (fun _ => true) emptyRoot [] (oneBlock none none))) ∧
    (extractArchive diskWriter (fun _ => true) emptyRoot []
        (oneBlock (some 1) (some "disk full"))).2=.extracted ∧
      ¬Complete (oneBlock (some 1) (some "disk full"))
        (extractArchive diskWriter (fun _ => true) emptyRoot []
          (oneBlock (some 1) (some "disk full"))) := by
  have hunsized : (extractArchive diskWriter (fun _ => true) emptyRoot []
      (oneBlock none none)).2=.extracted := by decide +kernel
  have hunfinished : (extractArchive diskWriter (fun _ => true) emptyRoot []
      (oneBlock (some 1) (some "disk full"))).2=.extracted := by decide +kernel
  refine ⟨⟨hunsized,fun hcomplete => ?_⟩,hunfinished,fun hcomplete => ?_⟩
  · have hblocks := hcomplete.blocks
    rw [(extractArchive_written hunsized).1] at hblocks
    have hlost := hblocks (_,_) (List.mem_singleton_self _) rfl
    simp [asked,Entry.knownSize] at hlost
  · have hcalls := hcomplete.calls
    rw [(extractArchive_written hunfinished).2] at hcalls
    simp [oneBlock,overlooked] at hcalls

end Completeness

end Vinput.ExtractionCompleteness
