import Mathlib.Data.List.Infix
import Vinput.ArchiveExtraction

/-!
# Extraction stays in its destination

Below the destination there are no links, and the writer makes none, so that
every checked path stays below it. Nothing outside changes, and an archive
with an entry that is not to be trusted is refused.
-/

namespace Vinput.ExtractionSafety

open ArchiveExtraction FilePaths FileTree
open InstalledModels (isPathWithinRoot)

section Contained

variable {files : Files} {dest place : Place} {writer : Writer} {action : Action}

/-- A plain action changes nothing outside. -/
theorem changed_act (hplace : dest<+:place) (hplain : action.isPlain=true) :
    Changed dest files (writer.act files place action) := by
  intro path
  by_cases hpath : dest<+:path
  · obtain hsame | hnode := writer.plain files place action hplain path
    · exact .inl hsame
    · exact .inr ⟨hpath,hnode⟩
  · left
    exact writer.confined files place action path fun hwithin => hpath (hplace.trans hwithin)

theorem changed_copyBlocks (hplace : dest<+:place) (blocksEnd : Failure)
    (blocks : List (Block×Failure)) (files : Files) :
    Changed dest files (copyBlocks writer place files blocksEnd blocks).1 := by
  induction blocks generalizing files with
  | nil => exact Changed.refl
  | cons first rest ih =>
    obtain ⟨block,answer⟩ := first
    have hblock : Changed dest files (writer.act files place (.data block)) :=
      changed_act hplace rfl
    cases answer with
    | some reason => exact hblock
    | none => exact hblock.trans (ih _)

end Contained

section Entries

variable {files : Files} {dest place : Place} {writer : Writer} {allowed : Place → Bool}
  {state : Extraction} {entry : Entry} {path : List Char}

/-- What an extraction has done so far stays below the destination. -/
structure Contained (files : Files) (dest : Place) (state : Extraction) : Prop where
  changed : Changed dest files state.files
  created : ∀ place∈state.created, dest<+:place
  handed : ∀ place∈state.handed, dest<+:place

/-- At the start nothing has changed. -/
theorem Contained.start : Contained files dest ⟨files,[],[],[],[]⟩ :=
  ⟨Changed.refl,by simp,by simp⟩

/-- A path without steps up stays inside. -/
theorem stays_of_no_up {depth : ℕ} {parts : List (Element (List Char))} (h : .up∉parts) :
    stays depth parts=true := by
  induction parts generalizing depth with
  | nil => rfl
  | cons part rest ih =>
    obtain ⟨hpart,hrest⟩ := not_or.mp (List.mem_cons.not.mp h)
    cases part with
    | here => exact ih hrest
    | up => exact absurd rfl hpart
    | name name => exact ih hrest

theorem inside_self (dest : Place) : Inside dest 0 dest := ⟨List.prefix_refl dest,Nat.le_refl _⟩

/-- An entry that is written at a place below the destination. -/
theorem Contained.write (h : Contained files dest state) (hplace : dest<+:place)
    (hplain : (Action.header entry).isPlain=true) :
    Contained files dest (writeEntry writer state entry place).1 := by
  have hheader : Changed dest files (writer.act state.files place (.header entry)) :=
    h.changed.trans (changed_act hplace hplain)
  have hhanded : ∀ other∈state.handed++[place], dest<+:other := by
    intro other hother
    rcases List.mem_append.mp hother with hold | hnew
    · exact h.handed other hold
    · rwa [List.mem_singleton.mp hnew]
  have hcopied : ∀ copied, copied=(if 0<entry.knownSize then
      copyBlocks writer place (writer.act state.files place (.header entry)) entry.blocksEnd
        entry.blocks else (writer.act state.files place (.header entry),[],none)) →
      Changed dest files copied.1 := by
    rintro copied rfl
    split_ifs
    · exact hheader.trans (changed_copyBlocks hplace _ _ _)
    · exact hheader
  rw [writeEntry]
  cases entry.header with
  | some reason => exact ⟨hheader,h.created,hhanded⟩
  | none =>
    dsimp only
    split
    · exact ⟨hcopied _ rfl,h.created,hhanded⟩
    · exact ⟨(hcopied _ rfl).trans (changed_act hplace rfl),h.created,hhanded⟩

/-- An entry that passed the checks. -/
structure Trusted (entry : Entry) (path : List Char) : Prop where
  relative : path.head?≠some '/'
  level : .up∉elements path
  noLink : entry.isLink=false
  plain : entry.isPlain=true

/-- An entry is accepted when it is trusted. -/
theorem refusal_eq_none : refusal entry path=none ↔ Trusted entry path := by
  rw [refusal]
  constructor
  · intro h
    split_ifs at h with hrelative hlevel hlink hplain
    exact ⟨hrelative,hlevel,by simpa using hlink,by simpa using hplain⟩
  · rintro ⟨hrelative,hlevel,hlink,hplain⟩
    simp [hrelative,hlevel,hlink,hplain]

/-- What making the directories of a path does below the destination. -/
structure Prepared (files : Files) (dest : Place) (parts : List (Element (List Char)))
    (made : Made (List Char) (List UInt8)) : Prop where
  changed : Changed dest files made.tree
  created : ∀ place∈made.created, dest<+:place
  place : ∀ result, made.place=some result →
    dest<+:result ∧ walk made.tree maxLinks dest parts=some result

theorem prepared_makeDirectories (hlinks : NoLinks files dest)
    {parts : List (Element (List Char))} (hstays : stays 0 parts=true) :
    Prepared files dest parts (makeDirectories allowed files dest parts) := by
  obtain ⟨hcreated,hplace⟩ :=
    makeDirectories_inside hlinks (inside_self dest) hstays
  exact ⟨changed_makeDirectories hlinks (inside_self dest) hstays,hcreated,hplace⟩

theorem prepared_createDirectories (hlinks : NoLinks files dest)
    {parts : List (Element (List Char))} (hstays : stays 0 parts=true) :
    Prepared files dest parts (createDirectories allowed files dest parts) := by
  rw [createDirectories]
  split_ifs with hthere hallowed
  · exact prepared_makeDirectories hlinks hstays
  · cases hmade : files.makeDirectory dest with
    | none => exact ⟨Changed.refl,by simp,by simp⟩
    | some made =>
      have hdest : Changed dest files made := by
        intro path
        rw [(Tree.get_makeDirectory hmade).2]
        by_cases hsame : dest=path
        · right
          rw [if_pos hsame,← hsame]
          exact ⟨List.prefix_refl dest,.inr (.inl rfl)⟩
        · exact .inl (if_neg hsame)
      have hrest : Prepared made dest parts (makeDirectories allowed made dest parts) :=
        prepared_makeDirectories (hdest.noLinks hlinks) hstays
      refine ⟨hdest.trans hrest.changed,?_,hrest.place⟩
      intro place hplace
      rcases List.mem_cons.mp hplace with rfl | hlater
      · exact List.prefix_refl place
      · exact hrest.created place hlater
  · exact ⟨Changed.refl,by simp,by simp⟩

/-- Directories that are made below the destination. -/
theorem Contained.make (h : Contained files dest state) (hlinks : NoLinks files dest)
    {parts : List (Element (List Char))} (hstays : stays 0 parts=true) :
    Contained files dest
      {state with
        files := (createDirectories allowed state.files dest parts).tree
        created := state.created++(createDirectories allowed state.files dest parts).created} := by
  have hprepared : Prepared state.files dest parts
      (createDirectories allowed state.files dest parts) :=
    prepared_createDirectories (h.changed.noLinks hlinks) hstays
  refine ⟨h.changed.trans hprepared.changed,fun place hplace => ?_,h.handed⟩
  rcases List.mem_append.mp hplace with hold | hnew
  · exact h.created place hold
  · exact hprepared.created place hnew

/-- One entry: it is extracted below the destination, or refused. -/
theorem Contained.extract (h : Contained files dest state) (hlinks : NoLinks files dest) :
    Contained files dest (extractEntry writer allowed dest state entry).1 ∧
      ∀ outcome, (extractEntry writer allowed dest state entry).2=some outcome →
        ∃ error, outcome=.refused error := by
  rw [extractEntry]
  cases entry.pathname with
  | none => exact ⟨⟨h.changed,h.created,h.handed⟩,by simp⟩
  | some path =>
    dsimp only
    cases hrefusal : refusal entry path with
    | some error => exact ⟨h,by simp⟩
    | none =>
      have htrusted := refusal_eq_none.mp hrefusal
      dsimp only
      -- the checked path never climbs, so that its directories stay below
      have hstays : stays 0 (if entry.filetype=.directory then elements path
          else (elements path).dropLast)=true := by
        split_ifs
        · exact stays_of_no_up htrusted.level
        · exact stays_of_no_up fun hup => htrusted.level (List.mem_of_mem_dropLast hup)
      generalize (if entry.filetype=.directory then elements path
        else (elements path).dropLast)=checked at hstays ⊢
      have hprepared : Contained files dest
          {state with
            files := (createDirectories allowed state.files dest checked).tree
            created := state.created++(createDirectories allowed state.files dest checked).created} :=
        h.make hlinks hstays
      cases hmade : (createDirectories allowed state.files dest checked).place with
      | none => exact ⟨hprepared,by simp⟩
      | some made =>
        dsimp only
        have hinside : dest<+:made ∧
            walk (createDirectories allowed state.files dest checked).tree maxLinks dest checked=
              some made :=
          (prepared_createDirectories (h.changed.noLinks hlinks) hstays).place made hmade
        have hcanonical : weaklyCanonical (createDirectories allowed state.files dest checked).tree
            dest checked=some made := hinside.2
        rw [hcanonical]
        dsimp only
        split_ifs with hroot hdirectory
        · exact ⟨hprepared,by simp⟩
        · refine ⟨hprepared.write hinside.1 ?_,fun _ => writeEntry_outcome⟩
          simp [Action.isPlain,htrusted.plain,htrusted.noLink]
        · refine ⟨hprepared.write (lastPlace_inside (hprepared.changed.noLinks hlinks) hinside.1 _) ?_,
            fun _ => writeEntry_outcome⟩
          simp [Action.isPlain,htrusted.plain,htrusted.noLink]

end Entries

section Runs

variable {files : Files} {dest : Place} {writer : Writer} {allowed : Place → Bool}
  {state : Extraction} {entry : Entry} {path : List Char} {ending : Failure}

/-- An entry that an archive should not hold. -/
structure Hostile (entry : Entry) (path : List Char) : Prop where
  named : entry.pathname=some path
  bad : path.head?=some '/' ∨ ['.','.']∈path.splitOn '/' ∨ entry.isLink=true ∨
    entry.filetype=.symlink ∨ entry.filetype=.other

/-- A step up is two dots between slashes. -/
theorem up_mem_elements : .up∈elements path ↔ ['.','.']∈path.splitOn '/' := by
  have hpiece : ∀ piece, element piece=.up ↔ piece=['.','.'] := by
    intro piece
    rw [element]
    split_ifs with hhere hup
    · simp [hhere]
    · simp [hup]
    · simp [hup]
  have hlast : (.up : Element (List Char))∉
      (if (path.splitOn '/').getLast?=some [] then [.here] else []) := by
    split_ifs <;> simp
  simp only [elements,List.mem_append,hlast,or_false,List.mem_map,List.mem_filter]
  constructor
  · rintro ⟨piece,⟨hmem,_⟩,hup⟩
    rwa [(hpiece piece).mp hup] at hmem
  · intro hmem
    exact ⟨['.','.'],⟨hmem,by simp⟩,(hpiece _).mpr rfl⟩

theorem Hostile.not_trusted (h : Hostile entry path) : ¬Trusted entry path := by
  intro htrusted
  obtain hslash | hup | hlink | htype | htype := h.bad
  · exact htrusted.relative hslash
  · exact htrusted.level (up_mem_elements.mpr hup)
  · simp [htrusted.noLink] at hlink
  · simpa [Entry.isPlain,htype] using htrusted.plain
  · simpa [Entry.isPlain,htype] using htrusted.plain

/-- A hostile entry is refused. -/
theorem extractEntry_hostile (h : Hostile entry path) :
    ∃ error, (extractEntry writer allowed dest state entry).2=some (.refused error) := by
  rw [extractEntry,h.named]
  dsimp only
  cases hrefusal : refusal entry path with
  | some error => exact ⟨error,rfl⟩
  | none => exact absurd (refusal_eq_none.mp hrefusal) h.not_trusted

/-- All entries: they are extracted below the destination, or refused. -/
theorem Contained.run (h : Contained files dest state) (hlinks : NoLinks files dest)
    (entries : List Entry) :
    Contained files dest (extractEntries writer allowed dest ending state entries).1 ∧
      ∀ entry∈entries, ∀ path, Hostile entry path → ∃ error,
        (extractEntries writer allowed dest ending state entries).2=.refused error := by
  induction entries generalizing state with
  | nil =>
    refine ⟨?_,by simp⟩
    cases ending with
    | some reason => exact ⟨h.changed,h.created,h.handed⟩
    | none => exact h
  | cons first rest ih =>
    obtain ⟨hfirst,hrefuses⟩ := h.extract hlinks
    simp only [extractEntries]
    cases houtcome : (extractEntry writer allowed dest state first).2 with
    | some outcome => exact ⟨hfirst,fun _ _ _ _ => hrefuses outcome houtcome⟩
    | none =>
      obtain ⟨hrest,hrefused⟩ := ih hfirst
      refine ⟨hrest,fun entry hentry path hhostile => ?_⟩
      rcases List.mem_cons.mp hentry with rfl | hlater
      · obtain ⟨error,herror⟩ := extractEntry_hostile hhostile
        rw [herror] at houtcome
        cases houtcome
      · exact hrefused entry hlater path hhostile

/-- What an archive changes stays below its destination. -/
theorem extractArchive_contained (hlinks : NoLinks files dest) (archive : Archive) :
    Contained files dest (extractArchive writer allowed files dest archive).1 := by
  rw [extractArchive]
  cases archive.opening with
  | some reason => exact ⟨Changed.refl,by simp,by simp⟩
  | none => exact (Contained.start.run hlinks archive.entries).1

/-- What an extraction may do, and what it has to refuse. -/
structure Safe (files : Files) (dest : Place) (archive : Archive)
    (result : Extraction×Outcome) : Prop where
  created : ∀ place∈result.1.created, dest<+:place
  handed : ∀ place∈result.1.handed, dest<+:place
  changed : Changed dest files result.1.files
  refused : ∀ entry∈archive.entries, ∀ path, Hostile entry path →
    ∃ error, result.2=.refused error

/-- Every archive is extracted below its destination, without links and
special files, and is refused if one of its entries is hostile. -/
theorem extraction_safe (writer : Writer) (allowed : Place → Bool) (archive : Archive)
    (hlinks : NoLinks files dest) :
    Safe files dest archive (extractArchive writer allowed files dest archive) := by
  have hcontained : Contained files dest (extractArchive writer allowed files dest archive).1 :=
    extractArchive_contained hlinks archive
  refine ⟨hcontained.created,hcontained.handed,hcontained.changed,fun entry hentry path hhostile => ?_⟩
  rw [extractArchive]
  cases archive.opening with
  | some reason => exact ⟨_,rfl⟩
  | none => exact (Contained.start.run hlinks archive.entries).2 entry hentry path hhostile

/-- A file in a directory, and an entry that climbs out of it. -/
def climbing : Archive where
  opening := none
  entries :=
    [⟨some ['a','/','b'],.regular,none,none,some 1,none,[(⟨[7],0⟩,none)],none,none⟩,
      ⟨some ['.','.','/','x'],.regular,none,none,some 0,none,[],none,none⟩]
  ending := none

/-- An empty directory beside a link. -/
def besideLink : Files where
  entries := [([],.directory),([['d']],.directory),([['l']],.link true [.name ['d']])]
  rooted := by
    intro path name h
    cases path with
    | nil => rfl
    | cons first rest => simp [lookup] at h

/-- The destination beside a link has none inside. -/
theorem besideLink_noLinks : NoLinks besideLink [['d']] := by
  rintro path ⟨below,rfl⟩ absolute target hlink
  cases below with
  | nil => simp [FileTree.Tree.get,lookup,besideLink] at hlink
  | cons first rest => simp [FileTree.Tree.get,lookup,besideLink] at hlink

/-- An entry that climbs out writes nothing outside. -/
theorem extraction_safe_climbing :
    Safe besideLink [['d']] climbing
      (extractArchive diskWriter (fun _ => true) besideLink [['d']] climbing) :=
  extraction_safe _ _ _ besideLink_noLinks

/-- A link whose path the archive does not give. -/
def pathlessLink : Archive where
  opening := none
  entries := [⟨none,.symlink,some ['/'],none,none,none,[],none,none⟩]
  ending := none

/-- An entry without a path is skipped before its type is looked at, so that an
archive holding a link is extracted. -/
theorem pathless_link_skipped :
    NoLinks besideLink [['d']] ∧ (∃ entry∈pathlessLink.entries, entry.isLink=true) ∧
      (extractArchive diskWriter (fun _ => true) besideLink [['d']] pathlessLink).2=.extracted :=
  ⟨besideLink_noLinks,⟨_,List.mem_singleton_self _,rfl⟩,rfl⟩

end Runs

end Vinput.ExtractionSafety
