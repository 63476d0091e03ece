import Vinput.DownloadCompleteness
import Vinput.InstallOutcome

/-!
# What a finished installation holds

The entries of a directory that is all there is of an archive are moved out of
it one by one, and what could not be moved is removed with it. Each file of
the archive is followed from the temporary directory to the destination.
-/

namespace Vinput.InstallCompleteness

open ArchiveExtraction (Failure Files Place Writer)
open ExtractionSafety (stays_of_no_up)
open DownloadCompleteness (Delivered Stored Succeeds downloadFile_ok)
open FileDownload FilePaths FileTree InstallOutcome InstallStages ModelInstall
open ResourceIds (modelPathForId)

section Moving

variable {files later : Files} {src dst : Place} {words : String} {move : List Char → Failure}

/-- Entries that can be moved: nothing stands at their new places. -/
structure Movables (files : Files) (src dst : Place) (entries : List (List Char)) : Prop where
  distinct : entries.Nodup
  apart : src.length=dst.length ∧ src≠dst
  target : files.get dst=some .directory
  there : ∀ name∈entries, files.get (src++[name])≠none
  free : ∀ name∈entries, files.get (dst++[name])=none

/-- The tree after an entry was to be moved. -/
structure Moved (files later : Files) (src dst : Place) (answer : Failure) (entry : List Char) :
    Prop where
  here : ∀ below, later.get (dst++entry::below)=
    if answer=none then files.get (src++entry::below) else none
  others : ∀ name, name≠entry → ∀ below,
    later.get (dst++name::below)=files.get (dst++name::below) ∧
      later.get (src++name::below)=files.get (src++name::below)
  target : later.get dst=files.get dst

/-- Nothing below a place stands below another as long. -/
theorem not_prefix_apart (hapart : src.length=dst.length ∧ src≠dst) (below below' : Place) :
    ¬src++below<+:dst++below' := by
  intro hwithin
  have hsrc : src<+:dst++below' := (List.prefix_append _ _).trans hwithin
  have hshort : src<+:dst :=
    List.prefix_of_prefix_length_le hsrc (List.prefix_append _ _) (Nat.le_of_eq hapart.1)
  exact hapart.2 (hshort.eq_of_length hapart.1)

/-- Below one name there is nothing of another. -/
theorem not_prefix_of_ne {place : Place} {name other : List Char} (hname : name≠other)
    (below : Place) : ¬place++[name]<+:place++other::below := by
  rw [List.prefix_append_right_inj]
  rintro ⟨rest,hrest⟩
  exact hname (List.cons.inj hrest).1

/-- An entry is moved, or it stays where it is. -/
theorem Movables.step {entries : List (List Char)} {entry : List Char}
    (h : Movables files src dst (entry::entries)) (words : String) (answer : Failure) :
    ∃ later, ((tryRename words answer files (src++[entry]) (dst++[entry])=.ok later) ∨
        later=files ∧ ∃ reason, tryRename words answer files (src++[entry]) (dst++[entry])=
          .error reason) ∧
      Moved files later src dst answer entry := by
  have hfree : files.get (dst++[entry])=none := h.free entry List.mem_cons_self
  have hback : dst.length=src.length ∧ dst≠src := ⟨h.apart.1.symm,h.apart.2.symm⟩
  cases answer with
  | some reason =>
    refine ⟨files,.inr ⟨rfl,reason,rfl⟩,fun below => ?_,fun _ _ _ => ⟨rfl,rfl⟩,rfl⟩
    rw [if_neg (by simp)]
    exact files.get_below hfree ⟨below,by simp⟩
  | none =>
    have hother : src++[entry]≠dst++[entry] := fun hsame =>
      h.apart.2 (List.append_inj_left' hsame rfl)
    have hmovable : Movable files (src++[entry]) (dst++[entry]) := by
      constructor
      · exact Option.isSome_iff_ne_none.mpr (h.there entry List.mem_cons_self)
      · rw [List.dropLast_concat]
        exact ⟨by simp,Tree.isDirectory_iff.mpr h.target⟩
      · exact not_prefix_apart h.apart _ _
      · rw [hfree]
        intro hsome
        cases hsome
    have hrename : tryRename words none files (src++[entry]) (dst++[entry])=
        .ok (files.move _ _ hmovable) := by
      rw [tryRename,Tree.rename,if_neg hother,dif_pos hmovable]
    refine ⟨_,.inl hrename,fun below => ?_,fun name hname below => ⟨?_,?_⟩,?_⟩
    · have hsplit : dst++entry::below=dst++[entry]++below := by simp
      rw [hsplit,Tree.get_move,if_pos (List.prefix_append _ _),List.drop_left,if_pos rfl,
        List.append_assoc,List.singleton_append]
    · rw [Tree.get_move,if_neg (not_prefix_of_ne hname.symm below),
        if_neg (not_prefix_apart h.apart _ _)]
    · rw [Tree.get_move,if_neg (not_prefix_apart hback _ _),
        if_neg (not_prefix_of_ne hname.symm below)]
    · have hsource : ¬src++[entry]<+:dst++[] := not_prefix_apart h.apart _ _
      rw [List.append_nil] at hsource
      rw [Tree.get_move,if_neg (not_concat_below dst entry),if_neg hsource]

/-- The entries that are left can be moved as well. -/
theorem Movables.rest {entries : List (List Char)} {entry : List Char} {answer : Failure}
    (h : Movables files src dst (entry::entries)) (hmoved : Moved files later src dst answer entry) :
    Movables later src dst entries := by
  obtain ⟨hnot,hdistinct⟩ := List.nodup_cons.mp h.distinct
  have hne : ∀ name∈entries, name≠entry := by
    rintro name hname rfl
    exact hnot hname
  refine ⟨hdistinct,h.apart,by rw [hmoved.target,h.target],fun name hname => ?_,fun name hname => ?_⟩
  · rw [(hmoved.others name (hne name hname) []).2]
    exact h.there name (List.mem_cons_of_mem _ hname)
  · rw [(hmoved.others name (hne name hname) []).1]
    exact h.free name (List.mem_cons_of_mem _ hname)

/-- Other entries stay where they are. -/
theorem moveEntries_others {entries : List (List Char)} (h : Movables files src dst entries)
    {name : List Char} (hname : name∉entries) (below : Place) :
    (moveEntries words move src dst files entries).get (dst++name::below)=
      files.get (dst++name::below) := by
  induction entries generalizing files with
  | nil => rfl
  | cons entry rest ih =>
    obtain ⟨hne,hrest⟩ := not_or.mp (List.mem_cons.not.mp hname)
    obtain ⟨later,hrename,hmoved⟩ := h.step words (move entry)
    have hsame := (hmoved.others name hne below).1
    rw [moveEntries]
    obtain hok | ⟨rfl,reason,herror⟩ := hrename
    · rw [hok]
      dsimp only
      rw [ih (h.rest hmoved) hrest,hsame]
    · rw [herror]
      exact ih (h.rest hmoved) hrest

/-- An entry that was moved stands at its new place, any other one does not. -/
theorem moveEntries_get {entries : List (List Char)} (h : Movables files src dst entries)
    {name : List Char} (hname : name∈entries) (below : Place) :
    (moveEntries words move src dst files entries).get (dst++name::below)=
      if move name=none then files.get (src++name::below) else none := by
  induction entries generalizing files with
  | nil => cases hname
  | cons entry rest ih =>
    obtain ⟨hnot,_⟩ := List.nodup_cons.mp h.distinct
    obtain ⟨later,hrename,hmoved⟩ := h.step words (move entry)
    have hfinal : (moveEntries words move src dst files (entry::rest)).get (dst++name::below)=
        (moveEntries words move src dst later rest).get (dst++name::below) := by
      rw [moveEntries]
      obtain hok | ⟨rfl,reason,herror⟩ := hrename
      · rw [hok]
      · rw [herror]
    rw [hfinal]
    rcases List.mem_cons.mp hname with rfl | hlater
    · rw [moveEntries_others (h.rest hmoved) hnot,hmoved.here]
    · have hne : name≠entry := by
        rintro rfl
        exact hnot hlater
      rw [ih (h.rest hmoved) hlater,(hmoved.others name hne below).2]

/-- The directory that entries are moved to stays one. -/
theorem moveEntries_target {entries : List (List Char)} (h : Movables files src dst entries) :
    (moveEntries words move src dst files entries).get dst=some .directory := by
  induction entries generalizing files with
  | nil => exact h.target
  | cons entry rest ih =>
    obtain ⟨later,hrename,hmoved⟩ := h.step words (move entry)
    rw [moveEntries]
    obtain hok | ⟨rfl,reason,herror⟩ := hrename
    · rw [hok]
      exact ih (h.rest hmoved)
    · rw [herror]
      exact ih (h.rest hmoved)

end Moving

section Steps

variable {files : Files} {temp : Place} {answers : Answers} {found : RemoteModelEntry}
  {name : List Char}

/-- The only directory of an archive can be moved out of the way. -/
def Flattens (answers : Answers) (temp : Place) (files : Files) (name : List Char) : Prop :=
  answers.flatten=none ∧
    (files.rename (temp++[extractedName]++[name]) (temp++[flattenName])).isSome=true

/-- The only directory is all there is. -/
theorem onlyDirectory_some (h : onlyDirectory files (temp++[extractedName])=some name) :
    files.children (temp++[extractedName])=[name] := by
  rw [onlyDirectory] at h
  split at h
  · rename_i other hchildren
    split_ifs at h
    rw [hchildren,Option.some.inj h]
  · cases h

/-- What was flattened is a directory. -/
theorem flattenModel_directory (h : (flattenModel answers temp files).2=none) :
    files.isDirectory (temp++[extractedName])=true := by
  rw [flattenModel] at h
  by_contra hnot
  rw [if_pos (.inr (by simpa using hnot))] at h
  cases h

/-- Nothing is changed where there is no only directory, or where it cannot be
moved out of the way. -/
theorem flattenModel_same (h : (flattenModel answers temp files).2=none)
    (hnot : ∀ name, onlyDirectory files (temp++[extractedName])=some name →
      ¬Flattens answers temp files name) :
    (flattenModel answers temp files).1=files := by
  rw [flattenModel] at h ⊢
  dsimp only at h ⊢
  split_ifs at h ⊢
  cases honly : onlyDirectory files (temp++[extractedName]) with
  | none => rfl
  | some name =>
    dsimp only
    cases hmoved : tryRename answers.words answers.flatten files (temp++[extractedName]++[name])
        (temp++[flattenName]) with
    | error reason => rfl
    | ok moved =>
      refine absurd ⟨?_,?_⟩ (hnot name honly)
      · cases hanswer : answers.flatten with
        | none => rfl
        | some reason =>
          rw [hanswer] at hmoved
          cases hmoved
      · rw [tryRename_ok hmoved]
        rfl

/-- The two temporary directories are siblings. -/
theorem extracted_apart (temp : Place) :
    (temp++[flattenName]).length=(temp++[extractedName]).length ∧
      temp++[flattenName]≠temp++[extractedName] := by
  refine ⟨by simp,fun hsame => ?_⟩
  have hnames := List.append_cancel_left hsame
  exact absurd (List.cons.inj hnames).1 (by decide)

/-- The tree after the only directory was moved out of the way. -/
structure Aside (files moved : Files) (temp : Place) (name : List Char) : Prop where
  flat : ∀ below, moved.get (temp++[flattenName]++below)=
    files.get (temp++[extractedName]++name::below)
  free : ∀ next, moved.get (temp++[extractedName]++[next])=none
  target : moved.get (temp++[extractedName])=files.get (temp++[extractedName])

/-- The only directory is moved aside as a whole. -/
theorem aside_rename {moved : Files} (honly : onlyDirectory files (temp++[extractedName])=some name)
    (hmoved : files.rename (temp++[extractedName]++[name]) (temp++[flattenName])=some moved) :
    Aside files moved temp name := by
  have hget : ∀ path, moved.get path=
      if temp++[flattenName]<+:path then
        files.get (temp++[extractedName]++[name]++path.drop (temp++[flattenName]).length)
      else if temp++[extractedName]++[name]<+:path then none else files.get path := by
    obtain ⟨hsame,_⟩ | ⟨_,hget⟩ := Tree.rename_eq_some hmoved
    · have hlength := congrArg List.length hsame
      simp at hlength
    · exact hget
  have hout : ∀ below, ¬temp++[flattenName]<+:temp++[extractedName]++below := by
    intro below
    have hapart : ¬temp++[flattenName]++[]<+:temp++[extractedName]++below :=
      not_prefix_apart (extracted_apart temp) _ _
    rwa [List.append_nil] at hapart
  refine ⟨fun below => ?_,fun next => ?_,?_⟩
  · rw [hget,if_pos (List.prefix_append _ _),List.drop_left,List.append_assoc _ [name],
      List.singleton_append]
  · rw [hget,if_neg (hout [next])]
    split_ifs with hnext
    · rfl
    · by_contra hthere
      have hchild : next∈files.children (temp++[extractedName]) := Tree.mem_children.mpr hthere
      rw [onlyDirectory_some honly,List.mem_singleton] at hchild
      exact hnext (hchild ▸ List.prefix_refl _)
  · have houtside := hout []
    rw [List.append_nil] at houtside
    rw [hget,if_neg houtside,if_neg (not_concat_below _ _)]

/-- The entries of the only directory can be moved back. -/
theorem Aside.movables {moved : Files} (h : Aside files moved temp name)
    (hdirectory : files.isDirectory (temp++[extractedName])=true) :
    Movables moved (temp++[flattenName]) (temp++[extractedName])
      (moved.children (temp++[flattenName])) := by
  refine ⟨List.nodup_dedup _,extracted_apart temp,?_,fun _ => Tree.mem_children.mp,
    fun next _ => h.free next⟩
  rw [h.target]
  exact Tree.isDirectory_iff.mp hdirectory

/-- The entries of the only directory are moved, and what is left is removed. -/
theorem flattenModel_moved (h : (flattenModel answers temp files).2=none)
    (honly : onlyDirectory files (temp++[extractedName])=some name) {moved : Files}
    (hmoved : tryRename answers.words answers.flatten files (temp++[extractedName]++[name])
      (temp++[flattenName])=.ok moved) :
    (flattenModel answers temp files).1=
      clear (moveEntries answers.words answers.move (temp++[flattenName]) (temp++[extractedName]) moved
        (moved.children (temp++[flattenName]))) (temp++[flattenName]) answers.removesFlatten := by
  rw [flattenModel] at h ⊢
  dsimp only at h ⊢
  split_ifs at h ⊢
  rw [honly] at h ⊢
  dsimp only at h ⊢
  rw [hmoved] at h ⊢
  dsimp only at h ⊢
  cases hlisted : answers.listed with
  | some read =>
    rw [hlisted] at h
    cases h
  | none => rfl

/-- Where the only directory is moved out of the way, its entries that can be
moved stand in its place. -/
theorem flattenModel_get (h : (flattenModel answers temp files).2=none)
    (honly : onlyDirectory files (temp++[extractedName])=some name)
    (hflattens : Flattens answers temp files name) (first : List Char) (below : Place) :
    (flattenModel answers temp files).1.get (temp++[extractedName]++first::below)=
      if answers.move first=none then files.get (temp++[extractedName]++name::first::below)
      else none := by
  obtain ⟨hanswer,hrename⟩ := hflattens
  obtain ⟨moved,hmoved⟩ := Option.isSome_iff_exists.mp hrename
  have htry : tryRename answers.words answers.flatten files (temp++[extractedName]++[name])
      (temp++[flattenName])=.ok moved := by
    rw [hanswer,tryRename,hmoved]
  have haside : Aside files moved temp name := aside_rename honly hmoved
  have hmovables := haside.movables (flattenModel_directory h)
  have hout : ¬temp++[flattenName]++[]<+:temp++[extractedName]++first::below :=
    not_prefix_apart (extracted_apart temp) _ _
  rw [List.append_nil] at hout
  rw [flattenModel_moved h honly htry,(clear_changed (List.prefix_refl _) _).outside hout,
    ← haside.flat]
  by_cases hchild : first∈moved.children (temp++[flattenName])
  · exact moveEntries_get hmovables hchild below
  · have hnone : moved.get (temp++[flattenName]++[first])=none := by
      by_contra hthere
      exact hchild (Tree.mem_children.mpr hthere)
    have hflat : moved.get (temp++[flattenName]++first::below)=none :=
      moved.get_below hnone ⟨below,by simp⟩
    have hfree : moved.get (temp++[extractedName]++first::below)=none :=
      moved.get_below (haside.free first) ⟨below,by simp⟩
    rw [moveEntries_others hmovables hchild,hfree,hflat]
    split_ifs <;> rfl

/-- What was extracted stands in a directory afterwards, too. -/
theorem flattenModel_target (h : (flattenModel answers temp files).2=none) :
    (flattenModel answers temp files).1.get (temp++[extractedName])=some .directory := by
  have hdirectory := flattenModel_directory h
  by_cases hflattens : ∃ name, onlyDirectory files (temp++[extractedName])=some name ∧
      Flattens answers temp files name
  · obtain ⟨name,honly,hanswer,hrename⟩ := hflattens
    obtain ⟨moved,hmoved⟩ := Option.isSome_iff_exists.mp hrename
    have htry : tryRename answers.words answers.flatten files (temp++[extractedName]++[name])
        (temp++[flattenName])=.ok moved := by
      rw [hanswer,tryRename,hmoved]
    have hout : ¬temp++[flattenName]++[]<+:temp++[extractedName]++[] :=
      not_prefix_apart (extracted_apart temp) _ _
    rw [List.append_nil,List.append_nil] at hout
    rw [flattenModel_moved h honly htry,(clear_changed (List.prefix_refl _) _).outside hout]
    exact moveEntries_target ((aside_rename honly hmoved).movables hdirectory)
  · rw [flattenModel_same h fun name honly hmoves => hflattens ⟨name,honly,hmoves⟩]
    exact Tree.isDirectory_iff.mp hdirectory

/-- The description of the registry is written, and nothing else. -/
theorem writeManifest_get (h : (writeManifest answers temp found files).2=none) (path : Place) :
    (writeManifest answers temp found files).1.get path=
      match found.vinputModel with
      | .object (some text) =>
        if temp++[extractedName,manifestName]=path then some (.file (text++[10])) else files.get path
      | _ => files.get path := by
  rw [writeManifest] at h ⊢
  cases hmodel : found.vinputModel with
  | absent => rfl
  | malformed => rfl
  | object text =>
    cases text with
    | none => rfl
    | some text =>
      rw [hmodel] at h
      dsimp only at h ⊢
      cases hwritten : tryWrite answers.words answers.manifest files
          (temp++[extractedName,manifestName]) (text++[10]) with
      | error reason =>
        rw [hwritten] at h
        cases h
      | ok later => exact Tree.get_writeFile (tryWrite_ok hwritten)

/-- A regular file is where a walk finds one. -/
theorem isRegularFile_iff {start : Place} {parts : List (Element (List Char))} :
    isRegularFile files start parts=true ↔ ∃ place content,
      walk files maxLinks start parts=some place ∧ files.get place=some (.file content) := by
  rw [isRegularFile]
  cases hwalk : walk files maxLinks start parts with
  | none => simp
  | some place =>
    rw [Option.bind_some]
    cases hnode : files.get place with
    | none => simp [hnode]
    | some node => cases node <;> simp [hnode]

/-- A vocabulary that is there is left as it is. -/
theorem exportVocabulary_regular {extracted : Place} {parts : List (Element (List Char))}
    {bytes : List UInt8} (h : isRegularFile files extracted parts=true) :
    exportVocabulary answers files extracted parts bytes=(files,none) := by
  rw [exportVocabulary,if_pos h]

/-- A vocabulary that is written where there was no file. -/
structure Written (files later : Files) (place : Place) (bytes : List UInt8) : Prop where
  free : ∀ old, files.get place≠some (.file old)
  here : later.get place=some (.file bytes)
  others : ∀ path, path≠place → later.get path=files.get path ∨
    files.get path=none ∧ later.get path=some .directory

/-- A vocabulary is written where there is no file. -/
theorem exportVocabulary_written {extracted : Place} {parts : List (Element (List Char))}
    {bytes : List UInt8} (hplain : AllPlain extracted files) (hlevel : .up∉parts)
    (h : (exportVocabulary answers files extracted parts bytes).2=none)
    (hregular : ¬isRegularFile files extracted parts=true) :
    names parts≠[] ∧ Written files (exportVocabulary answers files extracted parts bytes).1
      (extracted++names parts) bytes := by
  rw [exportVocabulary,if_neg hregular] at h ⊢
  have hfront : .up∉parts.dropLast := fun hup => hlevel (List.mem_of_mem_dropLast hup)
  have hmade : AllPlain extracted
      (makeDirectories answers.vocabularyParent files extracted parts.dropLast).tree :=
    hplain.changed (made_changed hplain (stays_of_no_up hfront))
  have hgrown : Grown files
      (makeDirectories answers.vocabularyParent files extracted parts.dropLast).tree
      (makeDirectories answers.vocabularyParent files extracted parts.dropLast).created :=
    grown_makeDirectories files extracted
  dsimp only at h ⊢
  generalize (makeDirectories answers.vocabularyParent files extracted parts.dropLast).tree=made
    at h hmade hgrown ⊢
  split at h
  · rename_i parent name hparent hlast
    cases hwritten : tryWrite answers.words answers.vocabularyWrite made (parent++[name]) bytes with
    | error reason =>
      rw [hwritten] at h
      cases h
    | ok later =>
      have hparts : parts.dropLast++[.name name]=parts := List.dropLast_append_getLast? _ hlast
      have hnames : names parts=names parts.dropLast++[name] := by
        rw [← hparts]
        simp [names]
      have hplace : parent=extracted++names parts.dropLast :=
        walk_names hmade.noLinks (List.prefix_refl _) hfront (directoryAt_eq hparent).1
      have hget : ∀ path, later.get path=
          if extracted++names parts=path then some (.file bytes) else made.get path := by
        intro path
        rw [Tree.get_writeFile (tryWrite_ok hwritten),hplace,hnames,List.append_assoc]
      refine ⟨by simp [hnames],fun old hold => ?_,?_,fun path hpath => ?_⟩
      · refine hregular (isRegularFile_iff.mpr ⟨extracted++names parts,old,?_,hold⟩)
        rw [hnames,← List.append_assoc] at hold ⊢
        have hthere : files.get (extracted++names parts.dropLast++[name])≠none := by
          rw [hold]
          exact Option.some_ne_none _
        have halong : walk files maxLinks extracted (parts.dropLast++[.name name])=
            some (extracted++names parts.dropLast++[name]) :=
          walk_along hplain.noLinks (List.prefix_refl _) hfront hthere
        rwa [hparts] at halong
      · rw [hget,if_pos rfl]
      · rw [hget,if_neg (Ne.symm hpath)]
        exact (hgrown path).imp_right fun hnew => hnew.2
  · cases h

/-- A file of a model stood there before a vocabulary was exported, or it is the
vocabulary. -/
theorem exportVocabulary_get {extracted : Place} {parts : List (Element (List Char))}
    {bytes content : List UInt8} (hplain : AllPlain extracted files) (hlevel : .up∉parts)
    (h : (exportVocabulary answers files extracted parts bytes).2=none) (below : Place) :
    (exportVocabulary answers files extracted parts bytes).1.get (extracted++below)=
        some (.file content) ↔
      files.get (extracted++below)=some (.file content) ∨
        (bytes=content ∧ names parts=below) ∧
          ∀ other, files.get (extracted++below)≠some (.file other) := by
  by_cases hregular : isRegularFile files extracted parts=true
  · rw [exportVocabulary_regular hregular]
    obtain ⟨place,old,hwalk,hfile⟩ := isRegularFile_iff.mp hregular
    have hplace : place=extracted++names parts :=
      walk_names hplain.noLinks (List.prefix_refl _) hlevel hwalk
    constructor
    · exact .inl
    · rintro (hkept | ⟨⟨_,rfl⟩,hnone⟩)
      · exact hkept
      · rw [← hplace] at hnone
        exact absurd hfile (hnone old)
  · obtain ⟨_,hwritten⟩ := exportVocabulary_written hplain hlevel h hregular
    by_cases hsame : names parts=below
    · subst hsame
      rw [hwritten.here]
      constructor
      · intro hbytes
        exact .inr ⟨⟨by simpa using hbytes,rfl⟩,hwritten.free⟩
      · rintro (hkept | ⟨⟨rfl,_⟩,_⟩)
        · exact absurd hkept (hwritten.free content)
        · rfl
    · have hother : extracted++below≠extracted++names parts := by
        simpa using Ne.symm hsame
      obtain hkept | ⟨hold,hnew⟩ := hwritten.others _ hother
      · rw [hkept]
        simp [hsame]
      · rw [hold,hnew]
        simp [hsame]

/-- What is exported into a model. -/
def Exported (answers : Answers) (temp : Place) (files : Files) (below : Place)
    (content : List UInt8) : Prop :=
  (∃ rawPath, answers.vocabulary=some (rawPath,content) ∧ names (elements rawPath)=below) ∧
    ∀ other, files.get (temp++[extractedName]++below)≠some (.file other)

/-- A model that is prepared stays as it is, or a vocabulary is exported into it. -/
theorem provision_cases (h : (provision answers temp files).2=none) :
    answers.vocabulary=none ∧ (provision answers temp files).1=files ∨
      ∃ rawPath bytes, answers.vocabulary=some (rawPath,bytes) ∧ .up∉elements rawPath ∧
        (exportVocabulary answers files (temp++[extractedName]) (elements rawPath) bytes).2=none ∧
        (provision answers temp files).1=
          (exportVocabulary answers files (temp++[extractedName]) (elements rawPath) bytes).1 := by
  rw [provision] at h ⊢
  dsimp only at h ⊢
  cases hvocabulary : answers.vocabulary with
  | none => exact .inl ⟨rfl,rfl⟩
  | some asked =>
    obtain ⟨rawPath,bytes⟩ := asked
    rw [hvocabulary] at h
    dsimp only at h ⊢
    cases hresolved : resolveInstallAssetPath rawPath with
    | error reason =>
      rw [hresolved] at h
      cases h
    | ok parts =>
      rw [hresolved] at h
      dsimp only at h ⊢
      obtain ⟨hlevel,rfl⟩ := resolveInstallAssetPath_ok hresolved
      refine .inr ⟨rawPath,bytes,rfl,hlevel,?_,rfl⟩
      cases hreason : (exportVocabulary answers files (temp++[extractedName]) (elements rawPath)
          bytes).2 with
      | none => rfl
      | some reason =>
        rw [hreason] at h
        cases h

/-- A file of a model that is prepared stood there before, or it is exported. -/
theorem provision_get (hplain : AllPlain temp files) (h : (provision answers temp files).2=none)
    (below : Place) (content : List UInt8) :
    (provision answers temp files).1.get (temp++[extractedName]++below)=some (.file content) ↔
      files.get (temp++[extractedName]++below)=some (.file content) ∨
        Exported answers temp files below content := by
  have hinside : AllPlain (temp++[extractedName]) files :=
    fun path hpath => hplain path ((List.prefix_append _ _).trans hpath)
  rw [Exported]
  obtain ⟨hvocabulary,hsame⟩ | ⟨rawPath,bytes,hvocabulary,hlevel,hexported,hsame⟩ :=
    provision_cases h
  · simp [hsame,hvocabulary]
  · rw [hsame,hvocabulary,exportVocabulary_get hinside hlevel hexported below]
    constructor
    · rintro (hkept | ⟨⟨rfl,hnames⟩,hnone⟩)
      · exact .inl hkept
      · exact .inr ⟨⟨rawPath,rfl,hnames⟩,hnone⟩
    · rintro (hkept | ⟨⟨other,hother,hnames⟩,hnone⟩)
      · exact .inl hkept
      · obtain ⟨rfl,rfl⟩ := Prod.mk.inj (Option.some.inj hother)
        exact .inr ⟨⟨rfl,hnames⟩,hnone⟩

/-- A directory that a vocabulary is exported into stays one. -/
theorem exportVocabulary_target {extracted : Place} {parts : List (Element (List Char))}
    {bytes : List UInt8} (hplain : AllPlain extracted files) (hlevel : .up∉parts)
    (h : (exportVocabulary answers files extracted parts bytes).2=none)
    (hdirectory : files.get extracted=some .directory) :
    (exportVocabulary answers files extracted parts bytes).1.get extracted=some .directory := by
  by_cases hregular : isRegularFile files extracted parts=true
  · rw [exportVocabulary_regular hregular]
    exact hdirectory
  · obtain ⟨hne,hwritten⟩ := exportVocabulary_written hplain hlevel h hregular
    have hother : extracted≠extracted++names parts := by simpa using hne
    obtain hkept | ⟨hnone,_⟩ := hwritten.others extracted hother
    · rw [hkept,hdirectory]
    · rw [hdirectory] at hnone
      cases hnone

/-- The model that is prepared stands in a directory. -/
theorem provision_target (hplain : AllPlain temp files) (h : (provision answers temp files).2=none)
    (hdirectory : files.get (temp++[extractedName])=some .directory) :
    (provision answers temp files).1.get (temp++[extractedName])=some .directory := by
  have hinside : AllPlain (temp++[extractedName]) files :=
    fun path hpath => hplain path ((List.prefix_append _ _).trans hpath)
  obtain ⟨_,hsame⟩ | ⟨rawPath,bytes,_,hlevel,hexported,hsame⟩ := provision_cases h
  · rw [hsame]
    exact hdirectory
  · rw [hsame]
    exact exportVocabulary_target hinside hlevel hexported hdirectory

end Steps

section Assembling

variable {files : Files} {temp : Place} {answers : Answers} {found : RemoteModelEntry}
  {writer : Writer} {below : Place} {content : List UInt8}

/-- The directory whose entries are to be installed: the only one there is, or
else all that was extracted. -/
def topPlace (files : Files) (temp : Place) : Place :=
  match onlyDirectory files (temp++[extractedName]) with
  | some name => temp++[extractedName]++[name]
  | none => temp++[extractedName]

/-- The description of the registry takes this place. -/
def Described (found : RemoteModelEntry) (below : Place) : Prop :=
  below=[manifestName] ∧ ∃ text, found.vinputModel=.object (some text)

/-- When a file of an archive gets into the model. -/
inductive Survives (answers : Answers) (temp : Place) (found : RemoteModelEntry) (files : Files)
    (below : Place) (content : List UInt8) : Prop
  | described (h : Described found below)
  /-- There is nothing to flatten. -/
  | plain (honly : onlyDirectory files (temp++[extractedName])=none)
  /-- Its entry is moved out of the only directory. -/
  | moved (name : List Char) (honly : onlyDirectory files (temp++[extractedName])=some name)
      (hflattens : Flattens answers temp files name)
      (hmove : ∀ first∈below.head?, answers.move first=none)
  /-- The only directory cannot be moved, and the same file stands beside it. -/
  | unmoved (name : List Char) (honly : onlyDirectory files (temp++[extractedName])=some name)
      (hnot : ¬Flattens answers temp files name)
      (hfile : files.get (temp++[extractedName]++below)=some (.file content))
  /-- It is the vocabulary that is exported. -/
  | exported (rawPath : List Char) (hvocabulary : answers.vocabulary=some (rawPath,content))
      (hnames : names (elements rawPath)=below)
      (hnone : ∀ name, onlyDirectory files (temp++[extractedName])=some name →
        ¬Flattens answers temp files name →
          ∀ other, files.get (temp++[extractedName]++below)≠some (.file other))

/-- The only directory is no file. -/
theorem onlyDirectory_file {name : List Char}
    (honly : onlyDirectory files (temp++[extractedName])=some name) :
    files.get (temp++[extractedName]++[name])≠some (.file content) := by
  intro hfile
  have hthere : (directoryAt files (temp++[extractedName]) [.name name]).isSome=true := by
    rw [onlyDirectory,onlyDirectory_some honly] at honly
    by_contra hnot
    simp [hnot] at honly
  obtain ⟨place,hplace⟩ := Option.isSome_iff_exists.mp hthere
  obtain ⟨hwalk,hdirectory⟩ := directoryAt_eq hplace
  rw [walk_node hfile (by simp)] at hwalk
  rw [← Option.some.inj hwalk,hfile] at hdirectory
  cases hdirectory

/-- From a directory that is flattened a file gets into the model just if its
entry is moved or it is exported. -/
theorem survives_flattened {name : List Char} (hother : ¬Described found below)
    (honly : onlyDirectory files (temp++[extractedName])=some name)
    (hflattens : Flattens answers temp files name) :
    Survives answers temp found files below content ↔
      (∀ first∈below.head?, answers.move first=none) ∨
        ∃ rawPath, answers.vocabulary=some (rawPath,content) ∧ names (elements rawPath)=below := by
  have hnot : ∀ other, onlyDirectory files (temp++[extractedName])=some other →
      Flattens answers temp files other := by
    intro other hname
    rw [honly] at hname
    rwa [← Option.some.inj hname]
  constructor
  · intro hsurvives
    cases hsurvives with
    | described hdescribed => exact absurd hdescribed hother
    | plain hplain => simp [honly] at hplain
    | moved _ _ _ hmove => exact .inl hmove
    | unmoved other hname hstays _ => exact absurd (hnot other hname) hstays
    | exported rawPath hvocabulary hnames _ => exact .inr ⟨rawPath,hvocabulary,hnames⟩
  · rintro (hmove | ⟨rawPath,hvocabulary,hnames⟩)
    · exact .moved name honly hflattens hmove
    · exact .exported rawPath hvocabulary hnames fun other hname hstays =>
        absurd (hnot other hname) hstays

/-- Where the only directory cannot be moved, a file gets into the model just if
it stands beside it or is exported. -/
theorem survives_unmoved {name : List Char} (hother : ¬Described found below)
    (honly : onlyDirectory files (temp++[extractedName])=some name)
    (hstays : ¬Flattens answers temp files name) :
    Survives answers temp found files below content ↔
      files.get (temp++[extractedName]++below)=some (.file content) ∨
        Exported answers temp files below content := by
  constructor
  · intro hsurvives
    cases hsurvives with
    | described hdescribed => exact absurd hdescribed hother
    | plain hplain => simp [honly] at hplain
    | moved other hname hmoves _ =>
      rw [honly] at hname
      rw [← Option.some.inj hname] at hmoves
      exact absurd hmoves hstays
    | unmoved _ _ _ hkept => exact .inl hkept
    | exported rawPath hvocabulary hnames hnone =>
      exact .inr ⟨⟨rawPath,hvocabulary,hnames⟩,hnone name honly hstays⟩
  · rintro (hkept | ⟨⟨rawPath,hvocabulary,hnames⟩,hnone⟩)
    · exact .unmoved name honly hstays hkept
    · exact .exported rawPath hvocabulary hnames fun _ _ _ => hnone

/-- A file of the archive stands in the flattened tree just if it was moved there
or stood there. -/
theorem survives_flatten (h : (flattenModel answers temp files).2=none)
    (hfile : files.get (topPlace files temp++below)=some (.file content))
    (hother : ¬Described found below) :
    (flattenModel answers temp files).1.get (temp++[extractedName]++below)=some (.file content) ∨
        Exported answers temp (flattenModel answers temp files).1 below content ↔
      Survives answers temp found files below content := by
  rw [topPlace] at hfile
  cases honly : onlyDirectory files (temp++[extractedName]) with
  | none =>
    have hsame : (flattenModel answers temp files).1=files :=
      flattenModel_same h fun name hname => by simp [honly] at hname
    rw [honly] at hfile
    rw [hsame]
    exact ⟨fun _ => .plain honly,fun _ => .inl hfile⟩
  | some name =>
    rw [honly] at hfile
    dsimp only at hfile
    by_cases hflattens : Flattens answers temp files name
    · rw [survives_flattened hother honly hflattens]
      cases below with
      | nil =>
        rw [List.append_nil] at hfile
        exact absurd hfile (onlyDirectory_file honly)
      | cons first rest =>
        rw [Exported,flattenModel_get h honly hflattens]
        rw [List.append_assoc,List.singleton_append] at hfile
        split_ifs with hmove
        · exact ⟨fun _ => .inl (by simpa using hmove),fun _ => .inl hfile⟩
        · simp [hmove]
    · have hsame : (flattenModel answers temp files).1=files := by
        refine flattenModel_same h fun name hname => ?_
        rw [honly] at hname
        rwa [← Option.some.inj hname]
      rw [hsame,survives_unmoved hother honly hflattens]

/-- Two stages succeed one after the other. -/
theorem andThen_none {step : Files×Option Outcome} {next : Files → Files×Option Outcome}
    (h : (andThen step next).2=none) :
    step.2=none ∧ (next step.1).2=none ∧ (andThen step next).1=(next step.1).1 := by
  rw [andThen] at h ⊢
  cases hstep : step.2 with
  | some outcome =>
    rw [hstep] at h
    rw [hstep] at h
    cases h
  | none =>
    rw [hstep] at h
    exact ⟨rfl,h,rfl⟩

/-- The tree after the archive was extracted. -/
def unpacked (writer : Writer) (answers : Answers) (temp : Place) (found : RemoteModelEntry)
    (files : Files) : Files :=
  (andThen (fetch answers temp found files) (unpack writer answers temp)).1

/-- What the registry does not describe is left alone. -/
theorem writeManifest_other (h : (writeManifest answers temp found files).2=none)
    (hother : ¬Described found below) :
    (writeManifest answers temp found files).1.get (temp++[extractedName]++below)=
      files.get (temp++[extractedName]++below) := by
  rw [writeManifest_get h]
  split
  · rename_i text htext
    rw [if_neg]
    intro hpath
    have hcut : temp++[extractedName]++[manifestName]=temp++[extractedName]++below := by
      simpa using hpath
    exact hother ⟨(List.append_cancel_left hcut).symm,text,htext⟩
  · rfl

/-- What a file of the archive becomes while the model is put together. -/
theorem assemble_get (hplain : AllPlain temp files) (htemp : temp≠[]) (hstays : ArchiveStays found)
    (h : (assemble writer answers temp found files).2=none) :
    (assemble writer answers temp found files).1.get (temp++[extractedName])=some .directory ∧
    (∀ text, found.vinputModel=.object (some text) →
      (assemble writer answers temp found files).1.get (temp++[extractedName]++[manifestName])=
        some (.file (text++[10]))) ∧
    ∀ below content, (unpacked writer answers temp found files).get
        (topPlace (unpacked writer answers temp found files) temp++below)=some (.file content) →
      ¬Described found below →
        ((assemble writer answers temp found files).1.get (temp++[extractedName]++below)=
            some (.file content) ↔
          Survives answers temp found (unpacked writer answers temp found files) below content) := by
  rw [assemble] at h ⊢
  obtain ⟨hmanifest,hprovision,hprovided⟩ := andThen_none h
  obtain ⟨hflatten,hdescribe,hdescribed⟩ := andThen_none hmanifest
  obtain ⟨_,hflat,hflattened⟩ := andThen_none hflatten
  rw [hprovided]
  have hunpack : Changed temp files (unpacked writer answers temp found files) :=
    andThen_changed hplain (fetch_changed hplain htemp hstays) fun _ hlater => unpack_changed hlater
  have hunpacked : AllPlain temp (unpacked writer answers temp found files) := hplain.changed hunpack
  rw [← unpacked] at hflat hflattened
  rw [hdescribed] at hprovision ⊢
  rw [hflattened] at hdescribe hprovision ⊢
  generalize unpacked writer answers temp found files=tree
    at hflat hdescribe hprovision hunpacked ⊢
  have hassembled : AllPlain temp
      (writeManifest answers temp found (flattenModel answers temp tree).1).1 :=
    (hunpacked.changed (flattenModel_changed hunpacked)).changed writeManifest_changed
  refine ⟨provision_target hassembled hprovision ?_,?_,?_⟩
  · rw [writeManifest_get hdescribe]
    split
    · rw [if_neg (by simp)]
      exact flattenModel_target hflat
    · exact flattenModel_target hflat
  · intro text htext
    rw [provision_get hassembled hprovision [manifestName] (text++[10])]
    left
    rw [writeManifest_get hdescribe,htext]
    simp
  · intro below content hfile hother
    have hsame := writeManifest_other hdescribe hother
    rw [provision_get hassembled hprovision below content,Exported,hsame,
      ← survives_flatten hflat hfile hother,Exported]

end Assembling

section Arriving

variable {files started assembled made : Files} {site : Site} {answers : Answers} {base : Place}
  {id engine name : List Char} {parent : Place} {replaced : Replaced}

theorem rollBack_outcome {hadExisting : Bool} {error : String} :
    (rollBack answers site engine name hadExisting files error).outcome≠.installed := by
  rw [rollBack]
  split_ifs
  · simp
  · split <;> simp

/-- What stood below the place of a model that was moved aside. -/
def Gone (site : Site) (engine name : List Char) (files : Files) (path : Place) : Prop :=
  ∃ parent, walk files maxLinks site.base [.name engine]=some parent ∧
    ¬parent++[name]<+:site.temp ∧ parent++[name]<+:path

/-- The tree before the new model is moved to its destination: the old one may be
gone, and the directory of the engine may be new. -/
def Cleared (site : Site) (engine name : List Char) (files made : Files) : Prop :=
  ∀ path, ¬site.backup<+:path → made.get path=files.get path ∨
    Gone site engine name files path ∧ made.get path=none ∨
    path=site.base++[engine] ∧ made.get path=some .directory

/-- At most the directory of the engine is new. -/
theorem makeDirectories_one {allowed : Place → Bool} (path : Place) :
    (makeDirectories allowed files site.base [.name engine]).tree.get path=files.get path ∨
      path=site.base++[engine] ∧
        (makeDirectories allowed files site.base [.name engine]).tree.get path=some .directory := by
  rw [makeDirectories]
  cases walk files maxLinks site.base [.name engine] with
  | some next =>
    dsimp only
    split_ifs <;> exact .inl rfl
  | none =>
    dsimp only
    cases hmade : if allowed (site.base++[engine]) then files.makeDirectory (site.base++[engine])
        else none with
    | none => exact .inl rfl
    | some later =>
      split_ifs at hmade
      simp only [makeDirectories]
      rw [(Tree.get_makeDirectory hmade).2]
      split_ifs with hsame
      · exact .inr ⟨hsame.symm,rfl⟩
      · exact .inl rfl

/-- A new model that was installed. -/
structure Activated (site : Site) (engine name : List Char) (made : Files) (parent : Place)
    (replaced : Replaced) : Prop where
  led : walk made maxLinks site.base [.name engine]=some parent
  moved : made.rename (site.temp++[extractedName]) (parent++[name])=some replaced.files
  dismissed : replaced.dismissed=false

/-- An activation that succeeds has moved the model to its place. -/
theorem activateModel_installed {hadExisting : Bool}
    (h : (activateModel answers site engine name hadExisting files).outcome=.installed) :
    ∃ parent, Activated site engine name
      (makeDirectories answers.parent files site.base [.name engine]).tree parent
        (activateModel answers site engine name hadExisting files) := by
  rw [activateModel] at h ⊢
  split at h
  · exact absurd h rollBack_outcome
  · split at h
    · rename_i later hactivated
      obtain ⟨src,dst,hsrc,hdst,hrename⟩ := tryMove_ok hactivated
      obtain rfl := Option.some.inj hsrc
      obtain ⟨parent,hparent,rfl⟩ := Option.map_eq_some_iff.mp hdst
      exact ⟨parent,hparent,hrename,rfl⟩
    · exact absurd h rollBack_outcome

/-- A model that was moved aside. -/
theorem cleared_stage {staged : Files} (hold : walk files maxLinks site.base [.name engine]=some parent)
    (hrename : files.rename (parent++[name]) site.backup=some staged) {path : Place}
    (hpath : ¬site.backup<+:path) : staged.get path=files.get path ∨
      Gone site engine name files path ∧ staged.get path=none := by
  obtain ⟨_,rfl⟩ | ⟨hmovable,hget⟩ := Tree.rename_eq_some hrename
  · exact .inl rfl
  · rw [hget,if_neg hpath]
    split_ifs with hinside
    · exact .inr ⟨⟨parent,hold,fun habove => hmovable.outside (habove.trans (temp_backup site)),
        hinside⟩,rfl⟩
    · exact .inl rfl

/-- A replacement that installed a model has made way for it. -/
theorem replaceModel_installed (h : (replaceModel answers site id files).outcome=.installed) :
    ∃ engine name made parent, modelPathForId id=[engine,name] ∧
      Cleared site engine name files made ∧
        Activated site engine name made parent (replaceModel answers site id files) := by
  rw [replaceModel] at h ⊢
  split at h
  · rename_i engine name hid
    split at h
    · cases h
    · by_cases hcancelled : answers.cancelledBeforeInstall=true
      · rw [if_pos hcancelled] at h
        cases h
      rw [if_neg hcancelled] at h
      simp only [if_neg hcancelled]
      split at h
      · rename_i staged hstaged
        obtain ⟨parent,hactivated⟩ := activateModel_installed h
        refine ⟨engine,name,_,parent,hid,fun path hpath => ?_,hactivated⟩
        have hmade : (makeDirectories answers.parent staged site.base [.name engine]).tree.get path=
              staged.get path ∨ path=site.base++[engine] ∧
            (makeDirectories answers.parent staged site.base [.name engine]).tree.get path=
              some .directory := makeDirectories_one path
        obtain hsame | hnew := hmade
        · rw [hsame]
          split_ifs at hstaged
          · obtain rfl := Except.ok.inj hstaged
            exact .inl rfl
          · obtain ⟨src,dst,hsrc,hdst,hrename⟩ := tryMove_ok hstaged
            obtain rfl := Option.some.inj hdst
            obtain ⟨old,hold,rfl⟩ := Option.map_eq_some_iff.mp hsrc
            exact (cleared_stage hold hrename hpath).imp_right .inl
        · exact .inr (.inr hnew)
      · cases h
  · cases h

/-- A text without a slash is one part of a path at most. -/
theorem archiveStays_of_slash {found : RemoteModelEntry} (h : '/'∉archiveName found) :
    ArchiveStays found := by
  constructor
  · intro hhead
    exact h (List.mem_of_head? hhead)
  · have hparts : (elements (archiveName found)).dropLast=[] := by
      simp only [elements,List.splitOn_eq_singleton h,List.getLast?_singleton,Option.some.injEq]
      by_cases hempty : archiveName found=[] <;> simp [hempty]
    rw [hparts]
    rfl

/-- The archive of a model with a path is put into the temporary directory. -/
theorem archiveStays_of_id {found : RemoteModelEntry} (hid : modelPathForId found.id=[engine,name]) :
    ArchiveStays found := by
  have hslash : '/'∉found.id := (ResourceIds.modelPath_plain hid).2
  have hplain : '/'∉found.id++['.','t','a','r','.','g','z'] := by simp [hslash]
  refine archiveStays_of_slash ?_
  rw [archiveName]
  cases hurl : found.urls.head? with
  | none => exact hplain
  | some url =>
    dsimp only
    split_ifs
    · intro hmem
      have hlast : '/'∈(url.splitOn '/').getLast?.getD [] := List.takeWhile_subset _ hmem
      cases hpieces : (url.splitOn '/').getLast? with
      | none => simp [hpieces] at hlast
      | some piece =>
        rw [hpieces,Option.getD_some] at hlast
        exact ResourceIds.not_mem_of_mem_splitOn piece (List.mem_of_getLast? hpieces) hlast
    · exact hplain

/-- The engine's directory is no link that leads nowhere. -/
def Settled (files : Files) (base : Place) (id : List Char) : Prop :=
  ∀ engine name, modelPathForId id=[engine,name] → files.get (base++[engine])=none ∨
    ∃ parent, walk files maxLinks base [.name engine]=some parent

/-- The name of a model is not that of a temporary directory. -/
theorem name_ne_tempName (h : modelPathForId id=[engine,name]) : name≠tempName answers := by
  rintro rfl
  have htokens := (ResourceIds.modelPath_plain h).1.leaf_dots
  refine htokens [] ?_ rfl
  rw [tempName,List.cons_append,List.splitOn_cons_eq_if_modifyHead]
  simp

/-- A new model that is moved to its destination. -/
structure Arrival (answers : Answers) (files : Files) (base : Place) (site : Site)
    (started assembled made : Files) (id engine name : List Char) (parent : Place)
    (replaced : Replaced) : Prop where
  start : Started answers files base site started
  changed : Changed site.temp started assembled
  settled : Settled files site.base id
  id_eq : modelPathForId id=[engine,name]
  cleared : Cleared site engine name assembled made
  activated : Activated site engine name made parent replaced
  directory : assembled.get (site.temp++[extractedName])=some .directory

section Arrivals

variable (h : Arrival answers files base site started assembled made id engine name parent replaced)

include h

/-- The engine is not named like the temporary directory. -/
theorem Arrival.engine_ne : engine≠site.tempName := h.start.tempName ▸ engine_ne_tempName h.id_eq

theorem Arrival.name_ne : name≠site.tempName := h.start.tempName ▸ name_ne_tempName h.id_eq

/-- Where nothing stood for the engine, nothing stands there before the model is
installed. -/
theorem Arrival.engine_none
    (hnone : files.get (site.base++[engine])=none) : assembled.get (site.base++[engine])=none := by
  have hnot : ¬site.temp<+:site.base++[engine] := temp_not_above h.engine_ne []
  rw [h.changed.outside hnot]
  by_contra hthere
  rw [h.start.same h.engine_ne hthere hnot] at hthere
  exact hthere hnone

/-- The engine's directory is not in the temporary directory. -/
theorem Arrival.engine_outside
    {place : Place} (hplace : walk files maxLinks site.base [.name engine]=some place) :
    ¬site.temp<+:place := by
  have hbase : files.get site.base=some .directory := files.get_parent (walk_name_there hplace)
  obtain ⟨node,hnode,_⟩ := walk_end hbase hplace
  intro hinside
  rw [h.start.fresh hinside] at hnode
  cases hnode

/-- No model stands between the temporary directory and its backup. -/
theorem Arrival.model_outside
    {place : Place} (hplace : ¬site.temp<+:place) : ¬site.temp<+:place++[name] := by
  intro hwithin
  rcases List.prefix_concat_iff.mp hwithin with hsame | hinside
  · rw [Site.temp] at hsame
    exact h.name_ne (List.cons.inj (List.append_inj' hsame rfl).2).1.symm
  · exact hplace hinside

/-- Nothing in the temporary directory is gone with the old model. -/
theorem Arrival.not_gone
    {path : Place} (hpath : site.temp<+:path) : ¬Gone site engine name assembled path := by
  rintro ⟨place,hled,habove,hinside⟩
  obtain hnone | ⟨old,hold⟩ := h.settled engine name h.id_eq
  · exact walk_name_there hled (h.engine_none hnone)
  · have hkept : walk assembled maxLinks site.base [.name engine]=some old :=
      walk_keeps (fun _ _ => h.start.keeps h.changed) hold
    rw [hled] at hkept
    obtain rfl := Option.some.inj hkept
    have houtside := h.model_outside (h.engine_outside hold)
    rcases List.prefix_or_prefix_of_prefix hpath hinside with htemp | hmodel
    · exact houtside htemp
    · exact habove hmodel

/-- What stood outside of the temporary directory stands there when the model is
moved, unless it made way or the engine's directory is new. -/
theorem Arrival.made_get (hengine : made.get (site.base++[engine])≠some .directory) {path : Place}
    {node other : Node (List Char) (List UInt8)} (hnode : files.get path=some node)
    (hother : made.get path=some other) : other=node := by
  have houtside : ¬site.temp<+:path := by
    intro hinside
    rw [h.start.fresh hinside] at hnode
    cases hnode
  have hbackup : ¬site.backup<+:path := fun habove => houtside ((temp_backup site).trans habove)
  obtain hsame | ⟨_,hgone⟩ | ⟨rfl,hdirectory⟩ := h.cleared path hbackup
  · rw [hsame,h.start.keeps h.changed hnode] at hother
    exact (Option.some.inj hother).symm
  · rw [hgone] at hother
    cases hother
  · exact absurd hdirectory hengine

/-- The engine's directory is new, or it stands where it stood. -/
theorem Arrival.parent_cases :
    made.get (site.base++[engine])=some .directory ∧ parent=site.base++[engine] ∨
      made.get (site.base++[engine])≠some .directory ∧
        walk files maxLinks site.base [.name engine]=some parent := by
  have hled := h.activated.led
  by_cases hdirectory : made.get (site.base++[engine])=some .directory
  · rw [walk_directory hdirectory,walk_nil] at hled
    exact .inl ⟨hdirectory,(Option.some.inj hled).symm⟩
  right
  refine ⟨hdirectory,?_⟩
  obtain hnone | ⟨old,hold⟩ := h.settled engine name h.id_eq
  · have hbackup : ¬site.backup<+:site.base++[engine] := fun habove =>
      temp_not_above h.engine_ne [] ((temp_backup site).trans habove)
    have hthere := walk_name_there hled
    obtain hsame | ⟨_,hgone⟩ | ⟨_,hnew⟩ := h.cleared _ hbackup
    · rw [hsame,h.engine_none hnone] at hthere
      exact absurd rfl hthere
    · exact absurd hgone hthere
    · exact absurd hnew hdirectory
  · have hsame : parent=old := by
      refine walk_lost (fun path node other hnode hother _ => ?_) hold hled
      rw [h.made_get hdirectory hnode hother]
    rw [hsame,hold]

/-- The parent of the model is outside the temporary directory. -/
theorem Arrival.parent_outside : ¬site.temp<+:parent := by
  obtain ⟨_,rfl⟩ | ⟨_,hold⟩ := h.parent_cases
  · exact temp_not_above h.engine_ne []
  · exact h.engine_outside hold

/-- What was put together stays until it is moved. -/
theorem Arrival.made_extracted (below : Place) : made.get (site.temp++[extractedName]++below)=
      assembled.get (site.temp++[extractedName]++below) := by
  have htemp : site.temp<+:site.temp++[extractedName]++below := by
    rw [List.append_assoc]
    exact List.prefix_append _ _
  have hbackup : ¬site.backup++[]<+:site.temp++[extractedName]++below := by
    refine not_prefix_apart ⟨by simp [Site.backup],fun hsame => ?_⟩ _ _
    rw [Site.backup] at hsame
    exact absurd (List.cons.inj (List.append_cancel_left hsame)).1 (by decide)
  rw [List.append_nil] at hbackup
  obtain hsame | ⟨hgone,_⟩ | ⟨hengine,_⟩ := h.cleared _ hbackup
  · exact hsame
  · exact absurd hgone (h.not_gone htemp)
  · rw [hengine] at htemp
    exact absurd htemp (temp_not_above h.engine_ne [])

/-- The new model is moved as it was put together. -/
theorem Arrival.moved : Movable made (site.temp++[extractedName]) (parent++[name]) ∧
      (∀ below, replaced.files.get (parent++[name]++below)=
        assembled.get (site.temp++[extractedName]++below)) ∧
      ∀ path, ¬site.temp<+:path → ¬parent++[name]<+:path →
        replaced.files.get path=made.get path := by
  have hmodel := h.model_outside h.parent_outside
  obtain ⟨hsame,_⟩ | ⟨hmovable,hget⟩ := Tree.rename_eq_some h.activated.moved
  · exact absurd (hsame ▸ List.prefix_append _ _) hmodel
  refine ⟨hmovable,fun below => ?_,fun path htemp hpath => ?_⟩
  · rw [hget,if_pos (List.prefix_append _ _),List.drop_left,h.made_extracted]
  · have hextracted : ¬site.temp++[extractedName]<+:path := fun habove =>
      htemp ((List.prefix_append _ _).trans habove)
    rw [hget,if_neg hpath,if_neg hextracted]

/-- Only a directory makes way for the new model. -/
theorem Arrival.way
    (hthere : made.get (parent++[name])≠none) : made.get (parent++[name])=some .directory := by
  obtain ⟨hmovable,_,_⟩ := h.moved
  have hsource : made.get (site.temp++[extractedName])=some .directory := by
    have hextracted := h.made_extracted []
    rwa [List.append_nil,h.directory] at hextracted
  have hsame := (hmovable.way (Option.isSome_iff_ne_none.mpr hthere)).1
  rw [Tree.isDirectory_iff.mpr hsource] at hsame
  exact Tree.isDirectory_iff.mp hsame.symm

/-- What the path of the engine leads through is of the same kind afterwards. -/
theorem Arrival.turn_kept (hengine : made.get (site.base++[engine])≠some .directory) {path : Place}
    {node other : Node (List Char) (List UInt8)} (hnode : files.get path=some node)
    (hother : made.get path=some other) : turnAt replaced.files path=some (turn node) := by
  obtain ⟨hmovable,hmoved,hkept⟩ := h.moved
  obtain rfl := h.made_get hengine hnode hother
  have houtside : ¬site.temp<+:path := by
    intro hinside
    rw [h.start.fresh hinside] at hnode
    cases hnode
  rw [turnAt]
  by_cases hpath : parent++[name]<+:path
  · -- only an empty directory makes way for the model
    obtain ⟨below,rfl⟩ := hpath
    cases below with
    | nil =>
      rw [List.append_nil] at hother ⊢
      have hdirectory := h.way (by simp [hother])
      rw [hother] at hdirectory
      have hmodel := hmoved []
      rw [List.append_nil,List.append_nil,h.directory] at hmodel
      rw [hmodel,Option.some.inj hdirectory,Option.map_some]
    | cons first rest =>
      rw [hmovable.below] at hother
      cases hother
  · rw [hkept path houtside hpath,hother,Option.map_some]

/-- The path of the engine leads to the new model's directory afterwards. -/
theorem Arrival.led_later (gone : Option (List Place)) :
    walk (clear replaced.files site.temp gone) maxLinks site.base [.name engine]=some parent := by
  obtain ⟨_,_,hkept⟩ := h.moved
  have hcleared : ∀ path, ¬site.temp<+:path →
      (clear replaced.files site.temp gone).get path=replaced.files.get path :=
    fun path hpath => (clear_changed (List.prefix_refl _) _).outside hpath
  obtain ⟨hdirectory,rfl⟩ | ⟨hengine,hold⟩ := h.parent_cases
  · have hnot : ¬site.temp<+:site.base++[engine] := temp_not_above h.engine_ne []
    have hkeeps : (clear replaced.files site.temp gone).get (site.base++[engine])=
        some .directory := by
      rw [hcleared _ hnot,hkept _ hnot (not_concat_below _ _),hdirectory]
    rw [walk_directory hkeeps,walk_nil]
  · refine (walk_agree (fun path node other hnode hother _ => ?_) hold h.activated.led).2
    obtain ⟨found,hfound,rfl⟩ := Option.map_eq_some_iff.mp hnode
    obtain ⟨next,hnext,rfl⟩ := Option.map_eq_some_iff.mp hother
    have houtside : ¬site.temp<+:path := by
      intro hinside
      rw [h.start.fresh hinside] at hfound
      cases hfound
    refine ⟨by rw [h.made_get hengine hfound hnext],?_⟩
    rw [turnAt,hcleared path houtside,← turnAt]
    exact h.turn_kept hengine hfound hnext

/-- The new model is found at its destination, with all that was put together. -/
theorem Arrival.found (gone : Option (List Place)) :
    modelAt (clear replaced.files site.temp gone) site.base engine name=some (parent++[name]) ∧
      ∀ below, (clear replaced.files site.temp gone).get (parent++[name]++below)=
        assembled.get (site.temp++[extractedName]++below) := by
  obtain ⟨hmovable,hmoved,_⟩ := h.moved
  constructor
  · rw [modelAt,h.led_later gone,Option.map_some]
  · intro below
    have hnot : ¬site.temp<+:parent++[name]++below := by
      intro hwithin
      rcases List.prefix_or_prefix_of_prefix hwithin (List.prefix_append (parent++[name]) below)
        with hinside | habove
      · exact h.model_outside h.parent_outside hinside
      · exact hmovable.above (habove.trans (List.prefix_append _ _))
    rw [(clear_changed (List.prefix_refl _) _).outside hnot,hmoved]

end Arrivals

end Arriving

section Installing

variable {writer : Writer} {answers : Answers} {files : Files} {base : Place}
  {found : RemoteModelEntry} {temp : Place}

/-- Two stages that report no success report none together. -/
theorem andThen_refuses {step : Files×Option Outcome} {next : Files → Files×Option Outcome}
    (hstep : step.2≠some .installed) (hnext : ∀ files, (next files).2≠some .installed) :
    (andThen step next).2≠some .installed := by
  rw [andThen]
  split
  · exact hstep
  · exact hnext step.1

/-- No step before the last one installs a model. -/
theorem assemble_refuses : (assemble writer answers temp found files).2≠some .installed := by
  have hfetch : (fetch answers temp found files).2≠some .installed := by
    rw [fetch]
    split_ifs <;> simp
  have hunpack : ∀ later, (unpack writer answers temp later).2≠some .installed := by
    intro later
    rw [unpack]
    split <;> simp
  have hflatten : ∀ later, (flattenModel answers temp later).2≠some .installed := by
    intro later
    rw [flattenModel]
    dsimp only
    split_ifs
    · simp
    · simp
    · split
      · simp
      · split
        · simp
        · split <;> simp
  have hmanifest : ∀ later, (writeManifest answers temp found later).2≠some .installed := by
    intro later
    rw [writeManifest]
    split
    · simp
    · simp
    · simp
    · split <;> simp
  have hprovision : ∀ later, (provision answers temp later).2≠some .installed := by
    intro later
    rw [provision]
    dsimp only
    split
    · simp
    · split <;> simp
  exact andThen_refuses (andThen_refuses (andThen_refuses (andThen_refuses hfetch hunpack) hflatten)
    hmanifest) hprovision

/-- An installation that succeeds has put a model together and moved it to its
destination. -/
theorem installModelEntry_installed
    (h : (installModelEntry writer answers files base found).2=.installed) :
    ∃ site started, Started answers files base site started ∧
      (assemble writer answers site.temp found started).2=none ∧
      (replaceModel answers site found.id
        (assemble writer answers site.temp found started).1).outcome=.installed ∧
      ((replaceModel answers site found.id
          (assemble writer answers site.temp found started).1).dismissed=false →
        (installModelEntry writer answers files base found).1=
          clear (replaceModel answers site found.id
            (assemble writer answers site.temp found started).1).files site.temp answers.cleanUp) := by
  rw [installModelEntry] at h ⊢
  cases hplace : (modelsDirectory answers files base).place with
  | none =>
    rw [hplace] at h
    cases h
  | some root =>
    rw [hplace] at h
    dsimp only at h ⊢
    cases hmade : if answers.makesTemp then (modelsDirectory answers files base).tree.makeDirectory
        (Site.temp ⟨base,root,tempName answers⟩) else none with
    | none =>
      rw [hmade] at h
      cases h
    | some started =>
      rw [hmade] at h
      split_ifs at hmade with hmakes
      refine ⟨⟨base,root,tempName answers⟩,started,⟨rfl,rfl,hplace,hmakes,hmade⟩,?_⟩
      dsimp only at h ⊢
      cases houtcome : (assemble writer answers (Site.temp ⟨base,root,tempName answers⟩) found
          started).2 with
      | some outcome =>
        rw [houtcome] at h
        dsimp only at h
        exact absurd (houtcome.trans (congrArg some h)) assemble_refuses
      | none =>
        rw [houtcome] at h
        refine ⟨rfl,h,fun hdismissed => ?_⟩
        dsimp only
        rw [if_neg (by simp [hdismissed])]

/-- Something is a file of the model that is installed now. -/
def Installed (answers : Answers) (files : Files) (base : Place) (id : List Char) (later : Files)
    (below : Place) (content : List UInt8) : Prop :=
  ∃ root engine name dest, (modelsDirectory answers files base).place=some root ∧
    modelPathForId id=[engine,name] ∧ modelAt later root engine name=some dest ∧
      later.get (dest++below)=some (.file content)

/-- What a file of an archive should hold: the description of the registry takes
the place of the model's own. -/
def finalContent (found : RemoteModelEntry) (below : Place) (content : List UInt8) : List UInt8 :=
  match found.vinputModel with
  | .object (some text) => if below=[manifestName] then text++[10] else content
  | _ => content

/-- A file that is not the description keeps its content. -/
theorem finalContent_other {below : Place} {content : List UInt8} (h : ¬Described found below) :
    finalContent found below content=content := by
  rw [finalContent]
  split
  · rename_i text htext
    rw [if_neg fun hmanifest => h ⟨hmanifest,text,htext⟩]
  · rfl

/-- The files of an archive that was extracted into a tree. -/
def Extracted (tree : Files) (temp : Place) (below : Place) (content : List UInt8) : Prop :=
  tree.get (topPlace tree temp++below)=some (.file content)

/-- Each file of the archive is installed. -/
def AllInstalled (answers : Answers) (files : Files) (base : Place) (found : RemoteModelEntry)
    (later tree : Files) (temp : Place) : Prop :=
  ∀ below content, Extracted tree temp below content →
    Installed answers files base found.id later below (finalContent found below content)

/-- Each file of the archive gets into the model. -/
def AllSurvive (answers : Answers) (found : RemoteModelEntry) (tree : Files) (temp : Place) : Prop :=
  ∀ below content, Extracted tree temp below content →
    Survives answers temp found tree below content

variable {site : Site} {started : Files} {below : Place} {content : List UInt8}

/-- A file of the archive is installed just if it gets into the model. -/
theorem installed_iff (hstarted : Started answers files base site started)
    (hsettled : Settled files site.base found.id)
    (hassembled : (assemble writer answers site.temp found started).2=none)
    (hinstalled : (replaceModel answers site found.id
      (assemble writer answers site.temp found started).1).outcome=.installed)
    (hfile : Extracted (unpacked writer answers site.temp found started) site.temp below content) :
    (replaceModel answers site found.id
        (assemble writer answers site.temp found started).1).dismissed=false ∧
      (Installed answers files base found.id (clear (replaceModel answers site found.id
          (assemble writer answers site.temp found started).1).files site.temp answers.cleanUp) below
          (finalContent found below content) ↔
        Survives answers site.temp found (unpacked writer answers site.temp found started) below
          content) := by
  obtain ⟨engine,name,made,parent,hid,hcleared,hactivated⟩ := replaceModel_installed hinstalled
  have hstays := archiveStays_of_id hid
  obtain ⟨hdirectory,hdescribed,hkept⟩ :=
    assemble_get hstarted.plain hstarted.temp_ne hstays hassembled
  have hchanged : Changed site.temp started (assemble writer answers site.temp found started).1 :=
    assemble_changed hstarted.plain hstarted.temp_ne hstays
  have harrival := Arrival.mk hstarted hchanged hsettled hid hcleared hactivated hdirectory
  obtain ⟨hmodel,hfiles⟩ := harrival.found answers.cleanUp
  refine ⟨hactivated.dismissed,?_⟩
  have hinstalled : ∀ bytes, Installed answers files base found.id (clear (replaceModel answers site
        found.id (assemble writer answers site.temp found started).1).files site.temp answers.cleanUp)
        below bytes ↔ (assemble writer answers site.temp found started).1.get
          (site.temp++[extractedName]++below)=some (.file bytes) := by
    intro bytes
    rw [← hfiles below]
    constructor
    · rintro ⟨root,engine',name',dest,hroot,hid',hdest,hbytes⟩
      rw [hstarted.made] at hroot
      rw [hid,List.cons.injEq,List.cons.injEq] at hid'
      rw [← Option.some.inj hroot,← hid'.1,← hid'.2.1,hmodel] at hdest
      rwa [Option.some.inj hdest]
    · intro hbytes
      exact ⟨site.base,engine,name,parent++[name],hstarted.made,hid,hmodel,hbytes⟩
  rw [hinstalled]
  by_cases hother : Described found below
  · obtain ⟨rfl,text,htext⟩ := hother
    have hstands := hdescribed text htext
    have hcontent : finalContent found [manifestName] content=text++[10] := by
      simp [finalContent,htext]
    rw [hcontent,hstands]
    exact ⟨fun _ => .described ⟨rfl,text,htext⟩,fun _ => rfl⟩
  · rw [finalContent_other hother]
    exact hkept below content hfile hother

/-- A download that succeeds has stored the body that was received just if all of
it reached the file and the file was moved into its place, and a model that was
installed has each file of its archive just if none stayed behind. -/
theorem success_complete (writer : Writer) (answers : Answers) (files : Files) (base : Place)
    (found : RemoteModelEntry) (words : String) (removes : Bool) (start : Place)
    (parts : List (Element (List Char))) (attempts : List Attempt)
    (hsettled : ∀ root, (modelsDirectory answers files base).place=some root →
      Settled files root found.id) :
    ((downloadFile words removes files start parts attempts).2.ok=true →
      ∃ before attempt, Succeeds words start parts files attempts before attempt ∧
        (Stored before (downloadFile words removes files start parts attempts).1 start parts
            attempt.request ↔ Delivered before start parts attempt.request)) ∧
    ((installModelEntry writer answers files base found).2=.installed →
      ∃ site started, Started answers files base site started ∧
        (AllInstalled answers files base found (installModelEntry writer answers files base found).1
            (unpacked writer answers site.temp found started) site.temp ↔
          AllSurvive answers found (unpacked writer answers site.temp found started) site.temp)) := by
  refine ⟨downloadFile_ok,fun h => ?_⟩
  obtain ⟨site,started,hstarted,hassembled,hinstalled,hfiles⟩ := installModelEntry_installed h
  refine ⟨site,started,hstarted,forall_congr' fun below => forall_congr' fun content => ?_⟩
  refine imp_congr_right fun hfile => ?_
  obtain ⟨hdismissed,hsame⟩ :=
    installed_iff hstarted (hsettled _ hstarted.made) hassembled hinstalled hfile
  rw [hfiles hdismissed]
  exact hsame

/-- A chunk that a full disk does not take when it is flushed. -/
def fullDisk : Attempt where
  url := ['h','t','t','p',':','/','/','h']
  cancelledBefore := false
  request := .get ⟨fun _ => true,['1'],true,[⟨[1],false,.kept⟩],.status 200,some 0,some 0,true,true,
    false⟩
  cancelledAfter := false

/-- No entry is moved out of the only directory. -/
def stuckAnswers : Answers := {plainAnswers with move := fun _ => some "busy"}

/-- The tree in which a temporary directory was made. -/
def tempOnly : Files :=
  (modelsOnly.makeDirectory [['m'],['.','t','m','p','-','a']]).getD modelsOnly

/-- A download to a full disk reports success. -/
theorem success_complete_plain :
    ((downloadFile "refused" true modelsOnly [['m']] [.name ['x']] [fullDisk]).2.ok=true →
      ∃ before attempt,
        Succeeds "refused" [['m']] [.name ['x']] modelsOnly [fullDisk] before attempt ∧
        (Stored before (downloadFile "refused" true modelsOnly [['m']] [.name ['x']] [fullDisk]).1
            [['m']] [.name ['x']] attempt.request ↔
          Delivered before [['m']] [.name ['x']] attempt.request)) ∧
    ((installModelEntry ArchiveExtraction.diskWriter plainAnswers modelsOnly [['m']]
        plainEntry).2=.installed →
      ∃ site started, Started plainAnswers modelsOnly [['m']] site started ∧
        (AllInstalled plainAnswers modelsOnly [['m']] plainEntry
            (installModelEntry ArchiveExtraction.diskWriter plainAnswers modelsOnly [['m']]
              plainEntry).1
            (unpacked ArchiveExtraction.diskWriter plainAnswers site.temp plainEntry started)
            site.temp ↔
          AllSurvive plainAnswers plainEntry
            (unpacked ArchiveExtraction.diskWriter plainAnswers site.temp plainEntry started)
            site.temp)) := by
  refine success_complete _ _ _ _ _ _ _ _ _ _ fun root hroot engine name hid => .inl ?_
  have hmodels : (modelsDirectory plainAnswers modelsOnly [['m']]).place=some [['m']] := by
    decide +kernel
  have hpath : modelPathForId plainEntry.id=[['e'],['n']] := by decide +kernel
  rw [hmodels] at hroot
  rw [hpath,List.cons.injEq] at hid
  rw [← Option.some.inj hroot,← hid.1]
  decide +kernel

/-- A body that did not reach the disk counts as downloaded. -/
theorem body_lost :
    (downloadFile "refused" true modelsOnly [['m']] [.name ['x']] [fullDisk]).2.ok=true ∧
      ¬Stored modelsOnly (downloadFile "refused" true modelsOnly [['m']] [.name ['x']] [fullDisk]).1
        [['m']] [.name ['x']] fullDisk.request := by
  refine ⟨by decide +kernel,?_⟩
  rintro ⟨parent,body,hparent,hbody,place,hplace,hfile⟩
  have hdirectory : directoryAt (DownloadCompleteness.madeFor modelsOnly [['m']] [.name ['x']]
      fullDisk.request) [['m']] ([.name ['x']] : List (Element (List Char))).dropLast=
        some [['m']] := by decide +kernel
  rw [hdirectory] at hparent
  rw [← Option.some.inj hparent] at hplace
  have hled : walk (downloadFile "refused" true modelsOnly [['m']] [.name ['x']] [fullDisk]).1
      maxLinks [['m']] [.name ['x']]=some [['m'],['x']] := by decide +kernel
  have hempty : (downloadFile "refused" true modelsOnly [['m']] [.name ['x']] [fullDisk]).1.get
      [['m'],['x']]=some (.file []) := by decide +kernel
  have hsame : some place=some [['m'],['x']] := hplace.symm.trans hled
  rw [Option.some.inj hsame,hempty,← Option.some.inj hbody] at hfile
  exact absurd (Option.some.inj hfile) (by decide)

/-- The beginning of that installation. -/
theorem started_stuck (h : Started stuckAnswers modelsOnly [['m']] site started) :
    site.temp=[['m'],['.','t','m','p','-','a']] ∧ started=tempOnly := by
  have hplace : tempDirectory stuckAnswers modelsOnly [['m']]=
      some [['m'],['.','t','m','p','-','a']] := by decide +kernel
  rw [h.temp_eq] at hplace
  have htemp := Option.some.inj hplace
  have hmade : (modelsDirectory stuckAnswers modelsOnly [['m']]).tree=modelsOnly := rfl
  have hdirectory := h.directory
  rw [hmade,htemp] at hdirectory
  refine ⟨htemp,?_⟩
  rw [tempOnly,hdirectory,Option.getD_some]

/-- A body that did not reach the disk counts as downloaded, and a model counts as
installed without the entries that could not be moved. -/
theorem body_and_file_lost :
    ((downloadFile "refused" true modelsOnly [['m']] [.name ['x']] [fullDisk]).2.ok=true ∧
      ¬Stored modelsOnly (downloadFile "refused" true modelsOnly [['m']] [.name ['x']] [fullDisk]).1
        [['m']] [.name ['x']] fullDisk.request) ∧
    (installModelEntry ArchiveExtraction.diskWriter stuckAnswers modelsOnly [['m']]
        plainEntry).2=.installed ∧
      ∀ site started, Started stuckAnswers modelsOnly [['m']] site started →
        ¬AllInstalled stuckAnswers modelsOnly [['m']] plainEntry
          (installModelEntry ArchiveExtraction.diskWriter stuckAnswers modelsOnly [['m']]
            plainEntry).1
          (unpacked ArchiveExtraction.diskWriter stuckAnswers site.temp plainEntry started)
          site.temp := by
  refine ⟨body_lost,by decide +kernel,fun site started hstarted hall => ?_⟩
  obtain ⟨htemp,rfl⟩ := started_stuck hstarted
  rw [htemp] at hall
  have hfile : (unpacked ArchiveExtraction.diskWriter stuckAnswers
      [['m'],['.','t','m','p','-','a']] plainEntry tempOnly).get (topPlace (unpacked
        ArchiveExtraction.diskWriter stuckAnswers [['m'],['.','t','m','p','-','a']] plainEntry
          tempOnly) [['m'],['.','t','m','p','-','a']]++[['x']])=some (.file [7]) := by
    decide +kernel
  obtain ⟨root,engine,name,dest,hroot,hid,hdest,hmodel⟩ := hall _ _ hfile
  have hmodels : (modelsDirectory stuckAnswers modelsOnly [['m']]).place=some [['m']] := by
    decide +kernel
  have hpath : modelPathForId plainEntry.id=[['e'],['n']] := by decide +kernel
  rw [hmodels] at hroot
  rw [hpath,List.cons.injEq,List.cons.injEq] at hid
  rw [← Option.some.inj hroot,← hid.1,← hid.2.1] at hdest
  have hled : modelAt (installModelEntry ArchiveExtraction.diskWriter stuckAnswers modelsOnly [['m']]
      plainEntry).1 [['m']] ['e'] ['n']=some [['m'],['e'],['n']] := by decide +kernel
  have hnone : (installModelEntry ArchiveExtraction.diskWriter stuckAnswers modelsOnly [['m']]
      plainEntry).1.get [['m'],['e'],['n'],['x']]=none := by decide +kernel
  have hsame : some dest=some [['m'],['e'],['n']] := hdest.symm.trans hled
  rw [Option.some.inj hsame] at hmodel
  exact absurd (hnone.symm.trans hmodel) (by simp)

end Installing

end Vinput.InstallCompleteness
