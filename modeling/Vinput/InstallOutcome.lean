import Vinput.InstallStages

/-!
# Failed installations keep the old model

The old model is moved into the temporary directory and back. Either nothing
changes outside of the temporary directory, or the old model is left in it,
the temporary directory is not removed, and the error tells where it is.
-/

namespace Vinput.InstallOutcome

open ArchiveExtraction (Failure Files Place Writer)
open FilePaths FileTree InstallStages ModelInstall
open InstalledModels (showPath)
open ResourceIds (modelPathForId)

section Staging

variable {files staged later : Files} {site : Site} {engine name : List Char} {dest parent : Place}

/-- A model that was moved aside. -/
structure Staged (site : Site) (engine name : List Char) (files staged : Files) (parent : Place) :
    Prop where
  plain : AllPlain site.temp files
  led : walk files maxLinks site.base [.name engine]=some parent
  exist : files.get (parent++[name])≠none
  movable : Movable files (parent++[name]) site.backup
  get : ∀ path, staged.get path=
    if site.backup<+:path then files.get (parent++[name]++path.drop site.backup.length)
    else if parent++[name]<+:path then none else files.get path

/-- The backup lies in the temporary directory. -/
theorem temp_backup (site : Site) : site.temp<+:site.backup := List.prefix_append _ _

/-- Nothing stands below the place of the backup before. -/
theorem Staged.backup_bare (h : Staged site engine name files staged parent)
    (next : List Char) (below : Place) : files.get (site.backup++next::below)=none := by
  by_contra hthere
  have hdirectory : files.get site.backup=some .directory := files.get_above hthere
  have hisDirectory : files.isDirectory site.backup=true := Tree.isDirectory_iff.mpr hdirectory
  have hway := (h.movable.way (by rw [hdirectory]; rfl)).2 hisDirectory
  have hchild : files.get (site.backup++[next])≠none := by
    intro hnone
    refine hthere (files.get_below hnone ⟨below,?_⟩)
    simp
  have hmem : next∈files.children site.backup := Tree.mem_children.mpr hchild
  rw [hway] at hmem
  cases hmem

/-- The model is not in the place of the backup. -/
theorem Staged.parent_outside (h : Staged site engine name files staged parent) :
    ¬site.backup<+:parent := by
  rintro ⟨below,rfl⟩
  have hexist := h.exist
  cases below with
  | nil =>
    have hbare := h.backup_bare name []
    rw [List.append_nil] at hexist
    exact hexist hbare
  | cons next rest =>
    have hbare := h.backup_bare next (rest++[name])
    rw [List.append_assoc] at hexist
    exact hexist hbare

/-- The directory of the model stays. -/
theorem Staged.parent_get (h : Staged site engine name files staged parent) :
    staged.get parent=some .directory := by
  rw [h.get,if_neg h.parent_outside,if_neg (not_concat_below parent name)]
  exact files.get_parent h.exist

/-- What stands at the place of the backup was no directory, unless the model
is one. -/
theorem Staged.turn (h : Staged site engine name files staged parent) (path : Place)
    (node other : Node (List Char) (List UInt8)) (hnode : files.get path=some node)
    (hother : staged.get path=some other) (hend : FilePaths.turn node=.leaf → path=parent) :
    FilePaths.turn other=FilePaths.turn node := by
  rw [h.get] at hother
  by_cases hbackup : site.backup<+:path
  · obtain ⟨below,rfl⟩ := hbackup
    cases below with
    | cons next rest =>
      rw [h.backup_bare next rest] at hnode
      cases hnode
    | nil =>
      simp only [List.append_nil,List.prefix_refl,if_true,List.drop_length] at hnode hother hend
      have hplain := h.plain site.backup (temp_backup site)
      obtain hnone | hdirectory | ⟨content,hfile⟩ := hplain
      · rw [hnone] at hnode
        cases hnode
      · -- an empty directory makes way for a directory alone
        have hisDirectory : files.isDirectory site.backup=true := Tree.isDirectory_iff.mpr hdirectory
        have hway := (h.movable.way (by rw [hdirectory]; rfl)).1
        rw [hisDirectory,Tree.isDirectory_iff] at hway
        rw [hway] at hother
        rw [hdirectory] at hnode
        rw [← Option.some.inj hother,← Option.some.inj hnode]
      · rw [hfile] at hnode
        rw [← Option.some.inj hnode] at hend
        exact absurd (hend rfl ▸ List.prefix_refl _) h.parent_outside
  · rw [if_neg hbackup] at hother
    split_ifs at hother with hdest
    rw [hnode] at hother
    rw [Option.some.inj hother]

/-- Afterwards the destination leads to the same place or nowhere. -/
theorem Staged.modelAt_eq (h : Staged site engine name files staged parent)
    (hlater : modelAt staged site.base engine name=some dest) : dest=parent++[name] := by
  obtain ⟨right,hright,rfl⟩ := Option.map_eq_some_iff.mp hlater
  rw [walk_lost h.turn h.led hright]

/-- Outside of the temporary directory a model that was moved back stands where
it stood. -/
theorem Staged.restored (h : Staged site engine name files staged parent)
    (hback : staged.rename site.backup (parent++[name])=some later) {path : Place}
    (hpath : ¬site.temp<+:path) : later.get path=files.get path := by
  have hbackup : ¬site.backup<+:path := fun hwithin => hpath ((temp_backup site).trans hwithin)
  obtain ⟨hsame,_⟩ | ⟨_,hget⟩ := Tree.rename_eq_some hback
  · have houtside := h.movable.outside
    rw [← hsame] at houtside
    exact absurd (List.prefix_refl _) houtside
  · rw [hget]
    by_cases hdest : parent++[name]<+:path
    · obtain ⟨below,rfl⟩ := hdest
      rw [if_pos (List.prefix_append _ _),List.drop_left,h.get,if_pos (List.prefix_append _ _),
        List.drop_left]
    · rw [if_neg hdest,if_neg hbackup,h.get,if_neg hbackup,if_neg hdest]

end Staging

section Replacing

variable {files staged : Files} {site : Site} {engine name : List Char} {parent : Place}
  {answers : Answers} {replaced : Replaced}

/-- What a replacement leaves behind when the temporary directory was as given. -/
inductive Aftermath (site : Site) (engine name : List Char) (files : Files) (replaced : Replaced) :
    Prop where
  | installed (houtcome : replaced.outcome=.installed)
  /-- Nothing is changed outside of the temporary directory. -/
  | restored (hsame : ∀ path, ¬site.temp<+:path → replaced.files.get path=files.get path)
  /-- The engine's directory may be new, and is empty then, where the destination
  led nowhere. -/
  | grown (hnone : walk files maxLinks site.base [.name engine]=none)
      (hgrown : ∀ path, replaced.files.get path=files.get path ∨
        path=site.base++[engine] ∧ files.get path=none ∧
          replaced.files.get path=some .directory ∧ Bare replaced.files path)
  /-- The old model is left in the temporary directory. -/
  | preserved (dest : Place) (error : String) (hdest : modelAt files site.base engine name=some dest)
      (hexist : files.get dest≠none) (houtside : ¬site.temp<+:dest) (habove : ¬dest<+:site.temp)
      (houtcome : replaced.outcome=.failed (error++"; previous installation preserved at: "++
        showPath (site.shown++[site.tempName,backupName])))
      (hdismissed : replaced.dismissed=true)
      (hsame : ∀ path, ¬site.temp<+:path → ¬dest<+:path →
        replaced.files.get path=files.get path)
      (hgone : ∀ below, replaced.files.get (dest++below)=none)
      (hbackup : ∀ below, replaced.files.get (site.backup++below)=files.get (dest++below))

/-- A model that was moved aside is moved back or left where it is. -/
theorem Staged.rollBack (h : Staged site engine name files staged parent) (error : String) :
    Aftermath site engine name files (rollBack answers site engine name true staged error) := by
  have hstaged : ∀ path, ¬site.temp<+:path → ¬parent++[name]<+:path →
      staged.get path=files.get path := by
    intro path hpath hdest
    rw [h.get,if_neg fun hwithin => hpath ((temp_backup site).trans hwithin),if_neg hdest]
  rw [ModelInstall.rollBack,if_neg (by simp)]
  cases hrestored : tryMove answers.words answers.rollback staged (some site.backup)
      (modelAt staged site.base engine name) with
  | ok later =>
    refine .restored fun path hpath => ?_
    obtain ⟨src,dst,hsrc,hdst,hrename⟩ := tryMove_ok hrestored
    obtain rfl := Option.some.inj hsrc
    rw [h.modelAt_eq hdst] at hrename
    exact h.restored hrename hpath
  | error reason =>
    by_cases hinside : site.temp<+:parent++[name]
    · refine .restored fun path hpath => hstaged path hpath fun hdest => hpath (hinside.trans hdest)
    · have habove : ¬parent++[name]<+:site.backup := h.movable.outside
      have hbeside : ∀ below, ¬site.backup<+:parent++[name]++below := by
        intro below hwithin
        rcases List.prefix_or_prefix_of_prefix hwithin (List.prefix_append (parent++[name]) below)
          with hwhole | hover
        · exact hinside ((temp_backup site).trans hwhole)
        · exact habove hover
      refine .preserved (parent++[name]) (error++"; rollback also failed: "++reason) ?_ h.exist
        hinside ?_ rfl rfl hstaged ?_ ?_
      · rw [modelAt,h.led,Option.map_some]
      · exact fun hover => habove (hover.trans (temp_backup site))
      · intro below
        dsimp only
        rw [h.get,if_neg (hbeside below),if_pos (List.prefix_append _ _)]
      · intro below
        dsimp only
        rw [h.get,if_pos (List.prefix_append _ _),List.drop_left]

/-- The first name of a path that leads somewhere stands there. -/
theorem walk_name_there {name : List Char} {links : ℕ} {base right : Place}
    (h : walk files links base [.name name]=some right) : files.get (base++[name])≠none := by
  have hinit : ∃ parent, walk files links base []=some parent ∧ files.get (parent++[name])≠none :=
    walk_init h
  obtain ⟨parent,hparent,hthere⟩ := hinit
  rw [walk_nil] at hparent
  rwa [Option.some.inj hparent]

/-- The new model takes the place of one that was moved aside, or that one is
moved back or left where it is. -/
theorem Staged.activate (h : Staged site engine name files staged parent)
    (hengine : parent++[name]≠site.base++[engine]) :
    Aftermath site engine name files (activateModel answers site engine name true staged) := by
  have hthere : staged.get (site.base++[engine])≠none := by
    have hbackup : ¬site.backup<+:site.base++[engine] := fun hwithin => by
      have hlength := hwithin.length_le
      simp only [Site.backup,Site.temp,List.length_append,List.length_singleton] at hlength
      omega
    have hdest : ¬parent++[name]<+:site.base++[engine] := fun hwithin => by
      rcases List.prefix_concat_iff.mp hwithin with hsame | habove
      · exact hengine hsame
      · refine h.movable.outside (habove.trans ?_)
        rw [Site.backup,Site.temp,List.append_assoc]
        exact List.prefix_append _ _
    rw [h.get,if_neg hbackup,if_neg hdest]
    exact walk_name_there h.led
  rw [activateModel]
  cases hwalk : walk staged maxLinks site.base [.name engine] with
  | none =>
    -- what the path begins with still stands, so that it is not made anew
    have hmade : makeDirectories answers.parent staged site.base [.name engine]=⟨staged,[],none⟩ := by
      have hrefused : staged.makeDirectory (site.base++[engine])=none := by
        rw [Tree.makeDirectory]
        split_ifs with hopen hnone
        · rfl
        · exact absurd (Option.isSome_iff_ne_none.mpr hthere) hnone
        · rfl
      simp [makeDirectories,hwalk,hrefused]
    simp only [hmade]
    exact h.rollBack _
  | some next =>
    have hnext : next=parent := walk_lost h.turn h.led hwalk
    have hmade : makeDirectories answers.parent staged site.base [.name engine]=
        ⟨staged,[],some parent⟩ := by
      have hdirectory : staged.isDirectory parent=true := Tree.isDirectory_iff.mpr h.parent_get
      simp [makeDirectories,hwalk,hnext,hdirectory]
    simp only [hmade]
    split
    · exact .installed rfl
    · exact h.rollBack _

/-- A directory that is made is the only change, and empty. -/
theorem makeDirectories_name {allowed : Place → Bool}
    (hnone : walk files maxLinks site.base [.name engine]=none) (path : Place) :
    (makeDirectories allowed files site.base [.name engine]).tree.get path=files.get path ∨
      path=site.base++[engine] ∧ files.get path=none ∧
        (makeDirectories allowed files site.base [.name engine]).tree.get path=some .directory ∧
        Bare (makeDirectories allowed files site.base [.name engine]).tree path := by
  rw [makeDirectories,hnone]
  dsimp only
  cases hmade : if allowed (site.base++[engine]) then files.makeDirectory (site.base++[engine])
      else none with
  | none => exact .inl rfl
  | some made =>
    have hmake : files.makeDirectory (site.base++[engine])=some made := by
      split_ifs at hmade
      exact hmade
    obtain ⟨hbare,hget⟩ := Tree.get_makeDirectory hmake
    dsimp only [makeDirectories]
    by_cases hsame : site.base++[engine]=path
    · right
      subst hsame
      exact ⟨rfl,hbare,by rw [hget,if_pos rfl],bare_makeDirectory hmake⟩
    · left
      rw [hget,if_neg hsame]

/-- The new model takes an empty place, or a directory may be left there. -/
theorem activateModel_new :
    Aftermath site engine name files (activateModel answers site engine name false files) := by
  have hgrown : ∀ (made : Made (List Char) (List UInt8)),
      made=makeDirectories answers.parent files site.base [.name engine] →
      ∀ error, Aftermath site engine name files
        (rollBack answers site engine name false made.tree error) := by
    rintro made rfl error
    rw [rollBack,if_pos rfl]
    cases hwalk : walk files maxLinks site.base [.name engine] with
    | none => exact .grown hwalk (makeDirectories_name hwalk)
    | some next =>
      refine .restored fun path _ => ?_
      rw [makeDirectories,hwalk]
      dsimp only
      split_ifs <;> rfl
  rw [activateModel]
  split
  · exact hgrown _ rfl _
  · split
    · exact .installed rfl
    · exact hgrown _ rfl _

/-- A model that stands in the place of the backup already is not moved. -/
theorem activateModel_same (hled : walk files maxLinks site.base [.name engine]=some parent)
    (hbackup : parent++[name]=site.backup) :
    Aftermath site engine name files (activateModel answers site engine name true files) := by
  have hmodel : modelAt files site.base engine name=some site.backup := by
    rw [modelAt,hled,Option.map_some,hbackup]
  have hrollBack : ∀ error, Aftermath site engine name files
      (rollBack answers site engine name true files error) := by
    intro error
    rw [rollBack,if_neg (by simp),hmodel]
    cases hrestored : tryMove answers.words answers.rollback files (some site.backup)
        (some site.backup) with
    | error reason => exact .restored fun _ _ => rfl
    | ok later =>
      obtain ⟨src,dst,hsrc,hdst,hrename⟩ := tryMove_ok hrestored
      obtain rfl := Option.some.inj hsrc
      obtain rfl := Option.some.inj hdst
      obtain ⟨_,rfl⟩ | ⟨hmovable,_⟩ := Tree.rename_eq_some hrename
      · exact .restored fun _ _ => rfl
      · exact absurd (List.prefix_refl _) hmovable.outside
  have hmade : (makeDirectories answers.parent files site.base [.name engine]).tree=files := by
    rw [makeDirectories,hled]
    dsimp only
    split_ifs <;> rfl
  rw [activateModel,hmade]
  split
  · exact hrollBack _
  · split
    · exact .installed rfl
    · exact hrollBack _

/-- A replacement installs the new model or keeps the old one. -/
theorem replaceModel_aftermath {id : List Char} (hplain : AllPlain site.temp files)
    (hid : modelPathForId id=[engine,name])
    (hengine : ∀ parent, walk files maxLinks site.base [.name engine]=some parent →
      parent++[name]≠site.base++[engine]) :
    Aftermath site engine name files (replaceModel answers site id files) := by
  rw [replaceModel,hid]
  dsimp only
  split
  · exact .restored fun _ _ => rfl
  split_ifs with hcancelled hexisting
  · exact .restored fun _ _ => rfl
  · rw [hexisting]
    exact activateModel_new
  · have hexist : (walk files maxLinks site.base [.name engine,.name name]).isSome=true := by
      simpa only [Bool.not_eq_false] using hexisting
    obtain ⟨right,hright⟩ := Option.isSome_iff_exists.mp hexist
    have hinit : ∃ parent, walk files maxLinks site.base [.name engine]=some parent ∧
        files.get (parent++[name])≠none := walk_init hright
    obtain ⟨parent,hparent,hthere⟩ := hinit
    have hmodel : modelAt files site.base engine name=some (parent++[name]) := by
      rw [modelAt,hparent,Option.map_some]
    cases hmoved : tryMove answers.words answers.stage files (modelAt files site.base engine name)
        (some site.backup) with
    | error reason => exact .restored fun _ _ => rfl
    | ok staged =>
      obtain ⟨src,dst,hsrc,hdst,hrename⟩ := tryMove_ok hmoved
      obtain rfl := Option.some.inj hdst
      obtain rfl := Option.some.inj (hsrc.symm.trans hmodel)
      dsimp only
      rw [hexist]
      obtain ⟨hsame,rfl⟩ | ⟨hmovable,hget⟩ := Tree.rename_eq_some hrename
      · exact activateModel_same hparent hsame
      · have hstaged : Staged site engine name files staged parent :=
          ⟨hplain,hparent,hthere,hmovable,hget⟩
        exact hstaged.activate (hengine parent hparent)

end Replacing

section Installations

variable {answers : Answers} {files later : Files} {base : Place} {found : RemoteModelEntry}
  {id : List Char} {writer : Writer}

/-- The temporary directory, if it is made. -/
def tempDirectory (answers : Answers) (files : Files) (base : Place) : Option Place :=
  let made := modelsDirectory answers files base
  made.place.bind fun root =>
    let temp := root++[tempName answers]
    (if answers.makesTemp then made.tree.makeDirectory temp else none).map fun _ => temp

/-- Where a model is installed, if its path leads anywhere. -/
def destination (answers : Answers) (files : Files) (base : Place) (id : List Char) : Option Place :=
  match (modelsDirectory answers files base).place,modelPathForId id with
  | some root,[engine,name] => modelAt files root engine name
  | _,_ => none

/-- A path that is below none of the places. -/
def Outside (places : List Place) (path : Place) : Prop := ∀ place∈places, ¬place<+:path

/-- A directory that is new on the way to a model: it is the models directory or
one above it, or it is the engine's and empty. -/
structure NewParent (answers : Answers) (files : Files) (base : Place) (id : List Char)
    (later : Files) (path : Place) : Prop where
  bare : files.get path=none
  directory : later.get path=some .directory
  parent : path∈(modelsDirectory answers files base).created ∧
      (∀ root, (modelsDirectory answers files base).place=some root → path<+:root) ∨
    ∃ root engine name, (modelsDirectory answers files base).place=some root ∧
      modelPathForId id=[engine,name] ∧ path=root++[engine] ∧ Bare later path

/-- What is made with the models directory leads to it. -/
theorem newParent_made {path : Place} (h : path∈(modelsDirectory answers files base).created) :
    path∈(modelsDirectory answers files base).created ∧
        (∀ root, (modelsDirectory answers files base).place=some root → path<+:root) ∨
      ∃ root engine name, (modelsDirectory answers files base).place=some root ∧
        modelPathForId id=[engine,name] ∧ path=root++[engine] ∧ Bare later path :=
  .inl ⟨h,fun _ hroot => created_above hroot path h⟩

/-- The old model stands at its destination, and nothing else is changed outside
of the temporary directory but for parent directories that are new. -/
structure Untouched (answers : Answers) (files : Files) (base : Place) (id : List Char)
    (later : Files) : Prop where
  kept : ∀ path, Outside (tempDirectory answers files base).toList path →
    later.get path=files.get path ∨ NewParent answers files base id later path
  model : ∀ dest, destination answers files base id=some dest → files.get dest≠none →
    Outside (tempDirectory answers files base).toList dest ∧
      ∀ path, Outside (tempDirectory answers files base).toList path → later.get path=files.get path

/-- The old model is left in the temporary directory, nothing stands at its
destination, and an error tells where it is. -/
structure Preserved (answers : Answers) (files : Files) (base : Place) (id : List Char)
    (later : Files) (temp dest : Place) (error : String) : Prop where
  place : tempDirectory answers files base=some temp
  led : ∀ other, destination answers files base id=some other → other=dest
  exist : files.get dest≠none
  kept : ∀ path, Outside [temp,dest] path → later.get path=files.get path
  gone : ∀ below, later.get (dest++below)=none
  backup : ∀ below, later.get (temp++backupName::below)=files.get (dest++below)
  named : ∃ front, error=front++showPath (base++[tempName answers,backupName])

/-- A failed installation keeps the old model. -/
def KeepsModel (answers : Answers) (files : Files) (base : Place) (id : List Char)
    (result : Files×Outcome) : Prop :=
  result.2≠.installed → Untouched answers files base id result.1 ∨
    ∃ temp dest error, result.2=.failed error ∧
      Preserved answers files base id result.1 temp dest error

/-- The engine's directory is no link that leads back to the models directory,
or nowhere, where the model has the engine's name. -/
def Apart (answers : Answers) (files : Files) (base : Place) (id : List Char) : Prop :=
  ∀ root engine, (modelsDirectory answers files base).place=some root →
    modelPathForId id=[engine,engine] → ∀ absolute target,
      files.get (root++[engine])=some (.link absolute target) →
        ∃ parent, walk files maxLinks root [.name engine]=some parent ∧ parent≠root

/-- The engine of a model is no temporary directory. -/
theorem engine_ne_tempName {engine name : List Char} (h : modelPathForId id=[engine,name]) :
    engine≠tempName answers := by
  rintro rfl
  have hdots := (ResourceIds.modelPath_plain h).1.parent_dots
  simp [tempName] at hdots

/-- The temporary directory is not above another engine. -/
theorem temp_not_above {site : Site} {engine : List Char} (hengine : engine≠site.tempName)
    (below : Place) : ¬site.temp<+:site.base++engine::below := by
  rw [Site.temp,List.prefix_append_right_inj]
  rintro ⟨rest,hrest⟩
  exact hengine (List.cons.inj hrest).1.symm

/-- The models directory, and the temporary directory that is new in it. -/
structure Started (answers : Answers) (files : Files) (base : Place) (site : Site)
    (started : Files) : Prop where
  shown : site.shown=base
  tempName : site.tempName=tempName answers
  made : (modelsDirectory answers files base).place=some site.base
  makes : answers.makesTemp=true
  directory : (modelsDirectory answers files base).tree.makeDirectory site.temp=some started

variable {site : Site} {started : Files}

/-- The temporary directory of an installation that started. -/
theorem Started.temp_eq (h : Started answers files base site started) :
    tempDirectory answers files base=some site.temp := by
  have hdirectory := h.directory
  rw [Site.temp,h.tempName] at hdirectory
  rw [tempDirectory,h.made,Option.bind_some]
  dsimp only
  rw [h.makes,if_pos rfl,hdirectory,Option.map_some,Site.temp,h.tempName]

theorem Started.plain (h : Started answers files base site started) : AllPlain site.temp started :=
  plain_makeDirectory h.directory

theorem Started.temp_ne (_ : Started answers files base site started) : site.temp≠[] := by
  simp [Site.temp]

/-- Outside of the temporary directory there are new directories at most. -/
theorem Started.grown (h : Started answers files base site started) {path : Place}
    (hpath : ¬site.temp<+:path) : started.get path=files.get path ∨
      path∈(modelsDirectory answers files base).created ∧ files.get path=none ∧
        started.get path=some .directory := by
  have hother : site.temp≠path := by
    rintro rfl
    exact hpath (List.prefix_refl _)
  rw [(Tree.get_makeDirectory h.directory).2,if_neg hother]
  exact grown_makeDirectories files [] path

/-- Where something stands for the engine, the models directory is not new. -/
theorem Started.same (h : Started answers files base site started) {engine : List Char}
    (hengine : engine≠site.tempName) (hthere : started.get (site.base++[engine])≠none) {path : Place}
    (hpath : ¬site.temp<+:path) : started.get path=files.get path := by
  have hother : site.temp≠path := by
    rintro rfl
    exact hpath (List.prefix_refl _)
  rw [(Tree.get_makeDirectory h.directory).2,if_neg hother]
  obtain hsame | hbare := makeDirectories_names h.made
  · rw [modelsDirectory,hsame]
  · have hnot : site.temp≠site.base++[engine] := by
      intro heq
      rw [Site.temp,List.append_cancel_left_eq] at heq
      exact hengine (List.cons.inj heq).1.symm
    rw [(Tree.get_makeDirectory h.directory).2,if_neg hnot] at hthere
    exact absurd (hbare engine) hthere

/-- Nothing stood at the temporary directory or below it. -/
theorem Started.fresh (h : Started answers files base site started) {path : Place}
    (hpath : site.temp<+:path) : files.get path=none := by
  refine files.get_below ?_ hpath
  have hgrown : Grown files (modelsDirectory answers files base).tree
      (modelsDirectory answers files base).created := grown_makeDirectories files []
  obtain hsame | ⟨_,hnone,_⟩ := hgrown site.temp
  · rw [← hsame]
    exact (Tree.get_makeDirectory h.directory).1
  · exact hnone

/-- All that stood somewhere stands there as long as only the temporary directory
is changed. -/
theorem Started.keeps (h : Started answers files base site started)
    (hchanged : Changed site.temp started later) {path : Place}
    {node : Node (List Char) (List UInt8)} (hnode : files.get path=some node) :
    later.get path=some node := by
  have houtside : ¬site.temp<+:path := by
    intro hinside
    rw [h.fresh hinside] at hnode
    cases hnode
  rw [hchanged.outside houtside]
  obtain hsame | ⟨_,hnone,_⟩ := h.grown houtside
  · rw [hsame,hnode]
  · rw [hnone] at hnode
    cases hnode

/-- The destination leads where it led. -/
theorem Started.destination (h : Started answers files base site started)
    (hchanged : Changed site.temp started later) {dest : Place}
    (hdest : destination answers files base id=some dest) :
    ∃ engine name parent, modelPathForId id=[engine,name] ∧ dest=parent++[name] ∧
      walk later maxLinks site.base [.name engine]=some parent := by
  rw [InstallOutcome.destination,h.made] at hdest
  split at hdest
  · rename_i root engine name hroot hid
    obtain rfl := Option.some.inj hroot
    obtain ⟨parent,hparent,rfl⟩ := Option.map_eq_some_iff.mp hdest
    exact ⟨engine,name,parent,hid,rfl,walk_keeps (fun _ _ => h.keeps hchanged) hparent⟩
  · cases hdest

/-- What is changed in the temporary directory alone leaves the old model
untouched. -/
theorem Started.untouched (h : Started answers files base site started)
    (hlater : ∀ path, ¬site.temp<+:path → later.get path=started.get path) :
    Untouched answers files base id later := by
  have houtside : ∀ path, Outside (tempDirectory answers files base).toList path →
      ¬site.temp<+:path := by
    intro path hpath
    rw [h.temp_eq] at hpath
    exact hpath _ (List.mem_singleton_self _)
  constructor
  · intro path hpath
    rw [hlater path (houtside path hpath)]
    refine (h.grown (houtside path hpath)).imp_right fun hnew => ⟨hnew.2.1,?_,newParent_made hnew.1⟩
    rw [hlater path (houtside path hpath),hnew.2.2]
  · intro dest hdest hthere
    obtain ⟨engine,name,parent,hid,_,hled⟩ := h.destination Changed.refl hdest
    refine ⟨?_,fun path hpath => ?_⟩
    · rw [h.temp_eq]
      intro place hplace hinside
      rw [Option.toList_some,List.mem_singleton] at hplace
      exact hthere (h.fresh (hplace ▸ hinside))
    · rw [hlater path (houtside path hpath)]
      have hengine : engine≠site.tempName := h.tempName ▸ engine_ne_tempName hid
      exact h.same hengine (walk_name_there hled) (houtside path hpath)

/-- Where the engine's directory stands, the models directory is not new. -/
theorem Started.old (h : Started answers files base site started) {assembled : Files}
    {engine : List Char} {parent : Place} (hengine : engine≠site.tempName)
    (hchanged : Changed site.temp started assembled)
    (hled : walk assembled maxLinks site.base [.name engine]=some parent) {path : Place}
    (hpath : ¬site.temp<+:path) : assembled.get path=files.get path := by
  have hthere : started.get (site.base++[engine])≠none := by
    rw [← hchanged.outside (temp_not_above hengine [])]
    exact walk_name_there hled
  rw [hchanged.outside hpath,h.same hengine hthere hpath]

/-- A model that is left in the temporary directory is preserved there. -/
theorem Started.preserved (h : Started answers files base site started) {assembled : Files}
    {engine name : List Char} {parent : Place} {replaced : Replaced}
    (hid : modelPathForId id=[engine,name]) (hchanged : Changed site.temp started assembled)
    (hled : walk assembled maxLinks site.base [.name engine]=some parent)
    (hexist : assembled.get (parent++[name])≠none) (houtside : ¬site.temp<+:parent++[name])
    (habove : ¬parent++[name]<+:site.temp)
    (hsame : ∀ path, ¬site.temp<+:path → ¬parent++[name]<+:path →
      replaced.files.get path=assembled.get path)
    (hgone : ∀ below, replaced.files.get (parent++[name]++below)=none)
    (hbackup : ∀ below, replaced.files.get (site.backup++below)=
      assembled.get (parent++[name]++below)) {error : String}
    (hnamed : ∃ front, error=front++showPath (site.shown++[site.tempName,backupName])) :
    Preserved answers files base id replaced.files site.temp (parent++[name]) error := by
  have hengine : engine≠site.tempName := h.tempName ▸ engine_ne_tempName hid
  have hold : ∀ path, ¬site.temp<+:path → assembled.get path=files.get path :=
    fun path hpath => h.old hengine hchanged hled hpath
  constructor
  · exact h.temp_eq
  · intro other hother
    obtain ⟨engine',name',parent',hid',rfl,hled'⟩ := h.destination hchanged hother
    rw [hid,List.cons.injEq,List.cons.injEq] at hid'
    rw [← hid'.1,hled] at hled'
    rw [Option.some.inj hled',hid'.2.1]
  · rwa [← hold _ houtside]
  · intro path hpath
    have htemp : ¬site.temp<+:path := hpath _ (by simp)
    rw [hsame path htemp (hpath _ (by simp)),hold path htemp]
  · exact hgone
  · intro below
    have hbelow : ¬site.temp<+:parent++[name]++below := by
      intro hwithin
      rcases List.prefix_or_prefix_of_prefix hwithin (List.prefix_append (parent++[name]) below)
        with hinside | hover
      · exact houtside hinside
      · exact habove hover
    rw [← hold _ hbelow,← hbackup below]
    simp [Site.backup]
  · rwa [h.shown,h.tempName] at hnamed

/-- What a replacement leaves behind keeps the old model. -/
theorem Started.keepsModel (h : Started answers files base site started) {assembled : Files}
    {engine name : List Char} {replaced : Replaced} (hid : modelPathForId id=[engine,name])
    (hchanged : Changed site.temp started assembled)
    (hafter : Aftermath site engine name assembled replaced) :
    KeepsModel answers files base id
      (if replaced.dismissed then replaced.files
        else clear replaced.files site.temp answers.cleanUp,replaced.outcome) := by
  intro hfailed
  have hcleared : ∀ path, ¬site.temp<+:path →
      (if replaced.dismissed then replaced.files
        else clear replaced.files site.temp answers.cleanUp).get path=replaced.files.get path := by
    intro path hpath
    split_ifs
    · rfl
    · exact (clear_changed (List.prefix_refl _) _).outside hpath
  cases hafter with
  | installed houtcome => exact absurd houtcome hfailed
  | restored hsame =>
    left
    refine h.untouched fun path hpath => ?_
    rw [hcleared path hpath,hsame path hpath,hchanged.outside hpath]
  | grown hnone hgrown =>
    left
    constructor
    · intro path hpath
      rw [h.temp_eq] at hpath
      have houtside : ¬site.temp<+:path := hpath _ (List.mem_singleton_self _)
      have hlater := hcleared path houtside
      obtain hsame | ⟨hpath,hold,hnew,hbare⟩ := hgrown path
      · rw [hsame,hchanged.outside houtside] at hlater
        rw [hlater]
        refine (h.grown houtside).imp_right fun hnew => ⟨hnew.2.1,?_,newParent_made hnew.1⟩
        rw [hlater,hnew.2.2]
      · right
        subst hpath
        refine ⟨?_,hlater.trans hnew,.inr ⟨site.base,engine,name,h.made,hid,rfl,fun next => ?_⟩⟩
        · by_contra hthere
          obtain ⟨node,hnode⟩ := Option.ne_none_iff_exists'.mp hthere
          rw [h.keeps hchanged hnode] at hold
          cases hold
        · have hengine : engine≠site.tempName := h.tempName ▸ engine_ne_tempName hid
          have hbelow : ¬site.temp<+:site.base++[engine]++[next] := by
            rw [List.append_assoc]
            exact temp_not_above hengine [next]
          exact (hcleared _ hbelow).trans (hbare next)
    · intro dest hdest
      obtain ⟨engine',name',parent,hid',_,hled⟩ := h.destination hchanged hdest
      rw [hid,List.cons.injEq] at hid'
      rw [← hid'.1,hnone] at hled
      cases hled
  | preserved dest error hdest hexist houtside habove houtcome hdismissed hsame hgone hbackup =>
    right
    obtain ⟨parent,hparent,rfl⟩ := Option.map_eq_some_iff.mp hdest
    refine ⟨site.temp,parent++[name],_,houtcome,?_⟩
    dsimp only
    rw [hdismissed,if_pos rfl]
    exact h.preserved hid hchanged hparent hexist houtside habove hsame hgone hbackup ⟨_,rfl⟩

/-- Only a link leads from the models directory back to it. -/
theorem walk_back {engine : List Char} {links : ℕ} {root : Place}
    (h : walk later links root [.name engine]=some root) :
    ∃ absolute target, later.get (root++[engine])=some (.link absolute target) := by
  by_contra hlink
  obtain ⟨node,hnode⟩ := Option.ne_none_iff_exists'.mp (walk_name_there h)
  have hplain : ∀ absolute target, node≠.link absolute target := by
    rintro absolute target rfl
    exact hlink ⟨absolute,target,hnode⟩
  rw [walk_node hnode hplain] at h
  simp at h

/-- The model that stands at its destination is not the engine's directory. -/
theorem Started.apart (h : Started answers files base site started)
    (hchanged : Changed site.temp started later) (hapart : Apart answers files base id)
    {engine name : List Char} (hid : modelPathForId id=[engine,name]) {parent : Place}
    (hled : walk later maxLinks site.base [.name engine]=some parent) :
    parent++[name]≠site.base++[engine] := by
  intro hsame
  obtain ⟨rfl,hname⟩ := List.append_inj' hsame rfl
  obtain rfl := (List.cons.inj hname).1
  obtain ⟨absolute,target,hlink⟩ := walk_back hled
  have hnot : ¬site.temp<+:site.base++[name] := by
    intro hwithin
    obtain hnone | hdirectory | ⟨content,hfile⟩ := h.plain.changed hchanged _ hwithin
    · simp [hnone] at hlink
    · simp [hdirectory] at hlink
    · simp [hfile] at hlink
  have hold : files.get (site.base++[name])=some (.link absolute target) := by
    rw [hchanged.outside hnot] at hlink
    obtain hkept | ⟨_,_,hnew⟩ := h.grown hnot
    · rw [← hkept,hlink]
    · rw [hlink] at hnew
      cases hnew
  obtain ⟨other,hother,hne⟩ := hapart _ _ h.made hid absolute target hold
  have hlater := walk_keeps (fun _ _ => h.keeps hchanged) hother
  rw [hled] at hlater
  exact hne (Option.some.inj hlater).symm

/-- Before the temporary directory is made there are new directories at most. -/
theorem keepsModel_begun {result : Files×Outcome} (htemp : tempDirectory answers files base=none)
    (hresult : result.1=(modelsDirectory answers files base).tree) :
    KeepsModel answers files base id result := by
  intro _
  left
  have hgrown : Grown files (modelsDirectory answers files base).tree
      (modelsDirectory answers files base).created := grown_makeDirectories files []
  constructor
  · intro path _
    refine (hgrown path).imp (fun hsame => by rw [hresult,hsame]) fun hnew => ?_
    exact ⟨hnew.2.1,by rw [hresult]; exact hnew.2.2,newParent_made hnew.1⟩
  · intro dest hdest _
    rw [htemp]
    refine ⟨by simp [Outside],fun path _ => ?_⟩
    rw [destination] at hdest
    split at hdest
    · rename_i root engine name hroot _
      obtain ⟨parent,hparent,_⟩ := Option.map_eq_some_iff.mp hdest
      obtain ⟨node,hnode⟩ := Option.ne_none_iff_exists'.mp (walk_name_there hparent)
      obtain hsame | hbare := makeDirectories_names hroot
      · rw [hresult,modelsDirectory,hsame]
      · have hthere : (modelsDirectory answers files base).tree.get (root++[engine])=some node :=
          hgrown.keeps hnode
        rw [modelsDirectory,hbare engine] at hthere
        cases hthere
    · cases hdest

/-- A model whose identity has no path is refused. -/
theorem replaceModel_invalid (hid : ∀ engine name, modelPathForId id≠[engine,name]) :
    replaceModel answers site id files=
      ⟨files,.failed ("invalid model id: "++String.ofList id),false⟩ := by
  rw [replaceModel]
  split
  · rename_i engine name hsame
    exact absurd hsame (hid engine name)
  · rfl

/-- What is only put together leaves the old model untouched. -/
theorem Started.keepsModel_assembled (h : Started answers files base site started)
    {assembled : Files} (hchanged : Changed site.temp started assembled) (outcome : Outcome) :
    KeepsModel answers files base id (clear assembled site.temp answers.cleanUp,outcome) := by
  intro _
  left
  refine h.untouched fun path hpath => ?_
  rw [(clear_changed (List.prefix_refl _) _).outside hpath,hchanged.outside hpath]

/-- A failed installation keeps the old model if its archive is put into the
temporary directory and the engine's directory is no link back. -/
theorem install_keeps_model (writer : Writer) (answers : Answers) (files : Files) (base : Place)
    (found : RemoteModelEntry) (harchive : ArchiveStays found)
    (hengine : Apart answers files base found.id) :
    KeepsModel answers files base found.id
      (installModelEntry writer answers files base found) := by
  rw [installModelEntry]
  cases hplace : (modelsDirectory answers files base).place with
  | none =>
    refine keepsModel_begun ?_ rfl
    rw [tempDirectory,hplace,Option.bind_none]
  | some root =>
    dsimp only
    cases hmade : if answers.makesTemp then (modelsDirectory answers files base).tree.makeDirectory
        (Site.temp ⟨base,root,tempName answers⟩) else none with
    | none =>
      refine keepsModel_begun ?_ rfl
      rw [tempDirectory,hplace,Option.bind_some]
      dsimp only
      rw [Site.temp] at hmade
      rw [hmade,Option.map_none]
    | some started =>
      split_ifs at hmade with hmakes
      have hstarted : Started answers files base ⟨base,root,tempName answers⟩ started :=
        ⟨rfl,rfl,hplace,hmakes,hmade⟩
      have hchanged : Changed (Site.temp ⟨base,root,tempName answers⟩) started
          (assemble writer answers (Site.temp ⟨base,root,tempName answers⟩) found started).1 :=
        assemble_changed hstarted.plain hstarted.temp_ne harchive
      dsimp only
      cases (assemble writer answers (Site.temp ⟨base,root,tempName answers⟩) found started).2 with
      | some outcome => exact hstarted.keepsModel_assembled hchanged outcome
      | none =>
        dsimp only
        by_cases htwo : ∃ engine name, modelPathForId found.id=[engine,name]
        · obtain ⟨engine,name,hid⟩ := htwo
          exact hstarted.keepsModel hid hchanged (replaceModel_aftermath
            (hstarted.plain.changed hchanged) hid fun parent hled =>
              hstarted.apart hchanged hengine hid hled)
        · rw [replaceModel_invalid fun engine name hid => htwo ⟨engine,name,hid⟩]
          exact hstarted.keepsModel_assembled hchanged _

/-- A server that sends one chunk. -/
def served (data : List UInt8) : FileDownload.Attempt where
  url := []
  cancelledBefore := false
  request := .get ⟨fun _ => true,['1'],true,[⟨data,false,.written⟩],.status 200,none,none,true,true,
    false⟩
  cancelledAfter := false

/-- Steps that all succeed, for an archive of a directory with a file. -/
def plainAnswers : Answers where
  words := "refused"
  base := fun _ => true
  makesTemp := true
  suffix := ['a']
  attempt := fun _ => served [1]
  removesArchive := true
  cancelledAfterDownload := false
  hash := .ok ['0']
  extracted := fun _ => true
  archive :=
    ⟨none,[⟨some ['d','/','x'],.regular,none,none,some 1,none,[(⟨[7],0⟩,none)],none,none⟩],none⟩
  extraction := fun _ => true
  lists := true
  looks := true
  flatten := none
  listed := none
  move := fun _ => none
  removesFlatten := none
  manifest := none
  vocabulary := none
  vocabularyParent := fun _ => true
  vocabularyWrite := none
  prepared := none
  inspected := none
  cancelledBeforeInstall := false
  stage := none
  parent := fun _ => true
  activate := none
  rollback := none
  cleanUp := none

/-- A models directory. -/
def modelsOnly : Files where
  entries := [([],.directory),([['m']],.directory)]
  rooted := by
    intro path name h
    cases path with
    | nil => rfl
    | cons first rest => simp [lookup] at h

/-- A model of an engine. -/
def plainEntry : RemoteModelEntry :=
  ⟨['m','o','d','e','l','.','e','.','n'],[['h','t','t','p',':','/','/','h','/','a']],[],.absent⟩

/-- A busy destination keeps the model that was there. -/
theorem install_keeps_model_plain :
    KeepsModel {plainAnswers with activate := some "busy"} modelsOnly [['m']] plainEntry.id
      (installModelEntry ArchiveExtraction.diskWriter {plainAnswers with activate := some "busy"}
        modelsOnly [['m']] plainEntry) := by
  refine install_keeps_model _ _ _ _ _ ⟨by decide +kernel,by decide +kernel⟩ ?_
  intro root engine _ hid
  have hpath : modelPathForId plainEntry.id=[['e'],['n']] := by decide +kernel
  rw [hpath,List.cons.injEq,List.cons.injEq] at hid
  rw [← hid.1] at hid
  exact absurd hid.2.1 (by decide)

/-- A model whose identity leads out of the temporary directory. -/
def climbingEntry : RemoteModelEntry :=
  ⟨['.','.','/','x'],[['h','t','t','p',':','/','/','h','/']],['1'],.absent⟩

/-- Where the archive of that model is put. -/
def leftArchive : Place := [['m'],['x','.','t','a','r','.','g','z']]

/-- The archive of a model whose identity climbs stays in the models directory
after the installation has failed. -/
theorem archive_left :
    modelsOnly.get leftArchive=none ∧
      ((installModelEntry ArchiveExtraction.diskWriter plainAnswers modelsOnly [['m']]
        climbingEntry).1.get leftArchive).isSome=true ∧
      ¬KeepsModel plainAnswers modelsOnly [['m']] climbingEntry.id
        (installModelEntry ArchiveExtraction.diskWriter plainAnswers modelsOnly [['m']]
          climbingEntry) := by
  have htemp : tempDirectory plainAnswers modelsOnly [['m']]=
      some [['m'],['.','t','m','p','-','a']] := by decide +kernel
  have hnew : modelsOnly.get leftArchive=none := by simp [FileTree.Tree.get,lookup,modelsOnly,leftArchive]
  have hfailed : (installModelEntry ArchiveExtraction.diskWriter plainAnswers modelsOnly [['m']]
      climbingEntry).2≠.installed := by decide +kernel
  have hleft : ((installModelEntry ArchiveExtraction.diskWriter plainAnswers modelsOnly [['m']]
      climbingEntry).1.get leftArchive).isSome=true := by decide +kernel
  have hfile : (installModelEntry ArchiveExtraction.diskWriter plainAnswers modelsOnly [['m']]
      climbingEntry).1.isDirectory leftArchive=false := by decide +kernel
  have hgone : ((installModelEntry ArchiveExtraction.diskWriter plainAnswers modelsOnly [['m']]
      climbingEntry).1.get [['m'],['.','t','m','p','-','a'],backupName]).isSome=false := by
    decide +kernel
  refine ⟨hnew,hleft,fun hkeeps => ?_⟩
  obtain huntouched | ⟨temp,dest,error,_,hpreserved⟩ := hkeeps hfailed
  · have hkept := huntouched.kept leftArchive (by rw [htemp]; simp [Outside,leftArchive])
    rw [hnew] at hkept
    obtain hnone | hparent := hkept
    · rw [hnone] at hleft
      cases hleft
    · rw [Tree.isDirectory_iff.mpr hparent.directory] at hfile
      cases hfile
  · -- no old model stands in a temporary directory that is gone
    have hbackup := hpreserved.backup []
    have hplace := hpreserved.place
    rw [htemp] at hplace
    rw [← Option.some.inj hplace,List.append_nil] at hbackup
    have hexist := hpreserved.exist
    rw [← hbackup] at hexist
    exact hexist (by simpa using hgone)

end Installations

end Vinput.InstallOutcome
