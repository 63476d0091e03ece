import Vinput.AtomicWrite

/-!
# The target is old or new

Up to the rename a replacement makes directories on the way to the target and
one file beside it, so that reading the target gives what it gave. The rename
puts the whole content where the target leads. All of this rests on where the
resolved path leads.
-/

namespace Vinput.AtomicReplacement

open FileTree FilePaths PathLeads LexicalPaths SymlinkResolution ResolvedPaths AtomicWrite

section Places

variable {tree later last : Tree Name Bytes} {cwd base tmp place : Path Name}
  {target path : FsPath Name} {name : Name} {suffix : List Char} {written : Bytes}

/-- All that is new are directories. -/
def OnlyDirectories (tree later : Tree Name Bytes) : Prop :=
  ∀ path, later.get path=tree.get path ∨ tree.get path=none ∧ later.get path=some .directory

/-- A tree with directories that were made on the way to a place, and perhaps
one file that is being written. -/
structure Holds (tree later : Tree Name Bytes) (tmp : Path Name) (written : Bytes) : Prop where
  free : tree.get tmp=none
  file : later.get tmp=some (.file written)
  other : ∀ path, path≠tmp →
    later.get path=tree.get path ∨ tree.get path=none ∧ later.get path=some .directory

/-- New directories leave every place apart alone. -/
theorem OnlyDirectories.apart (h : OnlyDirectories tree later) (place : Path Name) :
    Apart tree later place := by
  intro path
  rcases h path with hsame | ⟨hnone,hdirectory⟩
  · exact Or.inl hsame
  · exact Or.inr ⟨hnone,Or.inl hdirectory⟩

/-- The temporary file leaves every other place alone. -/
theorem Holds.apart (h : Holds tree later tmp written) (hplace : ¬tmp<+:place) :
    Apart tree later place := by
  intro path
  by_cases htmp : path=tmp
  · rw [htmp]
    exact Or.inr ⟨h.free,Or.inr hplace⟩
  · rcases h.other path htmp with hsame | ⟨hnone,hdirectory⟩
    · exact Or.inl hsame
    · exact Or.inr ⟨hnone,Or.inl hdirectory⟩

/-- Without its file a tree has new directories only. -/
theorem Holds.removed (h : Holds tree later tmp written) (hlast : later.remove tmp=some last) :
    OnlyDirectories tree last := by
  have hget : ∀ path, last.get path=if tmp<+:path then none else later.get path := by
    intro path
    unfold Tree.remove at hlast
    split at hlast
    · cases hlast
      exact Tree.get_removeAll
    · cases hlast
  intro path
  rw [hget]
  split
  · rename_i hbelow
    exact Or.inl (tree.get_below h.free hbelow).symm
  · rename_i hbelow
    exact h.other path fun hsame => hbelow (hsame ▸ List.prefix_refl _)

/-- Bytes are put behind those that are written. -/
theorem Holds.append {more : Bytes} (h : Holds tree later tmp written)
    (hlast : append later tmp more=some last) : Holds tree last tmp (written++more) := by
  unfold AtomicWrite.append at hlast
  rw [h.file] at hlast
  have hget : ∀ path, last.get path=
      if tmp=path then some (.file (written++more)) else later.get path :=
    fun path => Tree.get_writeFile hlast
  refine ⟨h.free,?_,?_⟩
  · rw [hget,if_pos rfl]
  · intro path hpath
    rw [hget,if_neg (Ne.symm hpath)]
    exact h.other path hpath

/-- Where a path that leads somewhere leads in a tree with something new. -/
def Leads (tree : Tree Name Bytes) (cwd : Path Name) (path : FsPath Name) (place : Path Name) : Prop :=
  path.leads tree cwd=.found place ∨ ∃ directory, path.leads tree cwd=.absent place directory

/-- Reading a path gives what it gave as long as nothing changes on its way. -/
theorem reading_apart (hcwd : tree.get cwd=some .directory) (hleads : Leads tree cwd path place)
    (apart : Apart tree later place) : reading later cwd path=reading tree cwd path := by
  have hlater := lead_apart (start_directory hcwd path) apart hleads
  unfold reading
  rcases hleads with hfound | ⟨directory,habsent⟩
  · have hkept := lead_keeps apart.keeps hfound
    obtain ⟨node,hnode,-⟩ := lead_end (start_directory hcwd path) hfound
    have hsame : later.get place=tree.get place := by
      rcases apart place with hsame | ⟨hnone,-⟩
      · exact hsame
      · cases hnode.symm.trans hnone
    unfold FsPath.leads at hfound ⊢
    rw [hfound,hkept]
    dsimp only
    rw [hsame]
  · have hnone := lead_absent habsent
    unfold FsPath.leads at habsent ⊢
    rw [habsent]
    rcases hlater with hfound | ⟨flag,hagain⟩
    · rw [hfound]
      dsimp only
      rcases apart place with hsame | ⟨-,hdirectory | hother⟩
      · rw [hsame,hnone]
      · rw [hdirectory]
      · exact absurd (List.prefix_refl place) hother
    · rw [hagain]

/-- The name of the temporary file is longer than that of the target. -/
theorem temporaryName_ne (hname : path.filename=some (.name name)) :
    temporaryName path suffix≠name := by
  intro h
  have hlength := congrArg List.length h
  unfold temporaryName at hlength
  rw [hname,List.length_append,List.length_append] at hlength
  dsimp only [fileText,List.length_cons,List.length_nil] at hlength
  omega

/-- The directory of a path, and where the path leads from it. -/
structure Based (tree : Tree Name Bytes) (cwd : Path Name) (path : FsPath Name)
    (base : Path Name) : Prop where
  parent : path.parentPath.leadsInto tree cwd=.found base ∨
    ∃ flag, path.parentPath.leadsInto tree cwd=.absent base flag
  name : ∀ name, path.filename=some (.name name) →
    path.leads tree cwd=.found (base++[name]) ∨ path.leads tree cwd=.absent (base++[name]) false
  other : (∀ name, path.filename≠some (.name name)) →
    ∀ place flag, path.leads tree cwd=.absent place flag → place=base

/-- A name that is no link stands in its directory. -/
theorem based_of_name (hsettled : Settled (path.leads tree cwd))
    (hlink : ∀ absolute text, symlinkStatus tree cwd path≠.symlink absolute text)
    (hname : path.filename=some (.name name)) : ∃ base, Based tree cwd path base := by
  have hother : ∀ base, (∀ name, path.filename≠some (.name name)) →
      ∀ place flag, path.leads tree cwd=.absent place flag → place=base :=
    fun base h => absurd hname (h name)
  have honly : ∀ other, path.filename=some (.name other) → other=name := by
    intro other h
    cases h.symm.trans hname
    rfl
  by_cases hfound : ∃ base, path.parentPath.leadsInto tree cwd=.found base
  · obtain ⟨base,hbase⟩ := hfound
    obtain ⟨left,-,hview⟩ := view_in_directory hname hbase false
    have hleads : path.leads tree cwd=lead tree left base [.name name] := hview
    refine ⟨base,Or.inl hbase,?_,hother base⟩
    intro other h
    rw [honly other h,hleads]
    cases hturn : turnAt tree (base++[name]) with
    | none =>
      rw [lead_missing hturn]
      exact Or.inr rfl
    | some turn =>
      cases turn with
      | directory =>
        rw [lead_directory hturn]
        exact Or.inl lead_nil
      | leaf =>
        rw [lead_leaf hturn]
        exact Or.inl rfl
      | link absolute text =>
        have hstatus : symlinkStatus tree cwd path=.symlink absolute text := by
          rw [status_of_name hname,hbase]
          unfold statusIn
          dsimp only
          rw [hturn]
        exact absurd hstatus (hlink absolute text)
  · have hleads := leads_of_parent hname fun directory h => hfound ⟨directory,h⟩
    rw [hleads] at hsettled
    rcases settled_of_goOn hsettled with hparent | ⟨base,flag,hparent⟩
    · exact absurd hparent hfound
    · refine ⟨base,Or.inr ⟨flag,hparent⟩,?_,hother base⟩
      intro other h
      rw [honly other h,hleads,hparent]
      exact Or.inr rfl

/-- A path that asks for a directory leads to the directory it is in, or above it. -/
theorem based_of_asksDirectory (hsettled : Settled (path.leads tree cwd))
    (hasks : path.asksDirectory=true) : ∃ base, Based tree cwd path base := by
  have hnone : ∀ name, path.filename≠some (.name name) := by
    intro name h
    obtain ⟨hslash,hparts⟩ := parts_of_filename h
    unfold FsPath.asksDirectory at hasks
    rw [hslash,hparts,List.getLast?_concat] at hasks
    cases hasks
  have hsame : path.parentPath.leadsInto tree cwd=path.leadsInto tree cwd →
      ∃ base, Based tree cwd path base := by
    intro hinto
    rw [←leads_eq_leadsInto hasks] at hinto
    rcases hsettled with ⟨place,hfound⟩ | ⟨place,directory,habsent⟩
    · refine ⟨place,Or.inl (hinto.trans hfound),fun name h => absurd h (hnone name),?_⟩
      intro _ other flag h
      cases hfound.symm.trans h
    · refine ⟨place,Or.inr ⟨directory,hinto.trans habsent⟩,fun name h => absurd h (hnone name),?_⟩
      intro _ other flag h
      cases habsent.symm.trans h
      rfl
  cases hslash : path.slash with
  | true => exact hsame (leadsInto_parent_slash hslash)
  | false =>
    cases hfilename : path.filename with
    | none =>
      unfold FsPath.filename at hfilename
      rw [hslash,if_neg Bool.false_ne_true,List.getLast?_eq_none_iff] at hfilename
      refine hsame ?_
      unfold FsPath.parentPath
      rw [hslash,if_neg Bool.false_ne_true,hfilename]
      unfold FsPath.leadsInto
      rw [hfilename]
      rfl
    | some part =>
      cases part with
      | name name => exact absurd hfilename (hnone name)
      | here => exact hsame (leadsInto_parent_here hfilename)
      | up =>
        by_cases hfound : ∃ base, path.parentPath.leadsInto tree cwd=.found base
        · obtain ⟨base,hbase⟩ := hfound
          refine ⟨base,Or.inl hbase,fun name h => absurd h (hnone name),?_⟩
          intro _ place flag h
          rw [leadsInto_parentPath hfilename] at hbase
          obtain ⟨left,-,hall⟩ := lead_append_found hbase
          rw [leads_of_filename hfilename,hall,lead_up,lead_nil] at h
          cases h
        · rw [leads_of_parent hfilename fun directory h => hfound ⟨directory,h⟩] at hsettled
          rcases settled_of_goOn hsettled with hparent | ⟨base,flag,hparent⟩
          · exact absurd hparent hfound
          · rw [hparent] at hsettled
            exact absurd rfl (settled_ne_lost hsettled)

/-- A resolved path has a directory and a name. -/
theorem based_of_resolved (h : Resolved tree cwd false target path) :
    ∃ base, Based tree cwd path base := by
  rcases name_or_asksDirectory path with ⟨name,hname⟩ | hasks
  · exact based_of_name h.settled h.notLink hname
  · exact based_of_asksDirectory h.settled hasks

/-- The directory of a path is found or absent. -/
theorem leads_parentPath (based : Based tree cwd path base) :
    path.parentPath.leads tree cwd=.found base ∨
      ∃ flag, path.parentPath.leads tree cwd=.absent base flag := by
  have hslash : path.parentPath.slash=false := by
    unfold FsPath.parentPath
    split
    · rfl
    · rename_i hslash
      exact Bool.not_eq_true _ ▸ hslash
  unfold FsPath.leads FsPath.elements
  rw [hslash,if_neg Bool.false_ne_true,List.append_nil]
  rcases based.parent with hfound | ⟨flag,habsent⟩
  · obtain ⟨left,-,hall⟩ := lead_append_found hfound
    have hfront := hall []
    rw [List.append_nil,lead_nil] at hfront
    exact Or.inl hfront
  · exact Or.inr (lead_front_absent habsent)

/-- Whether the directory can be made or not, only directories are new. -/
theorem ensure_cases (based : Based tree cwd path base) (allowed : Path Name → Bool)
    (reason : String) : ∃ later, OnlyDirectories tree later ∧
      (ensureParentDirectory allowed reason tree cwd path=⟨later,.ensured path⟩ ∨
        ∃ error, ensureParentDirectory allowed reason tree cwd path=⟨later,.failed error⟩) := by
  have hnothing : OnlyDirectories tree tree := fun _ => Or.inl rfl
  unfold ensureParentDirectory
  dsimp only
  split
  · exact ⟨tree,hnothing,Or.inl rfl⟩
  · rcases leads_parentPath based with hfound | ⟨flag,habsent⟩
    · rw [hfound]
      exact ⟨tree,hnothing,Or.inl rfl⟩
    · rw [habsent]
      dsimp only
      have hmade : OnlyDirectories tree (makeDirectories allowed tree
          (path.parentPath.start cwd) path.parentPath.elements).tree := by
        intro other
        refine (grown_makeDirectories tree _ other).imp_right ?_
        rintro ⟨-,hnone,hdirectory⟩
        exact ⟨hnone,hdirectory⟩
      refine ⟨_,hmade,?_⟩
      cases (makeDirectories allowed tree (path.parentPath.start cwd)
          path.parentPath.elements).place with
      | some _ => exact Or.inl rfl
      | none => exact Or.inr ⟨_,rfl⟩

/-- The directory of the path stays where it is. -/
theorem placeIn_apart (hcwd : tree.get cwd=some .directory) (based : Based tree cwd path base)
    (apart : Apart tree later base) (h : placeIn later cwd path name=some place) :
    place=base++[name] := by
  unfold placeIn at h
  rcases lead_apart (start_directory hcwd path.parentPath) apart based.parent with
    hfound | ⟨flag,habsent⟩
  · unfold FsPath.leadsInto at h
    rw [hfound] at h
    cases h
    rfl
  · unfold FsPath.leadsInto at h
    rw [habsent] at h
    cases h

/-- Siblings are not above each other. -/
theorem not_beside {other : Name} (hother : other≠name) : ¬base++[other]<+:base++[name] := by
  intro h
  rcases List.prefix_concat_iff.mp h with hsame | habove
  · have hlast : other=name := by simpa using hsame
    exact hother hlast
  · exact not_concat_below base other habove

/-- A file that is renamed leaves all that stood elsewhere, and replaces a file
at most. -/
theorem renamed_keeps {other : Name} (hother : other≠name)
    (holds : Holds tree later (base++[other]) written)
    (hlink : ∀ absolute text, tree.get (base++[name])≠some (.link absolute text))
    (hlast : later.rename (base++[other]) (base++[name])=some last) :
    Keeps tree last ∧ last.get (base++[name])=some (.file written) ∧
      ∀ path, path<+:base → last.get path=some .directory := by
  rcases Tree.rename_eq_some hlast with ⟨hsame,-⟩ | ⟨movable,hget⟩
  · exact absurd (by simpa using hsame) hother
  · have hplace : last.get (base++[name])=some (.file written) := by
      rw [hget,if_pos (List.prefix_refl _),List.drop_length,List.append_nil]
      exact holds.file
    have hbase : later.get base=some .directory := by
      have hparent := movable.parent.2
      rw [List.dropLast_concat] at hparent
      exact Tree.isDirectory_iff.mp hparent
    have hdirectory : tree.get (base++[name])≠some .directory := by
      intro h
      have hlater : later.get (base++[name])=some .directory := by
        rcases holds.other (base++[name]) (fun hsame => hother (by simpa using hsame.symm)) with
          hsame | ⟨hnone,-⟩
        · rw [hsame,h]
        · cases h.symm.trans hnone
      have hsame := (movable.way (by rw [hlater]; rfl)).1
      rw [Tree.isDirectory_iff.mpr hlater,Tree.isDirectory_iff,holds.file] at hsame
      cases hsame
    refine ⟨?_,hplace,?_⟩
    · intro path turn hturn
      have hthere : tree.get path≠none := by
        intro hnone
        rw [turnAt,hnone] at hturn
        cases hturn
      by_cases hbelow : base++[name]<+:path
      · obtain ⟨below,rfl⟩ := hbelow
        cases below with
        | nil =>
          rw [List.append_nil] at hturn ⊢
          rw [turnAt,hplace]
          obtain ⟨node,hnode,hnodeTurn⟩ := Option.map_eq_some_iff.mp hturn
          cases node with
          | directory => exact absurd hnode hdirectory
          | link absolute text => exact absurd hnode (hlink absolute text)
          | file content => exact congrArg some hnodeTurn
          | special => exact congrArg some hnodeTurn
        | cons first below => exact absurd (tree.get_above hthere) hdirectory
      · have htmp : ¬base++[other]<+:path := fun h => hthere (tree.get_below holds.free h)
        have hsame : later.get path=tree.get path := by
          rcases holds.other path (fun h => htmp (h ▸ List.prefix_refl _)) with hsame | ⟨hnone,-⟩
          · exact hsame
          · exact absurd hnone hthere
        rw [turnAt,hget,if_neg hbelow,if_neg htmp,hsame]
        exact hturn
    · intro path hpath
      rw [hget,if_neg,if_neg]
      · exact directory_above hbase hpath
      · exact fun h => not_concat_below base other (h.trans hpath)
      · exact fun h => not_concat_below base name (h.trans hpath)

/-- A renamed file is what the target leads to. -/
theorem reading_renamed {other : Name} (hcwd : tree.get cwd=some .directory) (hother : other≠name)
    (holds : Holds tree later (base++[other]) written)
    (hleads : target.leads tree cwd=.found (base++[name]) ∨
      target.leads tree cwd=.absent (base++[name]) false)
    (hlast : later.rename (base++[other]) (base++[name])=some last) :
    Keeps tree last ∧ reading last cwd target=some written := by
  have hlink : ∀ absolute text, tree.get (base++[name])≠some (.link absolute text) := by
    intro absolute text h
    rcases hleads with hfound | habsent
    · obtain ⟨node,hnode,hnot⟩ := lead_end (start_directory hcwd target) hfound
      exact hnot absolute text (Option.some.inj (hnode.symm.trans h))
    · cases h.symm.trans (lead_absent habsent)
  obtain ⟨keeps,hplace,habove⟩ := renamed_keeps hother holds hlink hlast
  have hfile : turnAt last (base++[name])=some .leaf := by
    rw [turnAt,hplace]
    rfl
  have hfound : target.leads last cwd=.found (base++[name]) := by
    rcases hleads with hfound | habsent
    · exact lead_keeps keeps hfound
    · have hclear : Clear last (base++[name]) false := by
        intro path hpath
        rcases List.prefix_concat_iff.mp hpath with hsame | hprefix
        · exact Or.inr (Or.inr ⟨hsame,rfl,hsame ▸ hfile⟩)
        · exact Or.inr (Or.inl (turnAt_of_directory (habove path hprefix)))
      rcases lead_grown keeps hclear habsent with hfound | hagain
      · exact hfound
      · cases (lead_absent hagain).symm.trans hplace
  refine ⟨keeps,?_⟩
  unfold reading
  rw [hfound]
  dsimp only
  rw [hplace]

/-- A link that is kept is still there. -/
theorem link_of_keeps {absolute : Bool} {text : List (Element Name)} {place : Path Name}
    (keeps : Keeps tree later) (h : tree.get place=some (.link absolute text)) :
    later.get place=some (.link absolute text) := by
  have hturn : turnAt tree place=some (.link absolute text) := by
    rw [turnAt,h]
    rfl
  obtain ⟨node,hnode,hnodeTurn⟩ := Option.map_eq_some_iff.mp (keeps _ _ hturn)
  cases node with
  | directory => cases hnodeTurn
  | file content => cases hnodeTurn
  | special => cases hnodeTurn
  | link other target =>
    cases hnodeTurn
    exact hnode

end Places

section Runs

variable {refusals : Refusals Name} {tree : Tree Name Bytes} {cwd : Path Name}
  {target : FsPath Name} {content : Bytes} {state next : State}

/-- A file that is being written beside the target. -/
structure Beside (tree : Tree Name Bytes) (cwd : Path Name) (target path : FsPath Name)
    (tmp : Path Name) (later : Tree Name Bytes) (written : Bytes) : Prop where
  resolved : Resolved tree cwd false target path
  holds : Holds tree later tmp written
  based : ∃ base suffix, Based tree cwd path base ∧ tmp=base++[temporaryName path suffix]

/-- What a replacement has done at each point. -/
def Progress (tree : Tree Name Bytes) (cwd : Path Name) (target : FsPath Name) (content : Bytes)
    (later : Tree Name Bytes) : Point → Prop
  | .start => later=tree
  | .resolved path => later=tree ∧ Resolved tree cwd false target path
  | .ensured path => OnlyDirectories tree later ∧ Resolved tree cwd false target path
  | .writing path tmp remaining =>
    ∃ written, Beside tree cwd target path tmp later written ∧ written++remaining=content
  | .synced path tmp => Beside tree cwd target path tmp later content
  | .discarding tmp _ => ∃ path written, Beside tree cwd target path tmp later written
  | .failed _ => OnlyDirectories tree later ∧
    reading later cwd target=reading tree cwd target
  | .threw => False
  | .succeeded => Keeps tree later ∧ reading later cwd target=some content

variable {path : FsPath Name} {tmp : Path Name} {later last : Tree Name Bytes} {written : Bytes}

/-- A target leads where the path does that it is resolved to. -/
theorem leads_of_resolved (h : Resolved tree cwd false target path) :
    ∃ place, Leads tree cwd target place := by
  have hview : path.leads tree cwd=target.leads tree cwd := h.view
  have hsettled : Settled (path.leads tree cwd) := h.settled
  rw [hview] at hsettled
  rcases hsettled with ⟨place,hfound⟩ | ⟨place,directory,habsent⟩
  · exact ⟨place,Or.inl hfound⟩
  · exact ⟨place,Or.inr ⟨directory,habsent⟩⟩

/-- New directories do not change what reading the target gives. -/
theorem reading_onlyDirectories (hcwd : tree.get cwd=some .directory)
    (resolved : Resolved tree cwd false target path) (h : OnlyDirectories tree later) :
    reading later cwd target=reading tree cwd target := by
  obtain ⟨place,hleads⟩ := leads_of_resolved resolved
  exact reading_apart hcwd hleads (h.apart place)

/-- The file that is being written is not on the way of the target. -/
theorem Beside.away {place : Path Name} (h : Beside tree cwd target path tmp later written)
    (hcwd : tree.get cwd=some .directory) (hleads : Leads tree cwd target place) : ¬tmp<+:place := by
  intro hbelow
  have hview : path.leads tree cwd=target.leads tree cwd := h.resolved.view
  rcases hleads with hfound | ⟨directory,habsent⟩
  · obtain ⟨node,hnode,-⟩ := lead_end (start_directory hcwd target) hfound
    cases hnode.symm.trans (tree.get_below h.holds.free hbelow)
  · obtain ⟨base,suffix,based,htmp⟩ := h.based
    rw [←hview] at habsent
    rw [htmp] at hbelow
    by_cases hnamed : ∃ name, path.filename=some (.name name)
    · obtain ⟨name,hname⟩ := hnamed
      rcases based.name name hname with hfound | hagain
      · cases hfound.symm.trans habsent
      · cases hagain.symm.trans habsent
        exact not_beside (temporaryName_ne hname) hbelow
    · rw [based.other (fun name h => hnamed ⟨name,h⟩) place directory habsent] at hbelow
      exact not_concat_below base _ hbelow

/-- The target reads the same while the temporary file lies beside it. -/
theorem Beside.reading (h : Beside tree cwd target path tmp later written)
    (hcwd : tree.get cwd=some .directory) :
    reading later cwd target=reading tree cwd target := by
  obtain ⟨place,hleads⟩ := leads_of_resolved h.resolved
  exact reading_apart hcwd hleads (h.holds.apart (h.away hcwd hleads))

/-- The temporary file is made in the directory of the path. -/
theorem beside_mkstemp {suffix : List Char} (hcwd : tree.get cwd=some .directory)
    (resolved : Resolved tree cwd false target path) (h : OnlyDirectories tree later)
    (hplace : placeIn later cwd path (temporaryName path suffix)=some tmp)
    (hfree : later.get tmp=none) (hopened : later.writeFile tmp []=some last) :
    Beside tree cwd target path tmp last [] := by
  obtain ⟨base,based⟩ := based_of_resolved resolved
  have htmp := placeIn_apart hcwd based (h.apart base) hplace
  have hget : ∀ path, last.get path=if tmp=path then some (.file []) else later.get path :=
    fun path => Tree.get_writeFile hopened
  refine ⟨resolved,⟨?_,?_,?_⟩,base,suffix,based,htmp⟩
  · rcases h tmp with hsame | ⟨hnone,-⟩
    · rw [←hsame,hfree]
    · exact hnone
  · rw [hget,if_pos rfl]
  · intro other hother
    rw [hget,if_neg (Ne.symm hother)]
    exact h other

/-- The rename leaves the links in place and the content where the target leads. -/
theorem Beside.rename {name : Name} {place : Path Name}
    (h : Beside tree cwd target path tmp later written) (hcwd : tree.get cwd=some .directory)
    (hname : path.filename=some (.name name)) (hplace : placeIn later cwd path name=some place)
    (hlast : later.rename tmp place=some last) :
    Keeps tree last ∧ AtomicWrite.reading last cwd target=some written := by
  obtain ⟨base,suffix,based,htmp⟩ := h.based
  have hview : path.leads tree cwd=target.leads tree cwd := h.resolved.view
  have hbase : Apart tree later base :=
    h.holds.apart (by rw [htmp]; exact not_concat_below base _)
  have hdestination := placeIn_apart hcwd based hbase hplace
  have hleads := based.name name hname
  rw [hview] at hleads
  have hholds := h.holds
  rw [htmp] at hholds hlast
  rw [hdestination] at hlast
  exact reading_renamed hcwd (temporaryName_ne hname) hholds hleads hlast

/-- Each step of a replacement does what the next point asks for. -/
theorem progress_step (hcwd : tree.get cwd=some .directory)
    (straight : ∀ inner path depth, Visited refusals tree cwd target inner path depth →
      Straight tree cwd inner path)
    (hlooped : target.leads tree cwd≠.looped)
    (h : Progress tree cwd target content state.tree state.point)
    (hstep : Step refusals cwd target content state next) :
    Progress tree cwd target content next.tree next.point := by
  cases hstep with
  | unresolved hfailure =>
    have hsame : _=tree := h
    subst hsame
    exact ⟨fun _ => Or.inl rfl,rfl⟩
  | resolve hpath =>
    have hsame : _=tree := h
    subst hsame
    exact ⟨rfl,resolved_of_resolveSymlinkPath hcwd straight hlooped hpath⟩
  | ensure allowed reason =>
    obtain ⟨hsame,resolved⟩ := h
    obtain ⟨base,based⟩ := based_of_resolved resolved
    dsimp only at hsame
    subst hsame
    obtain ⟨later,honly,hnext | ⟨error,hnext⟩⟩ := ensure_cases based allowed reason
    · rw [hnext]
      exact ⟨honly,resolved⟩
    · rw [hnext]
      exact ⟨honly,reading_onlyDirectories hcwd resolved honly⟩
  | mkstempFailed reason => exact ⟨h.1,reading_onlyDirectories hcwd h.2 h.1⟩
  | mkstemp suffix hplace hfree hopened =>
    exact ⟨[],beside_mkstemp hcwd h.2 h.1 hplace hfree hopened,rfl⟩
  | written count hremaining hwritten =>
    obtain ⟨before,beside,hcontent⟩ := h
    refine ⟨_,⟨beside.resolved,beside.holds.append hwritten,beside.based⟩,?_⟩
    rw [List.append_assoc,List.take_append_drop]
    exact hcontent
  | interrupted hremaining => exact h
  | writeFailed reason hremaining =>
    obtain ⟨before,beside,-⟩ := h
    exact ⟨_,before,beside⟩
  | fsync =>
    obtain ⟨before,beside,hcontent⟩ := h
    rw [List.append_nil] at hcontent
    exact hcontent ▸ beside
  | fsyncFailed reason =>
    obtain ⟨before,beside,-⟩ := h
    exact ⟨_,before,beside⟩
  | rename hname hplace hrenamed =>
    have beside : Beside tree cwd target _ _ _ content := h
    exact beside.rename hcwd hname hplace hrenamed
  | renameFailed reason => exact ⟨_,content,h⟩
  | unlink hremoved =>
    obtain ⟨path,before,beside⟩ := h
    have honly := beside.holds.removed hremoved
    exact ⟨honly,reading_onlyDirectories hcwd beside.resolved honly⟩

/-- Every state that is reached shows the target old or new. -/
theorem progress_reaches (hcwd : tree.get cwd=some .directory)
    (straight : ∀ inner path depth, Visited refusals tree cwd target inner path depth →
      Straight tree cwd inner path)
    (hlooped : target.leads tree cwd≠.looped)
    (h : Reaches refusals tree cwd target content state) :
    Progress tree cwd target content state.tree state.point := by
  induction h with
  | start => exact rfl
  | step _ hstep ih => exact progress_step hcwd straight hlooped ih hstep

/-- A target that is not resolved leaves the tree as it was. -/
theorem reaches_of_stopped (stopped : Stopped refusals tree cwd target)
    (h : Reaches refusals tree cwd target content state) :
    state.tree=tree ∧ (state.point=.start ∨ ∃ error, state.point=.failed error) := by
  induction h with
  | start => exact ⟨rfl,Or.inl rfl⟩
  | step _ hstep ih =>
    obtain ⟨htree,hpoint | ⟨error,hpoint⟩⟩ := ih
    · cases hstep with
      | unresolved hfailure => exact ⟨htree,Or.inr ⟨_,rfl⟩⟩
      | resolve hpath =>
        have hsame : _=tree := htree
        subst hsame
        exact absurd hpath (not_resolved_of_stopped stopped)
      | _ => cases hpoint
    · cases hstep with
      | _ => cases hpoint

/-- A target whose resolution loses nothing, and that the system can follow. -/
structure Traceable (refusals : Refusals Name) (tree : Tree Name Bytes) (cwd : Path Name)
    (target : FsPath Name) : Prop where
  directory : tree.get cwd=some .directory
  looped : target.leads tree cwd≠.looped
  straight : ∀ inner path depth, Visited refusals tree cwd target inner path depth →
    Straight tree cwd inner path

variable (refusals tree cwd target) in
/-- The way of the target is stopped, or leads to its file. -/
def Followed : Prop := Stopped refusals tree cwd target ∨ Traceable refusals tree cwd target

/-- The resolution of a target ends. At every point of a replacement reading the
target gives what it gave or the whole content. After an error it gives what it
gave, and nothing is left but directories. After a success it gives the content,
and all links are in place. -/
theorem target_old_or_new (followed : Followed refusals tree cwd target)
    (h : Reaches refusals tree cwd target content state) :
    (WellFounded fun next call => Calls refusals tree cwd call next) ∧
      (reading state.tree cwd target=reading tree cwd target ∨
        reading state.tree cwd target=some content) ∧
      state.point≠.threw ∧
      (∀ error, state.point=.failed error →
        reading state.tree cwd target=reading tree cwd target ∧ OnlyDirectories tree state.tree) ∧
      (state.point=.succeeded → reading state.tree cwd target=some content ∧
        ∀ place absolute text, tree.get place=some (.link absolute text) →
          state.tree.get place=some (.link absolute text)) := by
  rcases followed with stopped | followed
  · obtain ⟨htree,hpoint⟩ := reaches_of_stopped stopped h
    rw [htree]
    have honly : OnlyDirectories tree tree := fun _ => Or.inl rfl
    have hothers : state.point≠.threw ∧ state.point≠.succeeded := by
      rcases hpoint with hstart | ⟨error,hfailed⟩
      · rw [hstart]
        exact ⟨nofun,nofun⟩
      · rw [hfailed]
        exact ⟨nofun,nofun⟩
    exact ⟨calls_wellFounded,Or.inl rfl,hothers.1,fun _ _ => ⟨rfl,honly⟩,
      fun hsucceeded => absurd hsucceeded hothers.2⟩
  have hprogress := progress_reaches followed.directory followed.straight followed.looped h
  refine ⟨calls_wellFounded,?_,?_,?_,?_⟩
  · cases hpoint : state.point with
    | start =>
      rw [hpoint] at hprogress
      exact Or.inl (congrArg (fun later => reading later cwd target) hprogress)
    | resolved path =>
      rw [hpoint] at hprogress
      exact Or.inl (congrArg (fun later => reading later cwd target) hprogress.1)
    | ensured path =>
      rw [hpoint] at hprogress
      exact Or.inl (reading_onlyDirectories followed.directory hprogress.2 hprogress.1)
    | writing path tmp remaining =>
      rw [hpoint] at hprogress
      obtain ⟨written,beside,-⟩ := hprogress
      exact Or.inl (beside.reading followed.directory)
    | synced path tmp =>
      rw [hpoint] at hprogress
      exact Or.inl (Beside.reading hprogress followed.directory)
    | discarding tmp error =>
      rw [hpoint] at hprogress
      obtain ⟨path,written,beside⟩ := hprogress
      exact Or.inl (beside.reading followed.directory)
    | failed error =>
      rw [hpoint] at hprogress
      exact Or.inl hprogress.2
    | threw =>
      rw [hpoint] at hprogress
      exact hprogress.elim
    | succeeded =>
      rw [hpoint] at hprogress
      exact Or.inr hprogress.2
  · intro hpoint
    rw [hpoint] at hprogress
    exact hprogress
  · intro error hpoint
    rw [hpoint] at hprogress
    exact hprogress.symm
  · intro hpoint
    rw [hpoint] at hprogress
    exact ⟨hprogress.2,fun place absolute text => link_of_keeps hprogress.1⟩

end Runs

section Inputs

/-- A link to a file in another directory. -/
def acrossEntries : List (Path Name×Node Name Bytes) :=
  [([],.directory),([['d']],.directory),([['e']],.directory),([['e'],['f']],.file [1]),
    ([['d'],['l']],.link false [.up,.name ['e'],.name ['f']])]

/-- The tree with the link into another directory. -/
def across : Tree Name Bytes := ⟨acrossEntries,rooted_of_listed (by decide)⟩

/-- A link through a link to a directory and out of it. -/
def throughEntries : List (Path Name×Node Name Bytes) :=
  [([],.directory),([['d']],.directory),([['e']],.directory),([['e'],['g']],.directory),
    ([['d'],['s']],.link false [.up,.name ['e'],.name ['g']]),
    ([['d'],['l']],.link false [.name ['s'],.up,.name ['f']])]

/-- The tree with the link through a linked directory. -/
def through : Tree Name Bytes := ⟨throughEntries,rooted_of_listed (by decide)⟩

/-- Nothing is refused. -/
def telling : Refusals Name := ⟨fun _ => none,fun _ => none⟩

/-- The link. -/
def linked : FsPath Name := ⟨true,[.name ['d'],.name ['l']],false⟩

/-- What it leads to across directories. -/
def acrossFile : FsPath Name := ⟨true,[.name ['e'],.name ['f']],false⟩

/-- What it leads to through a linked directory. -/
def throughFile : FsPath Name := ⟨true,[.name ['d'],.name ['f']],false⟩

theorem across_visits : visit telling across [] linked=
    .link acrossFile := by rfl

theorem across_file : visit telling across [] acrossFile=
    .done (.ok acrossFile) := by
  rfl

/-- The path is resolved to the file. -/
theorem across_resolved : resolveSymlinkPath telling across [] linked=
    .ok acrossFile :=
  (impl_link (by decide) across_visits).trans (impl_done (by decide) across_file)

/-- Following it meets the condition. -/
theorem across_followed : Followed telling across [] linked := by
  have hvisited : ∀ inner path depth, Visited telling across [] linked inner path depth →
      inner=false ∧ (path=linked ∨ path=acrossFile) := by
    intro inner path depth visited
    induction visited with
    | start => exact ⟨rfl,Or.inl rfl⟩
    | link _ _ hvisit ih =>
      rcases ih.2 with hpath | hpath
      · rw [hpath,across_visits] at hvisit
        cases hvisit
        exact ⟨ih.1,Or.inr rfl⟩
      · rw [hpath,across_file] at hvisit
        cases hvisit
    | parent _ _ hvisit ih =>
      rcases ih.2 with hpath | hpath
      · rw [hpath,across_visits] at hvisit
        cases hvisit
      · rw [hpath,across_file] at hvisit
        cases hvisit
  refine Or.inr ⟨rfl,?_,?_⟩
  · have hleads : linked.leads across []=.found [['e'],['f']] := by rfl
    rw [hleads]
    exact nofun
  · intro inner path depth visited
    obtain ⟨rfl,rfl | rfl⟩ := hvisited inner path depth visited
    · have hstatus : symlinkStatus across [] linked=
          .symlink false [.up,.name ['e'],.name ['f']] := by rfl
      refine ⟨?_,nofun,?_⟩
      · intro text hlink
        cases hstatus.symm.trans hlink
        exact ⟨⟨[],rfl,rfl⟩,trivial⟩
      · intro hmissing
        cases hstatus.symm.trans hmissing
    · have hstatus : symlinkStatus across [] acrossFile=.other := by rfl
      refine ⟨?_,nofun,?_⟩
      · intro text hlink
        cases hstatus.symm.trans hlink
      · intro hmissing
        cases hstatus.symm.trans hmissing

/-- A file is written at an open place. -/
theorem writeFile_put {tree : Tree Name Bytes} {place : Path Name} {content : Bytes}
    (h : tree.Open place) : tree.writeFile place content=some (tree.put place (.file content) h) :=
  dif_pos h

theorem append_put {tree : Tree Name Bytes} {place : Path Name} {content more : Bytes}
    (hfile : tree.get place=some (.file content)) (h : tree.Open place) :
    append tree place more=some (tree.put place (.file (content++more)) h) := by
  unfold append
  rw [hfile]
  exact dif_pos h

theorem rename_move {tree : Tree Name Bytes} {src dst : Path Name} (hother : src≠dst)
    (h : Movable tree src dst) : tree.rename src dst=some (tree.move src dst h) := by
  unfold Tree.rename
  rw [if_neg hother]
  exact dif_pos h

/-- The temporary file beside `/e/f`, empty, with one byte and with two. -/
def acrossTmp : Path Name := [['e'],['f','.','t','m','p','.','a','b','c','d','e','f']]

/-- The temporary file is there. -/
def acrossOpened : Tree Name Bytes := across.put acrossTmp (.file []) (by decide)

/-- Half of the content is written. -/
def acrossHalf : Tree Name Bytes := acrossOpened.put acrossTmp (.file [7]) (by decide)

/-- The content is written. -/
def acrossFull : Tree Name Bytes := acrossHalf.put acrossTmp (.file [7,8]) (by decide)

/-- The file is moved. -/
def acrossMoved : Tree Name Bytes := acrossFull.move acrossTmp [['e'],['f']] (by decide)

/-- A replacement that is interrupted and writes one byte at a time. -/
theorem across_reaches : Reaches telling across [] linked [7,8] ⟨acrossMoved,.succeeded⟩ := by
  have resolved : Reaches telling across [] linked [7,8]
      ⟨across,.resolved acrossFile⟩ :=
    .step .start (.resolve across_resolved)
  have ensured : Reaches telling across [] linked [7,8]
      ⟨across,.ensured acrossFile⟩ :=
    .step resolved (.ensure (fun _ => false) "")
  have opened : Reaches telling across [] linked [7,8]
      ⟨acrossOpened,.writing acrossFile acrossTmp [7,8]⟩ :=
    .step ensured (.mkstemp ['a','b','c','d','e','f'] rfl rfl
      (writeFile_put (by decide : across.Open acrossTmp)))
  have interrupted : Reaches telling across [] linked [7,8]
      ⟨acrossOpened,.writing acrossFile acrossTmp [7,8]⟩ :=
    .step opened (.interrupted (by decide))
  have half : Reaches telling across [] linked [7,8]
      ⟨acrossHalf,.writing acrossFile acrossTmp [8]⟩ :=
    .step interrupted (.written 1 (by decide) (append_put rfl (by decide : acrossOpened.Open acrossTmp)))
  have full : Reaches telling across [] linked [7,8]
      ⟨acrossFull,.writing acrossFile acrossTmp []⟩ :=
    .step half (.written 1 (by decide) (append_put rfl (by decide : acrossHalf.Open acrossTmp)))
  have synced : Reaches telling across [] linked [7,8]
      ⟨acrossFull,.synced acrossFile acrossTmp⟩ :=
    .step full .fsync
  exact .step synced (.rename rfl rfl (rename_move (by decide) (by decide)))

theorem target_old_or_new_across : reading acrossMoved [] linked=some [7,8] :=
  ((target_old_or_new across_followed across_reaches).2.2.2.2 rfl).1

/-- The temporary file that is made beside `/d/f`. -/
def throughTmp : Path Name := [['d'],['f','.','t','m','p','.','a','b','c','d','e','f']]

/-- The temporary file is there. -/
def throughOpened : Tree Name Bytes := through.put throughTmp (.file []) (by decide)

/-- The content is written. -/
def throughFull : Tree Name Bytes := throughOpened.put throughTmp (.file [7]) (by decide)

/-- The file is moved. -/
def throughMoved : Tree Name Bytes := throughFull.move throughTmp [['d'],['f']] (by decide)

theorem through_visits : visit telling through [] linked=
    .link throughFile := by
  rfl

/-- The path is resolved to the file. -/
theorem through_resolved : resolveSymlinkPath telling through [] linked=
    .ok throughFile := by
  have hfile : visit telling through [] throughFile=
      .parent ⟨true,[.name ['d']],false⟩ (some (.name ['f'])) := by rfl
  have hdirectory : visit telling through [] ⟨true,[.name ['d']],false⟩=
      .done (.ok ⟨true,[.name ['d']],false⟩) := by rfl
  unfold resolveSymlinkPath
  rw [impl_link (by decide) through_visits,impl_parent (by decide) hfile,
    impl_done (by decide) hdirectory]
  rfl

/-- The replacement succeeds, and reading the target still finds nothing. -/
theorem replaced_elsewhere :
    ∃ state, Reaches telling through [] linked [7] state ∧ state.point=.succeeded ∧
      reading state.tree [] linked≠some [7] ∧
      linked.leads state.tree []=.absent [['e'],['f']] false ∧
      state.tree.get [['d'],['f']]=some (.file [7]) := by
  have resolved : Reaches telling through [] linked [7]
      ⟨through,.resolved throughFile⟩ :=
    .step .start (.resolve through_resolved)
  have ensured : Reaches telling through [] linked [7]
      ⟨through,.ensured throughFile⟩ :=
    .step resolved (.ensure (fun _ => false) "")
  have opened : Reaches telling through [] linked [7]
      ⟨throughOpened,.writing throughFile throughTmp [7]⟩ :=
    .step ensured (.mkstemp ['a','b','c','d','e','f'] rfl rfl
      (writeFile_put (by decide : through.Open throughTmp)))
  have full : Reaches telling through [] linked [7]
      ⟨throughFull,.writing throughFile throughTmp []⟩ :=
    .step opened (.written 1 (by decide) (append_put rfl (by decide : throughOpened.Open throughTmp)))
  have synced : Reaches telling through [] linked [7]
      ⟨throughFull,.synced throughFile throughTmp⟩ :=
    .step full .fsync
  have moved : Reaches telling through [] linked [7] ⟨throughMoved,.succeeded⟩ :=
    .step synced (.rename rfl rfl (rename_move (by decide) (by decide)))
  exact ⟨_,moved,rfl,by decide,rfl,rfl⟩

end Inputs

end Vinput.AtomicReplacement
