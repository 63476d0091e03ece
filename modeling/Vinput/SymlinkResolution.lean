import Vinput.LexicalPaths

/-!
# Resolving symbolic links

Before a file is replaced, the links at the end of its path are followed, so
that the file and not a link is replaced. What is missing is resolved through
its parent. A relative link is put behind its directory and normalised as a
text, which loses the links that a `..` climbs out of.
-/

namespace Vinput.SymlinkResolution

open FileTree FilePaths PathLeads LexicalPaths

section Resolution

variable {ν β : Type*} [DecidableEq ν]

/-- The most links that are followed. -/
def kMaxSymlinkDepth : ℕ := 32

/-- A message about a path. -/
structure Failure (ν : Type*) where
  before : String
  path : FsPath ν
  behind : String
deriving DecidableEq

/-- What the system refuses to tell, with its reasons. -/
structure Refusals (ν : Type*) where
  lstat : FsPath ν → Option String
  readlink : FsPath ν → Option String

/-- What `symlink_status` and `read_symlink` tell about a path. -/
inductive FileStatus (ν : Type*) where
  | missing
  | failed (reason : String)
  | symlink (absolute : Bool) (target : List (Element ν))
  | other
deriving DecidableEq

/-- The status of a path that cannot be followed to its end. -/
def statusOf : Lead ν → FileStatus ν
  | .found _ => .other
  | .absent _ _ => .missing
  | .lost => .missing
  | .blocked => .failed "Not a directory"
  | .looped => .failed "Too many levels of symbolic links"

/-- The status of a name in the directory its path leads to. -/
def statusIn (tree : Tree ν β) (name : ν) : Lead ν → FileStatus ν
  | .found directory =>
    match turnAt tree (directory++[name]) with
    | none => .missing
    | some (.link absolute target) => .symlink absolute target
    | some _ => .other
  | outcome => statusOf outcome

/-- A link at the end of the path is not followed, unless a slash is behind it. -/
def symlinkStatus (tree : Tree ν β) (cwd : Path ν) (path : FsPath ν) : FileStatus ν :=
  if path.empty then .missing
  else
    match path.filename with
    | some (.name name) =>
      statusIn tree name (lead tree maxLinks (path.start cwd) (path.parts.dropLast++[.here]))
    | _ => statusOf (path.leads tree cwd)

/-- The text of a link; one that ends in a dot stands for the same text with a
slash behind it. -/
def linkText (absolute : Bool) (target : List (Element ν)) : FsPath ν :=
  if target.getLast?=some .here ∧ target.dropLast≠[] then ⟨absolute,target.dropLast,true⟩
  else ⟨absolute,target,false⟩

/-- The path without links. -/
def canonical (tree : Tree ν β) (cwd : Path ν) (path : FsPath ν) : Option (FsPath ν) :=
  match path.leads tree cwd with
  | .found place => some ⟨true,place.map .name,false⟩
  | _ => none

/-- The text of a relative link behind the directory of the link. -/
def behindLink (tree : Tree ν β) (cwd : Path ν) (symlinkPath linkTarget : FsPath ν) : FsPath ν :=
  let parent := symlinkPath.parentPath
  if parent.empty then linkTarget
  else
    match canonical tree cwd parent with
    | some canonicalParent => canonicalParent.join linkTarget
    | none => parent.join linkTarget

/-- The target of a link, beside the link when it is relative. -/
def resolveRelativeSymlinkTarget (tree : Tree ν β) (cwd : Path ν)
    (symlinkPath linkTarget : FsPath ν) : FsPath ν :=
  if linkTarget.absolute then linkTarget
  else (behindLink tree cwd symlinkPath linkTarget).lexicallyNormal

/-- What a call of `ResolveSymlinkPathImpl` does with its path. -/
inductive Visit (ν : Type*) where
  | done (result : Except (Failure ν) (FsPath ν))
  | link (next : FsPath ν)
  | parent (parent : FsPath ν) (filename : Option (Element ν))

/-- What one level of the resolution finds. -/
def visit (refusals : Refusals ν) (tree : Tree ν β) (cwd : Path ν) (path : FsPath ν) : Visit ν :=
  let status : FileStatus ν :=
    match refusals.lstat path with
    | some reason => .failed reason
    | none => symlinkStatus tree cwd path
  match status with
  | .missing =>
    if path.parentPath.empty then .done (.ok path) else .parent path.parentPath path.filename
  | .failed reason => .done (.error ⟨"Failed to inspect path ",path,": "++reason⟩)
  | .other => .done (.ok path)
  | .symlink absolute target =>
    match refusals.readlink path with
    | some reason => .done (.error ⟨"Failed to read symlink ",path,": "++reason⟩)
    | none => .link (resolveRelativeSymlinkTarget tree cwd path (linkText absolute target))

/-- The parts of a path and the slash behind them. -/
def size (path : FsPath ν) : ℕ := path.parts.length+if path.slash then 1 else 0

variable {refusals : Refusals ν} {tree : Tree ν β} {cwd : Path ν} {path next parent : FsPath ν}
  {filename : Option (Element ν)}

variable (refusals tree cwd path) in
/-- What a path is decides what is done with it, if the system tells. -/
theorem visit_cases : (∃ failure, visit refusals tree cwd path=.done (.error failure)) ∨
    (visit refusals tree cwd path=.done (.ok path) ∧ (symlinkStatus tree cwd path=.other ∨
      symlinkStatus tree cwd path=.missing ∧ path.parentPath.empty=true)) ∨
    (∃ absolute target, symlinkStatus tree cwd path=.symlink absolute target ∧
      visit refusals tree cwd path=
        .link (resolveRelativeSymlinkTarget tree cwd path (linkText absolute target))) ∨
    (visit refusals tree cwd path=.parent path.parentPath path.filename ∧
      symlinkStatus tree cwd path=.missing ∧ path.parentPath.empty=false) := by
  unfold visit
  dsimp only
  cases refusals.lstat path with
  | some reason => exact Or.inl ⟨_,rfl⟩
  | none =>
    dsimp only
    cases symlinkStatus tree cwd path with
    | missing =>
      dsimp only
      cases path.parentPath.empty with
      | true => exact Or.inr (Or.inl ⟨rfl,Or.inr ⟨rfl,rfl⟩⟩)
      | false => exact Or.inr (Or.inr (Or.inr ⟨rfl,rfl,rfl⟩))
    | failed reason => exact Or.inl ⟨_,rfl⟩
    | other => exact Or.inr (Or.inl ⟨rfl,Or.inl rfl⟩)
    | symlink absolute target =>
      dsimp only
      cases refusals.readlink path with
      | some reason => exact Or.inl ⟨_,rfl⟩
      | none => exact Or.inr (Or.inr (Or.inl ⟨absolute,target,rfl,rfl⟩))

/-- A path that is resolved through its parent is missing. -/
theorem visit_parent (h : visit refusals tree cwd path=.parent parent filename) :
    symlinkStatus tree cwd path=.missing ∧ parent=path.parentPath ∧ filename=path.filename ∧
      parent.empty=false := by
  rcases visit_cases refusals tree cwd path with
    ⟨failure,hvisit⟩ | ⟨hvisit,-⟩ | ⟨absolute,target,-,hvisit⟩ | ⟨hvisit,hmissing,hempty⟩
  · cases hvisit.symm.trans h
  · cases hvisit.symm.trans h
  · cases hvisit.symm.trans h
  · cases hvisit.symm.trans h
    exact ⟨hmissing,rfl,rfl,hempty⟩

/-- The root is not missing. -/
theorem parts_of_missing (h : symlinkStatus tree cwd path=.missing)
    (hparent : path.parentPath.empty=false) : path.slash=true ∨ path.parts≠[] := by
  cases hslash : path.slash with
  | true => exact Or.inl rfl
  | false =>
    refine Or.inr ?_
    intro hparts
    have hsame : path.parentPath=path := by
      unfold FsPath.parentPath
      rw [hslash,if_neg Bool.false_ne_true,hparts,←hslash]
      cases path
      dsimp only at hparts
      rw [hparts]
      rfl
    rw [hsame] at hparent
    unfold symlinkStatus at h
    rw [hparent,if_neg Bool.false_ne_true] at h
    have hfilename : path.filename=none := by
      unfold FsPath.filename
      rw [hslash,if_neg Bool.false_ne_true,hparts]
      rfl
    have hleads : path.leads tree cwd=.found (path.start cwd) := by
      unfold FsPath.leads FsPath.elements
      rw [hslash,hparts]
      exact lead_nil
    rw [hfilename,hleads] at h
    cases h

theorem size_visit_parent (h : visit refusals tree cwd path=.parent parent filename) :
    size parent< size path := by
  obtain ⟨hmissing,hparent,-,hempty⟩ := visit_parent h
  rw [hparent] at hempty ⊢
  rcases parts_of_missing hmissing hempty with hslash | hparts
  · unfold size FsPath.parentPath
    rw [hslash,if_pos rfl,if_pos rfl]
    exact Nat.lt_succ_self _
  · unfold size FsPath.parentPath
    have hlength := List.length_pos_iff.mpr hparts
    split
    · rename_i hslash
      exact Nat.lt_succ_self _
    · rename_i hslash
      dsimp only
      rw [List.length_dropLast]
      omega

variable (refusals tree cwd) in
/-- The path behind all links. -/
def resolveSymlinkPathImpl (path : FsPath ν) (depth : ℕ) : Except (Failure ν) (FsPath ν) :=
  if kMaxSymlinkDepth≤depth then
    .error ⟨"Too many symlink levels while resolving ",path,""⟩
  else
    match h : visit refusals tree cwd path with
    | .done result => result
    | .link next => resolveSymlinkPathImpl next (depth+1)
    | .parent parent filename =>
      match resolveSymlinkPathImpl parent depth with
      | .error failure => .error failure
      | .ok resolvedParent =>
        match filename with
        | none => .ok resolvedParent
        | some last => .ok (resolvedParent.join ⟨false,[last],false⟩).lexicallyNormal
termination_by (kMaxSymlinkDepth-depth,size path)
decreasing_by
  · exact Prod.Lex.left _ _ (by omega)
  · exact Prod.Lex.right _ (size_visit_parent h)

/-- Beyond the limit the resolution fails. -/
theorem impl_deep {depth : ℕ} (hdepth : kMaxSymlinkDepth ≤ depth) :
    resolveSymlinkPathImpl refusals tree cwd path depth=
      .error ⟨"Too many symlink levels while resolving ",path,""⟩ := by
  rw [resolveSymlinkPathImpl,if_pos hdepth]

theorem impl_done {depth : ℕ} {result : Except (Failure ν) (FsPath ν)}
    (hdepth : ¬kMaxSymlinkDepth ≤ depth) (h : visit refusals tree cwd path=.done result) :
    resolveSymlinkPathImpl refusals tree cwd path depth=result := by
  rw [resolveSymlinkPathImpl,if_neg hdepth]
  split
  · rename_i hvisit
    cases hvisit.symm.trans h
    rfl
  · rename_i hvisit
    cases hvisit.symm.trans h
  · rename_i hvisit
    cases hvisit.symm.trans h

theorem impl_link {depth : ℕ} (hdepth : ¬kMaxSymlinkDepth ≤ depth)
    (h : visit refusals tree cwd path=.link next) :
    resolveSymlinkPathImpl refusals tree cwd path depth=
      resolveSymlinkPathImpl refusals tree cwd next (depth+1) := by
  rw [resolveSymlinkPathImpl,if_neg hdepth]
  split
  · rename_i hvisit
    cases hvisit.symm.trans h
  · rename_i hvisit
    cases hvisit.symm.trans h
    rfl
  · rename_i hvisit
    cases hvisit.symm.trans h

/-- What is resolved through its parent stands where the parent is resolved to. -/
theorem impl_parent {depth : ℕ} (hdepth : ¬kMaxSymlinkDepth ≤ depth)
    (h : visit refusals tree cwd path=.parent parent filename) :
    resolveSymlinkPathImpl refusals tree cwd path depth=
      (resolveSymlinkPathImpl refusals tree cwd parent depth).map fun resolvedParent =>
        filename.elim resolvedParent fun last =>
          (resolvedParent.join ⟨false,[last],false⟩).lexicallyNormal := by
  rw [resolveSymlinkPathImpl,if_neg hdepth]
  split
  · rename_i hvisit
    cases hvisit.symm.trans h
  · rename_i hvisit
    cases hvisit.symm.trans h
  · rename_i hvisit
    cases hvisit.symm.trans h
    cases resolveSymlinkPathImpl refusals tree cwd parent depth with
    | error failure => rfl
    | ok resolvedParent => cases filename <;> rfl

/-- The resolution of a path from its first level. -/
def resolveSymlinkPath (refusals : Refusals ν) (tree : Tree ν β) (cwd : Path ν)
    (path : FsPath ν) : Except (Failure ν) (FsPath ν) :=
  resolveSymlinkPathImpl refusals tree cwd path 0

variable (refusals tree cwd) in
/-- A call of the resolution, with its depth, and one that it makes. -/
def Calls (call next : FsPath ν×ℕ) : Prop :=
  call.2<kMaxSymlinkDepth ∧
    ((visit refusals tree cwd call.1=.link next.1 ∧ next.2=call.2+1) ∨
      ∃ filename, visit refusals tree cwd call.1=.parent next.1 filename ∧ next.2=call.2)

/-- No call of the resolution makes calls without an end. -/
theorem calls_wellFounded :
    WellFounded fun next call => Calls refusals tree cwd call next := by
  have hmeasure := InvImage.wf (fun call : FsPath ν×ℕ => (kMaxSymlinkDepth-call.2,size call.1))
    (Prod.lex Nat.lt_wfRel Nat.lt_wfRel).wf
  refine Subrelation.wf ?_ hmeasure
  rintro ⟨next,nextDepth⟩ ⟨path,depth⟩ ⟨hdepth,⟨-,hnext⟩ | ⟨filename,hvisit,hnext⟩⟩
  · dsimp only at hdepth hnext
    have hless : kMaxSymlinkDepth-nextDepth<kMaxSymlinkDepth-depth := by omega
    exact Prod.Lex.left _ _ hless
  · dsimp only at hdepth hnext hvisit
    have hsize := size_visit_parent hvisit
    rw [hnext]
    exact Prod.Lex.right _ hsize

end Resolution

end Vinput.SymlinkResolution
