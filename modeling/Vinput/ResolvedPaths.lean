import Vinput.SymlinkResolution

/-!
# Resolved paths lead to the file

The path that the resolution returns leads where the given path leads, and it
does not end in a link. This holds as long as normalising a path drops only names that
lead back to the directory they stand in.
-/

namespace Vinput.ResolvedPaths

open FileTree FilePaths PathLeads LexicalPaths SymlinkResolution

section Views

variable {ν β : Type*} [DecidableEq ν] (tree : Tree ν β) (cwd : Path ν)

/-- Where a path leads, as a file or as a directory on the way to one. -/
def view (inner : Bool) (path : FsPath ν) : Lead ν :=
  if inner then path.leadsInto tree cwd else path.leads tree cwd

/-- What a path has behind its parts when it is looked at. -/
def behind (inner : Bool) (path : FsPath ν) : List (Element ν) :=
  if inner || path.slash then [.here] else []

variable {tree cwd} {inner : Bool} {path : FsPath ν}

/-- What is seen of a path is where it leads. -/
theorem view_eq (inner : Bool) (path : FsPath ν) :
    view tree cwd inner path=
      lead tree maxLinks (path.start cwd) (path.parts++behind inner path) := by
  cases inner with
  | true => rfl
  | false => rfl

/-- A path that asks for a directory is entered. -/
theorem view_of_asksDirectory (h : path.asksDirectory=true) :
    view tree cwd inner path=path.leadsInto tree cwd := by
  cases inner with
  | true => rfl
  | false => exact leads_eq_leadsInto h

/-- A plain path and its normal form lead to the same place. -/
theorem view_lexicallyNormal (plain : path.Plain tree cwd)
    (hlooped : view tree cwd inner path≠.looped) :
    view tree cwd inner path.lexicallyNormal=view tree cwd inner path := by
  cases inner with
  | true => exact leadsInto_lexicallyNormal plain hlooped
  | false => exact leads_lexicallyNormal plain hlooped

omit [DecidableEq ν] in
/-- A path that ends in a name, in parts. -/
theorem parts_of_filename {last : Element ν} (h : path.filename=some last) :
    path.slash=false ∧ path.parts=path.parts.dropLast++[last] := by
  unfold FsPath.filename at h
  cases hslash : path.slash with
  | true =>
    rw [hslash] at h
    cases h
  | false =>
    rw [hslash,if_neg Bool.false_ne_true] at h
    obtain ⟨front,hfront⟩ := List.getLast?_eq_some_iff.mp h
    exact ⟨rfl,by rw [hfront,List.dropLast_concat]⟩

/-- The directory of a path that ends in a name. -/
theorem leadsInto_parentPath {last : Element ν} (h : path.filename=some last) :
    path.parentPath.leadsInto tree cwd=
      lead tree maxLinks (path.start cwd) (path.parts.dropLast++[.here]) := by
  obtain ⟨hslash,-⟩ := parts_of_filename h
  unfold FsPath.parentPath
  rw [hslash,if_neg Bool.false_ne_true]
  rfl

/-- A path leads through its parent to its name. -/
theorem leads_of_filename {last : Element ν} (h : path.filename=some last) :
    path.leads tree cwd=lead tree maxLinks (path.start cwd) (path.parts.dropLast++[last]) := by
  obtain ⟨hslash,hparts⟩ := parts_of_filename h
  unfold FsPath.leads FsPath.elements
  rw [hslash,if_neg Bool.false_ne_true,List.append_nil,←hparts]

/-- What is no directory decides where a path leads behind it. -/
theorem leads_of_parent {last : Element ν} (h : path.filename=some last)
    (hother : ∀ directory, path.parentPath.leadsInto tree cwd≠.found directory) :
    path.leads tree cwd=(path.parentPath.leadsInto tree cwd).goOn [last] := by
  rw [leadsInto_parentPath h] at hother ⊢
  rw [leads_of_filename h]
  exact lead_append_other rfl hother (List.cons_ne_nil _ _)

/-- A path that asks for a directory is not taken for a link. -/
theorem status_of_asksDirectory (h : path.asksDirectory=true) :
    symlinkStatus tree cwd path=if path.empty then .missing else statusOf (path.leads tree cwd) := by
  unfold symlinkStatus
  split
  · rfl
  · unfold FsPath.asksDirectory at h
    unfold FsPath.filename
    cases hslash : path.slash with
    | true => rfl
    | false =>
      rw [hslash,Bool.false_or,Bool.not_eq_true'] at h
      rw [if_neg Bool.false_ne_true]
      cases hlast : path.parts.getLast? with
      | none => rfl
      | some last =>
        rw [hlast] at h
        cases last with
        | name name => cases h
        | here => rfl
        | up => rfl

omit [DecidableEq ν] in
theorem statusOf_ne_symlink {outcome : Lead ν} {absolute : Bool} {target : List (Element ν)} :
    statusOf outcome≠.symlink absolute target := by
  cases outcome <;> exact fun h => by cases h

/-- What a path that ends in a name is, looked up in its directory. -/
theorem status_of_name {name : ν} (h : path.filename=some (.name name)) :
    symlinkStatus tree cwd path=statusIn tree name (path.parentPath.leadsInto tree cwd) := by
  obtain ⟨-,hparts⟩ := parts_of_filename h
  unfold symlinkStatus
  rw [empty_of_parts hparts,if_neg Bool.false_ne_true,h,leadsInto_parentPath h]

omit [DecidableEq ν] in
/-- Either a path ends in a name or it asks for a directory. -/
theorem name_or_asksDirectory (path : FsPath ν) :
    (∃ name, path.filename=some (.name name)) ∨ path.asksDirectory=true := by
  unfold FsPath.filename FsPath.asksDirectory
  cases path.slash with
  | true => exact Or.inr rfl
  | false =>
    cases hlast : path.parts.getLast? with
    | none => exact Or.inr rfl
    | some last =>
      cases last with
      | name name => exact Or.inl ⟨name,rfl⟩
      | here => exact Or.inr rfl
      | up => exact Or.inr rfl

variable {links : ℕ} {start : Path ν} {front rest : List (Element ν)} {name : ν}

/-- The place of a name in the directory a path leads to. -/
def slotOf (name : ν) : Lead ν → Path ν
  | .found directory => directory++[name]
  | .absent place _ => place++[name]
  | _ => []

/-- Behind a missing name a path leads to what its directory decides. -/
theorem lead_slot
    (hmissing : statusIn tree name (lead tree links start (front++[.here]))=.missing)
    (hlost : lead tree links start (front++[.here])≠.lost) (rest : List (Element ν)) :
    lead tree links start (front++.name name::rest)=
      leadMissing (slotOf name (lead tree links start (front++[.here]))) false rest := by
  cases hfront : lead tree links start (front++[.here]) with
  | found directory =>
    rw [hfront] at hmissing
    obtain ⟨left,-,hall⟩ := lead_append_found hfront
    unfold statusIn at hmissing
    dsimp only at hmissing
    cases hturn : turnAt tree (directory++[name]) with
    | none =>
      rw [hall,lead_missing hturn]
      rfl
    | some turn =>
      rw [hturn] at hmissing
      cases turn <;> cases hmissing
  | absent place flag =>
    rw [lead_append_other hfront (fun _ h => by cases h) (List.cons_ne_nil _ _)]
    rfl
  | lost => exact absurd hfront hlost
  | blocked =>
    rw [hfront] at hmissing
    cases hmissing
  | looped =>
    rw [hfront] at hmissing
    cases hmissing

/-- A link stands in a directory. -/
theorem link_of_status {absolute : Bool} {target : List (Element ν)}
    (h : symlinkStatus tree cwd path=.symlink absolute target) :
    ∃ name directory, path.filename=some (.name name) ∧
      path.parentPath.leadsInto tree cwd=.found directory ∧
      turnAt tree (directory++[name])=some (.link absolute target) := by
  rcases name_or_asksDirectory path with ⟨name,hname⟩ | hasks
  · rw [status_of_name hname] at h
    cases hinto : path.parentPath.leadsInto tree cwd with
    | found directory =>
      rw [hinto] at h
      unfold statusIn at h
      dsimp only at h
      cases hturn : turnAt tree (directory++[name]) with
      | none =>
        rw [hturn] at h
        cases h
      | some turn =>
        rw [hturn] at h
        cases turn with
        | directory => cases h
        | leaf => cases h
        | link other text =>
          cases h
          exact ⟨name,directory,hname,rfl,hturn⟩
    | absent place flag =>
      rw [hinto] at h
      cases h
    | lost =>
      rw [hinto] at h
      cases h
    | blocked =>
      rw [hinto] at h
      cases h
    | looped =>
      rw [hinto] at h
      cases h
  · rw [status_of_asksDirectory hasks] at h
    split at h
    · cases h
    · exact absurd h statusOf_ne_symlink

/-- The parts of the text of a link lead as the link does. -/
theorem lead_linkText {absolute : Bool} {target : List (Element ν)} (inner : Bool) :
    lead tree links start ((linkText absolute target).parts++behind inner (linkText absolute target))=
      lead tree links start (target++if inner then [.here] else []) := by
  unfold linkText
  split
  · rename_i hdot
    obtain ⟨front,hfront⟩ := List.getLast?_eq_some_iff.mp hdot.1
    unfold behind
    dsimp only
    rw [Bool.or_true,if_pos rfl,hfront,List.dropLast_concat]
    cases inner with
    | false =>
      rw [if_neg Bool.false_ne_true,List.append_nil]
    | true =>
      rw [if_pos rfl,List.append_assoc]
      exact (lead_last_here fun name h => by cases h).symm
  · unfold behind
    dsimp only
    rw [Bool.or_false]

/-- The text of a link shows whether it is absolute. -/
theorem linkText_absolute (absolute : Bool) (target : List (Element ν)) :
    (linkText absolute target).absolute=absolute := by
  unfold linkText
  split <;> rfl

theorem start_directory (hcwd : tree.get cwd=some .directory) (path : FsPath ν) :
    tree.get (path.start cwd)=some .directory := by
  unfold FsPath.start
  split
  · exact root_directory hcwd
  · exact hcwd

/-- The text of a relative link leads, behind its directory, where the link
does. -/
theorem view_behindLink {directory : Path ν} {target : List (Element ν)} {last : Element ν}
    (hcwd : tree.get cwd=some .directory) (hname : path.filename=some last)
    (hinto : path.parentPath.leadsInto tree cwd=.found directory) :
    view tree cwd inner (behindLink tree cwd path (linkText false target))=
      lead tree maxLinks directory (target++if inner then [.here] else []) := by
  obtain ⟨hslash,-⟩ := parts_of_filename hname
  have hparent : path.parentPath=⟨path.absolute,path.parts.dropLast,false⟩ := by
    unfold FsPath.parentPath
    rw [hslash,if_neg Bool.false_ne_true]
  have hdirectory : tree.get directory=some .directory :=
    lead_here_directory (start_directory hcwd _) hinto
  unfold behindLink
  dsimp only
  cases hempty : path.parentPath.empty with
  | true =>
    rw [if_pos rfl,view_eq,lead_linkText]
    rw [hparent] at hempty hinto
    unfold FsPath.empty at hempty
    rw [Bool.and_eq_true,Bool.not_eq_true',List.isEmpty_iff] at hempty
    dsimp only at hempty
    unfold FsPath.leadsInto FsPath.start at hinto
    dsimp only at hinto
    rw [hempty.1,hempty.2,if_neg Bool.false_ne_true,List.nil_append,lead_here,lead_nil] at hinto
    cases hinto
    unfold FsPath.start
    rw [linkText_absolute,if_neg Bool.false_ne_true]
  | false =>
    rw [if_neg Bool.false_ne_true]
    have hleads : path.parentPath.leads tree cwd=.found directory := by
      obtain ⟨left,-,hall⟩ := lead_append_found hinto
      have hfront := hall []
      rw [lead_nil] at hfront
      unfold FsPath.leads FsPath.elements
      rw [hparent] at hfront ⊢
      exact hfront
    unfold canonical
    rw [hleads]
    dsimp only
    unfold FsPath.join
    rw [linkText_absolute,if_neg Bool.false_ne_true,view_eq]
    unfold FsPath.start
    dsimp only
    rw [if_pos rfl,List.append_assoc,lead_names (by rw [List.nil_append]; exact hdirectory),
      List.nil_append,←lead_linkText]
    unfold behind
    dsimp only
    cases hparts : (linkText false target).parts with
    | nil =>
      rw [List.nil_append,List.nil_append]
      split <;> split <;> first
        | rw [lead_here,lead_here]
        | rw [lead_here]
        | rfl
    | cons part rest =>
      rw [List.isEmpty_cons,Bool.false_and,Bool.or_false]

/-- A name is looked up in its directory, perhaps with fewer links. -/
theorem view_in_directory {directory : Path ν} (hname : path.filename=some (.name name))
    (hinto : path.parentPath.leadsInto tree cwd=.found directory) (inner : Bool) :
    ∃ left, left ≤ maxLinks ∧ view tree cwd inner path=
      lead tree left directory (.name name::if inner then [.here] else []) := by
  obtain ⟨hslash,hparts⟩ := parts_of_filename hname
  rw [leadsInto_parentPath hname] at hinto
  obtain ⟨left,hleft,hall⟩ := lead_append_found hinto
  refine ⟨left,hleft,?_⟩
  rw [view_eq,hparts,List.append_assoc,hall,List.singleton_append]
  unfold behind
  rw [hslash,Bool.or_false]

/-- A link leads where the path does that is resolved instead of it. -/
theorem view_link {absolute : Bool} {target : List (Element ν)}
    (hcwd : tree.get cwd=some .directory)
    (hlink : symlinkStatus tree cwd path=.symlink absolute target)
    (plain : absolute=false → (behindLink tree cwd path (linkText absolute target)).Plain tree cwd)
    (hlooped : view tree cwd inner path≠.looped) :
    view tree cwd inner (resolveRelativeSymlinkTarget tree cwd path (linkText absolute target))=
      view tree cwd inner path := by
  obtain ⟨name,directory,hname,hinto,hturn⟩ := link_of_status hlink
  obtain ⟨left,hleft,hview⟩ := view_in_directory hname hinto inner
  cases left with
  | zero =>
    rw [lead_looped hturn] at hview
    exact absurd hview hlooped
  | succ left =>
    rw [lead_link hturn] at hview
    have hnext := lead_mono hview.symm hlooped (Nat.le_of_succ_le hleft)
    rw [←hnext]
    unfold resolveRelativeSymlinkTarget
    rw [linkText_absolute]
    cases absolute with
    | true =>
      rw [if_pos rfl,view_eq,lead_linkText,start_of_absolute (linkText_absolute true target)]
      rfl
    | false =>
      have hbehind := @view_behindLink _ _ _ _ _ inner _ _ target _ hcwd hname hinto
      rw [if_neg Bool.false_ne_true,view_lexicallyNormal (plain rfl) ?_,hbehind]
      · rfl
      · rw [hbehind]
        exact fun hloop => hlooped (hnext.symm.trans hloop)

/-- The path leads to something, or to a place where it can be made. -/
def Settled (outcome : Lead ν) : Prop :=
  (∃ place, outcome=.found place) ∨ ∃ place directory, outcome=.absent place directory

omit [DecidableEq ν] in
theorem settled_ne_lost {outcome : Lead ν} (h : Settled outcome) : outcome≠.lost := by
  rcases h with ⟨place,hfound⟩ | ⟨place,directory,habsent⟩
  · rw [hfound]
    exact nofun
  · rw [habsent]
    exact nofun

omit [DecidableEq ν] in
theorem settled_ne_looped {outcome : Lead ν} (h : Settled outcome) : outcome≠.looped := by
  rcases h with ⟨place,hfound⟩ | ⟨place,directory,habsent⟩
  · rw [hfound]
    exact nofun
  · rw [habsent]
    exact nofun

omit [DecidableEq ν] in
/-- What goes on to something goes on behind something. -/
theorem settled_of_goOn {outcome : Lead ν} (h : Settled (outcome.goOn rest)) : Settled outcome := by
  cases outcome with
  | found place => exact Or.inl ⟨place,rfl⟩
  | absent place flag => exact Or.inr ⟨place,flag,rfl⟩
  | lost => exact h
  | blocked => exact h
  | looped => exact h

/-- What is there is what the path leads to. -/
theorem settled_of_other (hother : symlinkStatus tree cwd path=.other)
    (hblocked : inner=true → view tree cwd inner path≠.blocked) :
    Settled (view tree cwd inner path) := by
  rcases name_or_asksDirectory path with ⟨name,hname⟩ | hasks
  · rw [status_of_name hname] at hother
    cases hinto : path.parentPath.leadsInto tree cwd with
    | found directory =>
      rw [hinto] at hother
      unfold statusIn at hother
      dsimp only at hother
      obtain ⟨left,-,hview⟩ := view_in_directory hname hinto inner
      cases hturn : turnAt tree (directory++[name]) with
      | none =>
        rw [hturn] at hother
        cases hother
      | some turn =>
        rw [hturn] at hother
        cases turn with
        | directory =>
          rw [lead_directory hturn] at hview
          refine Or.inl ⟨directory++[name],?_⟩
          rw [hview]
          split
          · rw [lead_here,lead_nil]
          · exact lead_nil
        | link absolute target => cases hother
        | leaf =>
          rw [lead_leaf hturn] at hview
          cases inner with
          | false => exact Or.inl ⟨directory++[name],hview⟩
          | true => exact absurd hview (hblocked rfl)
    | absent place flag =>
      rw [hinto] at hother
      cases hother
    | lost =>
      rw [hinto] at hother
      cases hother
    | blocked =>
      rw [hinto] at hother
      cases hother
    | looped =>
      rw [hinto] at hother
      cases hother
  · rw [status_of_asksDirectory hasks] at hother
    rw [view_of_asksDirectory hasks,←leads_eq_leadsInto hasks]
    split at hother
    · cases hother
    · cases hleads : path.leads tree cwd with
      | found place => exact Or.inl ⟨place,rfl⟩
      | absent place flag => exact Or.inr ⟨place,flag,rfl⟩
      | lost =>
        rw [hleads] at hother
        cases hother
      | blocked =>
        rw [hleads] at hother
        cases hother
      | looped =>
        rw [hleads] at hother
        cases hother

omit [DecidableEq ν] in
/-- What is missing is neither blocked nor a loop. -/
theorem statusOf_missing {outcome : Lead ν} (h : statusOf outcome=.missing) :
    outcome≠.blocked ∧ outcome≠.looped := by
  cases outcome with
  | blocked => cases h
  | looped => cases h
  | found place => cases h
  | absent place flag => exact ⟨nofun,nofun⟩
  | lost => exact ⟨nofun,nofun⟩

/-- What is missing is missing in a directory that is there or missing. -/
theorem statusIn_missing {outcome : Lead ν} (h : statusIn tree name outcome=.missing) :
    outcome≠.blocked ∧ outcome≠.looped := by
  cases outcome with
  | blocked => cases h
  | looped => cases h
  | found place => exact ⟨nofun,nofun⟩
  | absent place flag => exact ⟨nofun,nofun⟩
  | lost => exact ⟨nofun,nofun⟩

end Views

section Resolved

variable {ν β : Type*} [DecidableEq ν] (refusals : Refusals ν) (tree : Tree ν β) (cwd : Path ν)

/-- The paths that the resolution of a target looks at, with the depth at which
it does. Those that are directories of others come with `true`. -/
inductive Visited (target : FsPath ν) : Bool → FsPath ν → ℕ → Prop where
  | start : Visited target false target 0
  | link {inner path next depth} : Visited target inner path depth → depth<kMaxSymlinkDepth →
    visit refusals tree cwd path=.link next → Visited target inner next (depth+1)
  | parent {inner path parent filename depth} : Visited target inner path depth →
    depth<kMaxSymlinkDepth → visit refusals tree cwd path=.parent parent filename →
    Visited target true parent depth

/-- The way of a target ends before its file: there are more links than the resolution
follows, or a path that the system does not tell about. -/
def Stopped (target : FsPath ν) : Prop :=
  ∃ inner path depth, Visited refusals tree cwd target inner path depth ∧
    (kMaxSymlinkDepth ≤ depth ∨ ∃ failure, visit refusals tree cwd path=.done (.error failure))

/-- Normalising does not lead a path elsewhere, and no slash is lost at the end
of what is missing. -/
structure Straight (inner : Bool) (path : FsPath ν) : Prop where
  link : ∀ target, symlinkStatus tree cwd path=.symlink false target →
    (behindLink tree cwd path (linkText false target)).Plain tree cwd
  there : inner=true → symlinkStatus tree cwd path=.other → path.Plain tree cwd
  missing : symlinkStatus tree cwd path=.missing →
    path.filename≠some .up ∧ (path.slash=true → inner=true)

/-- A path that leads where another does, and is no link. -/
structure Resolved (inner : Bool) (path resolved : FsPath ν) : Prop where
  view : view tree cwd inner resolved=view tree cwd inner path
  settled : Settled (ResolvedPaths.view tree cwd inner resolved)
  notLink : ∀ absolute target, symlinkStatus tree cwd resolved≠.symlink absolute target
  plain : inner=true → resolved.Plain tree cwd

variable {refusals tree cwd} {inner : Bool} {target path parent resolved resolvedParent : FsPath ν}
  {depth : ℕ}

/-- When a target is resolved, so is every path on its way. -/
theorem impl_of_visited (h : resolveSymlinkPath refusals tree cwd target=.ok resolved)
    (visited : Visited refusals tree cwd target inner path depth) :
    ∃ other, resolveSymlinkPathImpl refusals tree cwd path depth=.ok other := by
  induction visited with
  | start => exact ⟨resolved,h⟩
  | link _ hdepth hvisit ih =>
    rw [impl_link (Nat.not_le_of_lt hdepth) hvisit] at ih
    exact ih
  | @parent _ _ parent _ depth _ hdepth hvisit ih =>
    obtain ⟨other,hother⟩ := ih
    rw [impl_parent (Nat.not_le_of_lt hdepth) hvisit] at hother
    cases hparent : resolveSymlinkPathImpl refusals tree cwd parent depth with
    | ok resolvedParent => exact ⟨resolvedParent,rfl⟩
    | error failure =>
      rw [hparent] at hother
      cases hother

/-- A target whose way is stopped is not resolved. -/
theorem not_resolved_of_stopped (stopped : Stopped refusals tree cwd target) :
    resolveSymlinkPath refusals tree cwd target≠.ok resolved := by
  intro h
  obtain ⟨inner,path,depth,visited,hstop⟩ := stopped
  obtain ⟨other,hother⟩ := impl_of_visited h visited
  by_cases hdepth : kMaxSymlinkDepth ≤ depth
  · rw [impl_deep hdepth] at hother
    cases hother
  · obtain ⟨failure,hfailure⟩ := hstop.resolve_left hdepth
    rw [impl_done hdepth hfailure] at hother
    cases hother

/-- A path that asks for a directory shows no link. -/
theorem asksDirectory_ne_symlink (h : path.asksDirectory=true) (absolute : Bool)
    (text : List (Element ν)) : symlinkStatus tree cwd path≠.symlink absolute text := by
  rw [status_of_asksDirectory h]
  split
  · exact nofun
  · exact statusOf_ne_symlink

/-- What is missing stands at a name in its directory once it is made. -/
theorem view_of_missing {name : ν} (hname : path.filename=some (.name name))
    (hmissing : symlinkStatus tree cwd path=.missing)
    (hlost : path.parentPath.leadsInto tree cwd≠.lost) (inner : Bool) :
    view tree cwd inner path=
      .absent (slotOf name (path.parentPath.leadsInto tree cwd)) inner := by
  obtain ⟨hslash,hparts⟩ := parts_of_filename hname
  rw [status_of_name hname,leadsInto_parentPath hname] at hmissing
  rw [leadsInto_parentPath hname] at hlost ⊢
  have hview : view tree cwd inner path=
      lead tree maxLinks (path.start cwd) (path.parts.dropLast++.name name::behind inner path) := by
    rw [view_eq,hparts,List.append_assoc,List.dropLast_concat]
    rfl
  rw [hview,lead_slot hmissing hlost]
  unfold behind
  rw [hslash,Bool.or_false]
  cases inner <;> rfl

/-- A missing name, resolved in its directory. -/
theorem resolved_name {name : ν} (hname : path.filename=some (.name name))
    (hmissing : symlinkStatus tree cwd path=.missing)
    (h : Resolved tree cwd true path.parentPath resolvedParent) :
    Resolved tree cwd inner path (resolvedParent.join ⟨false,[.name name],false⟩).lexicallyNormal := by
  have hinto : resolvedParent.leadsInto tree cwd=path.parentPath.leadsInto tree cwd := h.view
  have hlost : path.parentPath.leadsInto tree cwd≠.lost := by
    rw [←hinto]
    exact settled_ne_lost h.settled
  let joined : FsPath ν := resolvedParent.join ⟨false,[.name name],false⟩
  have hparts : joined.parts=resolvedParent.parts++[.name name] := rfl
  have hplain : joined.lexicallyNormal.Plain tree cwd :=
    plain_lexicallyNormal tree cwd (empty_of_parts hparts)
  have hnormal : joined.lexicallyNormal=⟨resolvedParent.absolute,
      normalParts resolvedParent.absolute [] resolvedParent.parts++[.name name],false⟩ :=
    lexicallyNormal_name rfl hparts
  have hfilename : joined.lexicallyNormal.filename=some (.name name) := by
    rw [hnormal]
    exact List.getLast?_concat
  have hparent : joined.lexicallyNormal.parentPath.leadsInto tree cwd=
      path.parentPath.leadsInto tree cwd := by
    rw [leadsInto_parentPath hfilename,hnormal,←hinto,List.dropLast_concat]
    exact lead_normalParts start_of_absolute (List.cons_ne_nil _ _) (h.plain rfl)
      (settled_ne_looped h.settled)
  have hstatus : symlinkStatus tree cwd joined.lexicallyNormal=.missing := by
    rw [status_of_name hfilename,hparent,←status_of_name hname,hmissing]
  have hview := view_of_missing hfilename hstatus (by rwa [hparent]) inner
  refine ⟨?_,Or.inr ⟨_,_,hview⟩,?_,fun _ => hplain⟩
  · rw [hview,hparent,view_of_missing hname hmissing hlost inner]
  · intro absolute text hlink
    rw [hstatus] at hlink
    cases hlink

omit [DecidableEq ν] in
/-- A path that ends with a dot asks for a directory. -/
theorem asksDirectory_of_here (hname : path.filename=some .here) : path.asksDirectory=true := by
  obtain ⟨hslash,hparts⟩ := parts_of_filename hname
  unfold FsPath.asksDirectory
  rw [hparts,List.getLast?_concat,hslash]
  rfl

theorem leadsInto_parent_here (hname : path.filename=some .here) :
    path.parentPath.leadsInto tree cwd=path.leadsInto tree cwd := by
  obtain ⟨-,hparts⟩ := parts_of_filename hname
  rw [leadsInto_parentPath hname]
  unfold FsPath.leadsInto
  nth_rewrite 2 [hparts]
  rw [List.append_assoc]
  exact (lead_last_here nofun).symm

theorem leadsInto_parent_slash (hslash : path.slash=true) :
    path.parentPath.leadsInto tree cwd=path.leadsInto tree cwd := by
  unfold FsPath.parentPath
  rw [hslash,if_pos rfl]
  rfl

/-- The directory itself, written behind a path that is missing. -/
theorem resolved_here (hname : path.filename=some .here)
    (h : Resolved tree cwd true path.parentPath resolvedParent) :
    Resolved tree cwd inner path (resolvedParent.join ⟨false,[.here],false⟩).lexicallyNormal := by
  have hinto : resolvedParent.leadsInto tree cwd=path.parentPath.leadsInto tree cwd := h.view
  let joined : FsPath ν := resolvedParent.join ⟨false,[.here],false⟩
  have hjoined : joined.parts=resolvedParent.parts++[.here] := rfl
  have hasks : joined.asksDirectory=true := by
    unfold FsPath.asksDirectory
    rw [hjoined,List.getLast?_concat]
    exact Bool.or_true _
  have hplain : joined.Plain tree cwd := plainFrom_append.mpr ⟨h.plain rfl,trivial⟩
  have hwhole : view tree cwd inner joined=resolvedParent.leadsInto tree cwd := by
    rw [view_of_asksDirectory hasks]
    unfold FsPath.leadsInto
    rw [hjoined,List.append_assoc]
    exact lead_last_here nofun
  have hview : view tree cwd inner joined.lexicallyNormal=resolvedParent.leadsInto tree cwd := by
    rw [view_lexicallyNormal hplain (by rw [hwhole]; exact settled_ne_looped h.settled),hwhole]
  refine ⟨?_,?_,asksDirectory_ne_symlink (asksDirectory_lexicallyNormal hasks),
    fun _ => plain_lexicallyNormal tree cwd (empty_of_parts hjoined)⟩
  · rw [hview,hinto,view_of_asksDirectory (asksDirectory_of_here hname),leadsInto_parent_here hname]
  · rw [hview]
    exact h.settled

/-- A slash behind a directory that is missing. -/
theorem resolved_slash (hslash : path.slash=true)
    (h : Resolved tree cwd true path.parentPath resolvedParent) :
    Resolved tree cwd true path resolvedParent :=
  ⟨h.view.trans (leadsInto_parent_slash hslash),h.settled,h.notLink,h.plain⟩

/-- A path without a directory leads to its place. -/
theorem resolved_alone (hmissing : symlinkStatus tree cwd path=.missing)
    (hparent : path.parentPath.empty=true) : Resolved tree cwd inner path path := by
  have hempty : ∀ other : FsPath ν, other.empty=true → other.absolute=false ∧ other.parts=[] := by
    intro other h
    unfold FsPath.empty at h
    rw [Bool.and_eq_true,Bool.not_eq_true',List.isEmpty_iff] at h
    exact h
  obtain ⟨habsolute,hnone⟩ := hempty _ hparent
  have hstart : path.start cwd=cwd := by
    unfold FsPath.parentPath at habsolute
    unfold FsPath.start
    split at habsolute
    · rw [if_neg (by rw [habsolute]; exact Bool.false_ne_true)]
    · rw [if_neg (by rw [habsolute]; exact Bool.false_ne_true)]
  have hparts : path.parts=[] ∨ ∃ last, path.parts=[last] := by
    unfold FsPath.parentPath at hnone
    split at hnone
    · exact Or.inl hnone
    · rcases List.eq_nil_or_concat path.parts with hnil | ⟨front,last,hconcat⟩
      · exact Or.inl hnil
      · dsimp only at hnone
        rw [hconcat,List.concat_eq_append,List.dropLast_concat] at hnone
        exact Or.inr ⟨last,by rw [hconcat,hnone]; rfl⟩
  refine ⟨rfl,?_,?_,fun _ => ?_⟩
  · rcases name_or_asksDirectory path with ⟨name,hname⟩ | hasks
    · have hinto : path.parentPath.leadsInto tree cwd=.found cwd := by
        unfold FsPath.leadsInto FsPath.start
        rw [habsolute,hnone,if_neg Bool.false_ne_true,List.nil_append,lead_here,lead_nil]
      exact Or.inr ⟨_,_,view_of_missing hname hmissing (by rw [hinto]; exact nofun) inner⟩
    · rw [view_of_asksDirectory hasks]
      unfold FsPath.leadsInto
      rcases hparts with hnil | ⟨last,hone⟩
      · rw [hnil,List.nil_append,lead_here,lead_nil]
        exact Or.inl ⟨_,rfl⟩
      · rw [hone,List.singleton_append]
        cases last with
        | here =>
          rw [lead_here,lead_here,lead_nil]
          exact Or.inl ⟨_,rfl⟩
        | up =>
          rw [lead_up,lead_here,lead_nil]
          exact Or.inl ⟨_,rfl⟩
        | name name =>
          have hslash : path.slash=true := by
            unfold FsPath.asksDirectory at hasks
            rw [hone] at hasks
            exact (Bool.or_false _).symm.trans hasks
          unfold FsPath.parentPath at hnone
          rw [hslash,if_pos rfl] at hnone
          cases hone.symm.trans hnone
  · intro absolute text hlink
    rw [hmissing] at hlink
    cases hlink
  · unfold FsPath.Plain
    rcases hparts with hnil | ⟨last,hone⟩
    · rw [hnil]
      trivial
    · rw [hone]
      cases last <;> trivial

omit [DecidableEq ν] in
/-- The empty path has the empty parent. -/
theorem empty_parentPath (h : path.empty=true) : path.parentPath.empty=true := by
  unfold FsPath.empty at h
  rw [Bool.and_eq_true,Bool.not_eq_true',List.isEmpty_iff] at h
  unfold FsPath.parentPath FsPath.empty
  split
  · rw [h.1,h.2]
    rfl
  · rw [h.1,h.2]
    rfl

/-- A missing path ends in a name, in a slash or in the directory itself. -/
theorem end_of_missing (straight : Straight tree cwd inner path)
    (hmissing : symlinkStatus tree cwd path=.missing) (hempty : path.parentPath.empty=false) :
    (∃ name, path.filename=some (.name name)) ∨ path.filename=some .here ∨
      (path.slash=true ∧ path.filename=none ∧ inner=true) := by
  obtain ⟨hup,hinner⟩ := straight.missing hmissing
  cases hslash : path.slash with
  | true =>
    refine Or.inr (Or.inr ⟨rfl,?_,hinner hslash⟩)
    unfold FsPath.filename
    rw [hslash,if_pos rfl]
  | false =>
    cases hfilename : path.filename with
    | none =>
      unfold FsPath.filename at hfilename
      rw [hslash,if_neg Bool.false_ne_true,List.getLast?_eq_none_iff] at hfilename
      rcases parts_of_missing hmissing hempty with htrue | hparts
      · cases hslash.symm.trans htrue
      · exact absurd hfilename hparts
    | some last =>
      cases last with
      | name name => exact Or.inl ⟨name,rfl⟩
      | here => exact Or.inr (Or.inl rfl)
      | up => exact absurd hfilename hup

/-- The directory of a missing path can be resolved. -/
theorem parent_of_missing (straight : Straight tree cwd inner path)
    (hmissing : symlinkStatus tree cwd path=.missing) (hempty : path.parentPath.empty=false) :
    view tree cwd true path.parentPath≠.blocked ∧ view tree cwd true path.parentPath≠.looped := by
  have hview : path.asksDirectory=true → path.parentPath.leadsInto tree cwd=path.leadsInto tree cwd →
      view tree cwd true path.parentPath≠.blocked ∧ view tree cwd true path.parentPath≠.looped := by
    intro hasks hinto
    have hsame : view tree cwd true path.parentPath=path.leads tree cwd :=
      hinto.trans (leads_eq_leadsInto hasks).symm
    rw [status_of_asksDirectory hasks] at hmissing
    rw [hsame]
    split at hmissing
    · rename_i hpath
      cases hempty.symm.trans (empty_parentPath hpath)
    · exact statusOf_missing hmissing
  rcases end_of_missing straight hmissing hempty with ⟨name,hname⟩ | hname | ⟨hslash,-,-⟩
  · rw [status_of_name hname] at hmissing
    exact statusIn_missing hmissing
  · exact hview (asksDirectory_of_here hname) (leadsInto_parent_here hname)
  · refine hview ?_ (leadsInto_parent_slash hslash)
    unfold FsPath.asksDirectory
    rw [hslash]
    rfl

/-- The resolution of a path returns a path that leads where it does. -/
theorem resolved_of_impl {depth : ℕ} (hcwd : tree.get cwd=some .directory)
    (straight : ∀ inner path depth, Visited refusals tree cwd target inner path depth →
      Straight tree cwd inner path)
    (visited : Visited refusals tree cwd target inner path depth)
    (hlooped : view tree cwd inner path≠.looped)
    (hblocked : inner=true → view tree cwd inner path≠.blocked)
    (h : resolveSymlinkPathImpl refusals tree cwd path depth=.ok resolved) :
    Resolved tree cwd inner path resolved := by
  have wf : WellFounded fun next call => Calls refusals tree cwd call next := calls_wellFounded
  induction hcall : (path,depth) using wf.induction generalizing inner path depth resolved with
  | h call ih =>
    subst hcall
    have hstraight := straight inner path depth visited
    by_cases hdepth : kMaxSymlinkDepth ≤ depth
    · rw [impl_deep hdepth] at h
      cases h
    · have hless := Nat.lt_of_not_le hdepth
      rcases visit_cases refusals tree cwd path with ⟨failure,hvisit⟩ | ⟨hvisit,hstatus⟩ |
        ⟨absolute,text,hlink,hvisit⟩ | ⟨hvisit,hmissing,hempty⟩
      · rw [impl_done hdepth hvisit] at h
        cases h
      · rw [impl_done hdepth hvisit] at h
        cases h
        rcases hstatus with hother | ⟨hmissing,hempty⟩
        · refine ⟨rfl,settled_of_other hother hblocked,?_,fun hinner => hstraight.there hinner hother⟩
          intro absolute text hlink
          rw [hother] at hlink
          cases hlink
        · exact resolved_alone hmissing hempty
      · rw [impl_link hdepth hvisit] at h
        have hplain : absolute=false →
            (behindLink tree cwd path (linkText absolute text)).Plain tree cwd := by
          rintro rfl
          exact hstraight.link text hlink
        have hview := view_link hcwd hlink hplain hlooped
        have hnext := ih (_,depth+1) ⟨hless,Or.inl ⟨hvisit,rfl⟩⟩ (visited.link hless hvisit)
          (by rwa [hview]) (by rwa [hview]) h rfl
        exact ⟨hnext.view.trans hview,hnext.settled,hnext.notLink,hnext.plain⟩
      · obtain ⟨hparentBlocked,hparentLooped⟩ := parent_of_missing hstraight hmissing hempty
        rw [impl_parent hdepth hvisit] at h
        cases hparent : resolveSymlinkPathImpl refusals tree cwd path.parentPath depth with
        | error failure =>
          rw [hparent] at h
          cases h
        | ok resolvedParent =>
          rw [hparent] at h
          have hinner := ih (_,depth) ⟨hless,Or.inr ⟨_,hvisit,rfl⟩⟩ (visited.parent hless hvisit)
            hparentLooped (fun _ => hparentBlocked) hparent rfl
          rcases end_of_missing hstraight hmissing hempty with
            ⟨name,hname⟩ | hname | ⟨hslash,hname,rfl⟩
          · rw [hname] at h
            cases h
            exact resolved_name hname hmissing hinner
          · rw [hname] at h
            cases h
            exact resolved_here hname hinner
          · rw [hname] at h
            cases h
            exact resolved_slash hslash hinner

/-- A target that is resolved is resolved to where it leads. -/
theorem resolved_of_resolveSymlinkPath (hcwd : tree.get cwd=some .directory)
    (straight : ∀ inner path depth, Visited refusals tree cwd target inner path depth →
      Straight tree cwd inner path)
    (hlooped : target.leads tree cwd≠.looped)
    (h : resolveSymlinkPath refusals tree cwd target=.ok resolved) :
    Resolved tree cwd false target resolved :=
  resolved_of_impl hcwd straight .start hlooped nofun h

end Resolved

end Vinput.ResolvedPaths
