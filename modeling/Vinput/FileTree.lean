import Mathlib.Data.List.Dedup
import Mathlib.Data.List.Induction
import Mathlib.Tactic.SplitIfs

/-!
# Trees of files

A tree says what stands at each path. Whatever stands somewhere stands in a
directory, so that every change of a tree has to keep this. What a change
does to a path is told by one lemma for each change.
-/

namespace Vinput.FileTree

section Trees

/-- Names from the root on. -/
abbrev Path (ν : Type*) := List ν

/-- A part of a path as it is written. -/
inductive Element (ν : Type*) where
  | name (name : ν)
  | here
  | up
deriving DecidableEq

/-- What stands at a path. -/
inductive Node (ν β : Type*) where
  | directory
  | file (content : β)
  | link (absolute : Bool) (target : List (Element ν))
  | special
deriving DecidableEq

/-- A path is not below its own child. -/
theorem not_concat_below {ν : Type*} (path : Path ν) (name : ν) : ¬path++[name]<+:path := by
  intro hwithin
  have hlength := hwithin.length_le
  rw [List.length_append,List.length_singleton] at hlength
  omega

variable {ν β : Type*} [DecidableEq ν]

/-- The first entry of a path counts. -/
def lookup (entries : List (Path ν×Node ν β)) (path : Path ν) : Option (Node ν β) :=
  (entries.find? fun entry => decide (entry.1=path)).map Prod.snd

/-- What stands at each path; all but the root stands in a directory. -/
structure Tree (ν β : Type*) [DecidableEq ν] where
  entries : List (Path ν×Node ν β)
  rooted : ∀ path name, lookup entries (path++[name])≠none →
    lookup entries path=some .directory

/-- What stands at a path. -/
def Tree.get (tree : Tree ν β) (path : Path ν) : Option (Node ν β) := lookup tree.entries path

/-- Entries that are listed with their directories make a tree. -/
theorem rooted_of_listed {entries : List (Path ν×Node ν β)} [DecidableEq β]
    (h : (entries.all fun entry =>
      entry.1.isEmpty || decide (lookup entries entry.1.dropLast=some .directory))=true)
    (path : Path ν) (name : ν) (hname : lookup entries (path++[name])≠none) :
    lookup entries path=some .directory := by
  obtain ⟨node,hnode⟩ := Option.ne_none_iff_exists'.mp hname
  obtain ⟨entry,hentry,-⟩ := Option.map_eq_some_iff.mp hnode
  have hpath : entry.1=path++[name] := by simpa using List.find?_some hentry
  have hparent := List.all_eq_true.mp h entry (List.mem_of_find?_eq_some hentry)
  rw [hpath,List.dropLast_concat,Bool.or_eq_true,decide_eq_true_eq] at hparent
  rcases hparent with hempty | hdirectory
  · simp at hempty
  · exact hdirectory

/-- A directory stands there. -/
def Tree.isDirectory (tree : Tree ν β) (path : Path ν) : Bool :=
  match tree.get path with
  | some .directory => true
  | _ => false

variable {tree : Tree ν β} {path other src dst : Path ν} {name : ν} {node : Node ν β}
  {entries : List (Path ν×Node ν β)}

theorem Tree.isDirectory_iff : tree.isDirectory path=true ↔ tree.get path=some .directory := by
  rw [Tree.isDirectory]
  cases hnode : tree.get path with
  | none => simp
  | some node => cases node <;> simp

/-- What stands somewhere stands in a directory. -/
theorem Tree.get_parent (tree : Tree ν β) (h : tree.get (path++[name])≠none) :
    tree.get path=some .directory :=
  tree.rooted path name h

/-- What stands below a place stands in a directory there. -/
theorem Tree.get_above (tree : Tree ν β) (h : tree.get (path++name::other)≠none) :
    tree.get path=some .directory := by
  induction other using List.reverseRecOn with
  | nil => exact tree.get_parent h
  | append_singleton other last ih =>
    rw [← List.cons_append,← List.append_assoc] at h
    apply ih
    rw [tree.get_parent h]
    simp

/-- Nothing stands below a place where nothing stands. -/
theorem Tree.get_below (tree : Tree ν β) (h : tree.get path=none) (hbelow : path<+:other) :
    tree.get other=none := by
  obtain ⟨below,rfl⟩ := hbelow
  cases below with
  | nil => rwa [List.append_nil]
  | cons name rest =>
    by_contra hthere
    rw [tree.get_above hthere] at h
    cases h

/-- The first entry of a path counts. -/
theorem lookup_cons (first : Path ν) (rest : List (Path ν×Node ν β)) :
    lookup ((first,node)::rest) path=if first=path then some node else lookup rest path := by
  by_cases h : first=path
  · simp [lookup,h]
  · simp [lookup,h]

theorem lookup_filter (keep : Path ν → Bool) :
    lookup (entries.filter fun entry => keep entry.1) path=
      if keep path=true then lookup entries path else none := by
  induction entries with
  | nil => simp [lookup]
  | cons entry rest ih =>
    obtain ⟨first,node⟩ := entry
    by_cases hkeep : keep first=true
    · rw [List.filter_cons_of_pos (by simpa using hkeep),lookup_cons,lookup_cons,ih]
      by_cases hfirst : first=path
      · rw [hfirst] at hkeep
        simp [hfirst,hkeep]
      · simp [hfirst]
    · rw [List.filter_cons_of_neg (by simpa using hkeep),lookup_cons,ih]
      by_cases hfirst : first=path
      · rw [hfirst] at hkeep
        simp [hkeep]
      · simp [hfirst]

theorem lookup_append (front back : List (Path ν×Node ν β)) :
    lookup (front++back) path=(lookup front path).or (lookup back path) := by
  simp only [lookup,List.find?_append]
  cases front.find? fun entry => decide (entry.1=path) <;> simp

/-- Entries below a path, moved below another. -/
def rebased (src dst : Path ν) (entries : List (Path ν×Node ν β)) : List (Path ν×Node ν β) :=
  (entries.filter fun entry => decide (src<+:entry.1)).map fun entry =>
    (dst++entry.1.drop src.length,entry.2)

/-- What stood below a path stands below the other. -/
theorem lookup_rebased :
    lookup (rebased src dst entries) path=
      if dst<+:path then lookup entries (src++path.drop dst.length) else none := by
  induction entries with
  | nil => simp [lookup,rebased]
  | cons entry rest ih =>
    obtain ⟨first,node⟩ := entry
    rw [rebased] at ih ⊢
    by_cases hsrc : src<+:first
    · obtain ⟨below,rfl⟩ := hsrc
      rw [List.filter_cons_of_pos (by simp),List.map_cons,lookup_cons,ih,lookup_cons]
      simp only [List.drop_left]
      by_cases hdst : dst<+:path
      · obtain ⟨inner,rfl⟩ := hdst
        simp
      · have hother : dst++below≠path := by
          rintro rfl
          exact hdst ⟨below,rfl⟩
        simp [hdst,hother]
    · rw [List.filter_cons_of_neg (by simpa using hsrc),ih,lookup_cons]
      have hother : first≠src++path.drop dst.length := by
        rintro rfl
        exact hsrc ⟨_,rfl⟩
      simp [hother]

end Trees

section Changes

variable {ν β : Type*} [DecidableEq ν] {tree : Tree ν β} {path other src dst : Path ν}
  {name : ν} {node : Node ν β}

/-- All that stands at a path or below it is gone. -/
def Tree.removeAll (tree : Tree ν β) (path : Path ν) : Tree ν β where
  entries := tree.entries.filter fun entry => decide (¬path<+:entry.1)
  rooted := by
    intro parent name h
    rw [lookup_filter fun other => decide (¬path<+:other)] at h ⊢
    by_cases hbelow : path<+:parent++[name]
    · simp [hbelow] at h
    · have hparent : ¬path<+:parent := fun hwithin =>
        hbelow (hwithin.trans (List.prefix_append _ _))
      simp only [hbelow,hparent,not_false_eq_true,decide_true,if_true] at h ⊢
      exact tree.rooted parent name h

theorem Tree.get_removeAll :
    (tree.removeAll path).get other=if path<+:other then none else tree.get other := by
  rw [Tree.get,Tree.removeAll,lookup_filter fun other => decide (¬path<+:other)]
  by_cases h : path<+:other <;> simp [h,Tree.get]

/-- Where something that is no directory can be replaced. -/
def Tree.Open (tree : Tree ν β) (path : Path ν) : Prop :=
  path≠[] ∧ tree.isDirectory path.dropLast=true ∧ tree.isDirectory path=false

instance (tree : Tree ν β) (path : Path ν) : Decidable (tree.Open path) :=
  inferInstanceAs (Decidable (_ ∧ _))

/-- A tree with a node at an open path. -/
def Tree.put (tree : Tree ν β) (path : Path ν) (node : Node ν β) (h : tree.Open path) :
    Tree ν β where
  entries := (path,node)::tree.entries
  rooted := by
    intro parent name hname
    obtain ⟨hpath,hparent,hopen⟩ := h
    rw [lookup_cons] at hname ⊢
    have hother : path≠parent := by
      rintro rfl
      have hshorter : path≠path++[name] := fun h => by simpa using congrArg List.length h
      rw [if_neg hshorter] at hname
      rw [Tree.isDirectory_iff.mpr (tree.rooted path name hname)] at hopen
      cases hopen
    rw [if_neg hother]
    by_cases hsame : path=parent++[name]
    · rw [hsame,List.dropLast_concat] at hparent
      exact Tree.isDirectory_iff.mp hparent
    · rw [if_neg hsame] at hname
      exact tree.rooted parent name hname

theorem Tree.get_put (h : tree.Open path) :
    (tree.put path node h).get other=if path=other then some node else tree.get other :=
  lookup_cons path tree.entries

/-- Names that stand in a directory. -/
def Tree.children (tree : Tree ν β) (path : Path ν) : List ν :=
  (tree.entries.filterMap fun entry =>
    if path<+:entry.1 ∧ entry.1.length=path.length+1 then entry.1.getLast? else none).dedup

theorem Tree.mem_children : name∈tree.children path ↔ tree.get (path++[name])≠none := by
  rw [Tree.children,List.mem_dedup,List.mem_filterMap,Tree.get,lookup,← Option.isSome_iff_ne_none,
    Option.isSome_map,List.find?_isSome]
  constructor
  · rintro ⟨⟨first,node⟩,hentry,hname⟩
    split_ifs at hname with hchild
    obtain ⟨⟨below,rfl⟩,hlength⟩ := hchild
    have hone : below.length=1 := by simpa using hlength
    obtain ⟨last,rfl⟩ := List.length_eq_one_iff.mp hone
    have hlast : last=name := by simpa using hname
    exact ⟨_,hentry,by simp [hlast]⟩
  · rintro ⟨⟨first,node⟩,hentry,hname⟩
    have hfirst : first=path++[name] := by simpa using hname
    exact ⟨_,hentry,by simp [hfirst]⟩

/-- What the system asks for before it moves something. -/
structure Movable (tree : Tree ν β) (src dst : Path ν) : Prop where
  exist : (tree.get src).isSome=true
  parent : dst≠[] ∧ tree.isDirectory dst.dropLast=true
  outside : ¬src<+:dst
  /-- Only an empty directory makes way for a directory, and no directory for
  anything else. -/
  way : (tree.get dst).isSome=true →
    tree.isDirectory src=tree.isDirectory dst ∧ (tree.isDirectory dst=true → tree.children dst=[])

instance (tree : Tree ν β) (src dst : Path ν) : Decidable (Movable tree src dst) :=
  decidable_of_iff ((tree.get src).isSome=true ∧ (dst≠[] ∧ tree.isDirectory dst.dropLast=true) ∧
    ¬src<+:dst ∧ ((tree.get dst).isSome=true → tree.isDirectory src=tree.isDirectory dst ∧
      (tree.isDirectory dst=true → tree.children dst=[])))
    ⟨fun ⟨h₁,h₂,h₃,h₄⟩ => ⟨h₁,h₂,h₃,h₄⟩,fun ⟨h₁,h₂,h₃,h₄⟩ => ⟨h₁,h₂,h₃,h₄⟩⟩

/-- Entries after a move. -/
def movedEntries (src dst : Path ν) (entries : List (Path ν×Node ν β)) : List (Path ν×Node ν β) :=
  rebased src dst entries++
    entries.filter fun entry => decide (¬src<+:entry.1) && decide (¬dst<+:entry.1)

/-- What is moved stands at its new place and not at the old one. -/
theorem lookup_movedEntries {entries : List (Path ν×Node ν β)} :
    lookup (movedEntries src dst entries) path=
      if dst<+:path then lookup entries (src++path.drop dst.length)
      else if src<+:path then none else lookup entries path := by
  rw [movedEntries,lookup_append,lookup_rebased,
    lookup_filter fun other => decide (¬src<+:other) && decide (¬dst<+:other)]
  by_cases hdst : dst<+:path
  · simp [hdst]
  · by_cases hsrc : src<+:path <;> simp [hdst,hsrc]

/-- A tree with everything below a path moved. -/
def Tree.move (tree : Tree ν β) (src dst : Path ν) (h : Movable tree src dst) : Tree ν β where
  entries := movedEntries src dst tree.entries
  rooted := by
    intro parent name hname
    rw [lookup_movedEntries] at hname ⊢
    by_cases hdst : dst<+:parent++[name]
    · rw [if_pos hdst] at hname
      rcases List.prefix_concat_iff.mp hdst with hsame | hparent
      · -- the moved node itself: its new parent is not moved
        have hdrop : parent=dst.dropLast := by rw [hsame,List.dropLast_concat]
        have hnot : ¬dst<+:parent := hsame ▸ not_concat_below parent name
        have hout : ¬src<+:parent := fun hwithin =>
          h.outside (hwithin.trans (hsame ▸ List.prefix_append _ _))
        rw [if_neg hnot,if_neg hout,hdrop]
        exact Tree.isDirectory_iff.mp h.parent.2
      · obtain ⟨below,rfl⟩ := hparent
        rw [if_pos (List.prefix_append _ _)]
        rw [List.append_assoc,List.drop_left,← List.append_assoc] at hname
        rw [List.drop_left]
        exact tree.rooted _ name hname
    · rw [if_neg hdst] at hname
      have hparent : ¬dst<+:parent := fun hwithin => hdst (hwithin.trans (List.prefix_append _ _))
      by_cases hsrc : src<+:parent++[name]
      · rw [if_pos hsrc] at hname
        exact absurd rfl hname
      · have hout : ¬src<+:parent := fun hwithin => hsrc (hwithin.trans (List.prefix_append _ _))
        rw [if_neg hsrc] at hname
        rw [if_neg hparent,if_neg hout]
        exact tree.rooted parent name hname

theorem Tree.get_move (h : Movable tree src dst) :
    (tree.move src dst h).get path=
      if dst<+:path then tree.get (src++path.drop dst.length)
      else if src<+:path then none else tree.get path :=
  lookup_movedEntries

/-- Move something, if the system can; a move in place changes nothing. -/
def Tree.rename (tree : Tree ν β) (src dst : Path ν) : Option (Tree ν β) :=
  if src=dst then if (tree.get src).isSome then some tree else none
  else if h : Movable tree src dst then some (tree.move src dst h) else none

/-- Make a directory, if the system can. -/
def Tree.makeDirectory (tree : Tree ν β) (path : Path ν) : Option (Tree ν β) :=
  if h : tree.Open path then
    if (tree.get path).isSome then none else some (tree.put path .directory h)
  else none

/-- Write a file, if the system can. -/
def Tree.writeFile (tree : Tree ν β) (path : Path ν) (content : β) : Option (Tree ν β) :=
  if h : tree.Open path then some (tree.put path (.file content) h) else none

/-- Remove a file or an empty directory, if the system can. -/
def Tree.remove (tree : Tree ν β) (path : Path ν) : Option (Tree ν β) :=
  if (tree.get path).isSome ∧ tree.children path=[] then some (tree.removeAll path) else none

variable {later : Tree ν β}

/-- A new directory stands where nothing was. -/
theorem Tree.get_makeDirectory (h : tree.makeDirectory path=some later) :
    tree.get path=none ∧ ∀ other,
      later.get other=if path=other then some .directory else tree.get other := by
  rw [Tree.makeDirectory] at h
  split_ifs at h with hopen hthere
  rw [← Option.some.inj h]
  exact ⟨by simpa using hthere,fun other => Tree.get_put hopen⟩

/-- A written file stands at its path. -/
theorem Tree.get_writeFile {content : β} (h : tree.writeFile path content=some later) :
    later.get other=if path=other then some (.file content) else tree.get other := by
  rw [Tree.writeFile] at h
  split_ifs at h with hopen
  rw [← Option.some.inj h]
  exact Tree.get_put hopen

/-- No file is written over a directory. -/
theorem Tree.writeFile_directory {content : β} (h : tree.isDirectory path=true) :
    tree.writeFile path content=none := by
  rw [Tree.writeFile,dif_neg]
  intro hopen
  rw [hopen.2.2] at h
  cases h

/-- A rename leaves things in place or moves them. -/
theorem Tree.rename_eq_some (h : tree.rename src dst=some later) :
    (src=dst ∧ later=tree) ∨ Movable tree src dst ∧ ∀ path, later.get path=
      if dst<+:path then tree.get (src++path.drop dst.length)
      else if src<+:path then none else tree.get path := by
  rw [Tree.rename] at h
  split_ifs at h with hsame hthere hmovable
  · exact .inl ⟨hsame,(Option.some.inj h).symm⟩
  · right
    rw [← Option.some.inj h]
    exact ⟨hmovable,fun path => Tree.get_move hmovable⟩

/-- Nothing stands below a place that something is moved to. -/
theorem Movable.below (h : Movable tree src dst) : tree.get (dst++name::other)=none := by
  by_contra hthere
  have hdst : tree.get dst=some .directory := tree.get_above hthere
  have hchildren := (h.way (by rw [hdst]; rfl)).2 (Tree.isDirectory_iff.mpr hdst)
  have hfirst : tree.get (dst++[name])≠none := by
    intro hnone
    exact hthere (tree.get_below hnone ⟨other,by simp⟩)
  have hchild : name∈tree.children dst := Tree.mem_children.mpr hfirst
  rw [hchildren] at hchild
  cases hchild

/-- Nothing is moved to a place above it. -/
theorem Movable.above (h : Movable tree src dst) : ¬dst<+:src := by
  rintro ⟨below,rfl⟩
  cases below with
  | nil =>
    rw [List.append_nil] at h
    exact h.outside (List.prefix_refl _)
  | cons first rest =>
    have hthere := h.exist
    rw [h.below] at hthere
    cases hthere

/-- Only a place where nothing else stands is removed alone. -/
theorem Tree.remove_parent (h : (tree.get (path++[name])).isSome=true) : tree.remove path=none := by
  have hchild : name∈tree.children path := Tree.mem_children.mpr (Option.isSome_iff_ne_none.mp h)
  have hchildren : tree.children path≠[] := List.ne_nil_of_mem hchild
  rw [Tree.remove,if_neg fun hempty => hchildren hempty.2]

/-- No file takes the place of a directory. -/
theorem Tree.rename_directory (hsrc : tree.isDirectory src=false) (hdst : tree.isDirectory dst=true) :
    tree.rename src dst=none := by
  have hother : src≠dst := by
    rintro rfl
    rw [hdst] at hsrc
    cases hsrc
  rw [Tree.rename,if_neg hother,dif_neg]
  intro hmovable
  have hthere : (tree.get dst).isSome=true := by
    rw [Tree.isDirectory_iff.mp hdst]
    rfl
  have hsame := (hmovable.way hthere).1
  rw [hsrc,hdst] at hsame
  cases hsame

/-- No file takes the place of a directory that something stands in. -/
theorem Tree.rename_parent (h : (tree.get (path++[name])).isSome=true)
    (hsrc : tree.isDirectory src=false) : tree.rename src path=none :=
  Tree.rename_directory hsrc
    (Tree.isDirectory_iff.mpr (tree.get_parent (Option.isSome_iff_ne_none.mp h)))

end Changes

end Vinput.FileTree
