import Vinput.FileTree

/-!
# Following paths

A path as it is written leads through directories and links to a place, from
the root or from the place it is read at. Below a place without links a path
that never climbs above its start stays there, whether it is followed or its
directories are made.
-/

namespace Vinput.FilePaths

open FileTree

section Following

variable {ν β : Type*} [DecidableEq ν]

/-- Links that are followed on one path. -/
def maxLinks : ℕ := 40

/-- Follow a path from a place up to its first link. -/
def walkWith (follow : Path ν → List (Element ν) → Option (Path ν)) (tree : Tree ν β) :
    Path ν → List (Element ν) → Option (Path ν)
  | place,[] => some place
  | place,.here::rest => walkWith follow tree place rest
  | place,.up::rest => walkWith follow tree place.dropLast rest
  | place,.name name::rest =>
    match tree.get (place++[name]) with
    | none => none
    | some .directory => walkWith follow tree (place++[name]) rest
    | some (.link absolute target) => follow (if absolute then [] else place) (target++rest)
    | some _ => if rest=[] then some (place++[name]) else none

/-- Follow a path with a number of links at most. -/
def walk (tree : Tree ν β) : ℕ → Path ν → List (Element ν) → Option (Path ν)
  | 0 => walkWith (fun _ _ => none) tree
  | links+1 => walkWith (walk tree links) tree

/-- A tree with new directories, and where the last of them is. -/
structure Made (ν β : Type*) [DecidableEq ν] where
  tree : Tree ν β
  created : List (Path ν)
  /-- `none` if the system refused. -/
  place : Option (Path ν)

/-- Make the directories of a path that are missing. -/
def makeDirectories (allowed : Path ν → Bool) (tree : Tree ν β) (place : Path ν) :
    List (Element ν) → Made ν β
  | [] => ⟨tree,[],if tree.isDirectory place then some place else none⟩
  | .here::rest => makeDirectories allowed tree place rest
  | .up::rest => makeDirectories allowed tree place.dropLast rest
  | .name name::rest =>
    match walk tree maxLinks place [.name name] with
    | some next =>
      if tree.isDirectory next then makeDirectories allowed tree next rest else ⟨tree,[],none⟩
    | none =>
      match if allowed (place++[name]) then tree.makeDirectory (place++[name]) else none with
      | none => ⟨tree,[],none⟩
      | some made =>
        let later := makeDirectories allowed made (place++[name]) rest
        {later with created := (place++[name])::later.created}

/-- A path that never climbs above its start, at a depth below it. -/
def stays : ℕ → List (Element ν) → Bool
  | _,[] => true
  | depth,.here::rest => stays depth rest
  | depth,.up::rest => decide (0<depth) && stays (depth-1) rest
  | depth,.name _::rest => stays (depth+1) rest

end Following

section Texts

/-- A part of a path that is written between slashes. -/
def element (piece : List Char) : Element (List Char) :=
  if piece=['.'] then .here else if piece=['.','.'] then .up else .name piece

/-- Parts of a written path; nothing behind the last slash stands for the
directory itself. -/
def elements (text : List Char) : List (Element (List Char)) :=
  let pieces := text.splitOn '/'
  (pieces.filter fun piece => decide (piece≠[])).map element++
    if pieces.getLast?=some [] then [.here] else []

instance (parts : List (Element (List Char))) : Decidable (.up∈parts) :=
  List.instDecidableMemOfLawfulBEq .up parts

end Texts

section Staying

variable {ν β : Type*} [DecidableEq ν] {tree later : Tree ν β} {root place result : Path ν}
  {links depth : ℕ} {parts : List (Element ν)} {allowed : Path ν → Bool}

/-- No links at a place or below it. -/
def NoLinks (tree : Tree ν β) (root : Path ν) : Prop :=
  ∀ path, root<+:path → ∀ absolute target, tree.get path≠some (.link absolute target)

/-- A place below a root, deep enough. -/
def Inside (root : Path ν) (depth : ℕ) (place : Path ν) : Prop :=
  root<+:place ∧ root.length+depth ≤ place.length

omit [DecidableEq ν] in
theorem Inside.child (h : Inside root depth place) (name : ν) :
    Inside root (depth+1) (place++[name]) := by
  refine ⟨h.1.trans (List.prefix_append _ _),?_⟩
  have hdepth := h.2
  rw [List.length_append,List.length_singleton]
  omega

omit [DecidableEq ν] in
/-- A step up stays inside while there is depth left. -/
theorem Inside.parent (h : Inside root depth place) (hdepth : 0<depth) :
    Inside root (depth-1) place.dropLast := by
  obtain ⟨⟨below,rfl⟩,hlength⟩ := h
  have hbelow : below≠[] := by
    rintro rfl
    rw [List.append_nil] at hlength
    omega
  rw [List.dropLast_append_of_ne_nil hbelow]
  refine ⟨List.prefix_append _ _,?_⟩
  rw [List.length_append] at hlength ⊢
  rw [List.length_dropLast]
  omega

/-- Without links a path is followed by its names alone. -/
theorem walkWith_inside {follow : Path ν → List (Element ν) → Option (Path ν)}
    (hlinks : NoLinks tree root) (hplace : Inside root depth place)
    (hstays : stays depth parts=true) (h : walkWith follow tree place parts=some result) :
    root<+:result := by
  induction parts generalizing place depth with
  | nil =>
    rw [← Option.some.inj h]
    exact hplace.1
  | cons part rest ih =>
    cases part with
    | here => exact ih hplace hstays h
    | up =>
      simp only [stays,Bool.and_eq_true,decide_eq_true_eq] at hstays
      exact ih (hplace.parent hstays.1) hstays.2 h
    | name name =>
      rw [walkWith] at h
      have hchild := hplace.child name
      cases hnode : tree.get (place++[name]) with
      | none => simp [hnode] at h
      | some node =>
        cases node with
        | directory =>
          rw [hnode] at h
          exact ih hchild hstays h
        | link absolute target => exact absurd hnode (hlinks _ hchild.1 absolute target)
        | file content =>
          rw [hnode] at h
          dsimp only at h
          split_ifs at h
          rw [← Option.some.inj h]
          exact hchild.1
        | special =>
          rw [hnode] at h
          dsimp only at h
          split_ifs at h
          rw [← Option.some.inj h]
          exact hchild.1

/-- A walk that never climbs above its start stays inside. -/
theorem walk_inside (hlinks : NoLinks tree root) (hplace : Inside root depth place)
    (hstays : stays depth parts=true) (h : walk tree links place parts=some result) :
    root<+:result := by
  cases links with
  | zero => exact walkWith_inside hlinks hplace hstays h
  | succ links => exact walkWith_inside hlinks hplace hstays h

/-- Without steps a walk stays where it is. -/
theorem walk_nil : walk tree links place []=some place := by
  cases links <;> rfl

/-- A step to the same place changes nothing. -/
theorem walk_here : walk tree links place (.here::parts)=walk tree links place parts := by
  cases links <;> rfl

theorem walk_up : walk tree links place (.up::parts)=walk tree links place.dropLast parts := by
  cases links <;> rfl

/-- A path goes on behind a directory. -/
theorem walk_directory {name : ν} (h : tree.get (place++[name])=some .directory) :
    walk tree links place (.name name::parts)=walk tree links (place++[name]) parts := by
  cases links <;> simp [walk,walkWith,h]

/-- A path through nothing leads nowhere. -/
theorem walk_missing {name : ν} (h : tree.get (place++[name])=none) :
    walk tree links place (.name name::parts)=none := by
  cases links <;> simp [walk,walkWith,h]

/-- What is no link is where its name leads. -/
theorem walk_node {name : ν} {node : Node ν β} (h : tree.get (place++[name])=some node)
    (hlink : ∀ absolute target, node≠.link absolute target) :
    walk tree links place [.name name]=some (place++[name]) := by
  cases node with
  | directory => rw [walk_directory h,walk_nil]
  | link absolute target => exact absurd rfl (hlink absolute target)
  | file content => cases links <;> simp [walk,walkWith,h]
  | special => cases links <;> simp [walk,walkWith,h]

/-- A name that is no link leads to the place it stands at. -/
theorem walk_name {name : ν} (hlinks : NoLinks tree root) (hplace : root<+:place) :
    walk tree links place [.name name]=
      if (tree.get (place++[name])).isSome then some (place++[name]) else none := by
  cases hnode : tree.get (place++[name]) with
  | none => exact walk_missing hnode
  | some node =>
    refine walk_node hnode ?_
    rintro absolute target rfl
    exact hlinks _ (hplace.trans (List.prefix_append _ _)) absolute target hnode

end Staying

section Making

variable {ν β : Type*} [DecidableEq ν] {tree later : Tree ν β} {root place : Path ν}
  {depth : ℕ} {parts : List (Element ν)} {allowed : Path ν → Bool}

/-- A tree that only has more directories, all of them recorded. -/
def Grown (tree later : Tree ν β) (created : List (Path ν)) : Prop :=
  ∀ path, later.get path=tree.get path ∨
    path∈created ∧ tree.get path=none ∧ later.get path=some .directory

theorem Grown.refl : Grown tree tree [] := fun _ => .inl rfl

/-- What stood somewhere stays there. -/
theorem Grown.keeps {created : List (Path ν)} (h : Grown tree later created) {path : Path ν}
    {node : Node ν β} (hnode : tree.get path=some node) : later.get path=some node := by
  obtain hsame | ⟨_,hnone,_⟩ := h path
  · rw [hsame,hnode]
  · rw [hnone] at hnode
    cases hnode

/-- A tree that has grown by directories has no more links. -/
theorem Grown.noLinks {created : List (Path ν)} (h : Grown tree later created)
    (hlinks : NoLinks tree root) : NoLinks later root := by
  intro path hpath absolute target hlink
  obtain hsame | ⟨_,_,hdirectory⟩ := h path
  · exact hlinks path hpath absolute target (hsame ▸ hlink)
  · rw [hdirectory] at hlink
    cases hlink

/-- A new directory is all that is new. -/
theorem grown_makeDirectory {path : Path ν} (h : tree.makeDirectory path=some later) :
    Grown tree later [path] := by
  intro other
  obtain ⟨hnone,hget⟩ := Tree.get_makeDirectory h
  rw [hget]
  by_cases hsame : path=other
  · right
    rw [if_pos hsame,← hsame]
    exact ⟨List.mem_singleton_self _,hnone,rfl⟩
  · left
    rw [if_neg hsame]

/-- Making directories adds the directories that are recorded. -/
theorem grown_makeDirectories (tree : Tree ν β) (place : Path ν) :
    Grown tree (makeDirectories allowed tree place parts).tree
      (makeDirectories allowed tree place parts).created := by
  induction parts generalizing tree place with
  | nil => exact Grown.refl
  | cons part rest ih =>
    cases part with
    | here => exact ih tree place
    | up => exact ih tree place.dropLast
    | name name =>
      rw [makeDirectories]
      cases walk tree maxLinks place [.name name] with
      | some next =>
        dsimp only
        split_ifs
        · exact ih tree next
        · exact Grown.refl
      | none =>
        dsimp only
        cases hmade : if allowed (place++[name]) then tree.makeDirectory (place++[name]) else none with
        | none => exact Grown.refl
        | some made =>
          have hfirst : Grown tree made [place++[name]] := by
            split_ifs at hmade
            exact grown_makeDirectory hmade
          intro path
          dsimp only
          obtain hsame | ⟨hmem,hnone,hdirectory⟩ := ih made (place++[name]) path
          · rw [hsame]
            obtain hold | ⟨hmem,hnone,hdirectory⟩ := hfirst path
            · exact .inl hold
            · exact .inr ⟨by simp [List.mem_singleton.mp hmem],hnone,hdirectory⟩
          · obtain hold | ⟨_,_,hfound⟩ := hfirst path
            · exact .inr ⟨List.mem_cons_of_mem _ hmem,by rw [← hold,hnone],hdirectory⟩
            · rw [hfound] at hnone
              cases hnone

/-- Directories made below a place without links are all below it, and the
last of them is where the path leads afterwards. -/
theorem makeDirectories_inside (hlinks : NoLinks tree root) (hplace : Inside root depth place)
    (hstays : stays depth parts=true) :
    (∀ path∈(makeDirectories allowed tree place parts).created, root<+:path) ∧
      ∀ result, (makeDirectories allowed tree place parts).place=some result →
        root<+:result ∧
          walk (makeDirectories allowed tree place parts).tree maxLinks place parts=some result := by
  induction parts generalizing tree place depth with
  | nil =>
    refine ⟨by simp [makeDirectories],?_⟩
    intro result hresult
    simp only [makeDirectories] at hresult
    split_ifs at hresult
    obtain rfl := Option.some.inj hresult
    exact ⟨hplace.1,walk_nil⟩
  | cons part rest ih =>
    cases part with
    | here =>
      refine ⟨(ih hlinks hplace hstays).1,fun result hresult => ?_⟩
      rw [walk_here]
      exact (ih hlinks hplace hstays).2 result hresult
    | up =>
      simp only [stays,Bool.and_eq_true,decide_eq_true_eq] at hstays
      have hrest := ih hlinks (hplace.parent hstays.1) hstays.2
      refine ⟨hrest.1,fun result hresult => ?_⟩
      rw [walk_up]
      exact hrest.2 result hresult
    | name name =>
      have hchild := hplace.child name
      rw [makeDirectories,walk_name hlinks hplace.1]
      by_cases hthere : (tree.get (place++[name])).isSome=true
      · rw [if_pos hthere]
        dsimp only
        by_cases hdirectory : tree.isDirectory (place++[name])=true
        · rw [if_pos hdirectory]
          have hrest := ih hlinks hchild hstays
          refine ⟨hrest.1,fun result hresult => ?_⟩
          rw [walk_directory ((grown_makeDirectories tree (place++[name])).keeps
            (Tree.isDirectory_iff.mp hdirectory))]
          exact hrest.2 result hresult
        · rw [if_neg hdirectory]
          simp
      · rw [if_neg hthere]
        dsimp only
        cases hmade : if allowed (place++[name]) then tree.makeDirectory (place++[name])
            else none with
        | none => simp
        | some made =>
          have hmake : tree.makeDirectory (place++[name])=some made := by
            split_ifs at hmade
            exact hmade
          have hrest := ih ((grown_makeDirectory hmake).noLinks hlinks) hchild hstays
          refine ⟨?_,fun result hresult => ?_⟩
          · intro path hpath
            rcases List.mem_cons.mp hpath with rfl | hlater
            · exact hchild.1
            · exact hrest.1 path hlater
          · dsimp only at hresult ⊢
            have hthis : made.get (place++[name])=some .directory := by
              rw [(Tree.get_makeDirectory hmake).2,if_pos rfl]
            rw [walk_directory ((grown_makeDirectories made (place++[name])).keeps hthis)]
            exact hrest.2 result hresult

end Making

section Changes

variable {ν β : Type*} [DecidableEq ν] {tree later last : Tree ν β}
  {root place path src dst : Path ν} {depth : ℕ} {parts : List (Element ν)}
  {allowed : Path ν → Bool}

/-- What stands at a path is nothing that leads elsewhere. -/
def IsPlain (node : Option (Node ν β)) : Prop :=
  node=none ∨ node=some .directory ∨ ∃ content, node=some (.file content)

/-- Below a place there are only plain changes, and outside of it none. -/
def Changed (root : Path ν) (tree later : Tree ν β) : Prop :=
  ∀ path, later.get path=tree.get path ∨ root<+:path ∧ IsPlain (later.get path)

/-- Only files and directories stand at a place or below it. -/
def AllPlain (root : Path ν) (tree : Tree ν β) : Prop :=
  ∀ path, root<+:path → IsPlain (tree.get path)

theorem Changed.refl : Changed root tree tree := fun _ => .inl rfl

/-- Changes inside follow each other. -/
theorem Changed.trans (h : Changed root tree later) (hnext : Changed root later last) :
    Changed root tree last := by
  intro path
  obtain hsame | hplain := hnext path
  · rw [hsame]
    exact h path
  · exact .inr hplain

theorem Changed.outside (h : Changed root tree later) (hpath : ¬root<+:path) :
    later.get path=tree.get path := by
  obtain hsame | ⟨hinside,_⟩ := h path
  · exact hsame
  · exact absurd hinside hpath

/-- A change below a place is one below any place above it. -/
theorem Changed.mono {above : Path ν} (habove : above<+:root) (h : Changed root tree later) :
    Changed above tree later :=
  fun path => (h path).imp_right fun hinside => ⟨habove.trans hinside.1,hinside.2⟩

theorem AllPlain.noLinks (h : AllPlain root tree) : NoLinks tree root := by
  intro path hpath absolute target hlink
  obtain hnone | hdirectory | ⟨content,hfile⟩ := h path hpath
  · simp [hnone] at hlink
  · simp [hdirectory] at hlink
  · simp [hfile] at hlink

/-- Changes inside keep what is outside plain. -/
theorem AllPlain.changed (h : AllPlain root tree) (hchanged : Changed root tree later) :
    AllPlain root later := by
  intro path hpath
  obtain hsame | ⟨_,hplain⟩ := hchanged path
  · rw [hsame]
    exact h path hpath
  · exact hplain

theorem Changed.noLinks (h : Changed root tree later) (hlinks : NoLinks tree root) :
    NoLinks later root := by
  intro path hpath absolute target hlink
  obtain hsame | ⟨_,hplain⟩ := h path
  · exact hlinks path hpath absolute target (hsame ▸ hlink)
  · rw [hlink] at hplain
    obtain hnone | hdirectory | ⟨content,hfile⟩ := hplain
    · cases hnone
    · cases hdirectory
    · cases hfile

/-- Directories that are made below a place without links. -/
theorem changed_makeDirectories (hlinks : NoLinks tree root) (hplace : Inside root depth place)
    (hstays : stays depth parts=true) :
    Changed root tree (makeDirectories allowed tree place parts).tree := by
  intro path
  obtain hsame | ⟨hcreated,_,hdirectory⟩ := grown_makeDirectories tree place path
  · exact .inl hsame
  · exact .inr ⟨(makeDirectories_inside hlinks hplace hstays).1 path hcreated,.inr (.inl hdirectory)⟩

theorem changed_writeFile {content : β} (hpath : root<+:path)
    (h : tree.writeFile path content=some later) : Changed root tree later := by
  intro other
  rw [Tree.get_writeFile h]
  by_cases hsame : path=other
  · rw [if_pos hsame,← hsame]
    exact .inr ⟨hpath,.inr (.inr ⟨content,rfl⟩)⟩
  · exact .inl (if_neg hsame)

theorem changed_removeAll (hpath : root<+:path) : Changed root tree (tree.removeAll path) := by
  intro other
  rw [Tree.get_removeAll]
  by_cases hbelow : path<+:other
  · rw [if_pos hbelow]
    exact .inr ⟨hpath.trans hbelow,.inl rfl⟩
  · exact .inl (if_neg hbelow)

theorem changed_remove (hpath : root<+:path) (h : tree.remove path=some later) :
    Changed root tree later := by
  rw [Tree.remove] at h
  split_ifs at h
  rw [← Option.some.inj h]
  exact changed_removeAll hpath

/-- A move below a place where everything is plain. -/
theorem changed_rename (hplain : AllPlain root tree) (hsrc : root<+:src) (hdst : root<+:dst)
    (h : tree.rename src dst=some later) : Changed root tree later := by
  intro other
  obtain ⟨_,rfl⟩ | ⟨_,hget⟩ := Tree.rename_eq_some h
  · exact .inl rfl
  · rw [hget]
    by_cases hnew : dst<+:other
    · rw [if_pos hnew]
      exact .inr ⟨hdst.trans hnew,hplain _ (hsrc.trans (List.prefix_append _ _))⟩
    · rw [if_neg hnew]
      by_cases hold : src<+:other
      · rw [if_pos hold]
        exact .inr ⟨hsrc.trans hold,.inl rfl⟩
      · exact .inl (if_neg hold)

end Changes

section Routes

variable {ν β : Type*} [DecidableEq ν] {first second third : Tree ν β} {place left right : Path ν}
  {parts : List (Element ν)} {links : ℕ}

/-- How a path goes on from a node. -/
inductive Turn (ν : Type*) where
  | directory
  | link (absolute : Bool) (target : List (Element ν))
  | leaf

/-- What a node means to a walk. -/
def turn : Node ν β → Turn ν
  | .directory => .directory
  | .link absolute target => .link absolute target
  | _ => .leaf

/-- What a walk meets at a place. -/
def turnAt (tree : Tree ν β) (path : Path ν) : Option (Turn ν) := (tree.get path).map turn

/-- Where a path to a place can go on in two trees, it goes on alike in them and
in a third. -/
def Agree (left : Path ν) (first second third : Tree ν β) : Prop :=
  ∀ path node other, turnAt first path=some node → turnAt second path=some other →
    (node=.leaf → path=left) → other=node ∧ turnAt third path=some node

/-- A named step does what stands there says. -/
theorem walkWith_name {follow : Path ν → List (Element ν) → Option (Path ν)} (tree : Tree ν β)
    (name : ν) (rest : List (Element ν)) :
    walkWith follow tree place (.name name::rest)=
      match turnAt tree (place++[name]) with
      | none => none
      | some .directory => walkWith follow tree (place++[name]) rest
      | some (.link absolute target) => follow (if absolute then [] else place) (target++rest)
      | some .leaf => if rest=[] then some (place++[name]) else none := by
  rw [walkWith,turnAt]
  cases tree.get (place++[name]) with
  | none => rfl
  | some node => cases node <;> rfl

/-- Trees that agree lead a path to the same place. -/
theorem walkWith_agree {follow follow' follow'' : Path ν → List (Element ν) → Option (Path ν)}
    (hagree : Agree left first second third)
    (hfollow : ∀ place parts right, follow place parts=some left →
      follow' place parts=some right → right=left ∧ follow'' place parts=some left)
    (hfirst : walkWith follow first place parts=some left)
    (hsecond : walkWith follow' second place parts=some right) :
    right=left ∧ walkWith follow'' third place parts=some left := by
  induction parts generalizing place with
  | nil =>
    simp only [walkWith,Option.some.injEq] at hfirst hsecond ⊢
    exact ⟨hsecond.symm.trans hfirst,hfirst⟩
  | cons part rest ih =>
    cases part with
    | here => exact ih hfirst hsecond
    | up => exact ih hfirst hsecond
    | name name =>
      rw [walkWith_name] at hfirst hsecond ⊢
      cases hnode : turnAt first (place++[name]) with
      | none => simp [hnode] at hfirst
      | some node =>
        cases hother : turnAt second (place++[name]) with
        | none => simp [hother] at hsecond
        | some other =>
          rw [hnode] at hfirst
          have hend : node=.leaf → place++[name]=left := by
            rintro rfl
            dsimp only at hfirst
            split_ifs at hfirst
            exact Option.some.inj hfirst
          obtain ⟨rfl,hthird⟩ := hagree _ _ _ hnode hother hend
          rw [hother] at hsecond
          rw [hthird]
          cases other with
          | directory => exact ih hfirst hsecond
          | link absolute target => exact hfollow _ _ _ hfirst hsecond
          | leaf =>
            dsimp only at hfirst hsecond ⊢
            split_ifs at hfirst hsecond ⊢
            exact ⟨(Option.some.inj hsecond).symm.trans (Option.some.inj hfirst),hfirst⟩

/-- A walk goes the same way in trees that agree on it. -/
theorem walk_agree (hagree : Agree left first second third)
    (hfirst : walk first links place parts=some left)
    (hsecond : walk second links place parts=some right) :
    right=left ∧ walk third links place parts=some left := by
  induction links generalizing place parts right with
  | zero => exact walkWith_agree hagree (by simp) hfirst hsecond
  | succ links ih =>
    exact walkWith_agree hagree (fun _ _ _ => ih) hfirst hsecond

/-- Where all that stands somewhere stays alike, paths lead to the same places. -/
theorem walk_keeps {tree later : Tree ν β}
    (hkeeps : ∀ path node, tree.get path=some node → later.get path=some node)
    (h : walk tree links place parts=some left) : walk later links place parts=some left := by
  have hagree : Agree left tree tree later := by
    intro path node other hnode hother _
    obtain ⟨found,hfound,rfl⟩ := Option.map_eq_some_iff.mp hnode
    refine ⟨Option.some.inj (hother.symm.trans hnode),?_⟩
    rw [turnAt,hkeeps path found hfound,Option.map_some]
  exact (walk_agree hagree h h).2

/-- Where all that a path goes through stays or goes, the path leads to the same
place or nowhere. -/
theorem walk_lost {tree later : Tree ν β}
    (hlost : ∀ path node other, tree.get path=some node → later.get path=some other →
      (turn node=.leaf → path=left) → turn other=turn node)
    (h : walk tree links place parts=some left) (hlater : walk later links place parts=some right) :
    right=left := by
  have hagree : Agree left tree later tree := by
    intro path node other hnode hother hend
    obtain ⟨found,hfound,rfl⟩ := Option.map_eq_some_iff.mp hnode
    obtain ⟨next,hnext,rfl⟩ := Option.map_eq_some_iff.mp hother
    exact ⟨hlost path found next hfound hnext hend,hnode⟩
  exact (walk_agree hagree h hlater).1

/-- A path that leads somewhere leads through its directory. -/
theorem walkWith_init {follow : Path ν → List (Element ν) → Option (Path ν)} {tree : Tree ν β}
    {name : ν} (hfollow : ∀ place parts, follow place (parts++[.name name])=some right →
      ∃ parent, follow place parts=some parent ∧ tree.get (parent++[name])≠none)
    (h : walkWith follow tree place (parts++[.name name])=some right) :
    ∃ parent, walkWith follow tree place parts=some parent ∧ tree.get (parent++[name])≠none := by
  induction parts generalizing place with
  | nil =>
    rw [List.nil_append,walkWith] at h
    refine ⟨place,rfl,?_⟩
    intro hnone
    rw [hnone] at h
    cases h
  | cons part rest ih =>
    cases part with
    | here => exact ih h
    | up => exact ih h
    | name first =>
      rw [List.cons_append,walkWith_name] at h
      rw [walkWith_name]
      cases hnode : turnAt tree (place++[first]) with
      | none => simp [hnode] at h
      | some node =>
        rw [hnode] at h
        cases node with
        | directory => exact ih h
        | leaf => simp at h
        | link absolute target =>
          dsimp only at h ⊢
          rw [← List.append_assoc] at h
          exact hfollow _ _ h

/-- A walk to a name goes through its parent. -/
theorem walk_init {tree : Tree ν β} {name : ν}
    (h : walk tree links place (parts++[.name name])=some right) :
    ∃ parent, walk tree links place parts=some parent ∧ tree.get (parent++[name])≠none := by
  induction links generalizing place parts with
  | zero => exact walkWith_init (by simp) h
  | succ links ih => exact walkWith_init (fun _ _ => ih) h

/-- Above a directory the root is one. -/
theorem root_directory {tree : Tree ν β} (h : tree.get place=some .directory) :
    tree.get []=some .directory := by
  cases place with
  | nil => exact h
  | cons name rest =>
    have hthere : tree.get ([]++name::rest)≠none := by
      rw [List.nil_append,h]
      simp
    exact tree.get_above hthere

theorem parent_directory {tree : Tree ν β} (h : tree.get place=some .directory) :
    tree.get place.dropLast=some .directory := by
  by_cases hroot : place=[]
  · rw [hroot] at h ⊢
    exact h
  · have hthere : tree.get (place.dropLast++[place.getLast hroot])≠none := by
      rw [List.dropLast_append_getLast hroot,h]
      simp
    exact tree.get_parent hthere

/-- Something stands at the end of a path, and it is no link. -/
def Ends (tree : Tree ν β) (place : Path ν) : Prop :=
  ∃ node, tree.get place=some node ∧ ∀ absolute target, node≠.link absolute target

/-- A path that starts at a directory ends somewhere, and not at a link. -/
theorem walkWith_end {follow : Path ν → List (Element ν) → Option (Path ν)} {tree : Tree ν β}
    (hfollow : ∀ place parts, tree.get place=some .directory → follow place parts=some right →
      Ends tree right)
    (hplace : tree.get place=some .directory) (h : walkWith follow tree place parts=some right) :
    Ends tree right := by
  induction parts generalizing place with
  | nil =>
    rw [← Option.some.inj h]
    exact ⟨_,hplace,by simp⟩
  | cons part rest ih =>
    cases part with
    | here => exact ih hplace h
    | up => exact ih (parent_directory hplace) h
    | name name =>
      rw [walkWith] at h
      cases hnode : tree.get (place++[name]) with
      | none => simp [hnode] at h
      | some node =>
        rw [hnode] at h
        cases node with
        | directory => exact ih hnode h
        | link absolute target =>
          dsimp only at h
          split_ifs at h
          · exact hfollow _ _ (root_directory hplace) h
          · exact hfollow _ _ hplace h
        | file content =>
          dsimp only at h
          split_ifs at h
          rw [← Option.some.inj h]
          exact ⟨_,hnode,by simp⟩
        | special =>
          dsimp only at h
          split_ifs at h
          rw [← Option.some.inj h]
          exact ⟨_,hnode,by simp⟩

/-- A walk from a directory ends at something. -/
theorem walk_end {tree : Tree ν β} (hplace : tree.get place=some .directory)
    (h : walk tree links place parts=some right) : Ends tree right := by
  induction links generalizing place parts with
  | zero => exact walkWith_end (by simp) hplace h
  | succ links ih => exact walkWith_end (fun _ _ => ih) hplace h

/-- A path leads to the same place after a file was written there. -/
theorem walk_writeFile {tree later : Tree ν β} {content : β}
    (hplace : tree.get place=some .directory) (h : walk tree links place parts=some right)
    (hwrite : tree.writeFile right content=some later) :
    walk later links place parts=some right := by
  obtain ⟨last,hlast,hend⟩ := walk_end hplace h
  have hfile : tree.get right≠some .directory := by
    intro hdirectory
    rw [Tree.writeFile_directory (Tree.isDirectory_iff.mpr hdirectory)] at hwrite
    cases hwrite
  have hagree : Agree right tree tree later := by
    intro path node other hnode hother _
    refine ⟨Option.some.inj (hother.symm.trans hnode),?_⟩
    rw [turnAt,Tree.get_writeFile hwrite]
    split_ifs with hsame
    · rw [← hsame,turnAt] at hnode
      obtain ⟨found,hfound,rfl⟩ := Option.map_eq_some_iff.mp hnode
      cases found with
      | directory => exact absurd hfound hfile
      | link absolute target =>
        rw [hlast] at hfound
        exact absurd (Option.some.inj hfound) (hend absolute target)
      | file old => rfl
      | special => rfl
    · exact hnode
  exact (walk_agree hagree h h).2

/-- The names in a path. -/
def names (parts : List (Element ν)) : Path ν :=
  parts.filterMap fun part =>
    match part with
    | .name name => some name
    | _ => none

/-- Without links a path that never climbs leads along its names. -/
theorem walk_names {tree : Tree ν β} {root : Path ν} (hlinks : NoLinks tree root)
    (hplace : root<+:place) (hlevel : .up∉parts) (h : walk tree links place parts=some right) :
    right=place++names parts := by
  induction parts generalizing place with
  | nil =>
    rw [walk_nil] at h
    rw [← Option.some.inj h,names,List.filterMap_nil,List.append_nil]
  | cons part rest ih =>
    obtain ⟨hpart,hrest⟩ := not_or.mp (List.mem_cons.not.mp hlevel)
    cases part with
    | here =>
      rw [walk_here] at h
      exact ih hplace hrest h
    | up => exact absurd rfl hpart
    | name name =>
      have hchild : root<+:place++[name] := hplace.trans (List.prefix_append _ _)
      have hnext : walk tree links (place++[name]) rest=some right ∨
          rest=[] ∧ right=place++[name] := by
        cases hnode : tree.get (place++[name]) with
        | none => cases links <;> simp [walk,walkWith,hnode] at h
        | some node =>
          cases node with
          | directory =>
            rw [walk_directory hnode] at h
            exact .inl h
          | link absolute target => exact absurd hnode (hlinks _ hchild absolute target)
          | file content => cases links <;> simp_all [walk,walkWith]
          | special => cases links <;> simp_all [walk,walkWith]
      obtain hnext | ⟨rfl,rfl⟩ := hnext
      · rw [ih hchild hrest hnext]
        simp [names]
      · simp [names]

/-- Without links a path leads to what stands along its names. -/
theorem walk_along {tree : Tree ν β} {root : Path ν} {name : ν} (hlinks : NoLinks tree root)
    (hplace : root<+:place) (hlevel : .up∉parts)
    (hthere : tree.get (place++names parts++[name])≠none) :
    walk tree links place (parts++[.name name])=some (place++names parts++[name]) := by
  induction parts generalizing place with
  | nil =>
    rw [names,List.filterMap_nil,List.append_nil] at hthere ⊢
    rw [List.nil_append,walk_name hlinks hplace,if_pos (Option.isSome_iff_ne_none.mpr hthere)]
  | cons part rest ih =>
    obtain ⟨hpart,hrest⟩ := not_or.mp (List.mem_cons.not.mp hlevel)
    cases part with
    | here =>
      rw [List.cons_append,walk_here]
      exact ih hplace hrest hthere
    | up => exact absurd rfl hpart
    | name first =>
      have hsplit : place++names (.name first::rest)++[name]=
          (place++[first])++names rest++[name] := by simp [names]
      rw [hsplit] at hthere ⊢
      have hbelow : tree.get (place++[first]++(names rest++[name]))≠none := by
        rwa [← List.append_assoc]
      have hdirectory : tree.get (place++[first])=some .directory := by
        cases hnames : names rest++[name] with
        | nil => simp at hnames
        | cons next later =>
          rw [hnames] at hbelow
          exact tree.get_above hbelow
      rw [List.cons_append,walk_directory hdirectory]
      exact ih (hplace.trans (List.prefix_append _ _)) hrest hthere

end Routes

section Names

variable {ν β : Type*} [DecidableEq ν] {tree : Tree ν β} {place root : Path ν}
  {allowed : Path ν → Bool}

/-- Nothing stands below a place. -/
def Bare (tree : Tree ν β) (place : Path ν) : Prop :=
  ∀ name, tree.get (place++[name])=none

/-- A directory that was made is bare. -/
theorem bare_makeDirectory {made : Tree ν β} (h : tree.makeDirectory place=some made) :
    Bare made place := by
  intro next
  rw [(Tree.get_makeDirectory h).2,if_neg (by simp)]
  exact tree.get_below (Tree.get_makeDirectory h).1 (List.prefix_append _ _)

/-- Below a bare place the directories are made one in the other. -/
theorem makeDirectories_bare {names : List ν} (hbare : Bare tree place)
    (h : (makeDirectories allowed tree place (names.map .name)).place=some root) :
    Bare (makeDirectories allowed tree place (names.map .name)).tree root := by
  induction names generalizing tree place with
  | nil =>
    simp only [List.map_nil,makeDirectories] at h ⊢
    split_ifs at h
    rwa [← Option.some.inj h]
  | cons name rest ih =>
    have hnone : walk tree maxLinks place [.name name]=none := walk_missing (hbare name)
    rw [List.map_cons,makeDirectories,hnone] at h ⊢
    dsimp only at h ⊢
    cases hmade : if allowed (place++[name]) then tree.makeDirectory (place++[name]) else none with
    | none => simp [hmade] at h
    | some made =>
      rw [hmade] at h
      dsimp only at h ⊢
      split_ifs at hmade
      exact ih (bare_makeDirectory hmade) h

/-- Below a bare place the directories that are made lead to the last of them. -/
theorem created_above_of_bare {names : List ν} (hbare : Bare tree place)
    (h : (makeDirectories allowed tree place (names.map .name)).place=some root) :
    place<+:root ∧
      ∀ path∈(makeDirectories allowed tree place (names.map .name)).created, path<+:root := by
  induction names generalizing tree place with
  | nil =>
    simp only [List.map_nil,makeDirectories] at h ⊢
    split_ifs at h
    rw [← Option.some.inj h]
    exact ⟨List.prefix_refl place,nofun⟩
  | cons name rest ih =>
    have hnone : walk tree maxLinks place [.name name]=none := walk_missing (hbare name)
    rw [List.map_cons,makeDirectories,hnone] at h ⊢
    dsimp only at h ⊢
    cases hmade : if allowed (place++[name]) then tree.makeDirectory (place++[name]) else none with
    | none => simp [hmade] at h
    | some made =>
      rw [hmade] at h
      dsimp only at h ⊢
      have hmake : tree.makeDirectory (place++[name])=some made := by
        split_ifs at hmade
        exact hmade
      obtain ⟨hchild,hlater⟩ := ih (bare_makeDirectory hmake) h
      exact ⟨(List.prefix_append _ _).trans hchild,List.forall_mem_cons.mpr ⟨hchild,hlater⟩⟩

/-- Directories that are made along names lead to the last of them. -/
theorem created_above {names : List ν}
    (h : (makeDirectories allowed tree place (names.map .name)).place=some root) :
    ∀ path∈(makeDirectories allowed tree place (names.map .name)).created, path<+:root := by
  induction names generalizing tree place with
  | nil => exact nofun
  | cons name rest ih =>
    rw [List.map_cons,makeDirectories] at h ⊢
    cases hwalk : walk tree maxLinks place [.name name] with
    | some next =>
      rw [hwalk] at h
      dsimp only at h ⊢
      split_ifs at h ⊢
      exact ih h
    | none =>
      rw [hwalk] at h
      dsimp only at h ⊢
      cases hmade : if allowed (place++[name]) then tree.makeDirectory (place++[name]) else none with
      | none => simp [hmade] at h
      | some made =>
        rw [hmade] at h
        dsimp only at h ⊢
        have hmake : tree.makeDirectory (place++[name])=some made := by
          split_ifs at hmade
          exact hmade
        obtain ⟨hchild,hlater⟩ := created_above_of_bare (bare_makeDirectory hmake) h
        exact List.forall_mem_cons.mpr ⟨hchild,hlater⟩

/-- Directories that are made along names: there are none, or the last of them
is bare. -/
theorem makeDirectories_names {names : List ν}
    (h : (makeDirectories allowed tree place (names.map .name)).place=some root) :
    (makeDirectories allowed tree place (names.map .name)).tree=tree ∨
      Bare (makeDirectories allowed tree place (names.map .name)).tree root := by
  induction names generalizing tree place with
  | nil => exact .inl rfl
  | cons name rest ih =>
    rw [List.map_cons,makeDirectories] at h ⊢
    cases hwalk : walk tree maxLinks place [.name name] with
    | some next =>
      rw [hwalk] at h
      dsimp only at h ⊢
      split_ifs at h ⊢
      exact ih h
    | none =>
      rw [hwalk] at h
      dsimp only at h ⊢
      cases hmade : if allowed (place++[name]) then tree.makeDirectory (place++[name]) else none with
      | none => simp [hmade] at h
      | some made =>
        rw [hmade] at h
        dsimp only at h ⊢
        split_ifs at hmade
        exact .inr (makeDirectories_bare (bare_makeDirectory hmade) h)

end Names

end Vinput.FilePaths
