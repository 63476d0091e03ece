import Vinput.PathLeads

/-!
# Paths as texts

A path is put together, taken apart and normalised as a text, without a look at
the files. A normalised path leads where the path leads if each name that is
dropped together with a `..` behind it leads back to the directory it stands in.
-/

namespace Vinput.LexicalPaths

open FileTree FilePaths PathLeads

section Texts

/-- A path as it is written. -/
structure FsPath (ν : Type*) where
  absolute : Bool
  parts : List (Element ν)
  /-- There is a slash behind the parts. -/
  slash : Bool
deriving DecidableEq

variable {ν : Type*}

/-- The path without root and parts. -/
def FsPath.empty (path : FsPath ν) : Bool := !path.absolute && path.parts.isEmpty

/-- The path without its last part; a slash at its end counts as one. -/
def FsPath.parentPath (path : FsPath ν) : FsPath ν :=
  if path.slash then {path with slash := false} else {path with parts := path.parts.dropLast}

/-- The last part of the path, if no slash is behind it. -/
def FsPath.filename (path : FsPath ν) : Option (Element ν) :=
  if path.slash then none else path.parts.getLast?

/-- The operator of `std::filesystem::path` that joins two paths. -/
def FsPath.join (path other : FsPath ν) : FsPath ν :=
  if other.absolute then other
  else ⟨path.absolute,path.parts++other.parts,
    other.slash || (other.parts.isEmpty && !path.parts.isEmpty)⟩

/-- The element is a name. -/
def isName : Option (Element ν) → Bool
  | some (.name _) => true
  | _ => false

/-- Parts of a normalised path, behind those that are kept already. -/
def normalParts (absolute : Bool) : List (Element ν) → List (Element ν) → List (Element ν)
  | kept,[] => kept
  | kept,.here::rest => normalParts absolute kept rest
  | kept,.name name::rest => normalParts absolute (kept++[.name name]) rest
  | kept,.up::rest =>
    match kept.getLast? with
    | some (.name _) => normalParts absolute kept.dropLast rest
    | some _ => normalParts absolute (kept++[.up]) rest
    | none => normalParts absolute (if absolute then [] else [.up]) rest

/-- The normal form of a path, links aside. -/
def FsPath.lexicallyNormal (path : FsPath ν) : FsPath ν :=
  let kept := normalParts path.absolute [] path.parts
  if path.empty then path
  else if kept.isEmpty && !path.absolute then ⟨false,[.here],false⟩
  else ⟨path.absolute,kept,
    (path.slash || !isName path.parts.getLast?) && isName kept.getLast?⟩

/-- The parts with one for the slash at the end, which asks for a directory. -/
def FsPath.elements (path : FsPath ν) : List (Element ν) :=
  path.parts++if path.slash then [.here] else []

/-- Where the path starts. -/
def FsPath.start (cwd : Path ν) (path : FsPath ν) : Path ν := if path.absolute then [] else cwd

/-- Parts are normalised one after another. -/
theorem normalParts_append (absolute : Bool) (kept front back : List (Element ν)) :
    normalParts absolute kept (front++back)=
      normalParts absolute (normalParts absolute kept front) back := by
  induction front generalizing kept with
  | nil => rfl
  | cons part front ih =>
    cases part with
    | here => exact ih kept
    | name name => exact ih _
    | up =>
      rw [List.cons_append,normalParts,normalParts]
      split
      · exact ih _
      · exact ih _
      · exact ih _

theorem empty_of_parts {path : FsPath ν} {front : List (Element ν)} {last : Element ν}
    (h : path.parts=front++[last]) : path.empty=false := by
  unfold FsPath.empty
  rw [h,Bool.and_eq_false_iff]
  exact Or.inr (by simp)

/-- The last name of a path is kept. -/
theorem lexicallyNormal_name {path : FsPath ν} {front : List (Element ν)} {name : ν}
    (hslash : path.slash=false) (hparts : path.parts=front++[.name name]) :
    path.lexicallyNormal=
      ⟨path.absolute,normalParts path.absolute [] front++[.name name],false⟩ := by
  have hkept : normalParts path.absolute [] path.parts=
      normalParts path.absolute [] front++[.name name] := by
    rw [hparts,normalParts_append]
    rfl
  unfold FsPath.lexicallyNormal
  dsimp only
  rw [empty_of_parts hparts,if_neg Bool.false_ne_true,hkept,if_neg (by simp),hslash,
    hparts,List.getLast?_concat]
  rfl

/-- First parts that climb, then names; only a relative path climbs. -/
def Formed (absolute : Bool) (parts : List (Element ν)) : Prop :=
  ∃ (ups : ℕ) (names : List ν),
    parts=List.replicate ups .up++names.map .name ∧ (absolute=true → ups=0)

theorem formed_normalParts {absolute : Bool} {kept : List (Element ν)}
    (rest : List (Element ν)) (formed : Formed absolute kept) :
    Formed absolute (normalParts absolute kept rest) := by
  induction rest generalizing kept with
  | nil => exact formed
  | cons part rest ih =>
    obtain ⟨ups,names,hkept,hups⟩ := formed
    cases part with
    | here => exact ih ⟨ups,names,hkept,hups⟩
    | name name =>
      refine ih ⟨ups,names++[name],?_,hups⟩
      rw [hkept,List.append_assoc,List.map_append]
      rfl
    | up =>
      rw [normalParts]
      rcases List.eq_nil_or_concat names with hnil | ⟨front,last,hconcat⟩
      · rw [hnil,List.map_nil,List.append_nil] at hkept
        cases ups with
        | zero =>
          rw [hkept]
          dsimp only [List.replicate_zero,List.getLast?_nil]
          refine ih ?_
          cases absolute with
          | true => exact ⟨0,[],rfl,fun _ => rfl⟩
          | false => exact ⟨1,[],rfl,fun h => by cases h⟩
        | succ ups =>
          have hlast : kept.getLast?=some .up := by
            rw [hkept,List.replicate_succ',List.getLast?_concat]
          rw [hlast]
          refine ih ⟨ups+2,[],?_,fun h => absurd (hups h) (Nat.succ_ne_zero _)⟩
          rw [hkept,List.map_nil,List.append_nil,←List.replicate_succ']
      · have hsplit : kept=(List.replicate ups .up++front.map .name)++[.name last] := by
          rw [hkept,hconcat,List.concat_eq_append,List.map_append,←List.append_assoc]
          rfl
        rw [hsplit,List.getLast?_concat,List.dropLast_concat]
        exact ih ⟨ups,front,rfl,hups⟩

end Texts

section Leading

variable {ν β : Type*} [DecidableEq ν] (tree : Tree ν β) (cwd : Path ν)

/-- Where a path leads. -/
def FsPath.leads (path : FsPath ν) : Lead ν := lead tree maxLinks (path.start cwd) path.elements

/-- Where a path leads that asks for a directory. -/
def FsPath.leadsInto (path : FsPath ν) : Lead ν :=
  lead tree maxLinks (path.start cwd) (path.parts++[.here])

/-- Each name that is dropped with the `..` behind it leads back to where it stands,
as the name of a directory does, and a link to one beside it. -/
def PlainFrom (start : Path ν) (absolute : Bool) : List (Element ν) → List (Element ν) → Prop
  | _,[] => True
  | kept,.here::rest => PlainFrom start absolute kept rest
  | kept,.name name::rest => PlainFrom start absolute (kept++[.name name]) rest
  | kept,.up::rest =>
    match kept.getLast? with
    | some (.name _) =>
      (∃ place, lead tree maxLinks start (kept.dropLast++[.here])=.found place ∧
        lead tree maxLinks start (kept++[.up])=.found place) ∧
          PlainFrom start absolute kept.dropLast rest
    | some _ => PlainFrom start absolute (kept++[.up]) rest
    | none => PlainFrom start absolute (if absolute then [] else [.up]) rest

/-- Normalising the path drops only names that lead back to where they stand. -/
def FsPath.Plain (path : FsPath ν) : Prop :=
  PlainFrom tree (path.start cwd) path.absolute [] path.parts

variable {tree} {cwd}

/-- What is dropped from a path leads back to where it stands. -/
theorem lead_normalParts {start : Path ν} {absolute : Bool} {kept rest suffix : List (Element ν)}
    (hstart : absolute=true → start=[]) (hsuffix : suffix≠[])
    (plain : PlainFrom tree start absolute kept rest)
    (hlooped : lead tree maxLinks start (kept++(rest++suffix))≠.looped) :
    lead tree maxLinks start (normalParts absolute kept rest++suffix)=
      lead tree maxLinks start (kept++(rest++suffix)) := by
  induction rest generalizing kept with
  | nil => rfl
  | cons part rest ih =>
    have hbehind : rest++suffix≠[] := List.append_ne_nil_of_right_ne_nil _ hsuffix
    -- The parts kept after this one have to lead where the whole path does.
    have hnext : ∀ other, PlainFrom tree start absolute other rest →
        lead tree maxLinks start (other++(rest++suffix))=
          lead tree maxLinks start (kept++(part::rest++suffix)) →
        lead tree maxLinks start (normalParts absolute other rest++suffix)=
          lead tree maxLinks start (kept++(part::rest++suffix)) := by
      intro other hplain hsame
      rw [ih hplain (by rwa [hsame]),hsame]
    cases part with
    | here => exact hnext kept plain (lead_drop_here hbehind).symm
    | name name =>
      refine hnext (kept++[.name name]) plain ?_
      rw [List.append_assoc]
      rfl
    | up =>
      rw [normalParts]
      rw [PlainFrom] at plain
      cases hlast : kept.getLast? with
      | none =>
        rw [hlast] at plain
        dsimp only at plain ⊢
        refine hnext _ plain ?_
        rw [List.getLast?_eq_none_iff.mp hlast]
        cases habsolute : absolute with
        | true =>
          rw [hstart habsolute,List.nil_append,List.cons_append,lead_up]
          rfl
        | false => rfl
      | some last =>
        rw [hlast] at plain
        obtain ⟨front,rfl⟩ := List.getLast?_eq_some_iff.mp hlast
        cases last with
        | name name =>
          dsimp only at plain ⊢
          obtain ⟨⟨place,hplace,hback⟩,hplain⟩ := plain
          refine hnext _ hplain ?_
          rw [List.dropLast_concat] at hplace ⊢
          rw [List.append_assoc] at hback hlooped ⊢
          exact lead_back hplace hback hlooped
        | here =>
          dsimp only at plain ⊢
          refine hnext _ plain ?_
          rw [List.append_assoc (front++[Element.here])]
          rfl
        | up =>
          dsimp only at plain ⊢
          refine hnext _ plain ?_
          rw [List.append_assoc (front++[Element.up])]
          rfl

/-- The names of a normalised path are all kept. -/
theorem plainFrom_names {start : Path ν} {absolute : Bool} (kept : List (Element ν))
    (names : List ν) : PlainFrom tree start absolute kept (names.map .name) := by
  induction names generalizing kept with
  | nil => trivial
  | cons name names ih => exact ih _

theorem plainFrom_formed {start : Path ν} {absolute : Bool} {parts : List (Element ν)}
    (formed : Formed absolute parts) : PlainFrom tree start absolute [] parts := by
  obtain ⟨ups,names,hparts,hups⟩ := formed
  rw [hparts]
  cases absolute with
  | true =>
    rw [hups rfl]
    exact plainFrom_names [] names
  | false =>
    have hclimb : ∀ done left, PlainFrom tree start false (List.replicate done .up)
        (List.replicate left .up++names.map .name) := by
      intro done left
      induction left generalizing done with
      | zero => exact plainFrom_names _ names
      | succ left ih =>
        rw [List.replicate_succ,List.cons_append,PlainFrom]
        cases done with
        | zero => exact ih 1
        | succ done =>
          rw [List.replicate_succ',List.getLast?_concat]
          dsimp only
          rw [←List.replicate_succ',←List.replicate_succ']
          exact ih (done+2)
    exact hclimb 0 ups

variable (tree cwd) in
/-- A normalised path is normal already. -/
theorem plain_lexicallyNormal {path : FsPath ν} (hempty : path.empty=false) :
    path.lexicallyNormal.Plain tree cwd := by
  unfold FsPath.lexicallyNormal
  dsimp only
  rw [hempty,if_neg Bool.false_ne_true]
  split
  · exact trivial
  · refine plainFrom_formed (formed_normalParts _ ?_)
    exact ⟨0,[],rfl,fun _ => rfl⟩

omit [DecidableEq ν] in
/-- An absolute path starts at the root. -/
theorem start_of_absolute {path : FsPath ν} (h : path.absolute=true) : path.start cwd=[] := by
  unfold FsPath.start
  rw [if_pos h]

/-- Two paths are plain one after the other. -/
theorem plainFrom_append {start : Path ν} {absolute : Bool} {kept front back : List (Element ν)} :
    PlainFrom tree start absolute kept (front++back) ↔
      PlainFrom tree start absolute kept front ∧
        PlainFrom tree start absolute (normalParts absolute kept front) back := by
  induction front generalizing kept with
  | nil => exact (and_iff_right trivial).symm
  | cons part front ih =>
    cases part with
    | here => exact ih
    | name name => exact ih
    | up =>
      rw [List.cons_append,PlainFrom,PlainFrom,normalParts]
      cases kept.getLast? with
      | none => exact ih
      | some last =>
        cases last with
        | name name =>
          dsimp only
          rw [ih,and_assoc]
        | here => exact ih
        | up => exact ih

/-- The path asks for a directory. -/
def FsPath.asksDirectory (path : FsPath ν) : Bool := path.slash || !isName path.parts.getLast?

/-- A path that asks for a directory leads into it. -/
theorem leads_eq_leadsInto {path : FsPath ν} (h : path.asksDirectory=true) :
    path.leads tree cwd=path.leadsInto tree cwd := by
  unfold FsPath.leads FsPath.leadsInto FsPath.elements
  unfold FsPath.asksDirectory at h
  cases hslash : path.slash with
  | true => rfl
  | false =>
    rw [hslash,Bool.false_or,Bool.not_eq_true'] at h
    rw [if_neg Bool.false_ne_true,List.append_nil]
    rcases List.eq_nil_or_concat path.parts with hnil | ⟨front,last,hconcat⟩
    · rw [hnil,List.nil_append,lead_here]
    · rw [List.concat_eq_append] at hconcat
      rw [hconcat,List.getLast?_concat] at h
      rw [hconcat,List.append_assoc]
      refine (lead_last_here ?_).symm
      rintro name rfl
      cases h

/-- A path that is normalised leads to the same directory. -/
theorem leadsInto_lexicallyNormal {path : FsPath ν} (plain : path.Plain tree cwd)
    (hlooped : path.leadsInto tree cwd≠.looped) :
    path.lexicallyNormal.leadsInto tree cwd=path.leadsInto tree cwd := by
  have hkept : lead tree maxLinks (path.start cwd)
      (normalParts path.absolute [] path.parts++[.here])=
      lead tree maxLinks (path.start cwd) (path.parts++[.here]) :=
    lead_normalParts start_of_absolute (List.cons_ne_nil _ _) plain hlooped
  unfold FsPath.lexicallyNormal
  dsimp only
  split
  · rfl
  · split
    · rename_i hnone
      rw [Bool.and_eq_true,List.isEmpty_iff,Bool.not_eq_true'] at hnone
      rw [hnone.1] at hkept
      have hstart : path.start cwd=cwd := by
        unfold FsPath.start
        rw [hnone.2,if_neg Bool.false_ne_true]
      unfold FsPath.leadsInto
      rw [←hkept,hstart]
      exact lead_here
    · exact hkept

omit [DecidableEq ν] in
/-- A path that asks for a directory still does when it is normalised. -/
theorem asksDirectory_lexicallyNormal {path : FsPath ν} (h : path.asksDirectory=true) :
    path.lexicallyNormal.asksDirectory=true := by
  unfold FsPath.lexicallyNormal
  dsimp only
  split
  · exact h
  · split
    · rfl
    · unfold FsPath.asksDirectory at h ⊢
      dsimp only
      rw [h,Bool.true_and]
      cases isName (normalParts path.absolute [] path.parts).getLast? <;> rfl

/-- A path that is normalised leads to the same place. -/
theorem leads_lexicallyNormal {path : FsPath ν} (plain : path.Plain tree cwd)
    (hlooped : path.leads tree cwd≠.looped) :
    path.lexicallyNormal.leads tree cwd=path.leads tree cwd := by
  cases hasks : path.asksDirectory with
  | true =>
    rw [leads_eq_leadsInto hasks] at hlooped ⊢
    rw [←leadsInto_lexicallyNormal plain hlooped,
      leads_eq_leadsInto (asksDirectory_lexicallyNormal hasks)]
  | false =>
    unfold FsPath.asksDirectory at hasks
    rw [Bool.or_eq_false_iff,Bool.not_eq_false'] at hasks
    obtain ⟨hslash,hname⟩ := hasks
    rcases List.eq_nil_or_concat path.parts with hnil | ⟨front,last,hconcat⟩
    · rw [hnil] at hname
      cases hname
    · rw [List.concat_eq_append] at hconcat
      rw [hconcat,List.getLast?_concat] at hname
      cases last with
      | here => cases hname
      | up => cases hname
      | name name =>
        have hfront : PlainFrom tree (path.start cwd) path.absolute [] front := by
          unfold FsPath.Plain at plain
          rw [hconcat] at plain
          exact (plainFrom_append.mp plain).1
        have hwhole : path.leads tree cwd=
            lead tree maxLinks (path.start cwd) (front++[.name name]) := by
          unfold FsPath.leads FsPath.elements
          rw [hslash,if_neg Bool.false_ne_true,List.append_nil,hconcat]
        rw [hwhole] at hlooped ⊢
        rw [lexicallyNormal_name hslash hconcat]
        exact (congrArg _ (List.append_nil _)).trans
          (lead_normalParts start_of_absolute (List.cons_ne_nil _ _) hfront hlooped)

end Leading

end Vinput.LexicalPaths
