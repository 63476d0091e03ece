import Mathlib.Data.List.Basic
import Mathlib.Data.List.Induction
import Mathlib.Tactic.SplitIfs

/-!
# Identities of resources and their paths

An identity is a type, a parent and a leaf with dots between them; the leaf
may hold dots of its own. The resource is installed under its parent and its
leaf. Paths are lists of names. Only a parent without dots and a leaf whose
dots stand between letters can be read back from an identity.
-/

namespace Vinput.ResourceIds

section Separators

variable {α : Type*} {x : α}

/-- Names are joined by adding one to what was joined before, if anything. -/
def joinNames [DecidableEq α] (x : α) (names : List (List α)) : List α :=
  names.foldl (fun joined name => if joined=[] then name else joined++x::name) []

/-- The parts of a split list do not hold the separator. -/
theorem not_mem_of_mem_splitOn [DecidableEq α] {text : List α} : ∀ token∈text.splitOn x, x∉token := by
  induction text with
  | nil => simp
  | cons letter rest ih =>
    rw [List.splitOn_cons_eq_if_modifyHead]
    split_ifs with hletter
    · simpa using ih
    · cases hsplit : rest.splitOn x with
      | nil => simp
      | cons first later =>
        rw [hsplit,List.forall_mem_cons] at ih
        have hother : x≠letter := fun h => hletter (by simp [h])
        simpa [hother] using ih

/-- Names that are not empty make a text that is not. -/
theorem intercalate_ne_nil {names : List (List α)} (hnames : names≠[])
    (h : ∀ name∈names, name≠[]) : [x].intercalate names≠[] := by
  obtain ⟨first,rest,rfl⟩ := List.exists_cons_of_ne_nil hnames
  have hfirst : first≠[] := h first List.mem_cons_self
  cases rest with
  | nil => simpa using hfirst
  | cons next later => simp

/-- The last name comes behind a separator. -/
theorem intercalate_concat {names : List (List α)} (hnames : names≠[]) (name : List α) :
    [x].intercalate (names++[name])=[x].intercalate names++x::name := by
  induction names with
  | nil => exact absurd rfl hnames
  | cons first rest ih =>
    cases rest with
    | nil => simp
    | cons next later =>
      have hrest := ih (by simp)
      rw [List.cons_append] at hrest
      simp [hrest]

/-- Names that are not empty are joined by the separator. -/
theorem joinNames_eq [DecidableEq α] {names : List (List α)} (h : ∀ name∈names, name≠[]) :
    joinNames x names=[x].intercalate names := by
  induction names using List.reverseRecOn with
  | nil => rfl
  | append_singleton names name ih =>
    have hfront : ∀ other∈names, other≠[] := fun other hother => h other (List.mem_append_left _ hother)
    have hjoined := ih hfront
    rw [joinNames] at hjoined ⊢
    rw [List.foldl_append,hjoined]
    by_cases hempty : names=[]
    · simp [hempty]
    · rw [List.foldl_cons,List.foldl_nil,if_neg (intercalate_ne_nil hempty hfront),
        intercalate_concat hempty]

end Separators

section Ids

/-- The parts of an identity. -/
structure Segments where
  type : List Char
  parent : List Char
  leaf : List Char

/-- A name that stands for no directory of its own. -/
def isSpecial (name : List Char) : Bool :=
  decide (name=[]) || decide (name=['.']) || decide (name=['.','.'])

/-- A name with a slash or a backslash. -/
def hasSlash (name : List Char) : Bool :=
  decide ('/'∈name) || decide ('\\'∈name)

/-- The parts of an identity of any type. -/
def splitResourceId (id : List Char) : Option Segments :=
  if isSpecial id || hasSlash id then none
  else
    match id.splitOn '.' with
    | type::parent::rest =>
      if rest=[] ∨ (type::parent::rest).any isSpecial then none
      else
        let leaf := joinNames '.' rest
        if type=[] ∨ parent=[] ∨ leaf=[] then none else some ⟨type,parent,leaf⟩
    | _ => none

/-- The type of the identities of models. -/
def modelType : List Char := ['m','o','d','e','l']

/-- The segments of the identity of a model. -/
def splitModelId (id : List Char) : Option Segments :=
  (splitResourceId id).filter fun segments => decide (segments.type=modelType)

/-- The path of the parts of an identity; no path is empty. -/
def pathOf : Option Segments → List (List Char)
  | some segments => [segments.parent,segments.leaf]
  | none => []

/-- The identity of a path of a type, unless a name is refused. -/
def idOf (refused : List Char → Bool) (type : List Char) (path : List (List Char)) : List Char :=
  if path.any refused ∨ path.length≠2 then [] else ['.'].intercalate (type::path)

/-- Paths of scripts. -/
def scriptPathForId (id : List Char) : List (List Char) := pathOf (splitResourceId id)

/-- Paths of models. -/
def modelPathForId (id : List Char) : List (List Char) := pathOf (splitModelId id)

/-- Identities of scripts. -/
def scriptIdFromPath (type : List Char) (path : List (List Char)) : List Char :=
  if isSpecial type || decide ('.'∈type) || hasSlash type then []
  else idOf (fun name => isSpecial name || hasSlash name) type path

/-- Identities of models. -/
def modelIdFromPath (path : List (List Char)) : List Char := idOf isSpecial modelType path

/-- Parts that can be read back from their identity. -/
structure Plain (parent leaf : List Char) : Prop where
  parent_ne : parent≠[]
  parent_dots : '.'∉parent
  leaf_dots : ∀ token∈leaf.splitOn '.', token≠[]
  parent_slash : hasSlash parent=false
  leaf_slash : hasSlash leaf=false

instance (parent leaf : List Char) : Decidable (Plain parent leaf) :=
  decidable_of_iff (parent≠[] ∧ '.'∉parent ∧ (∀ token∈leaf.splitOn '.', token≠[]) ∧
    hasSlash parent=false ∧ hasSlash leaf=false)
    ⟨fun ⟨h₁,h₂,h₃,h₄,h₅⟩ => ⟨h₁,h₂,h₃,h₄,h₅⟩,fun ⟨h₁,h₂,h₃,h₄,h₅⟩ => ⟨h₁,h₂,h₃,h₄,h₅⟩⟩

/-- A type that can be read back. -/
structure PlainType (type : List Char) : Prop where
  ne : type≠[]
  dots : '.'∉type
  slash : hasSlash type=false

variable {id type parent leaf : List Char}

/-- A joined name has a slash in one of its parts. -/
theorem hasSlash_append (left right : List Char) :
    hasSlash (left++ '.'::right)=(hasSlash left || hasSlash right) := by
  simp only [hasSlash,List.mem_append,List.mem_cons]
  grind

/-- A name without dots is not special. -/
theorem isSpecial_of_no_dot {name : List Char} (hname : name≠[]) (hdots : '.'∉name) :
    isSpecial name=false := by
  simp only [isSpecial,Bool.or_eq_false_iff,decide_eq_false_iff_not]
  refine ⟨⟨hname,?_⟩,?_⟩
  · rintro rfl
    simp at hdots
  · rintro rfl
    simp at hdots

/-- The identity of its parts. -/
def joined (type parent leaf : List Char) : List Char := type++ '.'::(parent++ '.'::leaf)

/-- A joined identity splits into type, parent and leaf. -/
theorem splitOn_joined (htype : '.'∉type) (hparent : '.'∉parent) :
    (joined type parent leaf).splitOn '.'=type::parent::leaf.splitOn '.' := by
  rw [joined,List.splitOn_append_cons_self_of_not_mem htype,
    List.splitOn_append_cons_self_of_not_mem hparent]

/-- The type stands in front of the first dot. -/
theorem splitOn_joined_type (htype : '.'∉type) :
    ((joined type parent leaf).splitOn '.').head?=some type := by
  rw [joined,List.splitOn_append_cons_self_of_not_mem htype,List.head?_cons]

/-- An identity with plain parts is split into them. -/
theorem splitResourceId_joined (htype : PlainType type) (h : Plain parent leaf) :
    splitResourceId (joined type parent leaf)=some ⟨type,parent,leaf⟩ := by
  have hspecial : isSpecial (joined type parent leaf)=false := by
    obtain ⟨first,rest,hfirst⟩ := List.exists_cons_of_ne_nil htype.ne
    have hdot : first≠ '.' := by
      rintro rfl
      exact htype.dots (by simp [hfirst])
    simp [isSpecial,joined,hfirst,hdot]
  have hslash : hasSlash (joined type parent leaf)=false := by
    rw [joined,hasSlash_append,hasSlash_append,htype.slash,h.parent_slash,h.leaf_slash]
    rfl
  have hplain : (type::parent::leaf.splitOn '.').any isSpecial=false := by
    rw [List.any_eq_false]
    intro token htoken
    have hparts : token≠[] ∧ '.'∉token := by
      rcases List.mem_cons.mp htoken with rfl | htoken
      · exact ⟨htype.ne,htype.dots⟩
      rcases List.mem_cons.mp htoken with rfl | htoken
      · exact ⟨h.parent_ne,h.parent_dots⟩
      · exact ⟨h.leaf_dots token htoken,not_mem_of_mem_splitOn token htoken⟩
    simp [isSpecial_of_no_dot hparts.1 hparts.2]
  have hleaf : joinNames '.' (leaf.splitOn '.')=leaf := by
    rw [joinNames_eq h.leaf_dots,List.intercalate_splitOn]
  have hne : leaf≠[] := by
    rintro rfl
    exact h.leaf_dots [] (by simp) rfl
  rw [splitResourceId,hspecial,hslash,splitOn_joined htype.dots h.parent_dots]
  simp [hplain,hleaf,hne,htype.ne,h.parent_ne,List.splitOn_ne_nil]

/-- What an identity is split into is plain, and joins to the identity. -/
theorem splitResourceId_spec {segments : Segments} (h : splitResourceId id=some segments) :
    PlainType segments.type ∧ Plain segments.parent segments.leaf ∧
      id=joined segments.type segments.parent segments.leaf := by
  rw [splitResourceId] at h
  split_ifs at h with hrefused
  cases hsplit : id.splitOn '.' with
  | nil => simp [hsplit] at h
  | cons type others =>
  cases others with
  | nil => simp [hsplit] at h
  | cons parent rest =>
    rw [hsplit] at h
    dsimp only at h
    split_ifs at h with hbad hempty
    obtain rfl := Option.some.inj h
    obtain ⟨hrest,hspecial⟩ := not_or.mp hbad
    have htokens : ∀ token∈type::parent::rest, token≠[] ∧ '.'∉token := by
      intro token htoken
      refine ⟨?_,not_mem_of_mem_splitOn token (hsplit ▸ htoken)⟩
      rintro rfl
      exact hspecial (List.any_eq_true.mpr ⟨[],htoken,rfl⟩)
    have hleaf : joinNames '.' rest=['.'].intercalate rest :=
      joinNames_eq fun name hname => (htokens name (by simp [hname])).1
    have hleafTokens : (joinNames '.' rest).splitOn '.'=rest := by
      rw [hleaf]
      exact List.splitOn_intercalate '.' (fun name hname => (htokens name (by simp [hname])).2) hrest
    have hid : id=joined type parent (joinNames '.' rest) := by
      have hjoin : ['.'].intercalate (id.splitOn '.')=id := List.intercalate_splitOn '.'
      rw [hsplit,List.intercalate_cons_cons,List.intercalate_cons_of_ne_nil hrest] at hjoin
      rw [← hjoin,hleaf]
      simp [joined]
    have hslash : hasSlash id=false := by
      simp only [Bool.or_eq_true,not_or,Bool.not_eq_true] at hrefused
      exact hrefused.2
    rw [hid,joined,hasSlash_append,hasSlash_append] at hslash
    simp only [Bool.or_eq_false_iff] at hslash
    refine ⟨⟨(htokens type (by simp)).1,(htokens type (by simp)).2,hslash.1⟩,
      ⟨(htokens parent (by simp)).1,(htokens parent (by simp)).2,?_,hslash.2.1,hslash.2.2⟩,hid⟩
    dsimp only
    rw [hleafTokens]
    exact fun token htoken => (htokens token (by simp [htoken])).1

end Ids

section RoundTrips

variable {id type parent leaf : List Char} {path : List (List Char)}

/-- Identities come from two names. -/
theorem idOf_ne_nil {refused : List Char → Bool} (h : idOf refused type path≠[]) :
    ∃ parent leaf, path=[parent,leaf] ∧ refused parent=false ∧ refused leaf=false := by
  rw [idOf] at h
  split_ifs at h with hpath
  · exact absurd rfl h
  obtain ⟨hany,hlength⟩ := not_or.mp hpath
  have htwo : path.length=2 := not_not.mp hlength
  obtain ⟨parent,leaf,rfl⟩ := List.length_eq_two.mp htwo
  exact ⟨parent,leaf,rfl,by simpa [not_or] using hany⟩

/-- Two names that are not refused make an identity. -/
theorem idOf_names {refused : List Char → Bool} (hparent : refused parent=false)
    (hleaf : refused leaf=false) : idOf refused type [parent,leaf]=joined type parent leaf := by
  simp [idOf,hparent,hleaf,joined]

theorem Plain.leaf_special (h : Plain parent leaf) : isSpecial leaf=false := by
  simp only [isSpecial,Bool.or_eq_false_iff,decide_eq_false_iff_not]
  refine ⟨⟨?_,?_⟩,?_⟩
  all_goals
    rintro rfl
    exact h.leaf_dots [] (by decide) rfl

theorem Plain.parent_special (h : Plain parent leaf) : isSpecial parent=false :=
  isSpecial_of_no_dot h.parent_ne h.parent_dots

theorem PlainType.special (h : PlainType type) : isSpecial type=false :=
  isSpecial_of_no_dot h.ne h.dots

/-- A type for the paths of scripts is plain. -/
theorem plainType_iff :
    (isSpecial type || decide ('.'∈type) || hasSlash type)=false ↔ PlainType type := by
  constructor
  · intro h
    simp only [Bool.or_eq_false_iff,decide_eq_false_iff_not] at h
    refine ⟨?_,h.1.2,h.2⟩
    rintro rfl
    simp [isSpecial] at h
  · intro h
    simp [h.special,h.dots,h.slash]

theorem modelType_plain : PlainType modelType := ⟨by decide,by decide,by decide⟩

/-- A script's path leads back to its identity. -/
theorem script_id_of_path (hpath : scriptPathForId id≠[]) :
    ∃ segments, splitResourceId id=some segments ∧
      scriptIdFromPath segments.type (scriptPathForId id)=id := by
  cases hsplit : splitResourceId id with
  | none => simp [scriptPathForId,hsplit,pathOf] at hpath
  | some segments =>
    obtain ⟨htype,hplain,hid⟩ := splitResourceId_spec hsplit
    refine ⟨segments,rfl,?_⟩
    rw [scriptPathForId,hsplit,pathOf,scriptIdFromPath,plainType_iff.mpr htype,if_neg (by simp),
      idOf_names,← hid]
    · rw [hplain.parent_special,hplain.parent_slash]
      rfl
    · rw [hplain.leaf_special,hplain.leaf_slash]
      rfl

/-- A model's path leads back to its identity. -/
theorem model_id_of_path (hpath : modelPathForId id≠[]) :
    modelIdFromPath (modelPathForId id)=id := by
  cases hsplit : splitModelId id with
  | none => simp [modelPathForId,hsplit,pathOf] at hpath
  | some segments =>
    obtain ⟨hsegments,htype⟩ := Option.filter_eq_some_iff.mp hsplit
    obtain ⟨_,hplain,hid⟩ := splitResourceId_spec hsegments
    rw [modelPathForId,hsplit,pathOf,modelIdFromPath,idOf_names hplain.parent_special
      hplain.leaf_special,hid,of_decide_eq_true htype]

/-- The names of a model are plain, and its identity is no path. -/
theorem modelPath_plain (hpath : modelPathForId id=[parent,leaf]) :
    Plain parent leaf ∧ '/'∉id := by
  cases hsplit : splitModelId id with
  | none => simp [modelPathForId,hsplit,pathOf] at hpath
  | some segments =>
    obtain ⟨hsegments,_⟩ := Option.filter_eq_some_iff.mp hsplit
    have hplain := (splitResourceId_spec hsegments).2.1
    rw [modelPathForId,hsplit,pathOf,List.cons.injEq,List.cons.injEq] at hpath
    rw [hpath.1,hpath.2.1] at hplain
    refine ⟨hplain,?_⟩
    rw [splitResourceId] at hsegments
    split_ifs at hsegments with hrefused
    simp only [hasSlash,Bool.or_eq_true,decide_eq_true_eq,not_or] at hrefused
    exact hrefused.2.1

/-- Names are plain. -/
def PlainPath (path : List (List Char)) : Prop :=
  ∃ parent leaf, path=[parent,leaf] ∧ Plain parent leaf

/-- An identity leads to a path just if its names are plain. -/
theorem splitResourceId_path (htype : PlainType type) :
    pathOf (splitResourceId (joined type parent leaf))=[parent,leaf] ↔ Plain parent leaf := by
  constructor
  · intro h
    cases hsplit : splitResourceId (joined type parent leaf) with
    | none => simp [hsplit,pathOf] at h
    | some segments =>
      rw [hsplit,pathOf,List.cons.injEq,List.cons.injEq] at h
      have hplain := (splitResourceId_spec hsplit).2.1
      rwa [h.1,h.2.1] at hplain
  · intro h
    rw [splitResourceId_joined htype h,pathOf]

/-- A path of a script leads back to itself just if its names are plain. -/
theorem script_path_of_id (hid : scriptIdFromPath type path≠[]) :
    scriptPathForId (scriptIdFromPath type path)=path ↔ PlainPath path := by
  rw [scriptIdFromPath] at hid ⊢
  split_ifs at hid ⊢ with htype
  · exact absurd rfl hid
  obtain ⟨parent,leaf,rfl,hparent,hleaf⟩ := idOf_ne_nil hid
  rw [idOf_names hparent hleaf,scriptPathForId,
    splitResourceId_path (plainType_iff.mp (by simpa using htype))]
  simp [PlainPath]

/-- The type is kept by every path of a model. -/
theorem splitModelId_path :
    pathOf (splitModelId (joined modelType parent leaf))=[parent,leaf] ↔ Plain parent leaf := by
  rw [← splitResourceId_path modelType_plain,splitModelId]
  cases hsplit : splitResourceId (joined modelType parent leaf) with
  | none => simp [pathOf]
  | some segments =>
    obtain ⟨htype,_,hjoined⟩ := splitResourceId_spec hsplit
    have hsame : segments.type=modelType := by
      have hleft : ((joined modelType parent leaf).splitOn '.').head?=some modelType :=
        splitOn_joined_type modelType_plain.dots
      rw [hjoined,splitOn_joined_type htype.dots] at hleft
      exact Option.some.inj hleft
    rw [Option.filter_some,if_pos (by simpa using hsame)]

/-- A path of a model leads back to itself just if its names are plain. -/
theorem model_path_of_id (hid : modelIdFromPath path≠[]) :
    modelPathForId (modelIdFromPath path)=path ↔ PlainPath path := by
  obtain ⟨parent,leaf,rfl,hparent,hleaf⟩ := idOf_ne_nil hid
  rw [modelIdFromPath,idOf_names hparent hleaf,modelPathForId,splitModelId_path]
  simp [PlainPath]

end RoundTrips

end Vinput.ResourceIds
