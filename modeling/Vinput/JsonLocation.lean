import Mathlib.Data.List.Forall2
import Mathlib.Data.List.Infix
import Vinput.JsonTree

/-!
# Places in a JSON tree

A place is the way from the root to a node, through members of objects and
elements of arrays. Replacing the node at a place leaves every node alone
that is neither above nor below it. Trees that agree apart from a place are
compared child by child.
-/

namespace Vinput.JsonLocation

open JsonTree

/-- One step from a node to a child. -/
inductive Step where
  | key (name : String)
  | index (position : ℕ)
deriving DecidableEq

/-- The way from a root to a node. -/
abbrev Location := List Step

/-- The child a step leads to. -/
def child : Json → Step → Option Json
  | .object members,.key name => members.lookup name
  | .array elements,.index position => elements[position]?
  | _,_ => none

/-- The node at a place. -/
def nodeAt : Location → Json → Option Json
  | [],node => some node
  | step::rest,node => (child node step).bind (nodeAt rest)

/-- Change the first member of a name. -/
def modifyMember (name : String) (change : Json → Json) :
    List (String×Json) → List (String×Json)
  | [] => []
  | (other,value)::rest =>
    if name=other then (other,change value)::rest
    else (other,value)::modifyMember name change rest

/-- Put a value at a place; a place that is not there is left out. -/
def replace : Location → Json → Json → Json
  | [],value,_ => value
  | .key name::rest,value,.object members =>
    .object (modifyMember name (replace rest value) members)
  | .index position::rest,value,.array elements =>
    .array (elements.modify position (replace rest value))
  | _::_,_,node => node

/-- A place is looked up step by step. -/
theorem nodeAt_cons {step : Step} {rest : Location} {node inner : Json}
    (h : child node step=some inner) : nodeAt (step::rest) node=nodeAt rest inner := by
  show (child node step).bind (nodeAt rest)=nodeAt rest inner
  rw [h]
  rfl

/-- A place one step away is a child. -/
theorem nodeAt_single (step : Step) (node : Json) : nodeAt [step] node=child node step := by
  show (child node step).bind (nodeAt [])=child node step
  cases child node step <;> rfl

/-- A place below another is reached through it. -/
theorem nodeAt_append (above below : Location) (node : Json) :
    nodeAt (above++below) node=(nodeAt above node).bind (nodeAt below) := by
  induction above generalizing node with
  | nil => rfl
  | cons step rest ih =>
    show (child node step).bind (nodeAt (rest++below))=
      ((child node step).bind (nodeAt rest)).bind (nodeAt below)
    cases child node step with
    | none => rfl
    | some inner => exact ih inner

/-- A place below a node is looked up in that node. -/
theorem nodeAt_below {above : Location} {node inner : Json} (h : nodeAt above node=some inner)
    (below : Location) : nodeAt (above++below) node=nodeAt below inner := by
  rw [nodeAt_append,h]
  rfl

/-- An element of a list that was found. -/
theorem nodeAt_element {list : Location} {node inner : Json} (h : nodeAt list node=some inner)
    (position : ℕ) : nodeAt (list++[.index position]) node=child inner (.index position) := by
  rw [nodeAt_below h,nodeAt_single]

section Replace

variable {name other : String} {change : Json → Json} {members : List (String×Json)}

theorem lookup_modifyMember_self (name : String) (change : Json → Json)
    (members : List (String×Json)) :
    (modifyMember name change members).lookup name=(members.lookup name).map change := by
  induction members with
  | nil => rfl
  | cons entry rest ih =>
    obtain ⟨found,value⟩ := entry
    dsimp only [modifyMember]
    by_cases hname : name=found
    · rw [if_pos hname,List.lookup_cons,List.lookup_cons,beq_iff_eq.mpr hname]
      rfl
    · rw [if_neg hname,List.lookup_cons,List.lookup_cons,beq_false_of_ne hname]
      exact ih

theorem lookup_modifyMember_of_ne (hother : other≠name) (members : List (String×Json)) :
    (modifyMember name change members).lookup other=members.lookup other := by
  induction members with
  | nil => rfl
  | cons entry rest ih =>
    obtain ⟨found,value⟩ := entry
    dsimp only [modifyMember]
    by_cases hname : name=found
    · rw [if_pos hname,List.lookup_cons,List.lookup_cons,
        beq_false_of_ne fun h => hother (h.trans hname.symm)]
    · rw [if_neg hname,List.lookup_cons,List.lookup_cons,ih]

/-- The child on the way to the place is replaced further down. -/
theorem child_replace_self (step : Step) (rest : Location) (value node : Json) :
    child (replace (step::rest) value node) step=(child node step).map (replace rest value) := by
  cases step with
  | key name =>
    cases node with
    | object members => exact lookup_modifyMember_self name (replace rest value) members
    | _ => rfl
  | index position =>
    cases node with
    | array elements =>
      show (elements.modify position (replace rest value))[position]?=
        elements[position]?.map (replace rest value)
      rw [List.getElem?_modify_eq,Option.map_eq_map]
    | _ => rfl

/-- Other children stay. -/
theorem child_replace_of_ne {step other : Step} (hother : other≠step) (rest : Location)
    (value node : Json) : child (replace (step::rest) value node) other=child node other := by
  cases step with
  | key name =>
    cases node with
    | object members =>
      cases other with
      | key found =>
        exact lookup_modifyMember_of_ne (fun h => hother (congrArg Step.key h)) members
      | index position => rfl
    | _ => rfl
  | index position =>
    cases node with
    | array elements =>
      cases other with
      | key found => rfl
      | index found =>
        show (elements.modify position (replace rest value))[found]?=elements[found]?
        rw [List.getElem?_modify_ne]
        exact fun h => hother (congrArg Step.index h.symm)
    | _ => rfl

end Replace

section Agreement

/-- Neither place is above the other. -/
def Apart (left right : Location) : Prop := ¬left <+: right ∧ ¬right <+: left

/-- Two trees, either of which may be missing, agree at every place that is
apart from the given one and not excepted. -/
def AgreeApart (skip : Location → Prop) (place : Location) (left right : Option Json) : Prop :=
  ∀ other, Apart other place → ¬skip other → left.bind (nodeAt other)=right.bind (nodeAt other)

/-- Two trees agree at every place that is not excepted. -/
def Agree (skip : Location → Prop) (left right : Option Json) : Prop :=
  ∀ other, ¬skip other → left.bind (nodeAt other)=right.bind (nodeAt other)

variable {skip : Location → Prop} {place : Location} {left right : Option Json}

theorem agree_of_eq (h : left=right) : Agree skip left right := fun _ _ => by rw [h]

/-- Trees that agree also agree apart from a place. -/
theorem Agree.apart (h : Agree skip left right) : AgreeApart skip place left right :=
  fun other _ hskip => h other hskip

/-- Every place is below the root. -/
theorem agreeApart_root (left right : Option Json) : AgreeApart skip [] left right :=
  fun _ hapart => absurd List.nil_prefix hapart.2

/-- A place in a tree that may be absent. -/
theorem bind_nodeAt_cons (node : Option Json) (step : Step) (rest : Location) :
    node.bind (nodeAt (step::rest))=(node.bind (child · step)).bind (nodeAt rest) := by
  cases node <;> rfl

/-- Below the root only children are looked at. -/
theorem agreeApart_children {step : Step} {left' right' : Option Json}
    (hleft : ∀ other, left.bind (child · other)=left'.bind (child · other))
    (hright : ∀ other, right.bind (child · other)=right'.bind (child · other))
    (h : AgreeApart skip (step::place) left' right') :
    AgreeApart skip (step::place) left right := by
  intro other hapart hskip
  cases other with
  | nil => exact absurd List.nil_prefix hapart.1
  | cons first rest =>
    rw [bind_nodeAt_cons,bind_nodeAt_cons,hleft,hright,← bind_nodeAt_cons,← bind_nodeAt_cons]
    exact h (first::rest) hapart hskip

/-- Trees agree apart from a place when the other children agree and the
child on the way agrees apart from the rest of the way. -/
theorem agreeApart_step {step : Step}
    (others : ∀ other, other≠step → Agree (fun rest => skip (other::rest))
      (left.bind (child · other)) (right.bind (child · other)))
    (below : AgreeApart (fun rest => skip (step::rest)) place
      (left.bind (child · step)) (right.bind (child · step))) :
    AgreeApart skip (step::place) left right := by
  intro other hapart hskip
  cases other with
  | nil => exact absurd List.nil_prefix hapart.1
  | cons first rest =>
    rw [bind_nodeAt_cons,bind_nodeAt_cons]
    by_cases hfirst : first=step
    · subst hfirst
      refine below rest ⟨?_,?_⟩ hskip
      · exact fun h => hapart.1 (List.cons_prefix_cons.mpr ⟨rfl,h⟩)
      · exact fun h => hapart.2 (List.cons_prefix_cons.mpr ⟨rfl,h⟩)
    · exact others first hfirst rest hskip

/-- Replacing a node is seen at places above and below it only. -/
theorem agreeApart_replace (place : Location) (value : Json) (node : Option Json) :
    AgreeApart skip place node (node.map (replace place value)) := by
  induction place generalizing node skip with
  | nil => exact agreeApart_root _ _
  | cons step rest ih =>
    cases node with
    | none => exact (agree_of_eq rfl).apart
    | some node =>
      refine agreeApart_step ?_ ?_
      · intro other hother
        exact agree_of_eq (child_replace_of_ne hother rest value node).symm
      · dsimp only [Option.map_some,Option.bind_some]
        rw [child_replace_self]
        exact ih (child node step)

end Agreement

section Members

/-- A node without children. -/
def isLeaf : Json → Bool
  | .array _ => false
  | .object _ => false
  | _ => true

/-- Nothing but a leaf is written. -/
theorem leaf_of_map {α : Type*} {write : α → Json} (leaf : ∀ value, isLeaf (write value)=true)
    {value : Option α} {node : Json} (h : value.map write=some node) : isLeaf node=true := by
  obtain ⟨written,_,hsame⟩ := Option.map_eq_some_iff.mp h
  rw [← hsame]
  exact leaf written

theorem leaf_of_some {leaf node : Json} (hleaf : isLeaf leaf=true) (h : some leaf=some node) :
    isLeaf node=true := Option.some.inj h ▸ hleaf

/-- Nothing is put below a leaf. -/
theorem replace_leaf {node : Json} (leaf : isLeaf node=true) (step : Step) (rest : Location)
    (value : Json) : replace (step::rest) value node=node := by
  cases node with
  | array elements => cases leaf
  | object members => cases leaf
  | _ => cases step <;> rfl

/-- A container stays one when something is put below it. -/
theorem isLeaf_replace {node : Json} (container : isLeaf node=false) (step : Step)
    (rest : Location) (value : Json) : isLeaf (replace (step::rest) value node)=false := by
  cases node with
  | array elements => cases step <;> rfl
  | object members => cases step <;> rfl
  | _ => cases container

theorem ne_null_of_container {node : Json} (container : isLeaf node=false) : node≠.null := by
  intro h
  rw [h] at container
  cases container

/-- Trees that are made of a node child by child agree apart from a place
when they agree below the container it goes through. -/
theorem agreeApart_record {skip : Location → Prop} (node value : Json) {left right : Json}
    {step : Step} {rest : Location}
    (same : ∀ other, child (replace (step::rest) value node) other=child node other →
      Agree (fun later => skip (other::later)) (child left other) (child right other))
    (below : rest≠[] → ∀ inner, child node step=some inner → isLeaf inner=false →
      AgreeApart (fun later => skip (step::later)) rest (child left step) (child right step)) :
    AgreeApart skip (step::rest) (some left) (some right) := by
  refine agreeApart_step (fun other hother => same other (child_replace_of_ne hother rest value node))
    ?_
  cases rest with
  | nil => exact agreeApart_root _ _
  | cons next later =>
    have hself := child_replace_self step (next::later) value node
    cases hinner : child node step with
    | none =>
      rw [hinner] at hself
      exact (same step (hself.trans hinner.symm)).apart
    | some inner =>
      rw [hinner] at hself
      cases hleaf : isLeaf inner with
      | true =>
        rw [Option.map_some,replace_leaf hleaf] at hself
        exact (same step (hself.trans hinner.symm)).apart
      | false => exact below nofun inner hinner hleaf

/-- The child under a key is the member. -/
theorem child_key (node : Json) (key : String) : child node (.key key)=node.find key := by
  cases node <;> rfl

/-- Members of objects that are written alike under a key. -/
theorem find_ofMembers_congr {key : String} {left right : List (String×Option Json)}
    (h : List.Forall₂ (fun l r => l.1=r.1 ∧ (key=l.1 → l.2=r.2)) left right) :
    (ofMembers left).find key=(ofMembers right).find key := by
  induction h with
  | nil => rfl
  | @cons l r left right hentry _ ih =>
    obtain ⟨name,value⟩ := l
    obtain ⟨_,other⟩ := r
    obtain ⟨rfl,hvalue⟩ := hentry
    dsimp only at hvalue
    have hskip : ∀ (value : Option Json) (rest : List (String×Option Json)), key≠name →
        (ofMembers ((name,value)::rest)).find key=(ofMembers rest).find key := by
      intro value rest hkey
      cases value with
      | none => rfl
      | some value =>
        show List.lookup key ((name,value)::_)=_
        rw [List.lookup_cons,beq_false_of_ne hkey]
        rfl
    by_cases hkey : key=name
    · rw [hvalue hkey]
      cases other with
      | none => exact ih
      | some other =>
        show List.lookup key ((name,other)::_)=List.lookup key ((name,other)::_)
        rw [List.lookup_cons,List.lookup_cons,beq_iff_eq.mpr hkey]
    · rw [hskip value left hkey,hskip other right hkey]
      exact ih

/-- A step from objects whose members are alike where it leads. -/
theorem child_ofMembers_congr {step : Step} {left right : List (String×Option Json)}
    (h : ∀ key, step=.key key →
      List.Forall₂ (fun l r => l.1=r.1 ∧ (key=l.1 → l.2=r.2)) left right) :
    child (ofMembers left) step=child (ofMembers right) step := by
  cases step with
  | key key =>
    rw [child_key,child_key]
    exact find_ofMembers_congr (h key rfl)
  | index position => rfl

/-- Only the named members of an object are containers. -/
theorem step_of_container {members : List (String×Option Json)} {containers : List String}
    (leaves : ∀ entry∈members, entry.1∉containers →
      ∀ value, entry.2=some value → isLeaf value=true)
    {step : Step} {inner : Json} (h : child (ofMembers members) step=some inner)
    (hinner : isLeaf inner=false) : ∃ name∈containers, step=.key name := by
  cases step with
  | index position => cases h
  | key name =>
    refine ⟨name,?_,rfl⟩
    by_contra hname
    have hmem := List.lookup_eq_some_iff.mp h
    obtain ⟨earlier,later,hmembers,_⟩ := hmem
    have hentry : (name,inner)∈members.filterMap fun entry =>
        entry.2.map fun value => (entry.1,value) := by
      rw [hmembers]
      exact List.mem_append_right _ List.mem_cons_self
    obtain ⟨⟨found,value⟩,hfound,hvalue⟩ := List.mem_filterMap.mp hentry
    obtain ⟨inner,hinner',hsame⟩ := Option.map_eq_some_iff.mp hvalue
    cases hsame
    rw [leaves (found,value) hfound hname inner hinner'] at hinner
    cases hinner

end Members

section Elements

/-- Elements that are all treated. -/
abbrev Treated {α β : Type*} (treat : α → Option β) : List α → List β → Prop :=
  List.Forall₂ fun element result => treat element=some result

/-- Each result is made of the element at its position. -/
theorem Treated.getElem? {α β : Type*} {treat : α → Option β} {elements : List α}
    {results : List β} (h : Treated treat elements results) (position : ℕ) :
    results[position]?=elements[position]?.bind treat := by
  induction h generalizing position with
  | nil => rfl
  | cons hfirst _ ih =>
    cases position with
    | zero => exact hfirst.symm
    | succ position => exact ih position

/-- The place of the last element of an array. -/
def IsLast (place : Location) (node : Json) : Prop :=
  ∃ position, place=[.index position] ∧ child node (.index (position+1))=none

/-- Arrays that only differ at their last element agree apart from it, and it
may be missing. -/
theorem agreeApart_last {skip : Location → Prop} {position : ℕ} {front left right : List Json}
    (hposition : front.length=position) (hleft : left.length ≤ 1) (hright : right.length ≤ 1) :
    AgreeApart skip [.index position] (some (.array (front++left)))
      (some (.array (front++right))) := by
  refine agreeApart_step (fun other hother => agree_of_eq ?_) (agreeApart_root _ _)
  cases other with
  | key name => rfl
  | index found =>
    show (front++left)[found]?=(front++right)[found]?
    by_cases hbefore : found<front.length
    · rw [List.getElem?_append_left hbefore,List.getElem?_append_left hbefore]
    · have hbehind : ∀ more : List Json, more.length ≤ 1 → (front++more).length ≤ found := by
        intro more hmore
        have hne : found≠position := fun h => hother (congrArg Step.index h)
        rw [List.length_append]
        omega
      rw [List.getElem?_eq_none (hbehind left hleft),List.getElem?_eq_none (hbehind right hright)]

/-- Arrays whose elements are treated one by one agree apart from a place
below one of them when that element does. -/
theorem agreeApart_array {skip : Location → Prop} {position : ℕ} {rest : Location} {value : Json}
    {treat : Json → Option Json} {elements results changed : List Json}
    (before : Treated treat elements results)
    (after : Treated treat (elements.modify position (replace rest value)) changed)
    (below : ∀ element result later, elements[position]?=some element →
      treat element=some result → treat (replace rest value element)=some later →
      AgreeApart (fun place => skip (.index position::place)) rest (some result) (some later)) :
    AgreeApart skip (.index position::rest) (some (.array results)) (some (.array changed)) := by
  refine agreeApart_step ?_ ?_
  · intro other hother
    cases other with
    | key name => exact agree_of_eq rfl
    | index found =>
      refine agree_of_eq ?_
      show results[found]?=changed[found]?
      rw [before.getElem?,after.getElem?,List.getElem?_modify_ne]
      exact fun h => hother (congrArg Step.index h.symm)
  · show AgreeApart _ rest results[position]? changed[position]?
    have hbefore := before.getElem? position
    have hafter := after.getElem? position
    rw [List.getElem?_modify_eq] at hafter
    cases helement : elements[position]? with
    | none =>
      rw [hbefore,hafter,helement]
      exact (agree_of_eq rfl).apart
    | some element =>
      have hlength : position<elements.length := (List.getElem?_eq_some_iff.mp helement).1
      have hresult : position<results.length := before.length_eq ▸ hlength
      have hchanged : position<changed.length := by
        rw [← after.length_eq,List.length_modify]
        exact hlength
      rw [helement,List.getElem?_eq_getElem hresult] at hbefore
      rw [helement,List.getElem?_eq_getElem hchanged] at hafter
      rw [List.getElem?_eq_getElem hresult,List.getElem?_eq_getElem hchanged]
      exact below element _ _ helement hbefore.symm hafter.symm

end Elements

end Vinput.JsonLocation
