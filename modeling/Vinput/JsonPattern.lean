import Vinput.JsonLocation

/-!
# Patterns of places in a JSON tree

A pattern names the members to go through, or leaves a step open. Objects at
the places of a pattern are rewritten all together. The result satisfies at
these places what the rewriting establishes, is what it was everywhere else,
and rewritings at patterns that part at a name do not meet.
-/

namespace Vinput.JsonPattern

open JsonTree JsonLocation

section Places

/-- One step of a pattern. -/
inductive Slot where
  | any
  | named (name : String)
deriving DecidableEq

/-- A step that a slot allows. -/
def Slot.Allows : Slot → Step → Prop
  | .any,_ => True
  | .named name,step => step=.key name

instance (slot : Slot) (step : Step) : Decidable (slot.Allows step) :=
  match slot with
  | .any => isTrue trivial
  | .named name => inferInstanceAs (Decidable (step=.key name))

/-- A place of a pattern. -/
abbrev Matches : List Slot → Location → Prop := List.Forall₂ Slot.Allows

theorem exists_matches (pattern : List Slot) : ∃ place, Matches pattern place := by
  induction pattern with
  | nil => exact ⟨[],.nil⟩
  | cons slot rest ih =>
    obtain ⟨place,hplace⟩ := ih
    cases slot with
    | any => exact ⟨.index 0::place,.cons trivial hplace⟩
    | named name => exact ⟨.key name::place,.cons rfl hplace⟩

/-- Two patterns ask for different names somewhere. -/
def diverges : List Slot → List Slot → Bool
  | .named left::lefts,.named right::rights => decide (left≠right) || diverges lefts rights
  | _::lefts,_::rights => diverges lefts rights
  | _,_ => false

/-- Places of diverging patterns are apart. -/
theorem apart_of_diverges {lefts rights : List Slot} {left right : Location}
    (h : diverges lefts rights=true) (hleft : Matches lefts left)
    (hright : Matches rights right) : Apart left right := by
  induction hleft generalizing rights right with
  | nil => cases h
  | @cons slot step lefts left hstep _ ih =>
    cases hright with
    | nil => cases slot <;> cases h
    | @cons other next rights right hnext hrights =>
      have hbelow : diverges lefts rights=true → Apart (step::left) (next::right) := by
        intro hlater
        obtain ⟨hl,hr⟩ := ih hlater hrights
        exact ⟨fun h => hl (List.cons_prefix_cons.mp h).2,
          fun h => hr (List.cons_prefix_cons.mp h).2⟩
      cases slot with
      | any =>
        cases other <;> exact hbelow h
      | named name =>
        cases other with
        | any => exact hbelow h
        | named found =>
          rcases Bool.or_eq_true_iff.mp h with hname | hlater
          · have hne : name≠found := of_decide_eq_true hname
            rw [show step=.key name from hstep,show next=.key found from hnext]
            constructor
            · exact fun h => hne (Step.key.inj (List.cons_prefix_cons.mp h).1)
            · exact fun h => hne (Step.key.inj (List.cons_prefix_cons.mp h).1).symm
          · exact hbelow hlater

end Places

section Rewriting

variable (change : List (String×Json) → List (String×Json))

/-- Rewrite the objects at the places of a pattern. -/
def rewriteAt : List Slot → Json → Json
  | [],.object members => .object (change members)
  | .any::rest,.object members =>
    .object (members.map fun entry => (entry.1,rewriteAt rest entry.2))
  | .any::rest,.array elements => .array (elements.map (rewriteAt rest))
  | .named name::rest,.object members => .object (modifyMember name (rewriteAt rest) members)
  | _,node => node

/-- An object rewritten; other nodes have no members. -/
def rewriteObject : Json → Json
  | .object members => .object (change members)
  | node => node

/-- The empty pattern rewrites the root. -/
theorem rewriteAt_nil (node : Json) : rewriteAt change [] node=rewriteObject change node := by
  cases node <;> rfl

/-- Treating values treats what is found. -/
theorem lookup_map_snd {α β : Type*} (treat : α → β) (members : List (String×α)) (name : String) :
    (members.map fun entry => (entry.1,treat entry.2)).lookup name=
      (members.lookup name).map treat := by
  induction members with
  | nil => rfl
  | cons entry rest ih =>
    rw [List.map_cons,List.lookup_cons,List.lookup_cons]
    cases name==entry.1 with
    | true => rfl
    | false => exact ih

/-- A child that the first slot allows is rewritten further down. -/
theorem child_rewriteAt {slot : Slot} {step : Step} (h : slot.Allows step) (rest : List Slot)
    (node : Json) :
    child (rewriteAt change (slot::rest) node) step=
      (child node step).map (rewriteAt change rest) := by
  cases slot with
  | any =>
    cases node with
    | object members =>
      cases step with
      | key name => exact lookup_map_snd (rewriteAt change rest) members name
      | index position => rfl
    | array elements =>
      cases step with
      | key name => rfl
      | index position => exact List.getElem?_map
    | _ => cases step <;> rfl
  | named name =>
    rw [show step=.key name from h]
    cases node with
    | object members => exact lookup_modifyMember_self name (rewriteAt change rest) members
    | _ => rfl

/-- Other children stay. -/
theorem child_rewriteAt_of_not {slot : Slot} {step : Step} (h : ¬slot.Allows step)
    (rest : List Slot) (node : Json) :
    child (rewriteAt change (slot::rest) node) step=child node step := by
  cases slot with
  | any => exact absurd trivial h
  | named name =>
    cases node with
    | object members =>
      cases step with
      | key found =>
        exact lookup_modifyMember_of_ne (fun hname => h (congrArg Step.key hname)) members
      | index position => rfl
    | _ => rfl

/-- The objects at the places of the pattern are the rewritten ones. -/
theorem nodeAt_rewriteAt {pattern : List Slot} {place : Location} (h : Matches pattern place)
    (node : Json) :
    nodeAt place (rewriteAt change pattern node)=
      (nodeAt place node).map (rewriteObject change) := by
  induction h generalizing node with
  | nil => exact congrArg some (rewriteAt_nil change node)
  | @cons slot step rest place hstep _ ih =>
    show (child (rewriteAt change (slot::rest) node) step).bind (nodeAt place)=
      ((child node step).bind (nodeAt place)).map (rewriteObject change)
    rw [child_rewriteAt change hstep]
    cases child node step with
    | none => rfl
    | some inner => exact ih inner

/-- A node that is neither above nor below a place of the pattern stays. -/
theorem nodeAt_rewriteAt_of_apart {pattern : List Slot} {other : Location}
    (h : ∀ place, Matches pattern place → Apart other place) (node : Json) :
    nodeAt other (rewriteAt change pattern node)=nodeAt other node := by
  induction pattern generalizing other node with
  | nil => exact absurd List.nil_prefix (h [] .nil).2
  | cons slot rest ih =>
    cases other with
    | nil =>
      obtain ⟨place,hplace⟩ := exists_matches (slot::rest)
      exact absurd List.nil_prefix (h place hplace).1
    | cons step other =>
      show (child (rewriteAt change (slot::rest) node) step).bind (nodeAt other)=
        (child node step).bind (nodeAt other)
      by_cases hstep : slot.Allows step
      · rw [child_rewriteAt change hstep]
        cases child node step with
        | none => rfl
        | some inner =>
          refine ih (fun place hplace => ?_) inner
          obtain ⟨hl,hr⟩ := h (step::place) (.cons hstep hplace)
          exact ⟨fun hbelow => hl (List.cons_prefix_cons.mpr ⟨rfl,hbelow⟩),
            fun habove => hr (List.cons_prefix_cons.mpr ⟨rfl,habove⟩)⟩
      · rw [child_rewriteAt_of_not change hstep]

/-- A node apart from a member of the objects that are rewritten is apart
from them, or below another member. -/
theorem nodeAt_rewriteAt_cases {pattern : List Slot} {other : Location} {key : String}
    (h : ∀ place, Matches pattern place → Apart other (place++[.key key])) (node : Json) :
    nodeAt other (rewriteAt change pattern node)=nodeAt other node ∨
      ∃ place name rest members, Matches pattern place ∧ name≠key ∧
        other=place++.key name::rest ∧ nodeAt place node=some (.object members) ∧
        nodeAt other node=(members.lookup name).bind (nodeAt rest) ∧
        nodeAt other (rewriteAt change pattern node)=
          ((change members).lookup name).bind (nodeAt rest) := by
  by_cases happart : ∀ place, Matches pattern place → Apart other place
  · exact .inl (nodeAt_rewriteAt_of_apart change happart node)
  · simp only [Apart,not_forall,not_and_or,not_not] at happart
    obtain ⟨place,hplace,habove | ⟨below,hbelow⟩⟩ := happart
    · exact absurd (habove.trans (List.prefix_append place _)) (h place hplace).1
    · subst hbelow
      have hnode : nodeAt (place++below) (rewriteAt change pattern node)=
          ((nodeAt place node).map (rewriteObject change)).bind (nodeAt below) := by
        rw [nodeAt_append,nodeAt_rewriteAt change hplace]
      rw [hnode,nodeAt_append]
      cases hfound : nodeAt place node with
      | none => exact .inl rfl
      | some inner =>
        cases inner with
        | object members =>
          cases below with
          | nil =>
            refine absurd ?_ (h place hplace).1
            rw [List.append_nil]
            exact List.prefix_append place _
          | cons step rest =>
            cases step with
            | index position => exact .inl rfl
            | key name =>
              refine .inr ⟨place,name,rest,members,hplace,?_,rfl,hfound,rfl,rfl⟩
              rintro rfl
              refine (h place hplace).2 ⟨rest,?_⟩
              rw [List.append_assoc]
              rfl
        | _ => exact .inl rfl

end Rewriting

section Holding

variable {P Q : List (String×Json) → Prop} {change : List (String×Json) → List (String×Json)}

/-- Every object at a place of a pattern has a property. -/
def HoldsAt (P : List (String×Json) → Prop) : List Slot → Json → Prop
  | [],.object members => P members
  | .any::rest,.object members => ∀ entry∈members, HoldsAt P rest entry.2
  | .any::rest,.array elements => ∀ element∈elements, HoldsAt P rest element
  | .named name::rest,.object members =>
    ∀ value, members.lookup name=some value → HoldsAt P rest value
  | _,_ => True

/-- What holds of all objects holds at every place. -/
theorem holdsAt_of_forall (h : ∀ members, P members) (pattern : List Slot) (node : Json) :
    HoldsAt P pattern node := by
  induction pattern generalizing node with
  | nil =>
    cases node with
    | object members => exact h members
    | _ => trivial
  | cons slot rest ih =>
    cases slot with
    | any =>
      cases node with
      | object members => exact fun entry _ => ih entry.2
      | array elements => exact fun element _ => ih element
      | _ => trivial
    | named name =>
      cases node with
      | object members => exact fun value _ => ih value
      | _ => trivial

/-- Rewriting takes one property of the objects to another. -/
theorem HoldsAt.rewritten (h : ∀ members, Q members → P (change members)) {pattern : List Slot}
    {node : Json} (hnode : HoldsAt Q pattern node) :
    HoldsAt P pattern (rewriteAt change pattern node) := by
  induction pattern generalizing node with
  | nil =>
    cases node with
    | object members => exact h members hnode
    | _ => trivial
  | cons slot rest ih =>
    cases slot with
    | any =>
      cases node with
      | object members =>
        intro entry hentry
        obtain ⟨before,hbefore,hsame⟩ := List.mem_map.mp hentry
        rw [← hsame]
        exact ih (hnode before hbefore)
      | array elements =>
        intro element helement
        obtain ⟨before,hbefore,hsame⟩ := List.mem_map.mp helement
        rw [← hsame]
        exact ih (hnode before hbefore)
      | _ => trivial
    | named name =>
      cases node with
      | object members =>
        intro value hvalue
        rw [lookup_modifyMember_self] at hvalue
        obtain ⟨before,hbefore,hsame⟩ := Option.map_eq_some_iff.mp hvalue
        rw [← hsame]
        exact ih (hnode before hbefore)
      | _ => trivial

/-- A rewriting elsewhere leaves the property of the objects. -/
theorem HoldsAt.elsewhere {name other : String} (hname : name≠other) {rest later : List Slot}
    {node : Json} (hnode : HoldsAt P (.named name::rest) node) :
    HoldsAt P (.named name::rest) (rewriteAt change (.named other::later) node) := by
  cases node with
  | object members =>
    intro value hvalue
    rw [lookup_modifyMember_of_ne hname] at hvalue
    exact hnode value hvalue
  | _ => trivial

end Holding

end Vinput.JsonPattern
