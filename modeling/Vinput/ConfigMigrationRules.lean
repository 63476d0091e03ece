import Vinput.ConfigMigration

/-!
# What the migration rules leave behind

Each rule rewrites the objects its path leads to. A rule has nothing to do
where it was applied, later rules of the table do not give it work again,
and whatever its path does not lead to is left alone.
-/

namespace Vinput.ConfigMigrationRules

open JsonTree JsonLocation JsonPattern VersionConstraint ConfigMigration

section Members

variable {key other : String} {value : Json} {members : List (String×Json)}

theorem lookup_eraseMember_self (key : String) (members : List (String×Json)) :
    (eraseMember key members).lookup key=none := by
  induction members with
  | nil => rfl
  | cons entry rest ih =>
    unfold eraseMember at ih ⊢
    rw [List.filter_cons]
    split
    · rename_i hkept
      rw [List.lookup_cons,beq_false_of_ne (Ne.symm (of_decide_eq_true hkept))]
      exact ih
    · exact ih

/-- Erasing leaves the other members. -/
theorem lookup_eraseMember_of_ne (hother : other≠key) (members : List (String×Json)) :
    (eraseMember key members).lookup other=members.lookup other := by
  induction members with
  | nil => rfl
  | cons entry rest ih =>
    unfold eraseMember at ih ⊢
    rw [List.filter_cons]
    split
    · rw [List.lookup_cons,List.lookup_cons,ih]
    · rename_i hdropped
      have hname : entry.1=key := not_not.mp fun h => hdropped (decide_eq_true h)
      rw [List.lookup_cons,beq_false_of_ne (hname ▸ hother)]
      exact ih

theorem lookup_append (left right : List (String×Json)) (key : String) :
    (left++right).lookup key=(left.lookup key).or (right.lookup key) := by
  induction left with
  | nil => rfl
  | cons entry rest ih =>
    rw [List.cons_append,List.lookup_cons,List.lookup_cons]
    cases key==entry.1 with
    | true => rfl
    | false => exact ih

theorem lookup_setMember_self (key : String) (value : Json) (members : List (String×Json)) :
    (setMember key value members).lookup key=some value := by
  unfold setMember
  split
  · rename_i hthere
    rw [lookup_modifyMember_self]
    obtain ⟨old,hold⟩ := Option.isSome_iff_exists.mp hthere
    rw [hold]
    rfl
  · rename_i habsent
    rw [lookup_append,Option.not_isSome_iff_eq_none.mp habsent,List.lookup_cons,beq_self_eq_true]
    rfl

/-- Setting leaves the other members. -/
theorem lookup_setMember_of_ne (hother : other≠key) (value : Json)
    (members : List (String×Json)) :
    (setMember key value members).lookup other=members.lookup other := by
  unfold setMember
  split
  · exact lookup_modifyMember_of_ne hother members
  · rw [lookup_append,List.lookup_cons,beq_false_of_ne hother,List.lookup_nil,Option.or_none]

/-- Only what a change makes of the member itself counts. -/
theorem modifyMember_congr {name : String} {first second : Json → Json}
    (h : ∀ value, members.lookup name=some value → first value=second value) :
    modifyMember name first members=modifyMember name second members := by
  induction members with
  | nil => rfl
  | cons entry rest ih =>
    obtain ⟨found,old⟩ := entry
    dsimp only [modifyMember]
    by_cases hname : name=found
    · rw [List.lookup_cons,beq_iff_eq.mpr hname] at h
      rw [if_pos hname,if_pos hname,h old rfl]
    · rw [List.lookup_cons,beq_false_of_ne hname] at h
      rw [if_neg hname,if_neg hname,ih h]

/-- A member that is not changed leaves the object alone. -/
theorem modifyMember_id (name : String) (members : List (String×Json)) :
    modifyMember name id members=members := by
  induction members with
  | nil => rfl
  | cons entry rest ih =>
    obtain ⟨found,old⟩ := entry
    dsimp only [modifyMember]
    split
    · rfl
    · rw [ih]

/-- A member changed by a function of its value. -/
theorem modifyMember_const {name : String} (change : Json → Json)
    (h : members.lookup name=some value) :
    modifyMember name (fun _ => change value) members=modifyMember name change members := by
  refine modifyMember_congr ?_
  intro found hfound
  rw [Option.some.inj (h.symm.trans hfound)]

theorem modifyMember_absent {name : String} (change : Json → Json)
    (h : members.lookup name=none) : modifyMember name change members=members := by
  refine (modifyMember_congr ?_).trans (modifyMember_id name members)
  intro found hfound
  cases h.symm.trans hfound

theorem modifyMember_same {name : String} {change : Json → Json}
    (h : members.lookup name=some value) (hsame : change value=value) :
    modifyMember name change members=members := by
  refine (modifyMember_congr ?_).trans (modifyMember_id name members)
  intro found hfound
  rw [←Option.some.inj (h.symm.trans hfound)]
  exact hsame

end Members

section Actions

variable (formatJson : Json → String)

/-- What a rule makes of an object. -/
def act (rule : MigrationRule) (key : String) (members : List (String×Json)) :
    List (String×Json) := (applyActionToTarget (fun _ => "") rule "" key members).node

/-- A rule has nothing to do with a member. -/
def DoneAt (rule : MigrationRule) (value : Option Json) : Prop :=
  match rule.action with
  | .rename => value=none
  | .remove => value=none
  | .ensure => value.isSome=true
  | .replaceIfDefault => ∀ found, value=some found → jsonEquals found rule.expectedValue=false
  | _ => True

/-- A rule has nothing to do with an object. -/
def Done (rule : MigrationRule) (key : String) (members : List (String×Json)) : Prop :=
  DoneAt rule (members.lookup key)

/-- The report aside, a rule acts on the members. -/
theorem applyActionToTarget_node (rule : MigrationRule) (desc key : String)
    (members : List (String×Json)) :
    (applyActionToTarget formatJson rule desc key members).node=act rule key members := by
  unfold act applyActionToTarget
  cases rule.action with
  | rename =>
    dsimp only
    cases members.lookup key with
    | none => rfl
    | some value => dsimp only; split <;> rfl
  | remove => dsimp only; split <;> rfl
  | ensure => dsimp only; split <;> rfl
  | replaceIfDefault =>
    dsimp only
    cases members.lookup key with
    | none => rfl
    | some value => dsimp only; split <;> rfl
  | iniReplaceKey => rfl
  | iniRemoveKey => rfl

/-- A rule that is done changes and reports nothing. -/
theorem applyActionToTarget_of_done {rule : MigrationRule} {key : String}
    {members : List (String×Json)} (done : Done rule key members) (desc : String) :
    applyActionToTarget formatJson rule desc key members=⟨false,members,[]⟩ := by
  unfold Done DoneAt at done
  unfold applyActionToTarget
  cases haction : rule.action with
  | rename =>
    rw [haction] at done
    dsimp only at done ⊢
    rw [done]
  | remove =>
    rw [haction] at done
    dsimp only at done ⊢
    rw [done]
    rfl
  | ensure =>
    rw [haction] at done
    dsimp only at done ⊢
    rw [done]
    rfl
  | replaceIfDefault =>
    rw [haction] at done
    dsimp only at done ⊢
    cases hvalue : members.lookup key with
    | none => rfl
    | some value =>
      dsimp only
      rw [done value hvalue]
      rfl
  | iniReplaceKey => rfl
  | iniRemoveKey => rfl

/-- A rule whose own result leaves it nothing to do. -/
def soundRule (rule : MigrationRule) (key : String) : Bool :=
  match rule.action with
  | .rename => decide (rule.newKey≠key)
  | .replaceIfDefault => !jsonEquals rule.toValue rule.expectedValue
  | _ => true

/-- A rule names its key and, when it renames, the new one. -/
def spares (rule : MigrationRule) (key name : String) : Bool :=
  decide (name≠key) && (decide (rule.action≠.rename) || decide (name≠rule.newKey))

/-- Members a rule does not name are left alone. -/
theorem lookup_act_of_spares {rule : MigrationRule} {key name : String}
    (h : spares rule key name=true) (members : List (String×Json)) :
    (act rule key members).lookup name=members.lookup name := by
  obtain ⟨hkey,hnew⟩ := Bool.and_eq_true_iff.mp h
  have hkey : name≠key := of_decide_eq_true hkey
  unfold act applyActionToTarget
  cases haction : rule.action with
  | rename =>
    have hnew : name≠rule.newKey := by
      rcases Bool.or_eq_true_iff.mp hnew with hother | hnew
      · exact absurd haction (of_decide_eq_true hother)
      · exact of_decide_eq_true hnew
    dsimp only
    cases members.lookup key with
    | none => rfl
    | some value =>
      dsimp only
      split
      · rw [lookup_eraseMember_of_ne hkey,lookup_append,List.lookup_cons,beq_false_of_ne hnew,
          List.lookup_nil,Option.or_none]
      · exact lookup_eraseMember_of_ne hkey members
  | remove =>
    dsimp only
    split
    · exact lookup_eraseMember_of_ne hkey members
    · rfl
  | ensure =>
    dsimp only
    split
    · exact lookup_setMember_of_ne hkey _ members
    · rfl
  | replaceIfDefault =>
    dsimp only
    cases members.lookup key with
    | none => rfl
    | some value =>
      dsimp only
      split
      · exact lookup_setMember_of_ne hkey _ members
      · rfl
  | iniReplaceKey => rfl
  | iniRemoveKey => rfl

/-- Members other than the key of a rule are kept when they are there. -/
theorem lookup_act_of_some {rule : MigrationRule} {key name : String} {value : Json}
    {members : List (String×Json)} (hname : name≠key) (h : members.lookup name=some value) :
    (act rule key members).lookup name=some value := by
  by_cases hspared : spares rule key name=true
  · rw [lookup_act_of_spares hspared]
    exact h
  · have hrename : rule.action=.rename ∧ name=rule.newKey := by
      by_contra hother
      refine hspared (Bool.and_eq_true_iff.mpr ⟨decide_eq_true hname,?_⟩)
      rcases not_and_or.mp hother with haction | hnew
      · exact Bool.or_eq_true_iff.mpr (.inl (decide_eq_true haction))
      · exact Bool.or_eq_true_iff.mpr (.inr (decide_eq_true hnew))
    obtain ⟨haction,hnew⟩ := hrename
    unfold act applyActionToTarget
    rw [haction]
    dsimp only
    cases members.lookup key with
    | none => exact h
    | some old =>
      dsimp only
      rw [← hnew,h,if_neg Bool.noConfusion,lookup_eraseMember_of_ne hname]
      exact h

/-- A renamed member is found under its new name unless that was taken. -/
theorem lookup_act_rename {rule : MigrationRule} {key : String} {value : Json}
    {members : List (String×Json)} (haction : rule.action=.rename) (hnew : rule.newKey≠key)
    (h : members.lookup key=some value) :
    (act rule key members).lookup rule.newKey=
      some ((members.lookup rule.newKey).getD value) := by
  unfold act applyActionToTarget
  rw [haction]
  dsimp only
  rw [h]
  dsimp only
  cases htaken : members.lookup rule.newKey with
  | none =>
    rw [if_pos Option.isSome_none,lookup_eraseMember_of_ne hnew,lookup_append,htaken,
      List.lookup_cons,beq_self_eq_true]
    rfl
  | some old =>
    rw [if_neg Bool.noConfusion,lookup_eraseMember_of_ne hnew]
    exact htaken

/-- What a rule makes of the member it is about. -/
theorem lookup_act_self {rule : MigrationRule} {key : String}
    (hsound : soundRule rule key=true) (members : List (String×Json)) :
    Done rule key (act rule key members) := by
  unfold soundRule at hsound
  unfold Done DoneAt act applyActionToTarget
  cases haction : rule.action with
  | rename =>
    rw [haction] at hsound
    dsimp only
    cases hvalue : members.lookup key with
    | none => exact hvalue
    | some value =>
      dsimp only
      split <;> exact lookup_eraseMember_self key _
  | remove =>
    dsimp only
    split
    · exact lookup_eraseMember_self key members
    · rename_i habsent
      exact Option.not_isSome_iff_eq_none.mp habsent
  | ensure =>
    dsimp only
    split
    · rw [lookup_setMember_self]
      rfl
    · rename_i hthere
      exact Bool.eq_true_of_not_eq_false hthere
  | replaceIfDefault =>
    rw [haction] at hsound
    dsimp only at hsound ⊢
    intro found hfound
    cases hvalue : members.lookup key with
    | none =>
      rw [hvalue] at hfound
      dsimp only at hfound
      rw [hvalue] at hfound
      cases hfound
    | some value =>
      rw [hvalue] at hfound
      dsimp only at hfound
      split at hfound
      · rw [lookup_setMember_self] at hfound
        rw [← Option.some.inj hfound]
        simpa using hsound
      · rename_i hother
        rw [hvalue] at hfound
        rw [← Option.some.inj hfound]
        exact Bool.eq_false_of_not_eq_true hother
  | iniReplaceKey => trivial
  | iniRemoveKey => trivial

end Actions

section Walks

variable (formatJson : Json → String)

/-- A segment of a path. -/
def slotOf (segment : String) : Slot := if segment="*" then .any else .named segment

/-- A walk rewrites the objects its path leads to. -/
theorem walkAndApply_node (rule : MigrationRule) (parents : List String) (key desc : String)
    (node : Json) :
    (walkAndApply formatJson rule (parents++[key]) desc node).node=
      rewriteAt (act rule key) (parents.map slotOf) node := by
  induction parents generalizing desc node with
  | nil =>
    cases node with
    | object members =>
      exact congrArg Json.object (applyActionToTarget_node formatJson rule desc key members)
    | _ => rfl
  | cons segment rest ih =>
    obtain ⟨next,later,hlater⟩ := List.exists_cons_of_ne_nil (List.append_ne_nil_of_right_ne_nil
      rest (List.cons_ne_nil key []))
    rw [List.cons_append,List.map_cons]
    rw [hlater] at ih ⊢
    unfold walkAndApply slotOf
    by_cases hstar : segment="*"
    · rw [if_pos hstar,if_pos hstar]
      cases node with
      | object members =>
        refine congrArg Json.object ?_
        rw [List.map_map]
        exact List.map_congr_left fun entry _ => congrArg (Prod.mk entry.1) (ih _ entry.2)
      | array elements =>
        refine congrArg Json.array (List.ext_getElem? fun position => ?_)
        rw [List.getElem?_map,List.getElem?_mapIdx,List.getElem?_map]
        cases elements[position]? with
        | none => rfl
        | some element => exact congrArg some (ih _ element)
      | _ => rfl
    · rw [if_neg hstar,if_neg hstar]
      cases node with
      | object members =>
        dsimp only
        cases hvalue : members.lookup segment with
        | none =>
          refine congrArg Json.object ?_
          exact (modifyMember_absent _ hvalue).symm
        | some value =>
          refine congrArg Json.object ?_
          rw [ih]
          exact modifyMember_const (rewriteAt (act rule key) (rest.map slotOf)) hvalue
      | _ => rfl

/-- A walk that finds nothing to do leaves everything alone. -/
theorem walkAndApply_of_done {rule : MigrationRule} {parents : List String} {key : String}
    {node : Json} (done : HoldsAt (Done rule key) (parents.map slotOf) node) (desc : String) :
    walkAndApply formatJson rule (parents++[key]) desc node=⟨false,node,[]⟩ := by
  induction parents generalizing desc node with
  | nil =>
    cases node with
    | object members =>
      have happlied := applyActionToTarget_of_done formatJson done desc
      show Walked.mk _ _ _=_
      rw [happlied]
    | _ => rfl
  | cons segment rest ih =>
    obtain ⟨next,later,hlater⟩ := List.exists_cons_of_ne_nil (List.append_ne_nil_of_right_ne_nil
      rest (List.cons_ne_nil key []))
    rw [List.map_cons] at done
    rw [List.cons_append]
    rw [hlater] at ih ⊢
    unfold slotOf at done
    unfold walkAndApply
    by_cases hstar : segment="*"
    · rw [if_pos hstar] at done ⊢
      cases node with
      | object members =>
        have hwalked : (members.map fun entry => (entry.1,walkAndApply formatJson rule (next::later)
            (descend desc entry.1) entry.2))=
            members.map fun entry => (entry.1,⟨false,entry.2,[]⟩) :=
          List.map_congr_left fun entry hentry => congrArg (Prod.mk entry.1)
            (ih (done entry hentry) _)
        dsimp only
        rw [hwalked]
        simp [List.flatMap_map,Function.comp_def]
      | array elements =>
        have hwalked : (elements.mapIdx fun position element => walkAndApply formatJson rule
            (next::later) (elementDesc desc position element) element)=
            elements.map fun element => ⟨false,element,[]⟩ := by
          refine List.ext_getElem? fun position => ?_
          rw [List.getElem?_mapIdx,List.getElem?_map]
          cases helement : elements[position]? with
          | none => rfl
          | some element =>
            exact congrArg some (ih (done element (List.mem_of_getElem? helement)) _)
        dsimp only
        rw [hwalked]
        simp [List.flatMap_map,Function.comp_def]
      | _ => rfl
    · rw [if_neg hstar] at done ⊢
      cases node with
      | object members =>
        dsimp only
        cases hvalue : members.lookup segment with
        | none => rfl
        | some value =>
          dsimp only
          rw [ih (done value hvalue)]
          dsimp only
          rw [modifyMember_same hvalue rfl]
      | _ => rfl

end Walks

section Table

variable (formatJson : Json → String)

/-- The member a rule is about. -/
def ruleKey (rule : MigrationRule) : String := rule.segments.getLastD ""

/-- Where the objects with that member are. -/
def pattern (rule : MigrationRule) : List Slot := rule.segments.dropLast.map slotOf

/-- The segments of a rule end with its key. -/
theorem segments_eq (rule : MigrationRule) :
    rule.segments=rule.segments.dropLast++[ruleKey rule] := by
  have hsegments : rule.segments≠[] := by
    unfold MigrationRule.segments
    exact fun h => List.splitOn_ne_nil _ _ (List.map_eq_nil_iff.mp h)
  unfold ruleKey
  rw [List.getLastD_eq_getLast?,List.getLast?_eq_some_getLast hsegments,Option.getD_some,
    List.dropLast_append_getLast hsegments]

/-- A rule applied to a whole tree. -/
def migrate (rule : MigrationRule) (root : Json) : Json :=
  rewriteAt (act rule (ruleKey rule)) (pattern rule) root

/-- A rule has nothing to do with a tree. -/
def RuleDone (rule : MigrationRule) (root : Json) : Prop :=
  HoldsAt (Done rule (ruleKey rule)) (pattern rule) root

/-- The report aside, a walk migrates the tree. -/
theorem walk_node (rule : MigrationRule) (root : Json) :
    (walkAndApply formatJson rule rule.segments "" root).node=migrate rule root := by
  rw [segments_eq]
  exact walkAndApply_node formatJson rule rule.segments.dropLast (ruleKey rule) "" root

/-- A walk of a rule that is done changes and reports nothing. -/
theorem walk_of_ruleDone {rule : MigrationRule} {root : Json} (done : RuleDone rule root) :
    walkAndApply formatJson rule rule.segments "" root=⟨false,root,[]⟩ := by
  rw [segments_eq]
  exact walkAndApply_of_done formatJson done ""

/-- A sound rule is done after it ran. -/
theorem ruleDone_migrate {rule : MigrationRule} (hsound : soundRule rule (ruleKey rule)=true)
    (root : Json) : RuleDone rule (migrate rule root) :=
  HoldsAt.rewritten (fun members _ => lookup_act_self hsound members)
    (holdsAt_of_forall (fun _ => trivial) (pattern rule) root)

/-- Both rules replace a value, and what the later one writes is not what the
earlier one looks for. -/
def replacesPast (earlier later : MigrationRule) : Bool :=
  decide (earlier.action=.replaceIfDefault) && decide (later.action=.replaceIfDefault) &&
    decide (ruleKey earlier=ruleKey later) && !jsonEquals later.toValue earlier.expectedValue

/-- A later rule gives an earlier one nothing to do. -/
def leavesDone (earlier later : MigrationRule) : Bool :=
  match pattern earlier,pattern later with
  | .named left::_,.named right::_ =>
    decide (left≠right) || (decide (pattern earlier=pattern later) &&
      (spares later (ruleKey later) (ruleKey earlier) || replacesPast earlier later))
  | _,_ => false

/-- A rule that spares another leaves it done, at one place. -/
theorem done_act {earlier later : MigrationRule} {members : List (String×Json)}
    (h : (spares later (ruleKey later) (ruleKey earlier) || replacesPast earlier later)=true)
    (done : Done earlier (ruleKey earlier) members) :
    Done earlier (ruleKey earlier) (act later (ruleKey later) members) := by
  rcases Bool.or_eq_true_iff.mp h with hspared | hpast
  · unfold Done
    rw [lookup_act_of_spares hspared]
    exact done
  · simp only [replacesPast,Bool.and_eq_true,decide_eq_true_eq] at hpast
    obtain ⟨⟨⟨hearlier,hlater⟩,hkey⟩,hvalue⟩ := hpast
    unfold Done DoneAt at done ⊢
    rw [hearlier] at done ⊢
    dsimp only at done ⊢
    intro found hfound
    unfold act applyActionToTarget at hfound
    rw [hlater,hkey] at hfound
    rw [hkey] at done
    dsimp only at hfound
    cases hmember : members.lookup (ruleKey later) with
    | none =>
      rw [hmember] at hfound
      dsimp only at hfound
      exact done found hfound
    | some value =>
      rw [hmember] at hfound
      dsimp only at hfound
      split at hfound
      · rw [lookup_setMember_self] at hfound
        rw [← Option.some.inj hfound]
        simpa using hvalue
      · exact done found hfound

theorem RuleDone.migrate {earlier later : MigrationRule} {root : Json}
    (h : leavesDone earlier later=true) (done : RuleDone earlier root) :
    RuleDone earlier (migrate later root) := by
  unfold leavesDone at h
  unfold RuleDone ConfigMigrationRules.migrate at *
  split at h
  · rename_i left lefts right rights hleft hright
    rcases Bool.or_eq_true_iff.mp h with hother | hsame
    · rw [hleft] at done ⊢
      rw [hright]
      exact HoldsAt.elsewhere (of_decide_eq_true hother) done
    · obtain ⟨hpattern,hact⟩ := Bool.and_eq_true_iff.mp hsame
      rw [← of_decide_eq_true hpattern]
      exact HoldsAt.rewritten (fun members => done_act hact) done
  · cases h

/-- Rules applied one after another. -/
def migrateAll (rules : List MigrationRule) (root : Json) : Json :=
  rules.foldl (fun node rule => migrate rule node) root

/-- The report aside, the rules migrate one after another. -/
theorem applyRules_node (rules : List MigrationRule) (root : Json) :
    (applyRules formatJson rules root).node=migrateAll rules root := by
  induction rules generalizing root with
  | nil => rfl
  | cons rule rest ih =>
    dsimp only [applyRules,migrateAll]
    rw [walk_node,ih]
    rfl

/-- Rules that are done change and report nothing. -/
theorem applyRules_of_done {rules : List MigrationRule} {root : Json}
    (done : ∀ rule∈rules, RuleDone rule root) :
    applyRules formatJson rules root=⟨false,root,[]⟩ := by
  induction rules with
  | nil => rfl
  | cons rule rest ih =>
    have hrest := ih fun other hother => done other (List.mem_cons_of_mem _ hother)
    dsimp only [applyRules]
    rw [walk_of_ruleDone formatJson (done rule List.mem_cons_self)]
    dsimp only
    rw [hrest]
    rfl

/-- Later rules that spare a rule leave it done. -/
theorem RuleDone.migrateAll {rule : MigrationRule} {rules : List MigrationRule} {root : Json}
    (h : ∀ later∈rules, leavesDone rule later=true) (done : RuleDone rule root) :
    RuleDone rule (migrateAll rules root) := by
  induction rules generalizing root with
  | nil => exact done
  | cons later rest ih =>
    refine ih (fun other hother => h other (List.mem_cons_of_mem _ hother)) ?_
    exact done.migrate (h later List.mem_cons_self)

/-- A table whose rules are sound and give earlier ones nothing to do leaves
none of them anything to do. -/
theorem migrateAll_done {rules : List MigrationRule}
    (hsound : ∀ rule∈rules, soundRule rule (ruleKey rule)=true)
    (hordered : rules.Pairwise fun earlier later => leavesDone earlier later=true) (root : Json) :
    ∀ rule∈rules, RuleDone rule (migrateAll rules root) := by
  induction rules generalizing root with
  | nil => exact fun _ h => absurd h List.not_mem_nil
  | cons rule rest ih =>
    rw [List.pairwise_cons] at hordered
    intro other hother
    rcases List.mem_cons.mp hother with rfl | hrest
    · have hdone := ruleDone_migrate (hsound other List.mem_cons_self) root
      show RuleDone other (migrateAll rest (migrate other root))
      exact hdone.migrateAll hordered.1
    · exact ih (fun found hfound => hsound found (List.mem_cons_of_mem _ hfound)) hordered.2 _
        other hrest

/-- The rules for `config.json`. -/
def configRules : List MigrationRule := getRules.filter (ruleApplies none)

/-- Every rule of the program is sound. -/
theorem configRules_sound : ∀ rule∈configRules, soundRule rule (ruleKey rule)=true := by
  have htable : (configRules.all fun rule => soundRule rule (ruleKey rule))=true := by
    decide +kernel
  exact List.all_eq_true.mp htable

/-- Every rule of the program spares those before it. -/
theorem configRules_ordered :
    configRules.Pairwise fun earlier later => leavesDone earlier later=true := by
  decide +kernel

end Table

section Frame

/-- A place that is neither above nor below a place of a pattern. -/
def ApartFrom (slots : List Slot) (other : Location) : Prop :=
  ∀ place, Matches slots place → Apart other place

/-- Places of the member a rule is about. -/
def fullPattern (rule : MigrationRule) : List Slot := pattern rule++[.named (ruleKey rule)]

/-- Places of the member a rule renames to. -/
def newPattern (rule : MigrationRule) : List Slot := pattern rule++[.named rule.newKey]

theorem matches_member {slots : List Slot} {place : Location} (h : Matches slots place)
    (key : String) : Matches (slots++[.named key]) (place++[.key key]) :=
  List.rel_append h (.cons rfl .nil)

/-- A rule keeps what it does not name. -/
theorem migrate_kept {rule : MigrationRule} {other : Location}
    (h : ApartFrom (fullPattern rule) other) {root value : Json}
    (hvalue : nodeAt other root=some value) : nodeAt other (migrate rule root)=some value := by
  have hmember : ∀ place, Matches (pattern rule) place →
      Apart other (place++[.key (ruleKey rule)]) := fun place hplace =>
    h _ (matches_member hplace (ruleKey rule))
  rcases nodeAt_rewriteAt_cases (act rule (ruleKey rule)) hmember root with
    hsame | ⟨_,name,rest,members,_,hname,_,_,hbefore,hafter⟩
  · exact hsame.trans hvalue
  · rw [hvalue] at hbefore
    obtain ⟨found,hfound,hrest⟩ := Option.bind_eq_some_iff.mp hbefore.symm
    refine hafter.trans ?_
    rw [lookup_act_of_some hname hfound]
    exact hrest

/-- A rule adds nothing but what it names. -/
theorem migrate_same {rule : MigrationRule} {other : Location}
    (h : ApartFrom (fullPattern rule) other)
    (hnew : rule.action=.rename → ApartFrom (newPattern rule) other) (root : Json) :
    nodeAt other (migrate rule root)=nodeAt other root := by
  have hmember : ∀ place, Matches (pattern rule) place →
      Apart other (place++[.key (ruleKey rule)]) := fun place hplace =>
    h _ (matches_member hplace (ruleKey rule))
  rcases nodeAt_rewriteAt_cases (act rule (ruleKey rule)) hmember root with
    hsame | ⟨place,name,rest,members,hplace,hname,hother,_,hbefore,hafter⟩
  · exact hsame
  · refine hafter.trans (Eq.trans ?_ hbefore.symm)
    rw [lookup_act_of_spares]
    refine Bool.and_eq_true_iff.mpr ⟨decide_eq_true hname,?_⟩
    by_cases haction : rule.action=.rename
    · refine Bool.or_eq_true_iff.mpr (.inr (decide_eq_true ?_))
      rintro rfl
      refine (hnew haction _ (matches_member hplace rule.newKey)).2 ⟨rest,?_⟩
      rw [hother,List.append_assoc]
      rfl
    · exact Bool.or_eq_true_iff.mpr (.inl (decide_eq_true haction))

/-- What no rule reaches keeps its value. -/
theorem migrateAll_kept {rules : List MigrationRule} {other : Location}
    (h : ∀ rule∈rules, ApartFrom (fullPattern rule) other) {root value : Json}
    (hvalue : nodeAt other root=some value) :
    nodeAt other (migrateAll rules root)=some value := by
  induction rules generalizing root with
  | nil => exact hvalue
  | cons rule rest ih =>
    refine ih (fun later hlater => h later (List.mem_cons_of_mem _ hlater)) ?_
    exact migrate_kept (h rule List.mem_cons_self) hvalue

/-- A place that no rule reaches stays as it is, there or not. -/
theorem migrateAll_same {rules : List MigrationRule} {other : Location}
    (h : ∀ rule∈rules, ApartFrom (fullPattern rule) other ∧
      (rule.action=.rename → ApartFrom (newPattern rule) other)) (root : Json) :
    nodeAt other (migrateAll rules root)=nodeAt other root := by
  induction rules generalizing root with
  | nil => rfl
  | cons rule rest ih =>
    have hrest := ih (fun later hlater => h later (List.mem_cons_of_mem _ hlater))
      (migrate rule root)
    obtain ⟨hrule,hnew⟩ := h rule List.mem_cons_self
    exact hrest.trans (migrate_same hrule hnew root)

/-- What a renaming rule makes of a member. -/
theorem migrate_renamed {rule : MigrationRule} (haction : rule.action=.rename)
    (hnew : rule.newKey≠ruleKey rule) {place : Location} (hplace : Matches (pattern rule) place)
    {root value : Json} (hvalue : nodeAt (place++[.key (ruleKey rule)]) root=some value) :
    nodeAt (place++[.key rule.newKey]) (migrate rule root)=
      some ((nodeAt (place++[.key rule.newKey]) root).getD value) := by
  rw [nodeAt_append] at hvalue
  obtain ⟨parent,hparent,hmember⟩ := Option.bind_eq_some_iff.mp hvalue
  obtain ⟨found,hfound,hsame⟩ := Option.bind_eq_some_iff.mp hmember
  obtain rfl := Option.some.inj hsame
  cases parent with
  | object members =>
    have hlookup : members.lookup (ruleKey rule)=some found := hfound
    unfold migrate
    rw [nodeAt_append,nodeAt_append,nodeAt_rewriteAt _ hplace,hparent]
    show ((act rule (ruleKey rule) members).lookup rule.newKey).bind some=
      some (((members.lookup rule.newKey).bind some).getD found)
    rw [lookup_act_rename haction hnew hlookup,Option.bind_fun_some,Option.bind_fun_some]
  | _ => cases hfound

/-- Neither place of a renaming rule is named by another rule. -/
def clears (rule other : MigrationRule) : Bool :=
  [fullPattern rule,newPattern rule].all fun slots =>
    diverges slots (fullPattern other) &&
      (decide (other.action≠.rename) || diverges slots (newPattern other))

/-- Neither of two rules names what the other renames. -/
def separate (left right : MigrationRule) : Bool :=
  (decide (left.action≠.rename) || clears left right) &&
    (decide (right.action≠.rename) || clears right left)

/-- A rule that clears another has its places apart from it. -/
theorem apart_of_clears {rule other : MigrationRule} (h : clears rule other=true)
    {place : Location} {slots : List Slot} (hslots : slots∈[fullPattern rule,newPattern rule])
    (hplace : Matches slots place) : ApartFrom (fullPattern other) place ∧
      (other.action=.rename → ApartFrom (newPattern other) place) := by
  obtain ⟨hfull,hnew⟩ := Bool.and_eq_true_iff.mp (List.all_eq_true.mp h slots hslots)
  refine ⟨fun found hfound => apart_of_diverges hfull hplace hfound,fun haction found hfound => ?_⟩
  rcases Bool.or_eq_true_iff.mp hnew with hother | hdiverges
  · exact absurd haction (of_decide_eq_true hother)
  · exact apart_of_diverges hdiverges hplace hfound

/-- A renamed member is found under its new name, unless that was taken,
whatever other rules do. -/
theorem migrateAll_renamed {rules : List MigrationRule}
    (hseparate : rules.Pairwise fun left right => separate left right=true)
    {rule : MigrationRule} (hrule : rule∈rules) (haction : rule.action=.rename)
    (hnew : rule.newKey≠ruleKey rule) {place : Location} (hplace : Matches (pattern rule) place)
    {root value : Json} (hvalue : nodeAt (place++[.key (ruleKey rule)]) root=some value) :
    nodeAt (place++[.key rule.newKey]) (migrateAll rules root)=
      some ((nodeAt (place++[.key rule.newKey]) root).getD value) := by
  obtain ⟨before,after,rfl⟩ := List.append_of_mem hrule
  rw [List.pairwise_append,List.pairwise_cons] at hseparate
  obtain ⟨_,⟨hafter,_⟩,hbefore⟩ := hseparate
  have hclears : ∀ {left right : MigrationRule},
      (decide (left.action≠.rename) || clears left right)=true → left.action=.rename →
        clears left right=true := by
    intro left right h hrename
    exact (Bool.or_eq_true_iff.mp h).resolve_left fun hother => of_decide_eq_true hother hrename
  have hearlier : ∀ other∈before, clears rule other=true := fun other hother =>
    hclears (Bool.and_eq_true_iff.mp (hbefore other hother rule List.mem_cons_self)).2 haction
  have hlater : ∀ other∈after, clears rule other=true := fun other hother =>
    hclears (Bool.and_eq_true_iff.mp (hafter other hother)).1 haction
  have hold := matches_member hplace (ruleKey rule)
  have hnext := matches_member hplace rule.newKey
  have hfirst : migrateAll (before++rule::after) root=
      migrateAll after (migrate rule (migrateAll before root)) := by
    unfold migrateAll
    rw [List.foldl_append]
    rfl
  have hkept : nodeAt (place++[.key (ruleKey rule)]) (migrateAll before root)=some value := by
    rw [migrateAll_same fun other hother =>
      apart_of_clears (hearlier other hother) List.mem_cons_self hold]
    exact hvalue
  have hmem : newPattern rule∈[fullPattern rule,newPattern rule] :=
    List.mem_cons_of_mem _ List.mem_cons_self
  rw [hfirst,migrateAll_same fun other hother => apart_of_clears (hlater other hother) hmem hnext,
    migrate_renamed haction hnew hplace hkept,
    migrateAll_same fun other hother => apart_of_clears (hearlier other hother) hmem hnext]

/-- The rules of the program have places of their own. -/
theorem configRules_separate :
    configRules.Pairwise fun left right => separate left right=true := by
  decide +kernel

end Frame

section Versions

/-- Removing the version of old files is seen there only. -/
theorem nodeAt_dropLegacyVersion {other : Location} (h : Apart other [.key "vinput_version"])
    (root : Json) : nodeAt other (dropLegacyVersion root).node=nodeAt other root := by
  cases other with
  | nil => exact absurd List.nil_prefix h.1
  | cons step rest =>
    cases root with
    | object members =>
      show nodeAt (step::rest) (if _ then _ else _ : Walked Json).node=_
      split
      · have hchild : child (.object (eraseMember "vinput_version" members)) step=
            child (.object members) step := by
          cases step with
          | index position => rfl
          | key name =>
            refine lookup_eraseMember_of_ne ?_ members
            rintro rfl
            exact h.2 ⟨rest,rfl⟩
        exact congrArg (Option.bind · (nodeAt rest)) hchild
      · rfl
    | _ => rfl

/-- Writing the version is seen there only. -/
theorem nodeAt_stampVersion {other : Location} (h : Apart other [.key "version"])
    (root : Json) : nodeAt other (stampVersion root).node=nodeAt other root := by
  cases other with
  | nil => exact absurd List.nil_prefix h.1
  | cons step rest =>
    cases root with
    | object members =>
      have hchild : child (.object (setMember "version" (.text getTargetVersionConstraint)
          members)) step=child (.object members) step := by
        cases step with
        | index position => rfl
        | key name =>
          refine lookup_setMember_of_ne ?_ _ members
          rintro rfl
          exact h.2 ⟨rest,rfl⟩
      have hstamped : nodeAt (step::rest) (stampVersion.stamped members).node=
          nodeAt (step::rest) (.object members) :=
        congrArg (Option.bind · (nodeAt rest)) hchild
      dsimp only [stampVersion]
      split
      · split
        · rfl
        · exact hstamped
      · exact hstamped
    | _ => rfl

/-- The version that is written is the one that is read. -/
theorem find_stampVersion (members : List (String×Json)) :
    (stampVersion (.object members)).node.find "version"=
      some (.text getTargetVersionConstraint) := by
  have hstamped : (stampVersion.stamped members).node.find "version"=
      some (.text getTargetVersionConstraint) := lookup_setMember_self "version" _ members
  dsimp only [stampVersion]
  split
  · rename_i version hversion
    split
    · rename_i htarget
      rw [← htarget]
      exact hversion
    · exact hstamped
  · exact hstamped

end Versions

end Vinput.ConfigMigrationRules
