import Vinput.ConfigTree

/-!
# What an edit of a tree changes

Every object of a configuration is written member by member from what was
read member by member, so a member that was not edited is written as it
was. Lists that keep all their entries are written entry by entry.
-/

namespace Vinput.ConfigTreeEdits

open AsrSettings (StringMap)
open CoreConfigTypes CoreConfigNormalize CoreConfigJson CoreConfigRoundTrip ConfigTree
open FirstEntries JsonTree JsonLocation

section Values

/-- A list of strings as a member. -/
def stringsTree (values : List String) : Option Json := given (values≠[]) (fromStrings values)

/-- A map of strings as a member. -/
def mapTree (values : StringMap) : Option Json :=
  given (values.entries≠[]) (fromStringMap values)

/-- An object with members as a member. -/
def objectTree (body : Json) : Option Json :=
  given (body.isObject=true ∧ isEmptyObject body=false) body

/-- Arguments as they are written after they were read. -/
def argsTree (args : Option Json) : Option Json := stringsTree ((args.map strings).getD [])

/-- An environment as it is written after it was read. -/
def envTree (env : Option Json) : Option Json :=
  mapTree (eraseEmptyKeys ((env.map stringMap).getD default))

/-- The members added to a request as they are written after they were read. -/
def bodyTree (body : Option Json) : Option Json := objectTree (extraBodyOf body)

/-- A string in place of a string gives a list of strings. -/
theorem replace_fromStrings (values : List String) (step : Step) (rest : Location) (value : Json)
    (htext : ∀ position, step::rest=[.index position] → ∃ text, value=.text text) :
    ∃ changed : List String, replace (step::rest) value (fromStrings values)=fromStrings changed ∧
      (changed=[] ↔ values=[]) ∧
      ∀ text∈changed, text∈values ∨
        (value=.text text ∧ ∃ position, step::rest=[.index position]) := by
  cases step with
  | key name => exact ⟨values,rfl,Iff.rfl,fun _ => .inl⟩
  | index position =>
    have hchange : ∃ change : String → String, ∀ text,
        replace rest value (.text text)=.text (change text) ∧
          (change text=text ∨ (value=.text (change text) ∧ rest=[])) := by
      cases rest with
      | nil =>
        obtain ⟨text,hvalue⟩ := htext position rfl
        exact ⟨fun _ => text,fun _ => ⟨hvalue,.inr ⟨hvalue,rfl⟩⟩⟩
      | cons next later => exact ⟨id,fun text => ⟨replace_leaf rfl next later value,.inl rfl⟩⟩
    obtain ⟨change,hchange⟩ := hchange
    refine ⟨values.modify position change,?_,List.modify_eq_nil_iff,?_⟩
    · show Json.array ((values.map Json.text).modify position (replace rest value))=
        Json.array ((values.modify position change).map Json.text)
      congr 1
      refine List.ext_getElem? fun found => ?_
      simp only [List.getElem?_modify,List.getElem?_map]
      cases values[found]? with
      | none => rfl
      | some text =>
        simp only [Option.map_some]
        split
        · exact congrArg some (hchange text).1
        · rfl
    · intro text htext
      obtain ⟨found,hfound⟩ := List.mem_iff_getElem?.mp htext
      rw [List.getElem?_modify] at hfound
      obtain ⟨before,hbefore,hsame⟩ := Option.map_eq_some_iff.mp hfound
      split at hsame
      · rcases (hchange before).2 with hkept | ⟨hvalue,hrest⟩
        · exact .inl (hsame ▸ hkept.symm ▸ List.mem_of_getElem? hbefore)
        · exact .inr ⟨hsame ▸ hvalue,position,by rw [hrest]⟩
      · exact .inl (hsame ▸ List.mem_of_getElem? hbefore)

/-- Arguments that were written are stored as they are. -/
theorem argsTree_fromStrings (values : List String) :
    argsTree (some (fromStrings values))=stringsTree values :=
  congrArg stringsTree (strings_fromStrings values)

/-- An edited list of strings is stored with the edit. -/
theorem stringsTree_replace {values changed : List String} {place : Location} {value : Json}
    (h : replace place value (fromStrings values)=fromStrings changed)
    (hempty : changed=[] ↔ values=[]) :
    stringsTree changed=(stringsTree values).map (replace place value) := by
  unfold stringsTree given
  by_cases hnone : values=[]
  · rw [if_neg fun h => h (hempty.mpr hnone),if_neg fun h => h hnone]
    rfl
  · rw [if_pos fun h => hnone (hempty.mp h),if_pos hnone,Option.map_some,h]

/-- An empty list of strings is not written, but has no children anyway. -/
theorem stringsTree_child (values : List String) (step : Step) :
    (stringsTree values).bind (child · step)=(some (fromStrings values)).bind (child · step) := by
  unfold stringsTree given
  split
  · rfl
  · rename_i hempty
    rw [not_not.mp hempty]
    cases step <;> rfl

/-- Whatever takes the place of the last string, the others stay. -/
theorem strings_last {values : List String} {position : ℕ} (value : Json)
    (hlast : values.length=position+1) : ∃ more, more.length ≤ 1 ∧
      strings (replace [.index position] value (fromStrings values))=
        values.take position++more := by
  have hreplaced : replace [.index position] value (fromStrings values)=
      .array ((values.map Json.text).modify position fun _ => value) := rfl
  refine ⟨(((values.map Json.text).drop position).modifyHead fun _ => value).filterMap readText,
    ?_,?_⟩
  · refine (List.length_filterMap_le _ _).trans ?_
    rw [List.length_modifyHead,List.length_drop,List.length_map,hlast]
    omega
  · rw [hreplaced]
    dsimp only [strings]
    rw [List.modify_eq_take_drop,List.filterMap_append,← List.map_take]
    exact congrArg (·++_) (strings_fromStrings (values.take position))

/-- Strings that only differ at the last place agree apart from it. -/
theorem stringsTree_last {skip : Location → Prop} {position : ℕ} {front left right : List String}
    (hposition : front.length=position) (hleft : left.length ≤ 1) (hright : right.length ≤ 1) :
    AgreeApart skip [.index position] (stringsTree (front++left)) (stringsTree (front++right)) := by
  refine agreeApart_children (stringsTree_child _) (stringsTree_child _) ?_
  unfold fromStrings
  rw [List.map_append,List.map_append]
  refine agreeApart_last ?_ ?_ ?_
  · rw [List.length_map,hposition]
  · rw [List.length_map]
    exact hleft
  · rw [List.length_map]
    exact hright

/-- A value takes the place of the last string, of none, or of one before others. -/
theorem last_cases (values : List String) (place : Location) (value : Json) :
    (∃ position, place=[.index position] ∧ values.length=position+1) ∨
      replace place value (fromStrings values)=fromStrings values ∨
      ∀ position, place=[.index position] →
        child (fromStrings values) (.index (position+1))≠none := by
  by_cases hlast : ∃ position, place=[.index position] ∧ values.length=position+1
  · exact .inl hlast
  · by_cases hbehind : ∃ position, place=[.index position] ∧ values.length ≤ position
    · obtain ⟨position,rfl,hlength⟩ := hbehind
      refine .inr (.inl (congrArg Json.array (List.modify_eq_self ?_)))
      rw [List.length_map]
      exact hlength
    · refine .inr (.inr fun position hplace hnone => ?_)
      have hlength := List.getElem?_eq_none_iff.mp hnone
      rw [List.length_map] at hlength
      rcases Nat.lt_or_eq_of_le hlength with hbefore | hend
      · exact hbehind ⟨position,hplace,Nat.le_of_lt_succ hbefore⟩
      · exact hlast ⟨position,hplace,hend⟩

/-- An edit of arguments. -/
theorem argsTree_frame {skip : Location → Prop} {values : List String} {step : Step}
    {rest : Location} {value : Json}
    (htext : ∀ position, step::rest=[.index position] → (∃ text, value=.text text) ∨
      child (fromStrings values) (.index (position+1))=none) :
    AgreeApart skip (step::rest) (argsTree (some (fromStrings values)))
      (argsTree (some (replace (step::rest) value (fromStrings values)))) := by
  rcases last_cases values (step::rest) value with ⟨position,hplace,hlength⟩ | hsame | hinside
  · cases hplace
    obtain ⟨more,hmore,hstrings⟩ := strings_last value hlength
    have hargs : argsTree (some (replace [.index position] value (fromStrings values)))=
        stringsTree (values.take position++more) := congrArg stringsTree hstrings
    rw [hargs,argsTree_fromStrings]
    nth_rewrite 1 [← List.take_append_drop position values]
    refine stringsTree_last ?_ ?_ hmore
    · rw [List.length_take,hlength]
      omega
    · rw [List.length_drop,hlength]
      omega
  · rw [hsame]
    exact (agree_of_eq rfl).apart
  · have hstring : ∀ position, step::rest=[.index position] → ∃ text, value=.text text :=
      fun position hplace => (htext position hplace).resolve_right (hinside position hplace)
    obtain ⟨changed,hreplaced,hempty,_⟩ := replace_fromStrings values step rest value hstring
    rw [hreplaced,argsTree_fromStrings,argsTree_fromStrings,stringsTree_replace hreplaced hempty]
    exact agreeApart_replace _ _ _

/-- What an environment has under a name after an assignment. -/
theorem lookup_assignEntry (name key value : String) (entries : List (String×String)) :
    (assignEntry key value entries).lookup name=
      if name=key then some value else entries.lookup name := by
  induction entries with
  | nil =>
    dsimp only [assignEntry]
    rw [List.lookup_cons]
    by_cases hname : name=key
    · rw [if_pos hname,beq_iff_eq.mpr hname]
    · rw [if_neg hname,beq_false_of_ne hname]
  | cons entry rest ih =>
    obtain ⟨found,old⟩ := entry
    dsimp only [assignEntry]
    by_cases hname : name=key
    · rw [if_pos hname]
      split
      · rw [List.lookup_cons,beq_iff_eq.mpr hname]
      · split
        · rw [List.lookup_cons,beq_iff_eq.mpr hname]
        · rename_i hother
          rw [List.lookup_cons,beq_false_of_ne fun h => hother (hname.symm.trans h),ih,
            if_pos hname]
    · rw [if_neg hname]
      rw [if_neg hname] at ih
      split
      · rw [List.lookup_cons,beq_false_of_ne hname]
      · split
        · rename_i hkey
          rw [List.lookup_cons,List.lookup_cons,beq_false_of_ne hname,
            beq_false_of_ne fun h => hname (h.trans hkey.symm)]
        · rw [List.lookup_cons,List.lookup_cons,ih]

/-- Other entries of an environment do not see a changed member. -/
theorem lookup_stringMap_modifyMember {name other : String} (hother : other≠name)
    (change : Json → Json) (members : List (String×Json)) :
    (stringMap (.object (modifyMember name change members))).entries.lookup other=
      (stringMap (.object members)).entries.lookup other := by
  have hcons : ∀ (entry : String×Json) (rest : List (String×Json)), entry.1≠other →
      (stringMap (.object (entry::rest))).entries.lookup other=
        (stringMap (.object rest)).entries.lookup other := by
    intro entry rest hentry
    obtain ⟨found,value⟩ := entry
    cases value with
    | text text => exact (lookup_assignEntry other found text _).trans (if_neg (Ne.symm hentry))
    | _ => rfl
  induction members with
  | nil => rfl
  | cons entry rest ih =>
    obtain ⟨found,value⟩ := entry
    dsimp only [modifyMember]
    by_cases hname : name=found
    · rw [if_pos hname,hcons (found,change value) rest (hname ▸ Ne.symm hother),
        hcons (found,value) rest (hname ▸ Ne.symm hother)]
    · rw [if_neg hname]
      by_cases hfound : found=other
      · cases value with
        | text text =>
          rw [stringMap_cons,stringMap_cons]
          dsimp only [assign]
          rw [lookup_assignEntry,lookup_assignEntry,ih]
        | _ => exact ih
      · rw [hcons (found,value) _ hfound,hcons (found,value) rest hfound,ih]

theorem child_fromStringMap (env : StringMap) (name : String) :
    child (fromStringMap env) (.key name)=(env.entries.lookup name).map .text := by
  obtain ⟨entries,ordered⟩ := env
  dsimp only [fromStringMap,child]
  clear ordered
  induction entries with
  | nil => rfl
  | cons entry rest ih =>
    rw [List.map_cons,List.lookup_cons,List.lookup_cons,ih]
    cases name==entry.1 <;> rfl

theorem lookup_eraseEmptyKeys (env : StringMap) (name : String) :
    (eraseEmptyKeys env).entries.lookup name=
      if name="" then none else env.entries.lookup name := by
  obtain ⟨entries,ordered⟩ := env
  dsimp only [eraseEmptyKeys]
  clear ordered
  induction entries with
  | nil => exact (ite_self none).symm
  | cons entry rest ih =>
    obtain ⟨found,value⟩ := entry
    by_cases hfound : found=""
    · rw [List.filter_cons_of_neg (by simp [hfound]),ih,List.lookup_cons,hfound]
      by_cases hname : name=""
      · rw [if_pos hname,if_pos hname]
      · rw [if_neg hname,if_neg hname,beq_false_of_ne hname]
    · rw [List.filter_cons_of_pos (by simp [hfound]),List.lookup_cons,List.lookup_cons,ih]
      by_cases hname : name=found
      · rw [beq_iff_eq.mpr hname]
        exact (if_neg fun h => hfound (hname.symm.trans h)).symm
      · rw [beq_false_of_ne hname]

/-- Names are looked up in a written environment, which is left out when it
is empty. -/
theorem envTree_child (env : Option Json) (step : Step) :
    (envTree env).bind (child · step)=
      match step with
      | .key name => if name="" then none
        else (((env.map stringMap).getD default).entries.lookup name).map .text
      | .index _ => none := by
  have hwritten : (envTree env).bind (child · step)=
      child (fromStringMap (eraseEmptyKeys ((env.map stringMap).getD default))) step := by
    unfold envTree mapTree given
    split
    · rfl
    · rename_i hempty
      cases step with
      | key name =>
        rw [child_fromStringMap,not_not.mp hempty]
        rfl
      | index position => rfl
  rw [hwritten]
  cases step with
  | key name =>
    rw [child_fromStringMap,lookup_eraseEmptyKeys]
    by_cases hname : name=""
    · rw [if_pos hname]
      exact (if_pos hname).symm
    · rw [if_neg hname]
      exact (if_neg hname).symm
  | index position => rfl

/-- An edit of one variable leaves the others alone. -/
theorem envTree_frame {skip : Location → Prop} (env : StringMap) (step : Step) (rest : Location)
    (value : Json) :
    AgreeApart skip (step::rest) (envTree (some (fromStringMap env)))
      (envTree (some (replace (step::rest) value (fromStringMap env)))) := by
  cases step with
  | index position => exact (agree_of_eq rfl).apart
  | key name =>
    refine agreeApart_step ?_ ?_
    · intro other hother
      refine agree_of_eq ?_
      rw [envTree_child,envTree_child]
      cases other with
      | key found =>
        have hfound : found≠name := fun h => hother (congrArg Step.key h)
        dsimp only [Option.map_some,Option.getD_some,fromStringMap,replace]
        rw [lookup_stringMap_modifyMember hfound]
      | index position => rfl
    · cases rest with
      | nil => exact agreeApart_root _ _
      | cons next later =>
        have hsame : replace (.key name::next::later) value (fromStringMap env)=
            fromStringMap env := by
          dsimp only [fromStringMap,replace]
          congr 1
          induction env.entries with
          | nil => rfl
          | cons entry rest ih =>
            rw [List.map_cons]
            dsimp only [modifyMember]
            split
            · rw [replace_leaf rfl]
            · rw [ih]
        rw [hsame]
        exact (agree_of_eq rfl).apart

/-- An edit of a member keeps an object empty or not. -/
theorem isEmpty_modifyMember (name : String) (change : Json → Json)
    (members : List (String×Json)) :
    (modifyMember name change members).isEmpty=members.isEmpty := by
  cases members with
  | nil => rfl
  | cons entry rest =>
    dsimp only [modifyMember]
    split <;> rfl

/-- An edit below the extra members is stored with them. -/
theorem bodyTree_replace {body : Json} (hbody : isLeaf body=false) (step : Step)
    (rest : Location) (value : Json) :
    bodyTree (some (replace (step::rest) value body))=
      (bodyTree (some body)).map (replace (step::rest) value) := by
  cases body with
  | array elements => cases step <;> rfl
  | object members =>
    have hobject : ∀ members, bodyTree (some (.object members))=objectTree (.object members) :=
      fun members => rfl
    have hwritten : ∀ members, objectTree (.object members)=
        if members.isEmpty then none else some (.object members) := by
      intro members
      cases members <;> rfl
    cases step with
    | index position =>
      show bodyTree (some (.object members))=_
      rw [hobject,hwritten]
      split <;> rfl
    | key name =>
      show bodyTree (some (.object (modifyMember name (replace rest value) members)))=_
      rw [hobject,hobject,hwritten,hwritten,isEmpty_modifyMember]
      split <;> rfl
  | _ => cases hbody

end Values

section Members

/-- Members that are the same are read the same. -/
theorem eq_of_member {α : Type*} {key : String} {read : Json → Option α} {fallback left right : α}
    {before after : Json} (hleft : member key read fallback before=some left)
    (hright : member key read fallback after=some right) (h : before.find key=after.find key) :
    left=right := by
  unfold member at hleft hright
  rw [h] at hleft
  exact Option.some.inj (hleft.symm.trans hright)

theorem eq_of_optional {α : Type*} {key : String} {read : Json → Option α}
    {left right : Option α} {before after : Json} (hleft : optional key read before=some left)
    (hright : optional key read after=some right) (h : before.find key=after.find key) :
    left=right := by
  unfold JsonTree.optional at hleft hright
  rw [h] at hleft
  exact Option.some.inj (hleft.symm.trans hright)

/-- A member that is there and not null is read. -/
theorem eq_of_read {α : Type} {key : String} {node inner : Json} {read : Json → Option α}
    {value : Option α} (hread : optional key read node=some value)
    (h : child node (.key key)=some inner) (hnull : inner≠.null) :
    ∃ found, read inner=some found ∧ value=some found := by
  unfold JsonTree.optional at hread
  rw [child_key] at h
  rw [h] at hread
  split at hread
  · rename_i habsent
    cases habsent
  · rename_i hsome
    exact absurd (Option.some.inj hsome) hnull
  · rename_i other hother
    cases hother
    obtain ⟨found,hfound,hvalue⟩ := Option.map_eq_some_iff.mp hread
    exact ⟨found,hfound,hvalue.symm⟩

/-- A tree that is there and not null is read as it is. -/
theorem eq_of_tree {key : String} {node inner : Json} {read : Option Json}
    (hread : optional key readTree node=some read) (h : child node (.key key)=some inner)
    (hnull : inner≠.null) : read=some inner := by
  obtain ⟨found,hfound,hvalue⟩ := eq_of_read hread h hnull
  rw [hvalue]
  exact hfound.symm

theorem llmProviderWire_read {node : Json} {wire : LlmProviderWire}
    (h : LlmProviderWire.read node=some wire) :
    member "id" readText "" node=some wire.id ∧
      optional "base_url" readText node=some wire.baseUrl ∧
      optional "api_key" readText node=some wire.apiKey ∧
      optional "json_object" readBool node=some wire.jsonObject ∧
      optional "extra_body" readTree node=some wire.extraBody := by
  unfold LlmProviderWire.read at h
  split at h
  · simp only [Option.bind_eq_bind,Option.bind_eq_some_iff,Option.some.injEq] at h
    obtain ⟨_,hid,_,hurl,_,hkey,_,hjson,_,hbody,rfl⟩ := h
    exact ⟨hid,hurl,hkey,hjson,hbody⟩
  · cases h

/-- The tree of a service. -/
def providerTree (provider : LlmProvider) : Json := (LlmProvider.toWire provider).write

/-- A member of a service that is the same is stored the same. -/
theorem providerTree_same {before after : Json} {left right : LlmProviderWire}
    (hleft : LlmProviderWire.read before=some left)
    (hright : LlmProviderWire.read after=some right) {step : Step}
    (h : child before step=child after step) :
    child (providerTree (left.fromWire {})) step=child (providerTree (right.fromWire {})) step := by
  obtain ⟨hid,hurl,hkey,hjson,hbody⟩ := llmProviderWire_read hleft
  obtain ⟨hid',hurl',hkey',hjson',hbody'⟩ := llmProviderWire_read hright
  refine child_ofMembers_congr fun key hstep => ?_
  rw [hstep,child_key,child_key] at h
  dsimp only [LlmProviderWire.members,LlmProvider.toWire,LlmProviderWire.fromWire]
  refine .cons ⟨rfl,fun hname => ?_⟩ (.cons ⟨rfl,fun hname => ?_⟩ (.cons ⟨rfl,fun hname => ?_⟩
    (.cons ⟨rfl,fun hname => ?_⟩ (.cons ⟨rfl,fun hname => ?_⟩ .nil))))
  all_goals rw [hname] at h
  · rw [eq_of_member hid hid' h]
  · rw [eq_of_optional hurl hurl' h]
  · rw [eq_of_optional hkey hkey' h]
  · rw [eq_of_optional hjson hjson' h]
  · rw [eq_of_optional hbody hbody' h]

/-- The only container of a service are its extra members. -/
theorem providerTree_container {provider : LlmProvider} {step : Step} {inner : Json}
    (h : child (providerTree provider) step=some inner) (hinner : isLeaf inner=false) :
    step=.key "extra_body" := by
  have hleaves : ∀ entry∈(LlmProvider.toWire provider).members, entry.1∉["extra_body"] →
      ∀ value, entry.2=some value → isLeaf value=true := by
    simp only [LlmProviderWire.members,List.forall_mem_cons,List.not_mem_nil,IsEmpty.forall_iff,
      implies_true,and_true]
    exact ⟨fun _ _ => leaf_of_some rfl,fun _ _ => leaf_of_map fun _ => rfl,
      fun _ _ => leaf_of_map fun _ => rfl,fun _ _ => leaf_of_map fun _ => rfl,
      fun hname => absurd List.mem_cons_self hname⟩
  obtain ⟨name,hname,hstep⟩ := step_of_container hleaves h hinner
  rw [hstep,List.mem_singleton.mp hname]

/-- An edit of a service changes what it is about. -/
theorem providerTree_frame {skip : Location → Prop} {place : Location} {value : Json}
    {provider : LlmProvider} {left right : LlmProviderWire}
    (hleft : LlmProviderWire.read (providerTree provider)=some left)
    (hright : LlmProviderWire.read (replace place value (providerTree provider))=some right) :
    AgreeApart skip place (some (providerTree (left.fromWire {})))
      (some (providerTree (right.fromWire {}))) := by
  cases place with
  | nil => exact agreeApart_root _ _
  | cons step rest =>
    refine agreeApart_record (providerTree provider) value
      (fun other h => agree_of_eq (providerTree_same hleft hright h.symm)) ?_
    intro hrest inner hinner hcontainer
    obtain ⟨next,later,rfl⟩ := List.exists_cons_of_ne_nil hrest
    obtain rfl := providerTree_container hinner hcontainer
    have hself := child_replace_self (.key "extra_body") (next::later) value
      (providerTree provider)
    rw [hinner] at hself
    have hbody := eq_of_tree (llmProviderWire_read hleft).2.2.2.2 hinner
      (ne_null_of_container hcontainer)
    have hbody' := eq_of_tree (llmProviderWire_read hright).2.2.2.2 hself
      (ne_null_of_container (isLeaf_replace hcontainer next later value))
    have hwritten : ∀ wire : LlmProviderWire,
        child (providerTree (wire.fromWire {})) (.key "extra_body")=bodyTree wire.extraBody := by
      intro wire
      rw [child_key]
      exact find_ofMembers (by simp [LlmProviderWire.members]) "extra_body"
    rw [hwritten,hwritten,hbody,hbody',bodyTree_replace hcontainer]
    exact agreeApart_replace _ _ _

theorem llmAdapterWire_read {node : Json} {wire : LlmAdapterWire}
    (h : LlmAdapterWire.read node=some wire) :
    member "id" readText "" node=some wire.id ∧
      member "command" readText "" node=some wire.command ∧
      optional "args" readTree node=some wire.args ∧
      optional "env" readTree node=some wire.env ∧
      optional "auto_start" readBool node=some wire.autoStart := by
  unfold LlmAdapterWire.read at h
  split at h
  · simp only [Option.bind_eq_bind,Option.bind_eq_some_iff,Option.some.injEq] at h
    obtain ⟨_,hid,_,hcommand,_,hargs,_,henv,_,hauto,rfl⟩ := h
    exact ⟨hid,hcommand,hargs,henv,hauto⟩
  · cases h

/-- The tree of an adapter or a client. -/
def adapterTree (adapter : LlmAdapter) : Json := (LlmAdapter.toWire adapter).write

/-- The tree of an adapter or a client as it is stored after it was read. -/
def adapterStored (wire : LlmAdapterWire) : Json :=
  adapterTree (eraseEmptyEnvKeys (wire.fromWire {}))

/-- A member of an adapter that is the same is stored the same. -/
theorem adapterTree_same {before after : Json} {left right : LlmAdapterWire}
    (hleft : LlmAdapterWire.read before=some left)
    (hright : LlmAdapterWire.read after=some right) {step : Step}
    (h : child before step=child after step) :
    child (adapterStored left) step=child (adapterStored right) step := by
  obtain ⟨hid,hcommand,hargs,henv,hauto⟩ := llmAdapterWire_read hleft
  obtain ⟨hid',hcommand',hargs',henv',hauto'⟩ := llmAdapterWire_read hright
  refine child_ofMembers_congr fun key hstep => ?_
  rw [hstep,child_key,child_key] at h
  dsimp only [LlmAdapterWire.members,LlmAdapter.toWire,eraseEmptyEnvKeys,LlmAdapterWire.fromWire]
  refine .cons ⟨rfl,fun hname => ?_⟩ (.cons ⟨rfl,fun hname => ?_⟩ (.cons ⟨rfl,fun hname => ?_⟩
    (.cons ⟨rfl,fun hname => ?_⟩ (.cons ⟨rfl,fun hname => ?_⟩ .nil))))
  all_goals rw [hname] at h
  · rw [eq_of_member hid hid' h]
  · rw [eq_of_member hcommand hcommand' h]
  · rw [eq_of_optional hargs hargs' h]
  · rw [eq_of_optional henv henv' h]
  · rw [eq_of_optional hauto hauto' h]

/-- The containers of an adapter are its arguments and its environment. -/
theorem adapterTree_container {adapter : LlmAdapter} {step : Step} {inner : Json}
    (h : child (adapterTree adapter) step=some inner) (hinner : isLeaf inner=false) :
    step=.key "args" ∧ inner=fromStrings adapter.args ∨
      step=.key "env" ∧ inner=fromStringMap adapter.env := by
  have hleaves : ∀ entry∈(LlmAdapter.toWire adapter).members, entry.1∉["args","env"] →
      ∀ value, entry.2=some value → isLeaf value=true := by
    simp only [LlmAdapterWire.members,List.forall_mem_cons,List.not_mem_nil,IsEmpty.forall_iff,
      implies_true,and_true]
    exact ⟨fun _ _ => leaf_of_some rfl,fun _ _ => leaf_of_some rfl,
      fun hname => absurd List.mem_cons_self hname,
      fun hname => absurd (List.mem_cons_of_mem _ List.mem_cons_self) hname,
      fun _ _ => leaf_of_map fun _ => rfl⟩
  have hkeys : ((LlmAdapter.toWire adapter).members.map Prod.fst).Nodup := by
    simp [LlmAdapterWire.members]
  obtain ⟨name,hname,hstep⟩ := step_of_container hleaves h hinner
  rw [hstep,child_key] at h
  rcases List.mem_cons.mp hname with hargs | henv
  · refine .inl ⟨hargs ▸ hstep,?_⟩
    rw [hargs] at h
    have hfind : stringsTree adapter.args=some inner := (find_ofMembers hkeys "args").symm.trans h
    unfold stringsTree given at hfind
    split at hfind
    · exact (Option.some.inj hfind).symm
    · cases hfind
  · rw [List.mem_singleton] at henv
    refine .inr ⟨henv ▸ hstep,?_⟩
    rw [henv] at h
    have hfind : mapTree adapter.env=some inner := (find_ofMembers hkeys "env").symm.trans h
    unfold mapTree given at hfind
    split at hfind
    · exact (Option.some.inj hfind).symm
    · cases hfind

/-- A value put into a list of arguments is a string or takes the place of the last
one. -/
def TextInArgs (place : Location) (value node : Json) : Prop :=
  ∀ position, place=[.key "args",.index position] →
    (∃ text, value=.text text) ∨ nodeAt [.key "args",.index (position+1)] node=none

/-- An edit of an adapter changes nothing else in it. -/
theorem adapterStored_frame {skip : Location → Prop} {place : Location} {value : Json}
    {adapter : LlmAdapter} {left right : LlmAdapterWire}
    (hleft : LlmAdapterWire.read (adapterTree adapter)=some left)
    (hright : LlmAdapterWire.read (replace place value (adapterTree adapter))=some right)
    (htext : TextInArgs place value (adapterTree adapter)) :
    AgreeApart skip place (some (adapterStored left)) (some (adapterStored right)) := by
  cases place with
  | nil => exact agreeApart_root _ _
  | cons step rest =>
    refine agreeApart_record (adapterTree adapter) value
      (fun other h => agree_of_eq (adapterTree_same hleft hright h.symm)) ?_
    intro hrest inner hinner hcontainer
    obtain ⟨next,later,rfl⟩ := List.exists_cons_of_ne_nil hrest
    obtain ⟨_,_,hargs,henv,_⟩ := llmAdapterWire_read hleft
    obtain ⟨_,_,hargs',henv',_⟩ := llmAdapterWire_read hright
    have hself := child_replace_self step (next::later) value (adapterTree adapter)
    rw [hinner] at hself
    have hnull := ne_null_of_container hcontainer
    have hnull' := ne_null_of_container (isLeaf_replace hcontainer next later value)
    rcases adapterTree_container hinner hcontainer with ⟨rfl,rfl⟩ | ⟨rfl,rfl⟩
    · have hwritten : ∀ wire : LlmAdapterWire,
          child (adapterStored wire) (.key "args")=argsTree wire.args := by
        intro wire
        rw [child_key]
        exact find_ofMembers (by simp [LlmAdapterWire.members]) "args"
      rw [hwritten,hwritten,eq_of_tree hargs hinner hnull,eq_of_tree hargs' hself hnull']
      refine argsTree_frame fun position h => (htext position (congrArg _ h)).imp_right ?_
      rw [nodeAt_cons hinner,nodeAt_single]
      exact id
    · have hwritten : ∀ wire : LlmAdapterWire,
          child (adapterStored wire) (.key "env")=envTree wire.env := by
        intro wire
        rw [child_key]
        exact find_ofMembers (by simp [LlmAdapterWire.members]) "env"
      rw [hwritten,hwritten,eq_of_tree henv hinner hnull,eq_of_tree henv' hself hnull']
      exact envTree_frame adapter.env next later value

/-- What a speech recognition provider is read of. -/
theorem asrProviderWire_read {node : Json} {wire : AsrProviderWire}
    (h : AsrProviderWire.read node=some wire) :
    member "id" readText "" node=some wire.id ∧
      member "type" readText "" node=some wire.type ∧
      optional "model" readText node=some wire.model ∧
      optional "hotwords_file" readText node=some wire.hotwordsFile ∧
      optional "command" readText node=some wire.command ∧
      optional "args" readTree node=some wire.args ∧
      optional "env" readTree node=some wire.env ∧
      optional "timeout_ms" readInt node=some wire.timeoutMs := by
  unfold AsrProviderWire.read at h
  split at h
  · simp only [Option.bind_eq_bind,Option.bind_eq_some_iff,Option.some.injEq] at h
    obtain ⟨_,hid,_,htype,_,hmodel,_,hwords,_,hcommand,_,hargs,_,henv,_,htimeout,rfl⟩ := h
    exact ⟨hid,htype,hmodel,hwords,hcommand,hargs,henv,htimeout⟩
  · cases h

/-- The tree of a speech recognition provider. -/
def asrProviderTree (provider : AsrProvider) : Json := (AsrProvider.toWire provider).write

/-- The provider of a wire form as it is kept. -/
def asrProviderKept (wire : AsrProviderWire) : AsrProvider :=
  match wire.fromWire (.localProvider {}) with
  | .localProvider provider => .localProvider provider
  | .commandProvider provider =>
    .commandProvider {provider with env := eraseEmptyKeys provider.env}

/-- A local provider is kept with its model and its hotwords. -/
theorem asrProviderKept_local {wire : AsrProviderWire} (h : wire.type="local") :
    asrProviderKept wire=.localProvider
      {id := wire.id
       model := wire.model.getD ""
       hotwordsFile := wire.hotwordsFile.getD ""
       timeoutMs := wire.timeoutMs.getD 0} := by
  unfold asrProviderKept AsrProviderWire.fromWire
  rw [if_pos h]

/-- A command provider is kept with its command and what goes with it. -/
theorem asrProviderKept_command {wire : AsrProviderWire} (h : wire.type="command") :
    asrProviderKept wire=.commandProvider
      {id := wire.id
       command := wire.command.getD ""
       args := (wire.args.map strings).getD []
       env := eraseEmptyKeys ((wire.env.map stringMap).getD default)
       timeoutMs := wire.timeoutMs.getD 0} := by
  unfold asrProviderKept AsrProviderWire.fromWire
  rw [if_neg (by rw [h]; decide),if_pos h]

/-- Of a provider of another kind nothing is kept. -/
theorem asrProviderKept_other {wire : AsrProviderWire} (hlocal : wire.type≠"local")
    (hcommand : wire.type≠"command") : asrProviderKept wire=.localProvider {} := by
  unfold asrProviderKept AsrProviderWire.fromWire
  rw [if_neg hlocal,if_neg hcommand]

/-- A member of a provider that is the same is stored the same, in a provider of the same
kind. -/
theorem asrProviderTree_same {before after : Json} {left right : AsrProviderWire}
    (hleft : AsrProviderWire.read before=some left)
    (hright : AsrProviderWire.read after=some right) (hkind : left.type=right.type) {step : Step}
    (h : child before step=child after step) :
    child (asrProviderTree (asrProviderKept left)) step=
      child (asrProviderTree (asrProviderKept right)) step := by
  obtain ⟨hid,_,hmodel,hwords,hcommand,hargs,henv,htimeout⟩ := asrProviderWire_read hleft
  obtain ⟨hid',_,hmodel',hwords',hcommand',hargs',henv',htimeout'⟩ := asrProviderWire_read hright
  refine child_ofMembers_congr fun key hstep => ?_
  rw [hstep,child_key,child_key] at h
  by_cases hlocal : left.type="local"
  · rw [asrProviderKept_local hlocal,asrProviderKept_local (hkind ▸ hlocal)]
    dsimp only [AsrProviderWire.members,AsrProvider.toWire,asrProviderId,asrProviderType]
    refine .cons ⟨rfl,fun hname => ?_⟩ (.cons ⟨rfl,fun _ => rfl⟩
      (.cons ⟨rfl,fun hname => ?_⟩ (.cons ⟨rfl,fun hname => ?_⟩ (.cons ⟨rfl,fun _ => rfl⟩
      (.cons ⟨rfl,fun _ => rfl⟩ (.cons ⟨rfl,fun _ => rfl⟩
      (.cons ⟨rfl,fun hname => ?_⟩ .nil)))))))
    all_goals rw [hname] at h
    · rw [eq_of_member hid hid' h]
    · rw [eq_of_optional hmodel hmodel' h]
    · rw [eq_of_optional hwords hwords' h]
    · rw [eq_of_optional htimeout htimeout' h]
  · by_cases hcmd : left.type="command"
    · rw [asrProviderKept_command hcmd,asrProviderKept_command (hkind ▸ hcmd)]
      dsimp only [AsrProviderWire.members,AsrProvider.toWire,asrProviderId,asrProviderType]
      refine .cons ⟨rfl,fun hname => ?_⟩ (.cons ⟨rfl,fun _ => rfl⟩ (.cons ⟨rfl,fun _ => rfl⟩
        (.cons ⟨rfl,fun _ => rfl⟩ (.cons ⟨rfl,fun hname => ?_⟩ (.cons ⟨rfl,fun hname => ?_⟩
        (.cons ⟨rfl,fun hname => ?_⟩ (.cons ⟨rfl,fun hname => ?_⟩ .nil)))))))
      all_goals rw [hname] at h
      · rw [eq_of_member hid hid' h]
      · rw [eq_of_optional hcommand hcommand' h]
      · rw [eq_of_optional hargs hargs' h]
      · rw [eq_of_optional henv henv' h]
      · rw [eq_of_optional htimeout htimeout' h]
    · rw [asrProviderKept_other hlocal hcmd,
        asrProviderKept_other (hkind ▸ hlocal) (hkind ▸ hcmd)]
      exact List.forall₂_same.mpr fun _ _ => ⟨rfl,fun _ => rfl⟩

/-- The containers of a provider are its arguments and its environment. -/
theorem asrProviderTree_container {provider : AsrProvider} {step : Step} {inner : Json}
    (h : child (asrProviderTree provider) step=some inner) (hinner : isLeaf inner=false) :
    (step=.key "args" ∧ ∃ values, inner=fromStrings values) ∨
      (step=.key "env" ∧ ∃ env, inner=fromStringMap env) := by
  have hleaves : ∀ wire : AsrProviderWire, ∀ entry∈wire.members, entry.1∉["args","env"] →
      ∀ value, entry.2=some value → isLeaf value=true := by
    intro wire
    simp only [AsrProviderWire.members,List.forall_mem_cons,List.not_mem_nil,IsEmpty.forall_iff,
      implies_true,and_true]
    exact ⟨fun _ _ => leaf_of_some rfl,fun _ _ => leaf_of_some rfl,
      fun _ _ => leaf_of_map fun _ => rfl,fun _ _ => leaf_of_map fun _ => rfl,
      fun _ _ => leaf_of_map fun _ => rfl,fun hname => absurd List.mem_cons_self hname,
      fun hname => absurd (List.mem_cons_of_mem _ List.mem_cons_self) hname,
      fun _ _ => leaf_of_map fun _ => rfl⟩
  have hfind : ∀ key, child (asrProviderTree provider) (.key key)=
      ((AsrProvider.toWire provider).members.lookup key).join := by
    intro key
    rw [child_key]
    exact find_ofMembers (by simp [AsrProviderWire.members]) key
  obtain ⟨name,hname,hstep⟩ := step_of_container (hleaves _) h hinner
  rw [hstep,hfind] at h
  rcases List.mem_cons.mp hname with hargs | henv
  · refine .inl ⟨hargs ▸ hstep,?_⟩
    rw [hargs] at h
    cases provider with
    | localProvider settings => cases h
    | commandProvider settings =>
      have hvalues : stringsTree settings.args=some inner := h
      unfold stringsTree given at hvalues
      split at hvalues
      · exact ⟨settings.args,(Option.some.inj hvalues).symm⟩
      · cases hvalues
  · rw [List.mem_singleton] at henv
    refine .inr ⟨henv ▸ hstep,?_⟩
    rw [henv] at h
    cases provider with
    | localProvider settings => cases h
    | commandProvider settings =>
      have hvalues : mapTree settings.env=some inner := h
      unfold mapTree given at hvalues
      split at hvalues
      · exact ⟨settings.env,(Option.some.inj hvalues).symm⟩
      · cases hvalues

/-- Arguments and environment are written for commands only. -/
theorem asrProviderTree_lists (wire : AsrProviderWire) :
    child (asrProviderTree (asrProviderKept wire)) (.key "args")=
        (if wire.type="command" then argsTree wire.args else none) ∧
      child (asrProviderTree (asrProviderKept wire)) (.key "env")=
        (if wire.type="command" then envTree wire.env else none) := by
  have hfind : ∀ key, child (asrProviderTree (asrProviderKept wire)) (.key key)=
      ((AsrProvider.toWire (asrProviderKept wire)).members.lookup key).join := by
    intro key
    rw [child_key]
    exact find_ofMembers (by simp [AsrProviderWire.members]) key
  rw [hfind,hfind]
  by_cases hcommand : wire.type="command"
  · rw [if_pos hcommand,if_pos hcommand,asrProviderKept_command hcommand]
    exact ⟨rfl,rfl⟩
  · rw [if_neg hcommand,if_neg hcommand]
    by_cases hlocal : wire.type="local"
    · rw [asrProviderKept_local hlocal]
      exact ⟨rfl,rfl⟩
    · rw [asrProviderKept_other hlocal hcommand]
      exact ⟨rfl,rfl⟩

/-- An edit of a provider that keeps its kind changes nothing else in it. -/
theorem asrProviderTree_frame {skip : Location → Prop} {place : Location} {value : Json}
    {provider : AsrProvider} {left right : AsrProviderWire}
    (hleft : AsrProviderWire.read (asrProviderTree provider)=some left)
    (hright : AsrProviderWire.read (replace place value (asrProviderTree provider))=some right)
    (hkind : place≠[] → left.type=right.type)
    (htext : TextInArgs place value (asrProviderTree provider)) :
    AgreeApart skip place (some (asrProviderTree (asrProviderKept left)))
      (some (asrProviderTree (asrProviderKept right))) := by
  cases place with
  | nil => exact agreeApart_root _ _
  | cons step rest =>
    have hsame := hkind (List.cons_ne_nil _ _)
    refine agreeApart_record (asrProviderTree provider) value
      (fun other h => agree_of_eq (asrProviderTree_same hleft hright hsame h.symm)) ?_
    intro hrest inner hinner hcontainer
    obtain ⟨next,later,rfl⟩ := List.exists_cons_of_ne_nil hrest
    obtain ⟨_,_,_,_,_,hargs,henv,_⟩ := asrProviderWire_read hleft
    obtain ⟨_,_,_,_,_,hargs',henv',_⟩ := asrProviderWire_read hright
    have hself := child_replace_self step (next::later) value (asrProviderTree provider)
    rw [hinner] at hself
    have hnull := ne_null_of_container hcontainer
    have hnull' := ne_null_of_container (isLeaf_replace hcontainer next later value)
    rcases asrProviderTree_container hinner hcontainer with ⟨rfl,values,rfl⟩ | ⟨rfl,env,rfl⟩
    · rw [(asrProviderTree_lists left).1,(asrProviderTree_lists right).1,← hsame,
        eq_of_tree hargs hinner hnull,eq_of_tree hargs' hself hnull']
      split
      · refine argsTree_frame fun position h => (htext position (congrArg _ h)).imp_right ?_
        rw [nodeAt_cons hinner,nodeAt_single]
        exact id
      · exact (agree_of_eq rfl).apart
    · rw [(asrProviderTree_lists left).2,(asrProviderTree_lists right).2,← hsame,
        eq_of_tree henv hinner hnull,eq_of_tree henv' hself hnull']
      split
      · exact envTree_frame env next later value
      · exact (agree_of_eq rfl).apart

theorem sceneWire_read {node : Json} {wire : SceneWire} (h : SceneWire.read node=some wire) :
    member "id" readText "" node=some wire.id ∧
      optional "label" readText node=some wire.label ∧
      optional "prompt" readText node=some wire.prompt ∧
      optional "provider_id" readText node=some wire.providerId ∧
      optional "model" readText node=some wire.model ∧
      optional "count" readInt node=some wire.count ∧
      optional "timeout_ms" readInt node=some wire.timeoutMs ∧
      optional "context_lines" readInt node=some wire.contextLines ∧
      optional "raw_cand" readBool node=some wire.rawCand ∧
      optional "raw_prev" readBool node=some wire.rawPrev := by
  unfold SceneWire.read at h
  split at h
  · simp only [Option.bind_eq_bind,Option.bind_eq_some_iff,Option.some.injEq] at h
    obtain ⟨_,hid,_,hlabel,_,hprompt,_,hprovider,_,hmodel,_,hcount,_,htimeout,_,hlines,_,hcand,
      _,hprev,rfl⟩ := h
    exact ⟨hid,hlabel,hprompt,hprovider,hmodel,hcount,htimeout,hlines,hcand,hprev⟩
  · cases h

/-- The tree of a scene. -/
def sceneTree (scene : Definition) : Json := (Definition.toWire scene).write

/-- The prompt a scene ends up with. -/
def scenePrompt (id prompt : String) : String :=
  if id=kCommandSceneId ∧ (prompt="" ∨ prompt=kLegacyCommandPrompt ∨
    prompt=kShortTagCommandPrompt) then kDefaultCommandPrompt else prompt

/-- A prompted scene is the normalised one with its prompt. -/
theorem promptedScene_eq (scene : Definition) :
    promptedScene scene=
      {normalizeDefinition scene with prompt := scenePrompt scene.id scene.prompt} := by
  unfold promptedScene scenePrompt
  dsimp only [normalizeDefinition]
  split <;> rfl

/-- Neither identity is one of a builtin scene unless they are the same. -/
def SameKind (left right : String) : Prop :=
  left=right ∨ (isBuiltinSceneId left=false ∧ isBuiltinSceneId right=false)

/-- Scenes of one kind are builtin or not together. -/
theorem SameKind.builtin {left right : String} (h : SameKind left right) :
    isBuiltinSceneId left=isBuiltinSceneId right := by
  rcases h with hsame | ⟨hleft,hright⟩
  · rw [hsame]
  · rw [hleft,hright]

/-- Scenes of one kind end up with the same prompt. -/
theorem SameKind.scenePrompt {left right : String} (h : SameKind left right) (prompt : String) :
    scenePrompt left prompt=scenePrompt right prompt := by
  rcases h with hsame | ⟨hleft,hright⟩
  · rw [hsame]
  · have hother : ∀ id, isBuiltinSceneId id=false → ConfigTreeEdits.scenePrompt id prompt=prompt := by
      intro id hid
      refine if_neg fun hcommand => ?_
      rw [hcommand.1] at hid
      cases hid
    rw [hother left hleft,hother right hright]

/-- A member of a scene that is the same is stored the same, in a scene of the same kind. -/
theorem sceneTree_same {before after : Json} {left right : SceneWire}
    (hleft : SceneWire.read before=some left) (hright : SceneWire.read after=some right)
    (hkind : SameKind left.id right.id) {step : Step} (h : child before step=child after step) :
    child (sceneTree (promptedScene (left.fromWire {}))) step=
      child (sceneTree (promptedScene (right.fromWire {}))) step := by
  obtain ⟨hid,hlabel,hprompt,hprovider,hmodel,hcount,htimeout,hlines,hcand,hprev⟩ :=
    sceneWire_read hleft
  obtain ⟨hid',hlabel',hprompt',hprovider',hmodel',hcount',htimeout',hlines',hcand',hprev'⟩ :=
    sceneWire_read hright
  rw [promptedScene_eq,promptedScene_eq]
  refine child_ofMembers_congr fun key hstep => ?_
  rw [hstep,child_key,child_key] at h
  dsimp only [SceneWire.members,Definition.toWire,normalizeDefinition,SceneWire.fromWire]
  refine .cons ⟨rfl,fun hname => ?_⟩ (.cons ⟨rfl,fun hname => ?_⟩ (.cons ⟨rfl,fun hname => ?_⟩
    (.cons ⟨rfl,fun hname => ?_⟩ (.cons ⟨rfl,fun hname => ?_⟩ (.cons ⟨rfl,fun hname => ?_⟩
    (.cons ⟨rfl,fun hname => ?_⟩ (.cons ⟨rfl,fun hname => ?_⟩ (.cons ⟨rfl,fun hname => ?_⟩
    (.cons ⟨rfl,fun hname => ?_⟩ .nil)))))))))
  all_goals rw [hname] at h
  · rw [eq_of_member hid hid' h]
  · rw [eq_of_optional hlabel hlabel' h,hkind.builtin]
  · rw [eq_of_optional hprompt hprompt' h,hkind.scenePrompt]
  · rw [eq_of_optional hprovider hprovider' h]
  · rw [eq_of_optional hmodel hmodel' h]
  · rw [eq_of_optional hcount hcount' h]
  · rw [eq_of_optional htimeout htimeout' h]
  · rw [eq_of_optional hlines hlines' h]
  · rw [eq_of_optional hcand hcand' h]
  · rw [eq_of_optional hprev hprev' h]

/-- Objects without containers are edited member by member. -/
theorem agreeApart_flat {skip : Location → Prop} {left right : Json} {place : Location}
    (value : Json) (members : List (String×Option Json))
    (leaves : ∀ entry∈members, ∀ value, entry.2=some value → isLeaf value=true)
    (same : ∀ step rest other, place=step::rest →
      child (replace place value (ofMembers members)) other=child (ofMembers members) other →
      child left other=child right other) :
    AgreeApart skip place (some left) (some right) := by
  cases place with
  | nil => exact agreeApart_root _ _
  | cons step rest =>
    refine agreeApart_record (ofMembers members) value
      (fun other h => agree_of_eq (same step rest other rfl h)) ?_
    intro _ inner hinner hcontainer
    obtain ⟨_,hnone,_⟩ := step_of_container (fun entry hentry _ => leaves entry hentry) hinner
      hcontainer
    exact absurd hnone List.not_mem_nil

/-- An edit of a scene that keeps its kind changes nothing else in it. -/
theorem sceneTree_frame {skip : Location → Prop} {place : Location} {value : Json}
    {scene : Definition} {left right : SceneWire}
    (hleft : SceneWire.read (sceneTree scene)=some left)
    (hright : SceneWire.read (replace place value (sceneTree scene))=some right)
    (hkind : place≠[] → SameKind left.id right.id) :
    AgreeApart skip place (some (sceneTree (promptedScene (left.fromWire {}))))
      (some (sceneTree (promptedScene (right.fromWire {})))) := by
  refine agreeApart_flat value (Definition.toWire scene).members ?_ ?_
  · simp only [SceneWire.members,List.forall_mem_cons,List.not_mem_nil,IsEmpty.forall_iff,
      implies_true,and_true]
    exact ⟨fun _ => leaf_of_some rfl,fun _ => leaf_of_map fun _ => rfl,
      fun _ => leaf_of_map fun _ => rfl,fun _ => leaf_of_map fun _ => rfl,
      fun _ => leaf_of_map fun _ => rfl,fun _ => leaf_of_map fun _ => rfl,
      fun _ => leaf_of_map fun _ => rfl,fun _ => leaf_of_map fun _ => rfl,
      fun _ => leaf_of_map fun _ => rfl,fun _ => leaf_of_map fun _ => rfl⟩
  · intro step rest other hplace h
    exact sceneTree_same hleft hright (hkind (hplace ▸ List.cons_ne_nil _ _)) h.symm

/-- What the capture settings are read of. -/
theorem globalWire_read {node : Json} {wire : GlobalWire} (h : GlobalWire.read node=some wire) :
    member "capture_device" readText "" node=some wire.captureDevice ∧
      member "duck_output_while_recording" readBool false node=
        some wire.duckOutputWhileRecording ∧
      member "duck_output_volume" readNumber 0.25 node=some wire.duckOutputVolume := by
  unfold GlobalWire.read at h
  split at h
  · simp only [Option.bind_eq_bind,Option.bind_eq_some_iff,Option.some.injEq] at h
    obtain ⟨_,hdevice,_,hduck,_,hvolume,rfl⟩ := h
    exact ⟨hdevice,hduck,hvolume⟩
  · cases h

theorem isLeaf_writeNumber (value : Double) : isLeaf (writeNumber value)=true := by
  cases value <;> rfl

/-- The tree of the audio capture as it is stored after it was read. -/
def globalStored (wire : GlobalWire) : Json :=
  (Global.toWire {wire.fromWire with
    duckOutputVolume := clamp wire.duckOutputVolume 0.0 1.0}).write

/-- An edit of the capture settings changes nothing else in them. -/
theorem globalStored_frame {skip : Location → Prop} {place : Location} {value : Json}
    {global : Global} {left right : GlobalWire}
    (hleft : GlobalWire.read (Global.toWire global).write=some left)
    (hright : GlobalWire.read (replace place value (Global.toWire global).write)=some right) :
    AgreeApart skip place (some (globalStored left)) (some (globalStored right)) := by
  obtain ⟨hdevice,hduck,hvolume⟩ := globalWire_read hleft
  obtain ⟨hdevice',hduck',hvolume'⟩ := globalWire_read hright
  refine agreeApart_flat value (Global.toWire global).members ?_ ?_
  · simp only [GlobalWire.members,List.forall_mem_cons,List.not_mem_nil,IsEmpty.forall_iff,
      implies_true,and_true]
    exact ⟨fun _ => leaf_of_some rfl,fun _ => leaf_of_some rfl,
      fun _ => leaf_of_some (isLeaf_writeNumber _)⟩
  · intro step rest other _ h
    refine child_ofMembers_congr fun key hstep => ?_
    rw [hstep,child_key,child_key] at h
    dsimp only [GlobalWire.members,Global.toWire,GlobalWire.fromWire]
    refine .cons ⟨rfl,fun hname => ?_⟩ (.cons ⟨rfl,fun hname => ?_⟩
      (.cons ⟨rfl,fun hname => ?_⟩ .nil))
    all_goals rw [hname] at h
    · rw [eq_of_member hdevice hdevice' h.symm]
    · rw [eq_of_member hduck hduck' h.symm]
    · rw [eq_of_member hvolume hvolume' h.symm]

/-- What the silence trimming is read of. -/
theorem vadWire_read {node : Json} {wire : VadWire} (h : VadWire.read node=some wire) :
    member "enabled" readBool true node=some wire.enabled ∧
      member "threshold" readNumber 0.35 node=some wire.threshold ∧
      member "min_speech_duration" readNumber 0.10 node=some wire.minSpeechDuration ∧
      member "min_silence_duration" readNumber 1.2 node=some wire.minSilenceDuration ∧
      member "speech_pad_ms" readInt 500 node=some wire.speechPadMs := by
  unfold VadWire.read at h
  split at h
  · simp only [Option.bind_eq_bind,Option.bind_eq_some_iff,Option.some.injEq] at h
    obtain ⟨_,henabled,_,hthreshold,_,hspeech,_,hsilence,_,hpad,rfl⟩ := h
    exact ⟨henabled,hthreshold,hspeech,hsilence,hpad⟩
  · cases h

/-- The tree of the silence trimming as it is stored after it was read. -/
def vadStored (wire : VadWire) : Json := (Vad.toWire (normalizeVad wire.fromWire)).write

/-- An edit of the silence trimming changes nothing else in it. -/
theorem vadStored_frame {skip : Location → Prop} {place : Location} {value : Json}
    {vad : Vad} {left right : VadWire}
    (hleft : VadWire.read (Vad.toWire vad).write=some left)
    (hright : VadWire.read (replace place value (Vad.toWire vad).write)=some right) :
    AgreeApart skip place (some (vadStored left)) (some (vadStored right)) := by
  obtain ⟨henabled,hthreshold,hspeech,hsilence,hpad⟩ := vadWire_read hleft
  obtain ⟨henabled',hthreshold',hspeech',hsilence',hpad'⟩ := vadWire_read hright
  refine agreeApart_flat value (Vad.toWire vad).members ?_ ?_
  · simp only [VadWire.members,List.forall_mem_cons,List.not_mem_nil,IsEmpty.forall_iff,
      implies_true,and_true]
    exact ⟨fun _ => leaf_of_some rfl,fun _ => leaf_of_some (isLeaf_writeNumber _),
      fun _ => leaf_of_some (isLeaf_writeNumber _),fun _ => leaf_of_some (isLeaf_writeNumber _),
      fun _ => leaf_of_some rfl⟩
  · intro step rest other _ h
    refine child_ofMembers_congr fun key hstep => ?_
    rw [hstep,child_key,child_key] at h
    dsimp only [VadWire.members,Vad.toWire,normalizeVad,VadWire.fromWire]
    refine .cons ⟨rfl,fun hname => ?_⟩ (.cons ⟨rfl,fun hname => ?_⟩
      (.cons ⟨rfl,fun hname => ?_⟩ (.cons ⟨rfl,fun hname => ?_⟩
      (.cons ⟨rfl,fun hname => ?_⟩ .nil))))
    all_goals rw [hname] at h
    · rw [eq_of_member henabled henabled' h.symm]
    · rw [eq_of_member hthreshold hthreshold' h.symm]
    · rw [eq_of_member hspeech hspeech' h.symm]
    · rw [eq_of_member hsilence hsilence' h.symm]
    · rw [eq_of_member hpad hpad' h.symm]

end Members

end Vinput.ConfigTreeEdits
