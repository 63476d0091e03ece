import Vinput.ConfigTreeEdits

/-!
# Edits of whole sections

A list that keeps all its entries is stored entry by entry, so an edit of
one entry leaves the others where they are. A section that can be read is
stored member by member. References are the exception: they are cleared
when the entry they name is gone.
-/

namespace Vinput.ConfigSections

open CoreConfigTypes CoreConfigNormalize CoreConfigJson CoreConfigRoundTrip ConfigTree
open ConfigTreeEdits FirstEntries JsonTree JsonLocation

section Lists

variable {Wire α : Type} (read : Json → Option Wire) (fromWire : Wire → α)
  (treatment : Treatment α String) (tree : α → Json)

/-- What is stored of an entry that is read. -/
def entryStored (node : Json) : Option Json :=
  (read node).bind fun wire =>
    ((treatment.prepare (fromWire wire)).bind treatment.finish).map tree

variable {read fromWire treatment tree}

/-- The stages of an entry that is stored. -/
theorem entryStored_eq_some {node result : Json}
    (h : entryStored read fromWire treatment tree node=some result) :
    ∃ wire prepared kept, read node=some wire ∧ treatment.prepare (fromWire wire)=some prepared ∧
      treatment.finish prepared=some kept ∧ tree kept=result := by
  obtain ⟨wire,hwire,hkept⟩ := Option.bind_eq_some_iff.mp h
  obtain ⟨kept,hfinish,hresult⟩ := Option.map_eq_some_iff.mp hkept
  obtain ⟨prepared,hprepared,hkept⟩ := Option.bind_eq_some_iff.mp hfinish
  exact ⟨wire,prepared,kept,hwire,hprepared,hkept,hresult⟩

theorem treated_of_readArray {elements : List Json} {wires : List Wire}
    (h : readArray read (.array elements)=some wires) :
    Treated read elements wires := by
  have hmap : elements.mapM read=some wires := h
  clear h
  induction elements generalizing wires with
  | nil =>
    cases hmap
    exact .nil
  | cons element rest ih =>
    rw [List.mapM_cons] at hmap
    simp only [Option.bind_eq_bind,Option.bind_eq_some_iff,Option.pure_def,
      Option.some.injEq] at hmap
    obtain ⟨wire,hwire,later,hlater,rfl⟩ := hmap
    exact .cons hwire (ih hlater)

/-- A list whose entries are all kept is stored entry by entry. -/
theorem treated_of_acceptable {elements : List Json} {wires : List Wire} {seen : List String}
    (hread : readArray read (.array elements)=some wires)
    (acceptable : Acceptable treatment seen (wires.map fromWire)) :
    Treated (entryStored read fromWire treatment tree) elements
      ((keepFirst treatment seen (wires.map fromWire)).2.map tree) := by
  have hkept := keepFirst_acceptable acceptable
  generalize (keepFirst treatment seen (wires.map fromWire)).2=kept at hkept
  have hwires := treated_of_readArray hread
  clear hread acceptable
  induction hwires generalizing kept with
  | nil =>
    cases hkept
    exact .nil
  | cons hwire _ ih =>
    rw [List.map_cons] at hkept
    obtain ⟨⟩ := hkept
    rename_i result results hresult hresults
    refine .cons ?_ (ih results hresults)
    unfold entryStored
    rw [hwire,Option.bind_some,hresult]
    rfl

/-- Lists that only differ at their last entry are read as lists that do. -/
theorem read_last {position : ℕ} {value : Json} {elements : List Json}
    {before after : List Wire}
    (hbefore : readArray read (.array elements)=some before)
    (hafter : readArray read (replace [.index position] value (.array elements))=some after)
    (hlast : elements.length ≤ position+1) :
    before=after ∨ ∃ front left right, before=front++[left] ∧ after=front++[right] ∧
      front.length=position := by
  have hwires := treated_of_readArray hbefore
  have hwires' := treated_of_readArray hafter
  have hlength : before.length=elements.length := hwires.length_eq.symm
  have hlength' : after.length=elements.length :=
    hwires'.length_eq.symm.trans (List.length_modify _ _ _)
  have hothers : ∀ other, other≠position → before[other]?=after[other]? := by
    intro other hother
    rw [hwires.getElem?,hwires'.getElem?,List.getElem?_modify_ne _ _ (Ne.symm hother)]
  by_cases hthere : elements.length ≤ position
  · refine .inl (List.ext_getElem? fun other => ?_)
    by_cases hother : other=position
    · rw [hother,List.getElem?_eq_none (hlength.trans_le hthere),
        List.getElem?_eq_none (hlength'.trans_le hthere)]
    · exact hothers other hother
  · have hend : elements.length=position+1 := by omega
    have hsplit : ∀ wires : List Wire, wires.length=position+1 →
        ∃ front last, wires=front++[last] ∧ front.length=position := by
      intro wires hwires
      rcases wires.eq_nil_or_concat' with rfl | ⟨front,last,rfl⟩
      · cases hwires
      · rw [List.length_append,List.length_singleton] at hwires
        exact ⟨front,last,rfl,Nat.succ.inj hwires⟩
    obtain ⟨front,left,rfl,hfront⟩ := hsplit before (hlength.trans hend)
    obtain ⟨front',right,rfl,hfront'⟩ := hsplit after (hlength'.trans hend)
    have hsame : front=front' := by
      refine List.ext_getElem? fun other => ?_
      by_cases hother : other<position
      · have hfound := hothers other (Nat.ne_of_lt hother)
        rw [List.getElem?_append_left (hfront ▸ hother),
          List.getElem?_append_left (hfront' ▸ hother)] at hfound
        exact hfound
      · have hbehind := not_lt.mp hother
        rw [List.getElem?_eq_none (hfront.trans_le hbehind),
          List.getElem?_eq_none (hfront'.trans_le hbehind)]
    exact .inr ⟨front,left,right,rfl,hsame ▸ rfl,hfront⟩

/-- Whatever becomes of the last entry of a list, what is kept of the others
stays. -/
theorem list_last_frame {skip : Location → Prop} {position : ℕ} {value : Json}
    {elements : List Json} {before after : List Wire} {seen : List String}
    (hbefore : readArray read (.array elements)=some before)
    (hafter : readArray read (replace [.index position] value (.array elements))=some after)
    (acceptable : Acceptable treatment seen (before.map fromWire))
    (hlast : elements.length ≤ position+1) :
    AgreeApart skip [.index position]
      (some (.array ((keepFirst treatment seen (before.map fromWire)).2.map tree)))
      (some (.array ((keepFirst treatment seen (after.map fromWire)).2.map tree))) := by
  rcases read_last hbefore hafter hlast with rfl | ⟨front,left,right,rfl,rfl,hfront⟩
  · exact (agree_of_eq rfl).apart
  · have hkept := (keepFirst_acceptable acceptable).length_eq
    rw [List.map_append,List.map_singleton] at hkept ⊢
    rw [List.map_append,List.map_singleton]
    have hlength := @keepFirst_length_le _ _ treatment _ seen (front.map fromWire)
    rw [List.length_map,hfront] at hlength
    rw [keepFirst_concat] at hkept ⊢
    rw [keepFirst_concat]
    generalize keepFirst treatment seen (front.map fromWire)=first at hkept hlength ⊢
    have hsingle : ∀ entry, (keepFirst treatment first.1 [entry]).2.length ≤ 1 :=
      fun entry => keepFirst_length_le first.1 [entry]
    have hleft := hsingle (fromWire left)
    simp only [List.length_append,List.length_map,List.length_singleton,hfront] at hkept
    rw [List.map_append,List.map_append]
    refine agreeApart_last ?_ ?_ ?_
    · rw [List.length_map]
      omega
    · rw [List.length_map]
      exact hleft
    · rw [List.length_map]
      exact hsingle (fromWire right)

/-- An edit below one entry of a list, all of whose entries are kept, or of the
last entry as a whole. -/
theorem list_frame {skip : Location → Prop} {place : Location} {value : Json}
    {elements : List Json} {before after : List Wire} {seen : List String}
    (hbefore : readArray read (.array elements)=some before)
    (hafter : readArray read (replace place value (.array elements))=some after)
    (acceptable : Acceptable treatment seen (before.map fromWire))
    (acceptable' : (∃ position, .index position∈place) →
      Acceptable treatment seen (after.map fromWire) ∨ IsLast place (.array elements))
    (below : ∀ position rest element result later, place=.index position::rest →
      Acceptable treatment seen (after.map fromWire) →
      elements[position]?=some element →
      entryStored read fromWire treatment tree element=some result →
      entryStored read fromWire treatment tree (replace rest value element)=some later →
      AgreeApart (fun place => skip (.index position::place)) rest (some result) (some later)) :
    AgreeApart skip place
      (some (.array ((keepFirst treatment seen (before.map fromWire)).2.map tree)))
      (some (.array ((keepFirst treatment seen (after.map fromWire)).2.map tree))) := by
  cases place with
  | nil => exact agreeApart_root _ _
  | cons step rest =>
    cases step with
    | key name =>
      have hsame : before=after := Option.some.inj (hbefore.symm.trans hafter)
      rw [hsame]
      exact (agree_of_eq rfl).apart
    | index position =>
      rcases acceptable' ⟨position,List.mem_cons_self⟩ with haccepted | ⟨last,hplace,hlast⟩
      · refine agreeApart_array (treated_of_acceptable hbefore acceptable)
          (treated_of_acceptable hafter haccepted) ?_
        intro element result later helement hresult hlater
        exact below position rest element result later rfl haccepted helement hresult hlater
      · cases hplace
        exact list_last_frame hbefore hafter acceptable (List.getElem?_eq_none_iff.mp hlast)

/-- An element of a written list is an entry. -/
theorem element_of_map {α : Type} {tree : α → Json} {entries : List α} {position : ℕ}
    {element : Json} (h : (entries.map tree)[position]?=some element) :
    ∃ entry∈entries, tree entry=element := by
  rw [List.getElem?_map] at h
  obtain ⟨entry,hentry,hsame⟩ := Option.map_eq_some_iff.mp h
  exact ⟨entry,List.mem_of_getElem? hentry,hsame⟩

/-- An edit of the services. -/
theorem providers_frame {skip : Location → Prop} {place : Location} {value : Json}
    {providers : List LlmProvider} {before after : List LlmProviderWire}
    (hbefore : readArray LlmProviderWire.read (.array (providers.map providerTree))=some before)
    (hafter : readArray LlmProviderWire.read
      (replace place value (.array (providers.map providerTree)))=some after)
    (acceptable : Acceptable llmProviderTreatment [] (before.map fun wire => wire.fromWire {}))
    (acceptable' : (∃ position, .index position∈place) →
      Acceptable llmProviderTreatment [] (after.map fun wire => wire.fromWire {}) ∨
        IsLast place (.array (providers.map providerTree))) :
    AgreeApart skip place
      (some (.array ((keepFirst llmProviderTreatment []
        (before.map fun wire => wire.fromWire {})).2.map providerTree)))
      (some (.array ((keepFirst llmProviderTreatment []
        (after.map fun wire => wire.fromWire {})).2.map providerTree))) := by
  refine list_frame hbefore hafter acceptable acceptable' ?_
  intro position rest element result later _ _ helement hresult hlater
  obtain ⟨provider,_,rfl⟩ := element_of_map helement
  obtain ⟨left,_,_,hleft,hprepared,hkept,rfl⟩ := entryStored_eq_some hresult
  obtain ⟨right,_,_,hright,hprepared',hkept',rfl⟩ := entryStored_eq_some hlater
  cases hkept
  cases hkept'
  rw [(named_eq_some.mp hprepared).2,(named_eq_some.mp hprepared').2]
  exact providerTree_frame hleft hright

/-- A value put into the arguments of an entry is a string or takes the place of the
last one. -/
def TextInEntryArgs (place : Location) (value node : Json) : Prop :=
  ∀ position inner, place=[.index position,.key "args",.index inner] →
    (∃ text, value=.text text) ∨
      nodeAt [.index position,.key "args",.index (inner+1)] node=none

/-- Inside its entry the place is one of the arguments. -/
theorem TextInEntryArgs.below {position : ℕ} {rest : Location} {value element : Json}
    {elements : List Json} (h : TextInEntryArgs (.index position::rest) value (.array elements))
    (helement : elements[position]?=some element) : TextInArgs rest value element := by
  intro inner hrest
  refine (h position inner (congrArg _ hrest)).imp_right fun hnone => ?_
  show (child element (.key "args")).bind (nodeAt [.index (inner+1)])=none
  have hstep : nodeAt [.index position,.key "args",.index (inner+1)] (.array elements)=
      (elements[position]?).bind (nodeAt [.key "args",.index (inner+1)]) := rfl
  rw [hstep,helement] at hnone
  exact hnone

/-- An edit of the adapters or the clients. -/
theorem adapters_frame {skip : Location → Prop} {place : Location} {value : Json}
    {adapters : List LlmAdapter} {before after : List LlmAdapterWire} {seen : List String}
    (hbefore : readArray LlmAdapterWire.read (.array (adapters.map adapterTree))=some before)
    (hafter : readArray LlmAdapterWire.read
      (replace place value (.array (adapters.map adapterTree)))=some after)
    (acceptable : Acceptable adapterTreatment seen (before.map fun wire => wire.fromWire {}))
    (acceptable' : (∃ position, .index position∈place) →
      Acceptable adapterTreatment seen (after.map fun wire => wire.fromWire {}) ∨
        IsLast place (.array (adapters.map adapterTree)))
    (htext : TextInEntryArgs place value (.array (adapters.map adapterTree))) :
    AgreeApart skip place
      (some (.array ((keepFirst adapterTreatment seen
        (before.map fun wire => wire.fromWire {})).2.map adapterTree)))
      (some (.array ((keepFirst adapterTreatment seen
        (after.map fun wire => wire.fromWire {})).2.map adapterTree))) := by
  refine list_frame hbefore hafter acceptable acceptable' ?_
  intro position rest element result later hplace _ helement hresult hlater
  subst hplace
  obtain ⟨adapter,_,rfl⟩ := element_of_map helement
  obtain ⟨left,_,_,hleft,hprepared,hkept,rfl⟩ := entryStored_eq_some hresult
  obtain ⟨right,_,_,hright,hprepared',hkept',rfl⟩ := entryStored_eq_some hlater
  cases hkept
  cases hkept'
  rw [(named_eq_some.mp hprepared).2,(named_eq_some.mp hprepared').2]
  exact adapterStored_frame hleft hright (htext.below helement)

/-- A provider keeps its kind unless the whole entry is replaced. -/
def KeepsKind (place : Location) (value node : Json) : Prop :=
  ∀ position, place=[.index position,.key "type"] → nodeAt place node=some value

/-- Providers whose kind is not edited are read with the same kind. -/
theorem same_kind {element value : Json} {rest : Location} {left right : AsrProviderWire}
    (hleft : AsrProviderWire.read element=some left)
    (hright : AsrProviderWire.read (replace rest value element)=some right)
    (hkind : rest=[.key "type"] → child element (.key "type")=some value) (hrest : rest≠[]) :
    left.type=right.type := by
  have hsame : child (replace rest value element) (.key "type")=child element (.key "type") := by
    obtain ⟨step,later,rfl⟩ := List.exists_cons_of_ne_nil hrest
    by_cases hstep : step=.key "type"
    · subst hstep
      rw [child_replace_self]
      cases later with
      | nil =>
        rw [hkind rfl]
        rfl
      | cons next later =>
        obtain ⟨_,htype,_⟩ := asrProviderWire_read hleft
        unfold member at htype
        rw [← child_key] at htype
        cases hinner : child element (.key "type") with
        | none => rfl
        | some inner =>
          rw [hinner] at htype
          cases inner with
          | text text => exact congrArg some (replace_leaf rfl next later value)
          | _ => cases htype
    · exact child_replace_of_ne (Ne.symm hstep) later value element
  rw [child_key,child_key] at hsame
  exact eq_of_member (asrProviderWire_read hleft).2.1 (asrProviderWire_read hright).2.1 hsame.symm

/-- A kept provider is the one its wire form stands for. -/
theorem asrProviderKept_of_finish {wire : AsrProviderWire} {prepared kept : AsrProvider}
    (hprepared : asrProviderTreatment.prepare (wire.fromWire (.localProvider {}))=some prepared)
    (hkept : asrProviderTreatment.finish prepared=some kept) : kept=asrProviderKept wire := by
  have hsame := (named_eq_some.mp hprepared).2
  subst hsame
  unfold asrProviderKept
  cases hwire : wire.fromWire (.localProvider {}) with
  | localProvider provider =>
    rw [hwire] at hkept
    exact (Option.some.inj hkept).symm
  | commandProvider provider =>
    rw [hwire] at hkept
    dsimp only [asrProviderTreatment,finishAsrProvider] at hkept
    split at hkept
    · cases hkept
    · exact (Option.some.inj hkept).symm

/-- An edit of the speech recognition providers. -/
theorem asrProviders_frame {skip : Location → Prop} {place : Location} {value : Json}
    {providers : List AsrProvider} {before after : List AsrProviderWire}
    (hbefore : readArray AsrProviderWire.read
      (.array (providers.map asrProviderTree))=some before)
    (hafter : readArray AsrProviderWire.read
      (replace place value (.array (providers.map asrProviderTree)))=some after)
    (acceptable : Acceptable asrProviderTreatment []
      (before.map fun wire => wire.fromWire (.localProvider {})))
    (acceptable' : (∃ position, .index position∈place) → Acceptable asrProviderTreatment []
      (after.map fun wire => wire.fromWire (.localProvider {})) ∨
        IsLast place (.array (providers.map asrProviderTree)))
    (htext : TextInEntryArgs place value (.array (providers.map asrProviderTree)))
    (hkind : KeepsKind place value (.array (providers.map asrProviderTree))) :
    AgreeApart skip place
      (some (.array ((keepFirst asrProviderTreatment []
        (before.map fun wire => wire.fromWire (.localProvider {}))).2.map asrProviderTree)))
      (some (.array ((keepFirst asrProviderTreatment []
        (after.map fun wire => wire.fromWire (.localProvider {}))).2.map asrProviderTree))) := by
  refine list_frame hbefore hafter acceptable acceptable' ?_
  intro position rest element result later hplace _ helement hresult hlater
  subst hplace
  have hchild : rest=[.key "type"] → child element (.key "type")=some value := by
    intro hrest
    have hnode := hkind position (congrArg _ hrest)
    rw [hrest] at hnode
    obtain ⟨found,hfound,hvalue⟩ := Option.bind_eq_some_iff.mp hnode
    obtain rfl : element=found := Option.some.inj (helement.symm.trans hfound)
    obtain ⟨inner,hinner,hsame⟩ := Option.bind_eq_some_iff.mp hvalue
    rw [hinner,Option.some.inj hsame]
  obtain ⟨provider,_,rfl⟩ := element_of_map helement
  obtain ⟨left,_,_,hleft,hprepared,hkept,rfl⟩ := entryStored_eq_some hresult
  obtain ⟨right,_,_,hright,hprepared',hkept',rfl⟩ := entryStored_eq_some hlater
  rw [asrProviderKept_of_finish hprepared hkept,asrProviderKept_of_finish hprepared' hkept']
  exact asrProviderTree_frame hleft hright (same_kind hleft hright hchild)
    (htext.below helement)

theorem isBuiltinSceneId_eq_true {id : String} :
    isBuiltinSceneId id=true ↔ id=kRawSceneId ∨ id=kCommandSceneId := by
  unfold isBuiltinSceneId
  rw [Bool.or_eq_true,decide_eq_true_iff,decide_eq_true_iff]

/-- When both builtin identities stay in a list of distinct identities, the
one that is edited does not become or cease to be builtin. -/
theorem sameKind_of_edit {before after : List String} (position : ℕ) {left right : String}
    (hothers : ∀ other, other≠position → before[other]?=after[other]?)
    (hleft : before[position]?=some left) (hright : after[position]?=some right)
    (unique : before.Nodup) (unique' : after.Nodup)
    (builtin : ∀ id, isBuiltinSceneId id=true → id∈before ∧ id∈after) :
    SameKind left right := by
  have hindex : ∀ {ids : List String} {first second : ℕ} {id : String}, ids.Nodup →
      ids[first]?=some id → ids[second]?=some id → first=second := by
    intro ids first second id hunique hfirst hsecond
    exact (List.getElem?_inj (List.getElem?_eq_some_iff.mp hfirst).1 hunique).mp
      (hfirst.trans hsecond.symm)
  cases hkind : isBuiltinSceneId left with
  | true =>
    refine .inl ?_
    obtain ⟨found,hfound⟩ := List.mem_iff_getElem?.mp (builtin left hkind).2
    by_cases hsame : found=position
    · rw [hsame] at hfound
      exact Option.some.inj (hfound.symm.trans hright)
    · rw [← hothers found hsame] at hfound
      exact absurd (hindex unique hfound hleft) hsame
  | false =>
    refine .inr ⟨hkind,?_⟩
    cases hnew : isBuiltinSceneId right with
    | false => rfl
    | true =>
      obtain ⟨found,hfound⟩ := List.mem_iff_getElem?.mp (builtin right hnew).1
      by_cases hsame : found=position
      · rw [hsame] at hfound
        rw [Option.some.inj (hleft.symm.trans hfound),hnew] at hkind
        cases hkind
      · rw [hothers found hsame] at hfound
        exact absurd (hindex unique' hfound hright) hsame

/-- A prepared scene keeps its identity. -/
theorem prepareScene_id {scene prepared : Definition} (h : prepareScene scene=some prepared) :
    prepared.id=scene.id := by
  rw [(prepareScene_eq_some.mp h).1,promptedScene_eq]
  rfl

/-- Scenes of a file, under distinct identities with both builtin ones. -/
structure OrderlyScenes (definitions : List Definition) : Prop where
  acceptable : Acceptable sceneTreatment [] definitions
  builtin : ∀ id, isBuiltinSceneId id=true → id∈sceneIds definitions

/-- Scenes that are all kept have distinct identities. -/
theorem OrderlyScenes.unique {definitions : List Definition} (orderly : OrderlyScenes definitions) :
    (sceneIds definitions).Nodup := by
  have hnames := orderly.acceptable.names fun scene prepared h => prepareScene_id h
  have hunique := orderly.acceptable.unique
  rw [hnames] at hunique
  exact hunique

/-- Acceptable scenes keep their identities. -/
theorem sceneIds_keepFirst {definitions : List Definition}
    (acceptable : Acceptable sceneTreatment [] definitions) :
    sceneIds (keepFirst sceneTreatment [] definitions).2=sceneIds definitions := by
  have hkept := keepFirst_acceptable acceptable
  generalize (keepFirst sceneTreatment [] definitions).2=kept at hkept
  clear acceptable
  induction hkept with
  | nil => rfl
  | cons hfirst _ ih =>
    obtain ⟨prepared,hprepared,hsame⟩ := Option.bind_eq_some_iff.mp hfirst
    cases hsame
    dsimp only [sceneIds] at ih ⊢
    rw [List.map_cons,List.map_cons,prepareScene_id hprepared,ih]

/-- Orderly scenes need no builtin one. -/
theorem OrderlyScenes.normalize {definitions : List Definition}
    (orderly : OrderlyScenes definitions) :
    normalizeScenes definitions=(keepFirst sceneTreatment [] definitions).2 := by
  have hseen : ∀ id, isBuiltinSceneId id=true →
      id∈(keepFirst sceneTreatment [] definitions).1 := by
    intro id hid
    rw [(keepFirst_kept definitions).seen,sceneIds_keepFirst orderly.acceptable]
    exact orderly.builtin id hid
  unfold normalizeScenes withBuiltin
  rw [if_pos (hseen kRawSceneId rfl),if_pos (hseen kCommandSceneId rfl)]

/-- Whatever becomes of the last scene, the others stay where they are, as long as
no builtin one is replaced. -/
theorem normalizeScenes_last {front : List Definition} {scene : Definition}
    (acceptable : Acceptable sceneTreatment [] front)
    (hbuiltin : ∀ id, isBuiltinSceneId id=true → id∈sceneIds (front++[scene])) :
    ∃ more, more.length ≤ 1 ∧
      normalizeScenes (front++[scene])=(keepFirst sceneTreatment [] front).2++more := by
  have hids := sceneIds_keepFirst acceptable
  have hseen := (keepFirst_kept (front++[scene])).seen
  have htail : ∀ seen, (keepFirst sceneTreatment seen [scene]).2=[] ∨
      ∃ last, (keepFirst sceneTreatment seen [scene]).2=[last] ∧ last.id=scene.id := by
    intro seen
    dsimp only [keepFirst]
    split
    · exact .inl rfl
    · rename_i prepared hprepared
      split
      · exact .inl rfl
      · exact .inr ⟨prepared,rfl,prepareScene_id hprepared⟩
  have hscene : ∀ id, isBuiltinSceneId id=true → id∉sceneIds front → scene.id=id := by
    intro id hid hmissing
    have hmem := hbuiltin id hid
    unfold sceneIds at hmem hmissing
    rw [List.map_append,List.mem_append] at hmem
    exact (List.mem_singleton.mp (hmem.resolve_left hmissing)).symm
  rw [keepFirst_concat] at hseen
  unfold normalizeScenes
  rw [keepFirst_concat]
  generalize (keepFirst sceneTreatment (keepFirst sceneTreatment [] front).1 [scene]).1=names
    at hseen ⊢
  rcases htail (keepFirst sceneTreatment [] front).1 with hnone | ⟨last,hlast,hid⟩
  · rw [hnone,List.append_nil] at hseen ⊢
    rw [hids] at hseen
    by_cases hraw : kRawSceneId∈sceneIds front
    · unfold withBuiltin
      rw [if_pos ((hseen kRawSceneId).mpr hraw)]
      split
      · exact ⟨[],Nat.zero_le 1,(List.append_nil _).symm⟩
      · exact ⟨[_],Nat.le_refl 1,rfl⟩
    · have hcommand : kCommandSceneId∈sceneIds front := by
        by_contra hmissing
        have hsame := (hscene kRawSceneId rfl hraw).symm.trans
          (hscene kCommandSceneId rfl hmissing)
        exact absurd hsame (by decide)
      unfold withBuiltin
      rw [if_neg (mt (hseen kRawSceneId).mp hraw),if_pos (List.mem_cons_of_mem _ ((hseen kCommandSceneId).mpr hcommand))]
      exact ⟨[_],Nat.le_refl 1,rfl⟩
  · rw [hlast] at hseen ⊢
    have hthere : ∀ id, isBuiltinSceneId id=true → id∈names := by
      intro id hbuiltinId
      refine (hseen id).mpr ?_
      have hall : sceneIds ((keepFirst sceneTreatment [] front).2++[last])=
          sceneIds front++[scene.id] := by
        rw [← hids,← hid]
        exact List.map_append
      rw [hall,List.mem_append,List.mem_singleton]
      by_cases hfront : id∈sceneIds front
      · exact .inl hfront
      · exact .inr (hscene id hbuiltinId hfront).symm
    unfold withBuiltin
    rw [if_pos (hthere kRawSceneId rfl),if_pos (hthere kCommandSceneId rfl)]
    exact ⟨[_],Nat.le_refl 1,rfl⟩

/-- Whatever takes the place of the last scene, as long as no builtin one is
replaced. -/
theorem scenes_last_frame {skip : Location → Prop} {position : ℕ} {value : Json}
    {scenes : List Definition} {before after : List SceneWire}
    (hbefore : readArray SceneWire.read (.array (scenes.map sceneTree))=some before)
    (hafter : readArray SceneWire.read
      (replace [.index position] value (.array (scenes.map sceneTree)))=some after)
    (hlast : scenes.length ≤ position+1)
    (orderly : OrderlyScenes (before.map fun wire => wire.fromWire {}))
    (hbuiltin : ∀ id, isBuiltinSceneId id=true →
      id∈sceneIds (after.map fun wire => wire.fromWire {})) :
    AgreeApart skip [.index position]
      (some (.array ((normalizeScenes (before.map fun wire => wire.fromWire {})).map sceneTree)))
      (some (.array ((normalizeScenes (after.map fun wire => wire.fromWire {})).map sceneTree))) := by
  have hlength : (scenes.map sceneTree).length ≤ position+1 := by
    rw [List.length_map]
    exact hlast
  rcases read_last hbefore hafter hlength with rfl | ⟨front,left,right,rfl,rfl,hfront⟩
  · exact (agree_of_eq rfl).apart
  · rw [List.map_append,List.map_singleton] at orderly hbuiltin ⊢
    rw [List.map_append,List.map_singleton]
    have acceptable := orderly.acceptable.front
    obtain ⟨before,hbefore,hleft⟩ := normalizeScenes_last acceptable orderly.builtin
    obtain ⟨after,hafter,hright⟩ := normalizeScenes_last acceptable hbuiltin
    rw [hleft,hright,List.map_append,List.map_append]
    refine agreeApart_last ?_ ?_ ?_
    · have hids := congrArg List.length (sceneIds_keepFirst acceptable)
      unfold sceneIds at hids
      rw [List.length_map,List.length_map,List.length_map,hfront] at hids
      rw [List.length_map,hids]
    · rw [List.length_map]
      exact hbefore
    · rw [List.length_map]
      exact hafter

/-- An edit of the scenes. -/
theorem scenes_frame {skip : Location → Prop} {place : Location} {value : Json}
    {scenes : List Definition} {before after : List SceneWire}
    (hbefore : readArray SceneWire.read (.array (scenes.map sceneTree))=some before)
    (hafter : readArray SceneWire.read
      (replace place value (.array (scenes.map sceneTree)))=some after)
    (orderly : OrderlyScenes (before.map fun wire => wire.fromWire {}))
    (orderly' : (∃ position, .index position∈place) →
      OrderlyScenes (after.map fun wire => wire.fromWire {})) :
    AgreeApart skip place
      (some (.array ((keepFirst sceneTreatment []
        (before.map fun wire => wire.fromWire {})).2.map sceneTree)))
      (some (.array ((keepFirst sceneTreatment []
        (after.map fun wire => wire.fromWire {})).2.map sceneTree))) := by
  refine list_frame hbefore hafter orderly.acceptable (fun h => .inl (orderly' h).acceptable) ?_
  intro position rest element result later hplace _ helement hresult hlater
  subst hplace
  have horderly := orderly' ⟨position,List.mem_cons_self⟩
  have hids : ∀ (wires : List SceneWire) (found : ℕ),
      (sceneIds (wires.map fun wire => wire.fromWire {}))[found]?=
        wires[found]?.map SceneWire.id := by
    intro wires found
    unfold sceneIds
    rw [List.map_map,List.getElem?_map]
    rfl
  have hwires := treated_of_readArray hbefore
  have hwires' := treated_of_readArray hafter
  obtain ⟨scene,_,rfl⟩ := element_of_map helement
  obtain ⟨left,_,_,hleft,hprepared,hkept,rfl⟩ := entryStored_eq_some hresult
  obtain ⟨right,_,_,hright,hprepared',hkept',rfl⟩ := entryStored_eq_some hlater
  cases hkept
  cases hkept'
  rw [(prepareScene_eq_some.mp hprepared).1,(prepareScene_eq_some.mp hprepared').1]
  refine sceneTree_frame hleft hright fun _ => sameKind_of_edit position ?_ ?_ ?_
    orderly.unique horderly.unique fun id hid => ⟨orderly.builtin id hid,horderly.builtin id hid⟩
  · intro other hother
    rw [hids,hids,hwires.getElem?,hwires'.getElem?,List.getElem?_modify_ne _ _ (Ne.symm hother)]
  · rw [hids,hwires.getElem?,helement,Option.bind_some,hleft]
    rfl
  · rw [hids,hwires'.getElem?,List.getElem?_modify_eq,helement]
    show ((some (replace rest value (sceneTree scene))).bind SceneWire.read).map SceneWire.id=_
    rw [Option.bind_some,hright]
    rfl

end Lists

section Sections

/-- A member that holds a container is read before and after an edit inside
it. -/
theorem eq_of_edit {α : Type} {key : String} {node inner value : Json} {rest : Location}
    {read : Json → Option α} {left right : Option α} (hrest : rest≠[])
    (hleft : optional key read node=some left)
    (hright : optional key read (replace (.key key::rest) value node)=some right)
    (h : child node (.key key)=some inner) (hcontainer : isLeaf inner=false) :
    ∃ before after, read inner=some before ∧ read (replace rest value inner)=some after ∧
      left=some before ∧ right=some after := by
  have hself := child_replace_self (.key key) rest value node
  rw [h] at hself
  obtain ⟨next,later,rfl⟩ := List.exists_cons_of_ne_nil hrest
  obtain ⟨before,hbefore,hleft⟩ := eq_of_read hleft h (ne_null_of_container hcontainer)
  obtain ⟨after,hafter,hright⟩ := eq_of_read hright hself
    (ne_null_of_container (isLeaf_replace hcontainer next later value))
  exact ⟨before,after,hbefore,hafter,hleft,hright⟩

/-- The registry as it is stored after it was read. -/
def registryStored (wire : RegistryWire) : Json :=
  (Registry.toWire ⟨(keepFirst baseUrlTreatment [] wire.fromWire.baseUrls).2⟩).write

theorem registryWire_read {node : Json} {wire : RegistryWire}
    (h : RegistryWire.read node=some wire) :
    optional "base_urls" readTree node=some wire.baseUrls := by
  unfold RegistryWire.read at h
  split at h
  · simp only [Option.bind_eq_bind,Option.bind_eq_some_iff,Option.some.injEq] at h
    obtain ⟨_,hurls,rfl⟩ := h
    exact hurls
  · cases h

/-- Addresses are kept as they are. -/
theorem keepFirst_baseUrls {urls : List String} (h : Acceptable baseUrlTreatment [] urls) :
    (keepFirst baseUrlTreatment [] urls).2=urls := by
  have hkept := keepFirst_acceptable h
  generalize (keepFirst baseUrlTreatment [] urls).2=kept at hkept
  clear h
  induction hkept with
  | nil => rfl
  | cons hfirst _ ih =>
    obtain ⟨prepared,hprepared,hsame⟩ := Option.bind_eq_some_iff.mp hfirst
    cases hsame
    rw [(named_eq_some.mp hprepared).2,ih]

/-- Written addresses are read again. -/
theorem fromWire_fromStrings {urls : List String} (h : ∀ url∈urls, url≠"") :
    (RegistryWire.fromWire ⟨some (fromStrings urls)⟩).baseUrls=urls := by
  dsimp only [RegistryWire.fromWire,Option.map_some,Option.getD_some]
  rw [strings_fromStrings,List.filter_eq_self.mpr fun url hurl => decide_eq_true (h url hurl)]

/-- A value put into the addresses is one or takes the place of the last. -/
def UrlInUrls (place : Location) (value node : Json) : Prop :=
  ∀ position, place=[.key "base_urls",.index position] →
    (∃ url, url≠"" ∧ value=.text url) ∨
      nodeAt [.key "base_urls",.index (position+1)] node=none

/-- Whatever takes the place of the last address, the others stay. -/
theorem urls_last {urls : List String} {position : ℕ} (value : Json)
    (settled : Settled baseUrlTreatment [] urls) (hlast : urls.length=position+1) :
    ∃ more, more.length ≤ 1 ∧ (keepFirst baseUrlTreatment [] (RegistryWire.fromWire
      ⟨some (replace [.index position] value (fromStrings urls))⟩).baseUrls).2=
        urls.take position++more := by
  obtain ⟨more,hmore,hstrings⟩ := strings_last value hlast
  have hfront : ∀ url∈urls.take position, decide (url≠"")=true := fun url hmem =>
    decide_eq_true (named_eq_some.mp (settled.accepted url (List.mem_of_mem_take hmem)).1).1
  have hurls : (RegistryWire.fromWire
      ⟨some (replace [.index position] value (fromStrings urls))⟩).baseUrls=
        urls.take position++more.filter fun url => decide (url≠"") := by
    dsimp only [RegistryWire.fromWire,Option.map_some,Option.getD_some]
    rw [hstrings,List.filter_append,List.filter_eq_self.mpr hfront]
  have hsplit := List.take_append_drop position urls
  have acceptable : Acceptable baseUrlTreatment [] (urls.take position) := by
    have hwhole := settled.acceptable
    have hone : (urls.drop position).length=1 := by
      rw [List.length_drop,hlast]
      omega
    obtain ⟨last,hdrop⟩ := List.length_eq_one_iff.mp hone
    rw [← hsplit,hdrop] at hwhole
    exact hwhole.front
  rw [hurls]
  have hrest : (more.filter fun url => decide (url≠"")).length ≤ 1 :=
    (List.length_filter_le _ _).trans hmore
  generalize (more.filter fun url => decide (url≠""))=rest at hrest
  rcases rest with _ | ⟨url,_ | ⟨_,_⟩⟩
  · refine ⟨[],Nat.zero_le 1,?_⟩
    rw [List.append_nil,keepFirst_baseUrls acceptable]
  · rw [keepFirst_concat,keepFirst_baseUrls acceptable]
    exact ⟨_,keepFirst_length_le _ [url],rfl⟩
  · exact absurd hrest (by simp)

/-- An edit of the addresses. -/
theorem urls_frame {skip : Location → Prop} {urls : List String} {next : Step} {later : Location}
    {value : Json} {right : RegistryWire} (settled : Settled baseUrlTreatment [] urls)
    (hright : right.baseUrls=some (replace (next::later) value (fromStrings urls)))
    (acceptable : (∃ position, .index position∈next::later) →
      Acceptable baseUrlTreatment [] right.fromWire.baseUrls ∨
        IsLast (next::later) (fromStrings urls))
    (hurl : ∀ position, next::later=[.index position] → (∃ url, url≠"" ∧ value=.text url) ∨
      child (fromStrings urls) (.index (position+1))=none) :
    AgreeApart skip (next::later) (stringsTree urls)
      (stringsTree (keepFirst baseUrlTreatment [] right.fromWire.baseUrls).2) := by
  obtain ⟨baseUrls⟩ := right
  subst hright
  have hnonempty : ∀ url∈urls, url≠"" := fun url hmem =>
    (named_eq_some.mp (settled.accepted url hmem).1).1
  rcases last_cases urls (next::later) value with ⟨position,hplace,hlength⟩ | hsame | hinside
  · cases hplace
    obtain ⟨more,hmore,hkept⟩ := urls_last value settled hlength
    rw [hkept]
    nth_rewrite 1 [← List.take_append_drop position urls]
    refine stringsTree_last ?_ ?_ hmore
    · rw [List.length_take,hlength]
      omega
    · rw [List.length_drop,hlength]
      omega
  · rw [hsame,fromWire_fromStrings hnonempty,keepFirst_baseUrls settled.acceptable]
    exact (agree_of_eq rfl).apart
  · have hvalue : ∀ position, next::later=[.index position] → ∃ url, url≠"" ∧ value=.text url :=
      fun position hplace => (hurl position hplace).resolve_right (hinside position hplace)
    obtain ⟨changed,hreplaced,hempty,hmem⟩ := replace_fromStrings urls next later
      value fun position h => (hvalue position h).imp fun url h => h.2
    have hchanged : ∀ url∈changed, url≠"" := by
      intro url hmemUrl
      rcases hmem url hmemUrl with hold | ⟨hurl,position,hplace⟩
      · exact hnonempty url hold
      · obtain ⟨found,hfound,hsame⟩ := hvalue position hplace
        cases hurl.symm.trans hsame
        exact hfound
    rw [hreplaced,fromWire_fromStrings hchanged] at acceptable ⊢
    have hacceptable : Acceptable baseUrlTreatment [] changed := by
      cases next with
      | key name =>
        have hsame : urls=changed := by
          rw [← strings_fromStrings urls,← strings_fromStrings changed]
          exact congrArg strings hreplaced
        rw [← hsame]
        exact settled.acceptable
      | index position =>
        refine (acceptable ⟨position,List.mem_cons_self⟩).resolve_right ?_
        rintro ⟨last,hplace,hnone⟩
        exact hinside last hplace hnone
    rw [keepFirst_baseUrls hacceptable,stringsTree_replace hreplaced hempty]
    exact agreeApart_replace _ _ _

/-- An edit of the registry. -/
theorem registryStored_frame {skip : Location → Prop} {place : Location} {value : Json}
    {registry : Registry} {left right : RegistryWire}
    (hleft : RegistryWire.read (Registry.toWire registry).write=some left)
    (hright : RegistryWire.read (replace place value (Registry.toWire registry).write)=some right)
    (settled : Settled baseUrlTreatment [] registry.baseUrls)
    (acceptable : ∀ rest, place=.key "base_urls"::rest → (∃ position, .index position∈rest) →
      Acceptable baseUrlTreatment [] right.fromWire.baseUrls ∨
        IsLast rest (fromStrings registry.baseUrls))
    (hurl : UrlInUrls place value (Registry.toWire registry).write) :
    AgreeApart skip place (some (registryStored left)) (some (registryStored right)) := by
  cases place with
  | nil => exact agreeApart_root _ _
  | cons step rest =>
    refine agreeApart_record (Registry.toWire registry).write value
      (fun other h => agree_of_eq ?_) ?_
    · refine child_ofMembers_congr fun key hstep => ?_
      rw [hstep,child_key,child_key] at h
      refine .cons ⟨rfl,fun hname => ?_⟩ .nil
      rw [hname] at h
      have hsame := eq_of_optional (registryWire_read hleft) (registryWire_read hright) h.symm
      dsimp only [Registry.toWire,RegistryWire.fromWire]
      rw [hsame]
    · intro hrest inner hinner hcontainer
      obtain ⟨next,later,rfl⟩ := List.exists_cons_of_ne_nil hrest
      have hfind : ∀ wire : RegistryWire, child wire.write (.key "base_urls")=wire.baseUrls := by
        intro wire
        rw [child_key]
        exact find_ofMembers (by simp [RegistryWire.members]) "base_urls"
      have hstep : step=.key "base_urls" := by
        have hleaves : ∀ entry∈(Registry.toWire registry).members, entry.1∉["base_urls"] →
            ∀ value, entry.2=some value → isLeaf value=true := by
          intro entry hentry hname
          rw [List.mem_singleton.mp hentry] at hname
          exact absurd (List.mem_singleton_self _) hname
        obtain ⟨name,hname,hstep⟩ := step_of_container hleaves hinner hcontainer
        rw [hstep,List.mem_singleton.mp hname]
      subst hstep
      have hself := child_replace_self (.key "base_urls") (next::later) value
        (Registry.toWire registry).write
      rw [hinner] at hself
      have hvalues : inner=fromStrings registry.baseUrls := by
        have hwritten : stringsTree registry.baseUrls=some inner := (hfind _).symm.trans hinner
        unfold stringsTree given at hwritten
        split at hwritten
        · exact (Option.some.inj hwritten).symm
        · cases hwritten
      have hurls := eq_of_tree (registryWire_read hleft) hinner (ne_null_of_container hcontainer)
      have hurls' := eq_of_tree (registryWire_read hright) hself
        (ne_null_of_container (isLeaf_replace hcontainer next later value))
      rw [hvalues] at hurls hurls' hinner
      have hstored : ∀ wire : RegistryWire, child (registryStored wire) (.key "base_urls")=
          stringsTree (keepFirst baseUrlTreatment [] wire.fromWire.baseUrls).2 :=
        fun wire => hfind _
      have hnonempty : ∀ url∈registry.baseUrls, url≠"" := fun url hmem =>
        (named_eq_some.mp (settled.accepted url hmem).1).1
      have hfrom : left.fromWire.baseUrls=registry.baseUrls := by
        obtain ⟨baseUrls⟩ := left
        subst hurls
        exact fromWire_fromStrings hnonempty
      rw [hstored,hstored,hfrom,keepFirst_baseUrls settled.acceptable]
      refine urls_frame settled hurls' ?_ ?_
      · exact fun h => acceptable _ rfl h
      · intro position hplace
        refine (hurl position (congrArg _ hplace)).imp_right fun hnone => ?_
        rw [nodeAt_cons hinner,nodeAt_single] at hnone
        exact hnone

/-- What the language models are read of. -/
theorem llmWire_read {node : Json} {wire : LlmWire} (h : LlmWire.read node=some wire) :
    optional "providers" (readArray LlmProviderWire.read) node=some wire.providers ∧
      optional "adapters" (readArray LlmAdapterWire.read) node=some wire.adapters := by
  unfold LlmWire.read at h
  split at h
  · simp only [Option.bind_eq_bind,Option.bind_eq_some_iff,Option.some.injEq] at h
    obtain ⟨_,hproviders,_,hadapters,rfl⟩ := h
    exact ⟨hproviders,hadapters⟩
  · cases h

/-- Language models with what normalisation keeps of them. -/
def normalLlm (llm : Llm) : Llm :=
  ⟨(keepFirst llmProviderTreatment [] llm.providers).2,
    (keepFirst adapterTreatment [] llm.adapters).2⟩

/-- Language models as they are stored after they were read. -/
def llmStored (wire : LlmWire) : Json := (Llm.toWire (normalLlm (wire.fromWire {}))).write

/-- Both lists of the language models are written as arrays of trees. -/
theorem llm_lists (llm : Llm) :
    child (Llm.toWire llm).write (.key "providers")=some (.array (llm.providers.map providerTree)) ∧
      child (Llm.toWire llm).write (.key "adapters")=
        some (.array (llm.adapters.map adapterTree)) := by
  have hfind : ∀ key, child (Llm.toWire llm).write (.key key)=
      ((Llm.toWire llm).members.lookup key).join := by
    intro key
    rw [child_key]
    exact find_ofMembers (by simp [LlmWire.members]) key
  rw [hfind,hfind]
  constructor
  · show some (Json.array ((llm.providers.map LlmProvider.toWire).map LlmProviderWire.write))=_
    rw [List.map_map]
    rfl
  · show some (Json.array ((llm.adapters.map LlmAdapter.toWire).map LlmAdapterWire.write))=_
    rw [List.map_map]
    rfl

/-- The lists of an edited section are acceptable when the edit goes into
one. -/
structure OrderlyLlm (llm : Llm) : Prop where
  providers : Acceptable llmProviderTreatment [] llm.providers
  adapters : Acceptable adapterTreatment [] llm.adapters

/-- An edit of the language models. -/
theorem llmStored_frame {skip : Location → Prop} {place : Location} {value : Json}
    {llm : Llm} {left right : LlmWire}
    (hleft : LlmWire.read (Llm.toWire llm).write=some left)
    (hright : LlmWire.read (replace place value (Llm.toWire llm).write)=some right)
    (orderly : OrderlyLlm (left.fromWire {}))
    (hproviderList : ∀ rest, place=.key "providers"::rest → (∃ position, .index position∈rest) →
      Acceptable llmProviderTreatment [] (right.fromWire {}).providers ∨
        IsLast rest (.array (llm.providers.map providerTree)))
    (hadapterList : ∀ rest, place=.key "adapters"::rest → (∃ position, .index position∈rest) →
      Acceptable adapterTreatment [] (right.fromWire {}).adapters ∨
        IsLast rest (.array (llm.adapters.map adapterTree)))
    (htext : ∀ rest, place=.key "adapters"::rest →
      TextInEntryArgs rest value (.array (llm.adapters.map adapterTree))) :
    AgreeApart skip place (some (llmStored left)) (some (llmStored right)) := by
  cases place with
  | nil => exact agreeApart_root _ _
  | cons step rest =>
    obtain ⟨hproviders,hadapters⟩ := llmWire_read hleft
    obtain ⟨hproviders',hadapters'⟩ := llmWire_read hright
    refine agreeApart_record (Llm.toWire llm).write value (fun other h => agree_of_eq ?_) ?_
    · refine child_ofMembers_congr fun key hstep => ?_
      rw [hstep,child_key,child_key] at h
      dsimp only [LlmWire.members,Llm.toWire,normalLlm,LlmWire.fromWire]
      refine .cons ⟨rfl,fun hname => ?_⟩ (.cons ⟨rfl,fun hname => ?_⟩ .nil)
      all_goals rw [hname] at h
      · rw [eq_of_optional hproviders hproviders' h.symm]
      · rw [eq_of_optional hadapters hadapters' h.symm]
    · intro hrest inner hinner hcontainer
      have hstep : step=.key "providers" ∨ step=.key "adapters" := by
        have hleaves : ∀ entry∈(Llm.toWire llm).members, entry.1∉["providers","adapters"] →
            ∀ value, entry.2=some value → isLeaf value=true := by
          simp [LlmWire.members]
        obtain ⟨name,hname,hstep⟩ := step_of_container hleaves hinner hcontainer
        rw [List.mem_cons,List.mem_singleton] at hname
        rw [hstep]
        exact hname.imp (congrArg Step.key) (congrArg Step.key)
      rcases hstep with rfl | rfl
      · obtain ⟨before,after,hbefore,hafter,hwires,hwires'⟩ :=
          eq_of_edit hrest hproviders hproviders' (llm_lists llm).1 rfl
        have hfrom : ∀ {wire : LlmWire} {wires : List LlmProviderWire}, wire.providers=some wires →
            (wire.fromWire {}).providers=wires.map fun entry => entry.fromWire {} := by
          intro wire wires hwire
          dsimp only [LlmWire.fromWire]
          rw [hwire]
          rfl
        unfold llmStored
        rw [(llm_lists _).1,(llm_lists _).1]
        dsimp only [normalLlm]
        rw [hfrom hwires,hfrom hwires']
        refine providers_frame hbefore hafter (hfrom hwires ▸ orderly.providers) ?_
        exact fun h => hfrom hwires' ▸ hproviderList rest rfl h
      · obtain ⟨before,after,hbefore,hafter,hwires,hwires'⟩ :=
          eq_of_edit hrest hadapters hadapters' (llm_lists llm).2 rfl
        have hfrom : ∀ {wire : LlmWire} {wires : List LlmAdapterWire}, wire.adapters=some wires →
            (wire.fromWire {}).adapters=wires.map fun entry => entry.fromWire {} := by
          intro wire wires hwire
          dsimp only [LlmWire.fromWire]
          rw [hwire]
          rfl
        unfold llmStored
        rw [(llm_lists _).2,(llm_lists _).2]
        dsimp only [normalLlm]
        rw [hfrom hwires,hfrom hwires']
        refine adapters_frame hbefore hafter (hfrom hwires ▸ orderly.adapters) ?_ (htext _ rfl)
        exact fun h => hfrom hwires' ▸ hadapterList rest rfl h

/-- What speech recognition is read of. -/
theorem asrWire_read {node : Json} {wire : AsrWire} (h : AsrWire.read node=some wire) :
    member "active_provider" readText "" node=some wire.activeProvider ∧
      member "normalize_audio" readBool true node=some wire.normalizeAudio ∧
      member "input_gain" readNumber 1.0 node=some wire.inputGain ∧
      optional "vad" VadWire.read node=some wire.vad ∧
      optional "providers" (readArray AsrProviderWire.read) node=some wire.providers := by
  unfold AsrWire.read at h
  split at h
  · simp only [Option.bind_eq_bind,Option.bind_eq_some_iff,Option.some.injEq] at h
    obtain ⟨_,hactive,_,hnormalize,_,hgain,_,hvad,_,hproviders,rfl⟩ := h
    exact ⟨hactive,hnormalize,hgain,hvad,hproviders⟩
  · cases h

/-- Speech recognition with what normalisation keeps of it. -/
def normalAsr (asr : Asr) : Asr :=
  {asr with
    activeProvider := clearReference asr.activeProvider
      (findAsrProvider (keepFirst asrProviderTreatment [] asr.providers).2
        asr.activeProvider).isSome
    inputGain := clamp asr.inputGain 0.1 10.0
    vad := normalizeVad asr.vad
    providers := (keepFirst asrProviderTreatment [] asr.providers).2}

/-- Speech recognition as it is stored after it was read. -/
def asrStored (wire : AsrWire) : Json := (Asr.toWire (normalAsr (wire.fromWire {}))).write

/-- The members of speech recognition with more below them. -/
theorem asr_children (asr : Asr) :
    child (Asr.toWire asr).write (.key "active_provider")=some (.text asr.activeProvider) ∧
      child (Asr.toWire asr).write (.key "vad")=some (Vad.toWire asr.vad).write ∧
      child (Asr.toWire asr).write (.key "providers")=
        some (.array (asr.providers.map asrProviderTree)) := by
  have hfind : ∀ key, child (Asr.toWire asr).write (.key key)=
      ((Asr.toWire asr).members.lookup key).join := by
    intro key
    rw [child_key]
    exact find_ofMembers (by simp [AsrWire.members]) key
  rw [hfind,hfind,hfind]
  refine ⟨rfl,rfl,?_⟩
  show some (Json.array ((asr.providers.map AsrProvider.toWire).map AsrProviderWire.write))=_
  rw [List.map_map]
  rfl

/-- What is written of a reference has nothing below it. -/
theorem agree_reference {skip : Location → Prop} {left right : String} (hskip : skip []) :
    Agree skip (some (.text left)) (some (.text right)) := by
  intro other hother
  cases other with
  | nil => exact absurd hskip hother
  | cons step rest => rfl

/-- An edit of the speech recognition; the reference may change with the
providers. -/
theorem asrStored_frame {skip : Location → Prop} {place : Location} {value : Json}
    {asr : Asr} {left right : AsrWire}
    (hleft : AsrWire.read (Asr.toWire asr).write=some left)
    (hright : AsrWire.read (replace place value (Asr.toWire asr).write)=some right)
    (acceptable : Acceptable asrProviderTreatment [] (left.fromWire {}).providers)
    (hlist : ∀ rest, place=.key "providers"::rest → (∃ position, .index position∈rest) →
      Acceptable asrProviderTreatment [] (right.fromWire {}).providers ∨
        IsLast rest (.array (asr.providers.map asrProviderTree)))
    (htext : ∀ rest, place=.key "providers"::rest →
      TextInEntryArgs rest value (.array (asr.providers.map asrProviderTree)))
    (hkind : ∀ rest, place=.key "providers"::rest →
      KeepsKind rest value (.array (asr.providers.map asrProviderTree)))
    (hskip : ∀ rest, place=.key "providers"::rest → skip [.key "active_provider"]) :
    AgreeApart skip place (some (asrStored left)) (some (asrStored right)) := by
  cases place with
  | nil => exact agreeApart_root _ _
  | cons step rest =>
    obtain ⟨hactive,hnormalize,hgain,hvad,hproviders⟩ := asrWire_read hleft
    obtain ⟨hactive',hnormalize',hgain',hvad',hproviders'⟩ := asrWire_read hright
    refine agreeApart_record (Asr.toWire asr).write value (fun other h => ?_) ?_
    · by_cases hreference : other=.key "active_provider" ∧ step=.key "providers"
      · obtain ⟨rfl,rfl⟩ := hreference
        unfold asrStored
        rw [(asr_children _).1,(asr_children _).1]
        exact agree_reference (hskip rest rfl)
      · refine agree_of_eq (child_ofMembers_congr fun key hstep => ?_)
        rw [hstep,child_key,child_key] at h
        dsimp only [AsrWire.members,Asr.toWire,normalAsr,AsrWire.fromWire]
        refine .cons ⟨rfl,fun hname => ?_⟩ (.cons ⟨rfl,fun hname => ?_⟩
          (.cons ⟨rfl,fun hname => ?_⟩ (.cons ⟨rfl,fun hname => ?_⟩
          (.cons ⟨rfl,fun hname => ?_⟩ .nil))))
        all_goals rw [hname] at h
        · have hother : step≠.key "providers" :=
            fun hproviders => hreference ⟨hstep.trans (congrArg Step.key hname),hproviders⟩
          have hlist := child_replace_of_ne (Ne.symm hother) rest value (Asr.toWire asr).write
          rw [child_key,child_key] at hlist
          rw [eq_of_member hactive hactive' h.symm,
            eq_of_optional hproviders hproviders' hlist.symm]
        · rw [eq_of_member hnormalize hnormalize' h.symm]
        · rw [eq_of_member hgain hgain' h.symm]
        · rw [eq_of_optional hvad hvad' h.symm]
        · rw [eq_of_optional hproviders hproviders' h.symm]
    · intro hrest inner hinner hcontainer
      have hstep : step=.key "vad" ∨ step=.key "providers" := by
        have hleaves : ∀ entry∈(Asr.toWire asr).members, entry.1∉["vad","providers"] →
            ∀ value, entry.2=some value → isLeaf value=true := by
          simp only [AsrWire.members,List.forall_mem_cons,List.not_mem_nil,IsEmpty.forall_iff,
            implies_true,and_true]
          exact ⟨fun _ _ => leaf_of_some rfl,fun _ _ => leaf_of_some rfl,
            fun _ _ => leaf_of_some (isLeaf_writeNumber _),fun hname => absurd List.mem_cons_self hname,
            fun hname => absurd (List.mem_cons_of_mem _ List.mem_cons_self) hname⟩
        obtain ⟨name,hname,hstep⟩ := step_of_container hleaves hinner hcontainer
        rw [List.mem_cons,List.mem_singleton] at hname
        rw [hstep]
        exact hname.imp (congrArg Step.key) (congrArg Step.key)
      rcases hstep with rfl | rfl
      · obtain ⟨before,after,hbefore,hafter,hwire,hwire'⟩ :=
          eq_of_edit hrest hvad hvad' (asr_children asr).2.1 rfl
        have hfrom : ∀ {wire : AsrWire} {vad : VadWire}, wire.vad=some vad →
            child (asrStored wire) (.key "vad")=some (vadStored vad) := by
          intro wire vad hwire
          unfold asrStored
          rw [(asr_children _).2.1]
          dsimp only [normalAsr,AsrWire.fromWire]
          rw [hwire]
          rfl
        rw [hfrom hwire,hfrom hwire']
        exact vadStored_frame hbefore hafter
      · obtain ⟨before,after,hbefore,hafter,hwires,hwires'⟩ :=
          eq_of_edit hrest hproviders hproviders' (asr_children asr).2.2 rfl
        have hfrom : ∀ {wire : AsrWire} {wires : List AsrProviderWire},
            wire.providers=some wires → (wire.fromWire {}).providers=
              wires.map fun entry => entry.fromWire (.localProvider {}) := by
          intro wire wires hwire
          dsimp only [AsrWire.fromWire]
          rw [hwire]
          rfl
        unfold asrStored
        rw [(asr_children _).2.2,(asr_children _).2.2]
        dsimp only [normalAsr]
        rw [hfrom hwires,hfrom hwires']
        refine asrProviders_frame hbefore hafter (hfrom hwires ▸ acceptable) ?_ (htext _ rfl)
          (hkind _ rfl)
        exact fun h => hfrom hwires' ▸ hlist rest rfl h

theorem scenesWire_read {node : Json} {wire : ScenesWire} (h : ScenesWire.read node=some wire) :
    member "active_scene" readText "" node=some wire.activeScene ∧
      optional "definitions" (readArray SceneWire.read) node=some wire.definitions := by
  unfold ScenesWire.read at h
  split at h
  · simp only [Option.bind_eq_bind,Option.bind_eq_some_iff,Option.some.injEq] at h
    obtain ⟨_,hactive,_,hdefinitions,rfl⟩ := h
    exact ⟨hactive,hdefinitions⟩
  · cases h

/-- Scenes with what normalisation keeps of them and adds to them. -/
def normalScenes (scenes : Scenes) : Scenes :=
  ⟨clearReference scenes.activeScene
    (findScene (normalizeScenes scenes.definitions) scenes.activeScene).isSome,
    normalizeScenes scenes.definitions⟩

/-- Scenes as they are stored after they were read. -/
def scenesStored (wire : ScenesWire) : Json :=
  (Scenes.toWire (normalScenes (wire.fromWire {}))).write

theorem scenes_children (scenes : Scenes) :
    child (Scenes.toWire scenes).write (.key "active_scene")=some (.text scenes.activeScene) ∧
      child (Scenes.toWire scenes).write (.key "definitions")=
        some (.array (scenes.definitions.map sceneTree)) := by
  have hfind : ∀ key, child (Scenes.toWire scenes).write (.key key)=
      ((Scenes.toWire scenes).members.lookup key).join := by
    intro key
    rw [child_key]
    exact find_ofMembers (by simp [ScenesWire.members]) key
  rw [hfind,hfind]
  refine ⟨rfl,?_⟩
  show some (Json.array ((scenes.definitions.map Definition.toWire).map SceneWire.write))=_
  rw [List.map_map]
  rfl

/-- An edit of the scenes; the reference may change with the definitions. -/
theorem scenesStored_frame {skip : Location → Prop} {place : Location} {value : Json}
    {scenes : Scenes} {left right : ScenesWire}
    (hleft : ScenesWire.read (Scenes.toWire scenes).write=some left)
    (hright : ScenesWire.read (replace place value (Scenes.toWire scenes).write)=some right)
    (orderly : OrderlyScenes (left.fromWire {}).definitions)
    (hlist : ∀ rest, place=.key "definitions"::rest → (∃ position, .index position∈rest) →
      OrderlyScenes (right.fromWire {}).definitions ∨
        (IsLast rest (.array (scenes.definitions.map sceneTree)) ∧
          ∀ id, isBuiltinSceneId id=true → id∈sceneIds (right.fromWire {}).definitions))
    (hskip : ∀ rest, place=.key "definitions"::rest → skip [.key "active_scene"]) :
    AgreeApart skip place (some (scenesStored left)) (some (scenesStored right)) := by
  cases place with
  | nil => exact agreeApart_root _ _
  | cons step rest =>
    obtain ⟨hactive,hdefinitions⟩ := scenesWire_read hleft
    obtain ⟨hactive',hdefinitions'⟩ := scenesWire_read hright
    refine agreeApart_record (Scenes.toWire scenes).write value (fun other h => ?_) ?_
    · by_cases hreference : other=.key "active_scene" ∧ step=.key "definitions"
      · obtain ⟨rfl,rfl⟩ := hreference
        unfold scenesStored
        rw [(scenes_children _).1,(scenes_children _).1]
        exact agree_reference (hskip rest rfl)
      · refine agree_of_eq (child_ofMembers_congr fun key hstep => ?_)
        rw [hstep,child_key,child_key] at h
        dsimp only [ScenesWire.members,Scenes.toWire,normalScenes,ScenesWire.fromWire]
        refine .cons ⟨rfl,fun hname => ?_⟩ (.cons ⟨rfl,fun hname => ?_⟩ .nil)
        all_goals rw [hname] at h
        · have hother : step≠.key "definitions" :=
            fun hdefinitions => hreference ⟨hstep.trans (congrArg Step.key hname),hdefinitions⟩
          have hlist := child_replace_of_ne (Ne.symm hother) rest value (Scenes.toWire scenes).write
          rw [child_key,child_key] at hlist
          rw [eq_of_member hactive hactive' h.symm,
            eq_of_optional hdefinitions hdefinitions' hlist.symm]
        · rw [eq_of_optional hdefinitions hdefinitions' h.symm]
    · intro hrest inner hinner hcontainer
      have hstep : step=.key "definitions" := by
        have hleaves : ∀ entry∈(Scenes.toWire scenes).members, entry.1∉["definitions"] →
            ∀ value, entry.2=some value → isLeaf value=true := by
          simp only [ScenesWire.members,List.forall_mem_cons,List.not_mem_nil,IsEmpty.forall_iff,
            implies_true,and_true]
          exact ⟨fun _ _ => leaf_of_some rfl,fun hname => absurd List.mem_cons_self hname⟩
        obtain ⟨name,hname,hstep⟩ := step_of_container hleaves hinner hcontainer
        rw [hstep,List.mem_singleton.mp hname]
      subst hstep
      obtain ⟨before,after,hbefore,hafter,hwires,hwires'⟩ :=
        eq_of_edit hrest hdefinitions hdefinitions' (scenes_children scenes).2 rfl
      obtain ⟨next,later,rfl⟩ := List.exists_cons_of_ne_nil hrest
      have hfrom : ∀ {wire : ScenesWire} {wires : List SceneWire}, wire.definitions=some wires →
          (wire.fromWire {}).definitions=wires.map fun entry => entry.fromWire {} := by
        intro wire wires hwire
        dsimp only [ScenesWire.fromWire]
        rw [hwire]
        rfl
      have horderly : OrderlyScenes (before.map fun entry => entry.fromWire {}) :=
        hfrom hwires ▸ orderly
      have hafterList : OrderlyScenes (after.map fun entry => entry.fromWire {}) ∨
          (IsLast (next::later) (.array (scenes.definitions.map sceneTree)) ∧
            ∀ id, isBuiltinSceneId id=true →
              id∈sceneIds (after.map fun entry => entry.fromWire {})) := by
        cases next with
        | key name =>
          have hsame : before=after := Option.some.inj (hbefore.symm.trans hafter)
          rw [← hsame]
          exact .inl horderly
        | index position => exact hfrom hwires' ▸ hlist _ rfl ⟨position,List.mem_cons_self⟩
      unfold scenesStored
      rw [(scenes_children _).2,(scenes_children _).2]
      dsimp only [normalScenes]
      rw [hfrom hwires,hfrom hwires']
      rcases hafterList with horderly' | ⟨⟨position,hplace,hlast⟩,hbuiltin⟩
      · rw [horderly.normalize,horderly'.normalize]
        exact scenes_frame hbefore hafter horderly fun _ => horderly'
      · rw [hplace] at hafter ⊢
        have hlength := List.getElem?_eq_none_iff.mp hlast
        rw [List.length_map] at hlength
        exact scenes_last_frame hbefore hafter hlength horderly hbuiltin

end Sections

end Vinput.ConfigSections
