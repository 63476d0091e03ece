import Vinput.ConfigSections
import Vinput.JsonGrammar
import Vinput.SignatureText

/-!
# Clean configurations

A tree without control characters is read as a configuration whose own tree
has none: every string of it was in the tree that was read or is one of the
program's.
-/

namespace Vinput.CleanConfig

open AsrSettings (StringMap)
open CoreConfigTypes CoreConfigNormalize CoreConfigJson ConfigTree ConfigTreeEdits ConfigSections
open FirstEntries JsonTree

section Trees

/-- A string can be written and read again. -/
def Clean (text : String) : Prop := (bytesOf text).all isWritable=true

instance (text : String) : Decidable (Clean text) :=
  inferInstanceAs (Decidable ((bytesOf text).all isWritable=true))

/-- A tree is clean when all its strings are. -/
theorem isClean_iff {root : Json} : root.isClean=true ↔ ∀ text∈root.strings, Clean text :=
  List.all_eq_true

/-- An array is clean when its elements are. -/
theorem isClean_array {elements : List Json} :
    (Json.array elements).isClean=true ↔ ∀ element∈elements, element.isClean=true := by
  have hstrings : (Json.array elements).strings=elements.flatMap Json.strings := by
    show stringsElements elements=_
    induction elements with
    | nil => rfl
    | cons element rest ih => exact congrArg (element.strings++·) ih
  simp only [isClean_iff,hstrings,List.mem_flatMap]
  exact ⟨fun h element hmem text htext => h text ⟨element,hmem,htext⟩,
    fun h text ⟨element,hmem,htext⟩ => h element hmem text htext⟩

/-- An object is clean when its keys and values are. -/
theorem isClean_object {members : List (String×Json)} :
    (Json.object members).isClean=true ↔
      ∀ entry∈members, Clean entry.1 ∧ entry.2.isClean=true := by
  have hstrings : (Json.object members).strings=
      members.flatMap fun entry => entry.1::entry.2.strings := by
    show stringsMembers members=_
    induction members with
    | nil => rfl
    | cons entry rest ih =>
      exact congrArg (entry.1::·) (congrArg (entry.2.strings++·) ih)
  simp only [isClean_iff,hstrings,List.mem_flatMap]
  constructor
  · intro h entry hmem
    exact ⟨h entry.1 ⟨entry,hmem,List.mem_cons_self⟩,
      fun text htext => h text ⟨entry,hmem,List.mem_cons_of_mem _ htext⟩⟩
  · rintro h text ⟨entry,hmem,htext⟩
    rcases List.mem_cons.mp htext with rfl | hvalue
    · exact (h entry hmem).1
    · exact (h entry hmem).2 text hvalue

theorem isClean_text {text : String} : (Json.text text).isClean=true ↔ Clean text := by
  rw [isClean_iff]
  exact List.forall_mem_singleton

/-- What is found under a key is a member. -/
theorem mem_of_lookup {key : String} {value : Json} {members : List (String×Json)}
    (h : members.lookup key=some value) : (key,value)∈members := by
  obtain ⟨front,later,hsplit,-⟩ := List.lookup_eq_some_iff.mp h
  rw [hsplit]
  exact List.mem_append_right _ List.mem_cons_self

/-- What is found in a clean tree is clean. -/
theorem isClean_find {key : String} {node value : Json} (h : node.isClean=true)
    (hfind : node.find key=some value) : value.isClean=true := by
  cases node with
  | object members => exact (isClean_object.mp h _ (mem_of_lookup hfind)).2
  | _ => cases hfind

/-- Members are clean when their keys and values are. -/
theorem isClean_ofMembers {members : List (String×Option Json)}
    (hkeys : ∀ key∈members.map Prod.fst, Clean key)
    (hvalues : ∀ entry∈members, ∀ value, entry.2=some value → value.isClean=true) :
    (ofMembers members).isClean=true := by
  refine isClean_object.mpr fun entry hentry => ?_
  obtain ⟨member,hmember,hmade⟩ := List.mem_filterMap.mp hentry
  obtain ⟨value,hvalue,rfl⟩ := Option.map_eq_some_iff.mp hmade
  exact ⟨hkeys _ (List.mem_map_of_mem hmember),hvalues member hmember value hvalue⟩

/-- A string that is read is clean, or it is the fallback. -/
theorem clean_member {key fallback text : String} {node : Json} (h : node.isClean=true)
    (hfallback : Clean fallback) (hread : member key readText fallback node=some text) :
    Clean text := by
  unfold member at hread
  split at hread
  · cases hread
    exact hfallback
  · rename_i value hvalue
    cases value with
    | text found =>
      cases hread
      exact isClean_text.mp (isClean_find h hvalue)
    | _ => cases hread

/-- An optional member that is read comes from a clean tree. -/
theorem clean_optional {α : Type} {key : String} {read : Json → Option α} {node : Json}
    {found : Option α} (h : node.isClean=true) (hread : optional key read node=some found)
    {value : α} (hvalue : found=some value) :
    ∃ inner : Json, inner.isClean=true ∧ read inner=some value := by
  unfold JsonTree.optional at hread
  split at hread
  · cases hread
    cases hvalue
  · cases hread
    cases hvalue
  · rename_i inner _ hinner
    obtain ⟨made,hmade,hsame⟩ := Option.map_eq_some_iff.mp hread
    rw [hvalue] at hsame
    cases hsame
    exact ⟨inner,isClean_find h hinner,hmade⟩

/-- An optional string that is read is clean; the empty one is. -/
theorem clean_optionalText {key : String} {node : Json} {found : Option String}
    (h : node.isClean=true) (hread : optional key readText node=some found) :
    Clean (found.getD "") := by
  cases hfound : found with
  | none => decide
  | some text =>
    obtain ⟨inner,hclean,hinner⟩ := clean_optional h hread hfound
    cases inner with
    | text value =>
      cases hinner
      exact isClean_text.mp hclean
    | _ => cases hinner

/-- The elements of an array that is read come from clean trees. -/
theorem clean_readArray {α : Type} {read : Json → Option α} {node : Json} {values : List α}
    (h : node.isClean=true) (hread : readArray read node=some values) :
    ∀ value∈values, ∃ inner : Json, inner.isClean=true ∧ read inner=some value := by
  cases node with
  | array elements =>
    rw [isClean_array] at h
    have hwires := treated_of_readArray hread
    clear hread
    induction hwires with
    | nil => exact nofun
    | @cons element value _ _ hvalue _ ih =>
      rw [List.forall_mem_cons] at h
      exact List.forall_mem_cons.mpr ⟨⟨element,h.1,hvalue⟩,ih h.2⟩
  | _ => cases hread

/-- The strings of a clean array are clean. -/
theorem clean_strings {node : Json} (h : node.isClean=true) :
    ∀ text∈strings node, Clean text := by
  intro text htext
  cases node with
  | array elements =>
    obtain ⟨element,helement,hread⟩ := List.mem_filterMap.mp htext
    have hclean := isClean_array.mp h element helement
    cases element with
    | text value =>
      cases hread
      exact isClean_text.mp hclean
    | _ => cases hread
  | _ => cases htext

/-- The names and values of a clean object are clean. -/
theorem clean_stringMap {node : Json} (h : node.isClean=true) :
    ∀ entry∈(stringMap node).entries, Clean entry.1 ∧ Clean entry.2 := by
  cases node with
  | object members =>
    rw [isClean_object] at h
    induction members with
    | nil => exact nofun
    | cons first rest ih =>
      rw [List.forall_mem_cons] at h
      obtain ⟨name,value⟩ := first
      cases value with
      | text text =>
        intro entry hentry
        rcases mem_assignEntry hentry with rfl | hrest
        · exact ⟨h.1.1,isClean_text.mp h.1.2⟩
        · exact ih h.2 entry hrest
      | _ => exact ih h.2
  | _ => exact nofun

/-- Clean strings are written as a clean array. -/
theorem isClean_fromStrings {values : List String} (h : ∀ text∈values, Clean text) :
    (fromStrings values).isClean=true := by
  refine isClean_array.mpr fun element helement => ?_
  obtain ⟨text,htext,rfl⟩ := List.mem_map.mp helement
  exact isClean_text.mpr (h text htext)

/-- Clean names and values are written as a clean object. -/
theorem isClean_fromStringMap {values : StringMap}
    (h : ∀ entry∈values.entries, Clean entry.1 ∧ Clean entry.2) :
    (fromStringMap values).isClean=true := by
  refine isClean_object.mpr fun member hmember => ?_
  obtain ⟨entry,hentry,rfl⟩ := List.mem_map.mp hmember
  exact ⟨(h entry hentry).1,isClean_text.mpr (h entry hentry).2⟩

end Trees

section Entries

/-- A written integer is clean. -/
theorem clean_number (number : ℤ) : Clean (toString number) := by
  refine List.all_eq_true.mpr fun byte hbyte => ?_
  have hletters : byte∈(toString number).toList.flatMap String.utf8EncodeChar :=
    SignatureText.bytesOf_eq_flatMap (toString number) ▸ hbyte
  obtain ⟨letter,hletter,hencoded⟩ := List.mem_flatMap.mp hletters
  have hvisible : 32 ≤ letter.toNat := by
    rcases SignatureText.mem_toString_int hletter with rfl | hdigit
    · decide
    · have hrange : 48 ≤ letter.toNat ∧ letter.toNat ≤ 57 := by
        simpa [Char.isDigit,UInt32.le_iff_toNat_le] using hdigit
      omega
  have hhigh : 32 ≤ byte.toNat := by
    rcases JsonGrammar.mem_utf8EncodeChar hencoded with ⟨-,hsame⟩ | hmore
    · rw [hsame]
      exact hvisible
    · omega
  exact (Bool.or_eq_true _ _).mpr (.inl (decide_eq_true hhigh))

theorem isClean_given_text {condition : Prop} [Decidable condition] {text : String}
    (h : Clean text) : ∀ value, (given condition text).map Json.text=some value →
      value.isClean=true := by
  intro value hvalue
  obtain ⟨found,hfound,rfl⟩ := Option.map_eq_some_iff.mp hvalue
  unfold given at hfound
  split at hfound
  · cases hfound
    exact isClean_text.mpr h
  · cases hfound

theorem isClean_given {condition : Prop} [Decidable condition] {tree : Json}
    (h : tree.isClean=true) : ∀ value, given condition tree=some value → value.isClean=true := by
  intro value hvalue
  unfold given at hvalue
  split at hvalue
  · cases hvalue
    exact h
  · cases hvalue

theorem isClean_some {tree : Json} (h : tree.isClean=true) :
    ∀ value, some tree=some value → value.isClean=true := by
  rintro _ ⟨⟩
  exact h

/-- A value that may be absent and is written without strings of its own. -/
theorem isClean_map {α : Type} {found : Option α} {write : α → Json}
    (h : ∀ value, (write value).isClean=true) :
    ∀ value, found.map write=some value → value.isClean=true := by
  intro value hvalue
  obtain ⟨made,-,rfl⟩ := Option.map_eq_some_iff.mp hvalue
  exact h made

/-- An entry that is kept was there, prepared and finished. -/
theorem mem_keepFirst {α : Type} {treatment : Treatment α String} {seen : List String}
    {entries : List α} {kept : α} (h : kept∈(keepFirst treatment seen entries).2) :
    ∃ entry∈entries, (treatment.prepare entry).bind treatment.finish=some kept := by
  induction entries generalizing seen with
  | nil => cases h
  | cons first rest ih =>
    have hlater : (∃ entry∈rest, (treatment.prepare entry).bind treatment.finish=some kept) →
        ∃ entry∈first::rest, (treatment.prepare entry).bind treatment.finish=some kept :=
      fun ⟨entry,hentry,hkept⟩ => ⟨entry,List.mem_cons_of_mem _ hentry,hkept⟩
    dsimp only [keepFirst] at h
    split at h
    · exact hlater (ih h)
    · rename_i prepared hprepared
      split at h
      · exact hlater (ih h)
      · split at h
        · exact hlater (ih h)
        · rename_i finished hfinished
          rcases List.mem_cons.mp h with rfl | hrest
          · refine ⟨first,List.mem_cons_self,?_⟩
            rw [hprepared]
            exact hfinished
          · exact hlater (ih hrest)

/-- A clean service. -/
structure CleanProvider (provider : LlmProvider) : Prop where
  id : Clean provider.id
  baseUrl : Clean provider.baseUrl
  apiKey : Clean provider.apiKey
  extraBody : provider.extraBody.isClean=true

/-- A service that is read of a clean tree is clean. -/
theorem CleanProvider.read {node : Json} {wire : LlmProviderWire} (h : node.isClean=true)
    (hread : LlmProviderWire.read node=some wire) : CleanProvider (wire.fromWire {}) := by
  obtain ⟨hid,hurl,hkey,-,hbody⟩ := llmProviderWire_read hread
  refine ⟨clean_member h (by decide) hid,clean_optionalText h hurl,clean_optionalText h hkey,?_⟩
  dsimp only [LlmProviderWire.fromWire]
  cases hextra : wire.extraBody with
  | none => rfl
  | some body =>
    obtain ⟨inner,hclean,hinner⟩ := clean_optional h hbody hextra
    cases hinner
    dsimp only [extraBodyOf]
    split
    · exact hclean
    · rfl

/-- A clean service has a clean tree. -/
theorem CleanProvider.tree {provider : LlmProvider} (h : CleanProvider provider) :
    (providerTree provider).isClean=true := by
  have hkeys : ∀ key∈["id","base_url","api_key","json_object","extra_body"], Clean key := by
    decide +kernel
  refine isClean_ofMembers hkeys ?_
  simp only [LlmProvider.toWire,LlmProviderWire.members,List.forall_mem_cons,List.not_mem_nil,
    IsEmpty.forall_iff,implies_true,and_true]
  exact ⟨isClean_some (isClean_text.mpr h.id),isClean_given_text h.baseUrl,
    isClean_given_text h.apiKey,isClean_map fun _ => rfl,isClean_given h.extraBody⟩

/-- A clean adapter or client. -/
structure CleanAdapter (adapter : LlmAdapter) : Prop where
  id : Clean adapter.id
  command : Clean adapter.command
  args : ∀ text∈adapter.args, Clean text
  env : ∀ entry∈adapter.env.entries, Clean entry.1 ∧ Clean entry.2

/-- Arguments that are read are clean. -/
theorem clean_args {key : String} {node : Json} {found : Option Json} (h : node.isClean=true)
    (hread : optional key readTree node=some found) :
    ∀ text∈(found.map strings).getD [], Clean text := by
  cases hfound : found with
  | none => exact nofun
  | some args =>
    obtain ⟨inner,hclean,hinner⟩ := clean_optional h hread hfound
    cases hinner
    exact clean_strings hclean

/-- An environment that is read is clean. -/
theorem clean_env {key : String} {node : Json} {found : Option Json} (h : node.isClean=true)
    (hread : optional key readTree node=some found) :
    ∀ entry∈((found.map stringMap).getD default).entries, Clean entry.1 ∧ Clean entry.2 := by
  cases hfound : found with
  | none => exact nofun
  | some env =>
    obtain ⟨inner,hclean,hinner⟩ := clean_optional h hread hfound
    cases hinner
    exact clean_stringMap hclean

/-- An adapter that is read of a clean tree is clean. -/
theorem CleanAdapter.read {node : Json} {wire : LlmAdapterWire} (h : node.isClean=true)
    (hread : LlmAdapterWire.read node=some wire) : CleanAdapter (wire.fromWire {}) := by
  obtain ⟨hid,hcommand,hargs,henv,-⟩ := llmAdapterWire_read hread
  exact ⟨clean_member h (by decide) hid,clean_member h (by decide) hcommand,clean_args h hargs,
    clean_env h henv⟩

/-- A clean adapter has a clean tree. -/
theorem CleanAdapter.tree {adapter : LlmAdapter} (h : CleanAdapter adapter) :
    (adapterTree adapter).isClean=true := by
  have hkeys : ∀ key∈["id","command","args","env","auto_start"], Clean key := by decide +kernel
  refine isClean_ofMembers hkeys ?_
  simp only [LlmAdapter.toWire,LlmAdapterWire.members,List.forall_mem_cons,List.not_mem_nil,
    IsEmpty.forall_iff,implies_true,and_true]
  exact ⟨isClean_some (isClean_text.mpr h.id),isClean_some (isClean_text.mpr h.command),
    isClean_given (isClean_fromStrings h.args),isClean_given (isClean_fromStringMap h.env),
    isClean_map fun _ => rfl⟩

/-- Adapters that are kept lose their empty names at most. -/
theorem CleanAdapter.kept {seen : List String} {adapters : List LlmAdapter}
    (h : ∀ adapter∈adapters, CleanAdapter adapter) :
    ∀ adapter∈(keepFirst adapterTreatment seen adapters).2, CleanAdapter adapter := by
  intro adapter hadapter
  obtain ⟨before,hbefore,hkept⟩ := mem_keepFirst hadapter
  obtain ⟨prepared,hprepared,hfinished⟩ := Option.bind_eq_some_iff.mp hkept
  rw [(named_eq_some.mp hprepared).2] at hfinished
  cases hfinished
  have hclean := h before hbefore
  exact ⟨hclean.id,hclean.command,hclean.args,fun entry hentry =>
    hclean.env entry (List.mem_of_mem_filter hentry)⟩

/-- A clean speech recognition provider. -/
inductive CleanAsrProvider : AsrProvider → Prop where
  | localProvider {settings : LocalAsrProvider} (id : Clean settings.id)
      (model : Clean settings.model) (hotwordsFile : Clean settings.hotwordsFile) :
      CleanAsrProvider (.localProvider settings)
  | commandProvider {settings : CommandAsrProvider} (id : Clean settings.id)
      (command : Clean settings.command) (args : ∀ text∈settings.args, Clean text)
      (env : ∀ entry∈settings.env.entries, Clean entry.1 ∧ Clean entry.2) :
      CleanAsrProvider (.commandProvider settings)

/-- A provider that is read of a clean tree is clean; one of another kind is empty. -/
theorem CleanAsrProvider.read {node : Json} {wire : AsrProviderWire} (h : node.isClean=true)
    (hread : AsrProviderWire.read node=some wire) :
    CleanAsrProvider (wire.fromWire (.localProvider {})) := by
  obtain ⟨hid,-,hmodel,hhotwords,hcommand,hargs,henv,-⟩ := asrProviderWire_read hread
  have hclean := clean_member h (by decide) hid
  unfold AsrProviderWire.fromWire
  split
  · exact .localProvider hclean (clean_optionalText h hmodel) (clean_optionalText h hhotwords)
  · split
    · exact .commandProvider hclean (clean_optionalText h hcommand) (clean_args h hargs)
        (clean_env h henv)
    · exact .localProvider (by decide) (by decide) (by decide)

/-- A clean provider has a clean tree. -/
theorem CleanAsrProvider.tree {provider : AsrProvider} (h : CleanAsrProvider provider) :
    (asrProviderTree provider).isClean=true := by
  have hkeys : ∀ key∈["id","type","model","hotwords_file","command","args","env","timeout_ms"],
      Clean key := by decide +kernel
  have hnumber : ∀ value : Int32, (writeInt value).isClean=true := fun _ => rfl
  refine isClean_ofMembers hkeys ?_
  cases h with
  | localProvider hid hmodel hhotwords =>
    have htype : Clean "local" := by decide
    simp only [AsrProvider.toWire,AsrProviderWire.members,asrProviderId,asrProviderType,
      List.forall_mem_cons,List.not_mem_nil,IsEmpty.forall_iff,implies_true,and_true]
    exact ⟨isClean_some (isClean_text.mpr hid),isClean_some (isClean_text.mpr htype),
      isClean_given_text hmodel,isClean_given_text hhotwords,nofun,nofun,nofun,
      isClean_map hnumber⟩
  | commandProvider hid hcommand hargs henv =>
    have htype : Clean "command" := by decide
    simp only [AsrProvider.toWire,AsrProviderWire.members,asrProviderId,asrProviderType,
      List.forall_mem_cons,List.not_mem_nil,IsEmpty.forall_iff,implies_true,and_true]
    exact ⟨isClean_some (isClean_text.mpr hid),isClean_some (isClean_text.mpr htype),
      nofun,nofun,isClean_given_text hcommand,isClean_given (isClean_fromStrings hargs),
      isClean_given (isClean_fromStringMap henv),isClean_map hnumber⟩

/-- Providers that are kept lose their empty names at most. -/
theorem CleanAsrProvider.kept {seen : List String} {providers : List AsrProvider}
    (h : ∀ provider∈providers, CleanAsrProvider provider) :
    ∀ provider∈(keepFirst asrProviderTreatment seen providers).2, CleanAsrProvider provider := by
  intro provider hprovider
  obtain ⟨before,hbefore,hkept⟩ := mem_keepFirst hprovider
  obtain ⟨prepared,hprepared,hfinished⟩ := Option.bind_eq_some_iff.mp hkept
  rw [(named_eq_some.mp hprepared).2] at hfinished
  have hclean := h before hbefore
  cases hclean with
  | localProvider hid hmodel hhotwords =>
    cases hfinished
    exact .localProvider hid hmodel hhotwords
  | commandProvider hid hcommand hargs henv =>
    dsimp only [asrProviderTreatment,finishAsrProvider] at hfinished
    split at hfinished
    · cases hfinished
    · cases hfinished
      exact .commandProvider hid hcommand hargs fun entry hentry =>
        henv entry (List.mem_of_mem_filter hentry)

/-- A clean scene. -/
structure CleanScene (scene : Definition) : Prop where
  id : Clean scene.id
  label : Clean scene.label
  prompt : Clean scene.prompt
  providerId : Clean scene.providerId
  model : Clean scene.model

/-- A scene that is read of a clean tree is clean. -/
theorem CleanScene.read {node : Json} {wire : SceneWire} (h : node.isClean=true)
    (hread : SceneWire.read node=some wire) : CleanScene (wire.fromWire {}) := by
  obtain ⟨hid,hlabel,hprompt,hprovider,hmodel,-⟩ := sceneWire_read hread
  exact ⟨clean_member h (by decide) hid,clean_optionalText h hlabel,clean_optionalText h hprompt,
    clean_optionalText h hprovider,clean_optionalText h hmodel⟩

theorem CleanScene.tree {scene : Definition} (h : CleanScene scene) :
    (sceneTree scene).isClean=true := by
  have hkeys : ∀ key∈["id","label","prompt","provider_id","model","count","timeout_ms",
      "context_lines","raw_cand","raw_prev"], Clean key := by decide +kernel
  have hnumber : ∀ value : Int32, (writeInt value).isClean=true := fun _ => rfl
  refine isClean_ofMembers hkeys ?_
  simp only [Definition.toWire,SceneWire.members,List.forall_mem_cons,List.not_mem_nil,
    IsEmpty.forall_iff,implies_true,and_true]
  exact ⟨isClean_some (isClean_text.mpr h.id),isClean_given_text h.label,
    isClean_given_text h.prompt,isClean_given_text h.providerId,isClean_given_text h.model,
    isClean_map hnumber,isClean_map hnumber,isClean_map hnumber,isClean_map fun _ => rfl,
    isClean_map fun _ => rfl⟩

/-- The prompt of the program is clean. -/
theorem clean_defaultPrompt : Clean kDefaultCommandPrompt := by decide +kernel

/-- The builtin scenes are clean. -/
theorem CleanScene.builtin {id : String} (h : Clean id) : CleanScene (makeBuiltinScene id) := by
  have hempty : Clean "" := by decide
  have hraw : Clean kRawSceneLabelKey := by decide
  have hcommand : Clean kCommandSceneLabelKey := by decide
  unfold makeBuiltinScene
  split
  · exact ⟨h,hraw,hempty,hempty,hempty⟩
  · split
    · exact ⟨h,hcommand,clean_defaultPrompt,hempty,hempty⟩
    · exact ⟨h,hempty,hempty,hempty,hempty⟩

/-- The prompt of a scene is kept or replaced by the one of the program. -/
theorem CleanScene.kept {definitions : List Definition}
    (h : ∀ scene∈definitions, CleanScene scene) :
    ∀ scene∈(keepFirst sceneTreatment [] definitions).2, CleanScene scene := by
  intro scene hscene
  obtain ⟨before,hbefore,hkept⟩ := mem_keepFirst hscene
  obtain ⟨prepared,hprepared,hfinished⟩ := Option.bind_eq_some_iff.mp hkept
  cases hfinished
  rw [(prepareScene_eq_some.mp hprepared).1,promptedScene_eq]
  have hclean := h before hbefore
  refine ⟨hclean.id,hclean.label,?_,hclean.providerId,hclean.model⟩
  show Clean (scenePrompt before.id before.prompt)
  unfold scenePrompt
  split
  · exact clean_defaultPrompt
  · exact hclean.prompt

/-- The builtin scenes that are added are clean too. -/
theorem CleanScene.normalized {definitions : List Definition}
    (h : ∀ scene∈definitions, CleanScene scene) :
    ∀ scene∈normalizeScenes definitions, CleanScene scene := by
  have hwith : ∀ {id : String} {kept : List String×List Definition}, Clean id →
      (∀ scene∈kept.2, CleanScene scene) → ∀ scene∈(withBuiltin id kept).2, CleanScene scene := by
    intro id kept hid hkept
    unfold withBuiltin
    split
    · exact hkept
    · exact List.forall_mem_append.mpr
        ⟨hkept,List.forall_mem_singleton.mpr (CleanScene.builtin hid)⟩
  exact hwith (by decide) (hwith (by decide) (CleanScene.kept h))

end Entries

section Config

/-- A clean configuration. -/
structure CleanCoreConfig (config : CoreConfig) : Prop where
  version : Clean config.version
  baseUrls : ∀ url∈config.registry.baseUrls, Clean url
  captureDevice : Clean config.global.captureDevice
  activeProvider : Clean config.asr.activeProvider
  asrProviders : ∀ provider∈config.asr.providers, CleanAsrProvider provider
  providers : ∀ provider∈config.llm.providers, CleanProvider provider
  adapters : ∀ adapter∈config.llm.adapters, CleanAdapter adapter
  activeScene : Clean config.scenes.activeScene
  definitions : ∀ scene∈config.scenes.definitions, CleanScene scene
  triggers : ∀ client∈config.triggers, CleanAdapter client
  receivers : ∀ client∈config.receivers, CleanAdapter client

/-- A section is read of a clean tree, or it has its defaults. -/
theorem clean_section {Wire α : Type} {read : Json → Option Wire} {make : Wire → α} {initial : α}
    {property : α → Prop} {root : Json} {key : String} (h : root.isClean=true)
    (hinitial : property initial)
    (hread : ∀ node wire, node.isClean=true → read node=some wire → property (make wire)) :
    property (((readSection read root key).map make).getD initial) := by
  cases hwire : readSection read root key with
  | none => exact hinitial
  | some wire =>
    obtain ⟨node,hnode,hwire⟩ := Option.bind_eq_some_iff.mp hwire
    exact hread node wire (isClean_find h hnode) hwire

/-- Entries that are read one by one of a clean array. -/
theorem clean_entries {Wire α : Type} {read : Json → Option Wire} {make : Wire → α}
    {property : α → Prop} {node : Json} {wires : List Wire} (h : node.isClean=true)
    (hwires : readArray read node=some wires)
    (hread : ∀ inner wire, inner.isClean=true → read inner=some wire → property (make wire)) :
    ∀ entry∈wires.map make, property entry := by
  refine List.forall_mem_map.mpr fun wire hwire => ?_
  obtain ⟨inner,hclean,hinner⟩ := clean_readArray h hwires wire hwire
  exact hread inner wire hclean hinner

/-- The entries of an optional list. -/
theorem clean_optionalEntries {Wire α : Type} {read : Json → Option Wire} {make : Wire → α}
    {property : α → Prop} {key : String} {node : Json} {found : Option (List Wire)}
    (h : node.isClean=true) (hfound : optional key (readArray read) node=some found)
    (hread : ∀ inner wire, inner.isClean=true → read inner=some wire → property (make wire)) :
    ∀ entry∈(found.map fun wires => wires.map make).getD [], property entry := by
  cases hwires : found with
  | none => exact nofun
  | some wires =>
    obtain ⟨inner,hclean,hinner⟩ := clean_optional h hfound hwires
    exact clean_entries hclean hinner hread

/-- What is read of a clean tree is clean. -/
theorem CleanCoreConfig.read {root : Json} (h : root.isClean=true) :
    CleanCoreConfig (parseRoot root) := by
  have hasr : Clean (parseRoot root).asr.activeProvider ∧
      ∀ provider∈(parseRoot root).asr.providers, CleanAsrProvider provider := by
    refine @clean_section _ _ _ _ _ (fun asr : Asr => Clean asr.activeProvider ∧
      ∀ provider∈asr.providers, CleanAsrProvider provider) _ _ h ⟨by decide,nofun⟩ ?_
    intro node wire hclean hwire
    obtain ⟨hactive,-,-,-,hproviders⟩ := asrWire_read hwire
    exact ⟨clean_member hclean (by decide) hactive,
      clean_optionalEntries hclean hproviders fun _ _ => CleanAsrProvider.read⟩
  have hllm : (∀ provider∈(parseRoot root).llm.providers, CleanProvider provider) ∧
      ∀ adapter∈(parseRoot root).llm.adapters, CleanAdapter adapter := by
    refine @clean_section _ _ _ _ _ (fun llm : Llm =>
      (∀ provider∈llm.providers, CleanProvider provider) ∧
        ∀ adapter∈llm.adapters, CleanAdapter adapter) _ _ h ⟨nofun,nofun⟩ ?_
    intro node wire hclean hwire
    obtain ⟨hproviders,hadapters⟩ := llmWire_read hwire
    exact ⟨clean_optionalEntries hclean hproviders fun _ _ => CleanProvider.read,
      clean_optionalEntries hclean hadapters fun _ _ => CleanAdapter.read⟩
  have hscenes : Clean (parseRoot root).scenes.activeScene ∧
      ∀ scene∈(parseRoot root).scenes.definitions, CleanScene scene := by
    refine @clean_section _ _ _ _ _ (fun scenes : Scenes => Clean scenes.activeScene ∧
      ∀ scene∈scenes.definitions, CleanScene scene) _ _ h ⟨by decide,nofun⟩ ?_
    intro node wire hclean hwire
    obtain ⟨hactive,hdefinitions⟩ := scenesWire_read hwire
    exact ⟨clean_member hclean (by decide) hactive,
      clean_optionalEntries hclean hdefinitions fun _ _ => CleanScene.read⟩
  have hclients : ∀ key, ∀ client∈((readSection (readArray LlmAdapterWire.read) root key).getD
      []).map fun entry => entry.fromWire {}, CleanAdapter client := by
    intro key
    cases hwires : readSection (readArray LlmAdapterWire.read) root key with
    | none => exact nofun
    | some wires =>
      obtain ⟨node,hnode,hwires⟩ := Option.bind_eq_some_iff.mp hwires
      exact clean_entries (isClean_find h hnode) hwires fun _ _ => CleanAdapter.read
  refine ⟨?_,?_,?_,hasr.1,hasr.2,hllm.1,hllm.2,hscenes.1,hscenes.2,hclients _,hclients _⟩
  · show Clean (readVersion (root.find "version"))
    cases hversion : root.find "version" with
    | none => exact (by decide : Clean ">=2.4.0")
    | some version =>
      cases version with
      | text text => exact isClean_text.mp (isClean_find h hversion)
      | number value => exact clean_number _
      | _ => exact (by decide : Clean ">=2.4.0")
  · refine @clean_section _ _ _ _ _ (fun registry : Registry =>
      ∀ url∈registry.baseUrls, Clean url) _ _ h nofun ?_
    intro node wire hclean hwire url hurl
    exact clean_args hclean (registryWire_read hwire) url (List.mem_of_mem_filter hurl)
  · refine @clean_section _ _ _ _ _ (fun global : Global => Clean global.captureDevice) _ _ h
      (by decide) ?_
    intro node wire hclean hwire
    exact clean_member hclean (by decide) (globalWire_read hwire).1

/-- Normalisation keeps a configuration clean. -/
theorem CleanCoreConfig.normalize {config : CoreConfig} (h : CleanCoreConfig config) :
    CleanCoreConfig (normalizeCoreConfig config) := by
  have hreference : ∀ {reference : String} {found : Bool}, Clean reference →
      Clean (clearReference reference found) := by
    intro reference found hclean
    unfold clearReference
    split
    · decide
    · exact hclean
  refine ⟨h.version,?_,h.captureDevice,hreference h.activeProvider,
    CleanAsrProvider.kept h.asrProviders,?_,CleanAdapter.kept h.adapters,
    hreference h.activeScene,CleanScene.normalized h.definitions,CleanAdapter.kept h.triggers,
    CleanAdapter.kept h.receivers⟩
  · intro url hurl
    obtain ⟨before,hbefore,hkept⟩ := mem_keepFirst hurl
    obtain ⟨prepared,hprepared,hfinished⟩ := Option.bind_eq_some_iff.mp hkept
    cases hfinished
    rw [(named_eq_some.mp hprepared).2]
    exact h.baseUrls before hbefore
  · intro provider hprovider
    obtain ⟨before,hbefore,hkept⟩ := mem_keepFirst hprovider
    obtain ⟨prepared,hprepared,hfinished⟩ := Option.bind_eq_some_iff.mp hkept
    cases hfinished
    rw [(named_eq_some.mp hprepared).2]
    exact h.providers before hbefore

/-- A list is clean when its entries are. -/
theorem isClean_entries {Wire α : Type} {write : Wire → Json} {toWire : α → Wire}
    {entries : List α} (h : ∀ entry∈entries, (write (toWire entry)).isClean=true) :
    (writeArray write (entries.map toWire)).isClean=true := by
  unfold writeArray
  rw [List.map_map]
  exact isClean_array.mpr (List.forall_mem_map.mpr h)

theorem isClean_writeNumber (value : Double) : (writeNumber value).isClean=true := by
  cases value <;> rfl

/-- The capture settings have the name of the device. -/
theorem isClean_global {global : Global} (h : Clean global.captureDevice) :
    (Global.toWire global).write.isClean=true := by
  have hkeys : ∀ key∈["capture_device","duck_output_while_recording","duck_output_volume"],
      Clean key := by decide +kernel
  refine isClean_ofMembers hkeys ?_
  simp only [Global.toWire,GlobalWire.members,List.forall_mem_cons,List.not_mem_nil,
    IsEmpty.forall_iff,implies_true,and_true]
  exact ⟨isClean_some (isClean_text.mpr h),isClean_some rfl,isClean_some (isClean_writeNumber _)⟩

/-- The silence trimming has no strings but its keys. -/
theorem isClean_vad (wire : VadWire) : wire.write.isClean=true := by
  have hkeys : ∀ key∈["enabled","threshold","min_speech_duration","min_silence_duration",
      "speech_pad_ms"], Clean key := by decide +kernel
  refine isClean_ofMembers hkeys ?_
  simp only [VadWire.members,List.forall_mem_cons,List.not_mem_nil,IsEmpty.forall_iff,
    implies_true,and_true]
  exact ⟨isClean_some rfl,isClean_some (isClean_writeNumber _),
    isClean_some (isClean_writeNumber _),isClean_some (isClean_writeNumber _),isClean_some rfl⟩

/-- Speech recognition has its reference and its providers. -/
theorem isClean_asr {asr : Asr} (hactive : Clean asr.activeProvider)
    (hproviders : ∀ provider∈asr.providers, CleanAsrProvider provider) :
    (Asr.toWire asr).write.isClean=true := by
  have hkeys : ∀ key∈["active_provider","normalize_audio","input_gain","vad","providers"],
      Clean key := by decide +kernel
  refine isClean_ofMembers hkeys ?_
  simp only [Asr.toWire,AsrWire.members,List.forall_mem_cons,List.not_mem_nil,
    IsEmpty.forall_iff,implies_true,and_true]
  exact ⟨isClean_some (isClean_text.mpr hactive),isClean_some rfl,
    isClean_some (isClean_writeNumber _),isClean_map isClean_vad,
    isClean_some (isClean_entries fun provider hmem => (hproviders provider hmem).tree)⟩

/-- The language models have services and adapters. -/
theorem isClean_llm {llm : Llm} (hproviders : ∀ provider∈llm.providers, CleanProvider provider)
    (hadapters : ∀ adapter∈llm.adapters, CleanAdapter adapter) :
    (Llm.toWire llm).write.isClean=true := by
  have hkeys : ∀ key∈["providers","adapters"], Clean key := by decide +kernel
  refine isClean_ofMembers hkeys ?_
  simp only [Llm.toWire,LlmWire.members,List.forall_mem_cons,List.not_mem_nil,
    IsEmpty.forall_iff,implies_true,and_true]
  exact ⟨isClean_some (isClean_entries fun provider hmem => (hproviders provider hmem).tree),
    isClean_some (isClean_entries fun adapter hmem => (hadapters adapter hmem).tree)⟩

/-- The scenes have their reference and their definitions. -/
theorem isClean_scenes {scenes : Scenes} (hactive : Clean scenes.activeScene)
    (hdefinitions : ∀ scene∈scenes.definitions, CleanScene scene) :
    (Scenes.toWire scenes).write.isClean=true := by
  have hkeys : ∀ key∈["active_scene","definitions"], Clean key := by decide +kernel
  refine isClean_ofMembers hkeys ?_
  simp only [Scenes.toWire,ScenesWire.members,List.forall_mem_cons,List.not_mem_nil,
    IsEmpty.forall_iff,implies_true,and_true]
  exact ⟨isClean_some (isClean_text.mpr hactive),
    isClean_some (isClean_entries fun scene hmem => (hdefinitions scene hmem).tree)⟩

/-- Clients are written when there are any. -/
theorem isClean_clients {clients : List ClientSpec} (h : ∀ client∈clients, CleanAdapter client) :
    ∀ value, (given (clients≠[]) (clients.map LlmAdapter.toWire)).map
      (writeArray LlmAdapterWire.write)=some value → value.isClean=true := by
  intro value hvalue
  obtain ⟨wires,hwires,rfl⟩ := Option.map_eq_some_iff.mp hvalue
  unfold given at hwires
  split at hwires
  · cases hwires
    exact isClean_entries fun client hmem => (h client hmem).tree
  · cases hwires

/-- A clean configuration has a clean tree. -/
theorem CleanCoreConfig.tree {config : CoreConfig} (h : CleanCoreConfig config) :
    (configTree config).isClean=true := by
  have hurls : ∀ key∈["base_urls"], Clean key := by decide +kernel
  have hregistry : (Registry.toWire config.registry).write.isClean=true :=
    isClean_ofMembers hurls
      (List.forall_mem_singleton.mpr (isClean_given (isClean_fromStrings h.baseUrls)))
  have hkeys : ∀ key∈["version","registry","global","asr","llm","scenes","triggers","receivers"],
      Clean key := by decide +kernel
  refine isClean_ofMembers hkeys ?_
  simp only [CoreConfig.toWire,CoreConfigWire.members,List.forall_mem_cons,List.not_mem_nil,
    IsEmpty.forall_iff,implies_true,and_true]
  exact ⟨isClean_some (isClean_text.mpr h.version),isClean_some hregistry,
    isClean_some (isClean_global h.captureDevice),
    isClean_some (isClean_asr h.activeProvider h.asrProviders),
    isClean_some (isClean_llm h.providers h.adapters),
    isClean_some (isClean_scenes h.activeScene h.definitions),isClean_clients h.triggers,
    isClean_clients h.receivers⟩

/-- What is stored of a clean tree is clean. -/
theorem isClean_reform {root : Json} (h : root.isClean=true) : (reform root).isClean=true :=
  (CleanCoreConfig.read h).normalize.tree

end Config

end Vinput.CleanConfig
