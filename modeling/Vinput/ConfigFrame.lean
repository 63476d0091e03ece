import Vinput.CleanConfig
import Vinput.ConfigRouter

/-!
# What setting one value leaves alone

The tree is stored section by section: a section that is the same is stored
the same, and one that is edited and still read agrees with what it was apart
from the edit. A stored configuration therefore changes only at the place
that is set, unless the value there makes a reader or normalisation drop
something else.
-/

namespace Vinput.ConfigFrame

open CleanConfig CoreConfigTypes CoreConfigNormalize CoreConfigJson CoreConfigRoundTrip
open ConfigStore ConfigTree ConfigTreeEdits ConfigSections ConfigRouter FirstEntries JsonTree JsonLocation

section Stored

/-- Clients as they are stored; none are left out. -/
def clientsStored (kept : List ClientSpec) : Option Json :=
  given (kept≠[]) (.array (kept.map adapterTree))

/-- Triggers of a tree with the identities they take. -/
def triggersKept (root : Json) : List String×List ClientSpec :=
  keepFirst adapterTreatment [] (parseRoot root).triggers

/-- Receivers of a tree, under identities no trigger has. -/
def receiversKept (root : Json) : List ClientSpec :=
  (keepFirst adapterTreatment (triggersKept root).1 (parseRoot root).receivers).2

/-- What a tree holds under each key. -/
theorem find_configTree (config : CoreConfig) (key : String) :
    (configTree config).find key=((CoreConfig.toWire config).members.lookup key).join :=
  find_ofMembers (by simp [CoreConfigWire.members]) key

/-- A section that is there and read is what the parser finds. -/
theorem readSection_eq {α : Type} {read : Json → Option α} {root node : Json} {key : String}
    {wire : α} (hnode : root.find key=some node) (hread : read node=some wire) :
    readSection read root key=some wire := by
  unfold readSection
  rw [hnode]
  exact hread

/-- A registry that is read is what the parser makes of it. -/
theorem parseRoot_registry {root node : Json} {wire : RegistryWire}
    (hnode : root.find "registry"=some node) (hread : RegistryWire.read node=some wire) :
    (parseRoot root).registry=wire.fromWire := by
  dsimp only [parseRoot]
  rw [readSection_eq hnode hread]
  rfl

/-- A registry that is read is stored by itself. -/
theorem reform_registry {root node : Json} {wire : RegistryWire}
    (hnode : root.find "registry"=some node) (hread : RegistryWire.read node=some wire) :
    (reform root).find "registry"=some (registryStored wire) := by
  unfold reform
  rw [find_configTree]
  show some (Registry.toWire
    ⟨(keepFirst baseUrlTreatment [] (parseRoot root).registry.baseUrls).2⟩).write=_
  rw [parseRoot_registry hnode hread]
  rfl

/-- Capture settings that are read are what the parser makes of them. -/
theorem parseRoot_global {root node : Json} {wire : GlobalWire}
    (hnode : root.find "global"=some node) (hread : GlobalWire.read node=some wire) :
    (parseRoot root).global=wire.fromWire := by
  dsimp only [parseRoot]
  rw [readSection_eq hnode hread]
  rfl

/-- Capture settings that are read are stored by themselves. -/
theorem reform_global {root node : Json} {wire : GlobalWire}
    (hnode : root.find "global"=some node) (hread : GlobalWire.read node=some wire) :
    (reform root).find "global"=some (globalStored wire) := by
  unfold reform
  rw [find_configTree]
  show some (Global.toWire {(parseRoot root).global with
    duckOutputVolume := clamp (parseRoot root).global.duckOutputVolume 0.0 1.0}).write=_
  rw [parseRoot_global hnode hread]
  rfl

/-- Speech recognition that is read is what the parser makes of it. -/
theorem parseRoot_asr {root node : Json} {wire : AsrWire}
    (hnode : root.find "asr"=some node) (hread : AsrWire.read node=some wire) :
    (parseRoot root).asr=wire.fromWire {} := by
  dsimp only [parseRoot]
  rw [readSection_eq hnode hread]
  rfl

/-- Speech recognition that is read is stored by itself. -/
theorem reform_asr {root node : Json} {wire : AsrWire}
    (hnode : root.find "asr"=some node) (hread : AsrWire.read node=some wire) :
    (reform root).find "asr"=some (asrStored wire) := by
  unfold reform
  rw [find_configTree]
  show some (Asr.toWire (normalAsr (parseRoot root).asr)).write=_
  rw [parseRoot_asr hnode hread]
  rfl

/-- Language models that are read are what the parser makes of them. -/
theorem parseRoot_llm {root node : Json} {wire : LlmWire}
    (hnode : root.find "llm"=some node) (hread : LlmWire.read node=some wire) :
    (parseRoot root).llm=wire.fromWire {} := by
  dsimp only [parseRoot]
  rw [readSection_eq hnode hread]
  rfl

/-- Language models that are read are stored by themselves. -/
theorem reform_llm {root node : Json} {wire : LlmWire}
    (hnode : root.find "llm"=some node) (hread : LlmWire.read node=some wire) :
    (reform root).find "llm"=some (llmStored wire) := by
  unfold reform
  rw [find_configTree]
  show some (Llm.toWire (normalLlm (parseRoot root).llm)).write=_
  rw [parseRoot_llm hnode hread]
  rfl

/-- Scenes that are read are what the parser makes of them. -/
theorem parseRoot_scenes {root node : Json} {wire : ScenesWire}
    (hnode : root.find "scenes"=some node) (hread : ScenesWire.read node=some wire) :
    (parseRoot root).scenes=wire.fromWire {} := by
  dsimp only [parseRoot]
  rw [readSection_eq hnode hread]
  rfl

/-- Scenes that are read are stored by themselves. -/
theorem reform_scenes {root node : Json} {wire : ScenesWire}
    (hnode : root.find "scenes"=some node) (hread : ScenesWire.read node=some wire) :
    (reform root).find "scenes"=some (scenesStored wire) := by
  unfold reform
  rw [find_configTree]
  show some (Scenes.toWire (normalScenes (parseRoot root).scenes)).write=_
  rw [parseRoot_scenes hnode hread]
  rfl

/-- Triggers that are read are what the parser makes of them. -/
theorem parseRoot_triggers {root node : Json} {wires : List LlmAdapterWire}
    (hnode : root.find "triggers"=some node) (hread : readArray LlmAdapterWire.read node=some wires) :
    (parseRoot root).triggers=wires.map fun entry => entry.fromWire {} := by
  dsimp only [parseRoot]
  rw [readSection_eq hnode hread]
  rfl

/-- Receivers that are read are what the parser makes of them. -/
theorem parseRoot_receivers {root node : Json} {wires : List LlmAdapterWire}
    (hnode : root.find "receivers"=some node)
    (hread : readArray LlmAdapterWire.read node=some wires) :
    (parseRoot root).receivers=wires.map fun entry => entry.fromWire {} := by
  dsimp only [parseRoot]
  rw [readSection_eq hnode hread]
  rfl

/-- Clients are written as an array, and left out when there are none. -/
theorem clients_written (kept : List ClientSpec) :
    (given (kept≠[]) (kept.map LlmAdapter.toWire)).map (writeArray LlmAdapterWire.write)=
      clientsStored kept := by
  unfold clientsStored given
  split
  · dsimp only [Option.map_some,writeArray]
    rw [List.map_map]
    rfl
  · rfl

/-- Triggers are stored as they are kept. -/
theorem reform_triggers (root : Json) :
    (reform root).find "triggers"=clientsStored (triggersKept root).2 := by
  unfold reform
  rw [find_configTree]
  exact clients_written (triggersKept root).2

theorem reform_receivers (root : Json) :
    (reform root).find "receivers"=clientsStored (receiversKept root) := by
  unfold reform
  rw [find_configTree]
  exact clients_written (receiversKept root)

section Alike

variable {left right : Json}

/-- The wire form of what is stored. -/
def storedWire (root : Json) : CoreConfigWire :=
  CoreConfig.toWire (normalizeCoreConfig (parseRoot root))

/-- Registries that are read alike are stored alike. -/
theorem registry_alike (h : readSection RegistryWire.read left "registry"=
    readSection RegistryWire.read right "registry") :
    (storedWire left).registry=(storedWire right).registry := by
  have hregistry : (parseRoot left).registry=(parseRoot right).registry := by
    dsimp only [parseRoot]
    rw [h]
  exact congrArg (fun registry : Registry => some (Registry.toWire
    ⟨(keepFirst baseUrlTreatment [] registry.baseUrls).2⟩)) hregistry

theorem global_alike (h : readSection GlobalWire.read left "global"=
    readSection GlobalWire.read right "global") :
    (storedWire left).global=(storedWire right).global := by
  have hglobal : (parseRoot left).global=(parseRoot right).global := by
    dsimp only [parseRoot]
    rw [h]
  exact congrArg (fun global : Global => some (Global.toWire
    {global with duckOutputVolume := clamp global.duckOutputVolume 0.0 1.0})) hglobal

theorem asr_alike (h : readSection AsrWire.read left "asr"=readSection AsrWire.read right "asr") :
    (storedWire left).asr=(storedWire right).asr := by
  have hasr : (parseRoot left).asr=(parseRoot right).asr := by
    dsimp only [parseRoot]
    rw [h]
  exact congrArg (fun asr => some (Asr.toWire (normalAsr asr))) hasr

theorem llm_alike (h : readSection LlmWire.read left "llm"=readSection LlmWire.read right "llm") :
    (storedWire left).llm=(storedWire right).llm := by
  have hllm : (parseRoot left).llm=(parseRoot right).llm := by
    dsimp only [parseRoot]
    rw [h]
  exact congrArg (fun llm => some (Llm.toWire (normalLlm llm))) hllm

theorem scenes_alike (h : readSection ScenesWire.read left "scenes"=
    readSection ScenesWire.read right "scenes") :
    (storedWire left).scenes=(storedWire right).scenes := by
  have hscenes : (parseRoot left).scenes=(parseRoot right).scenes := by
    dsimp only [parseRoot]
    rw [h]
  exact congrArg (fun scenes => some (Scenes.toWire (normalScenes scenes))) hscenes

theorem triggers_alike (h : readSection (readArray LlmAdapterWire.read) left "triggers"=
    readSection (readArray LlmAdapterWire.read) right "triggers") :
    (storedWire left).triggers=(storedWire right).triggers := by
  have htriggers : (triggersKept left).2=(triggersKept right).2 := by
    unfold triggersKept
    dsimp only [parseRoot]
    rw [h]
  exact congrArg (fun kept : List ClientSpec => given (kept≠[]) (kept.map LlmAdapter.toWire))
    htriggers

/-- A member that is the same is stored the same; receivers are when they
are kept the same. -/
theorem reform_congr {step : Step} (h : child left step=child right step)
    (hreceivers : step=.key "receivers" → receiversKept left=receiversKept right) :
    child (reform left) step=child (reform right) step := by
  refine child_ofMembers_congr fun key hstep => ?_
  rw [hstep,child_key,child_key] at h
  have hsection : ∀ {α : Type} (read : Json → Option α) (name : String), key=name →
      readSection read left name=readSection read right name := by
    intro α read name hname
    unfold readSection
    rw [← hname,h]
  refine .cons ⟨rfl,fun hname => ?_⟩ (.cons ⟨rfl,fun hname => ?_⟩ (.cons ⟨rfl,fun hname => ?_⟩
    (.cons ⟨rfl,fun hname => ?_⟩ (.cons ⟨rfl,fun hname => ?_⟩ (.cons ⟨rfl,fun hname => ?_⟩
    (.cons ⟨rfl,fun hname => ?_⟩ (.cons ⟨rfl,fun hname => ?_⟩ .nil)))))))
  · have hversion : (parseRoot left).version=(parseRoot right).version := by
      dsimp only at hname
      dsimp only [parseRoot]
      rw [← hname,h]
    exact congrArg (fun version => some (Json.text version)) hversion
  · exact congrArg (Option.map RegistryWire.write) (registry_alike (hsection _ _ hname))
  · exact congrArg (Option.map GlobalWire.write) (global_alike (hsection _ _ hname))
  · exact congrArg (Option.map AsrWire.write) (asr_alike (hsection _ _ hname))
  · exact congrArg (Option.map LlmWire.write) (llm_alike (hsection _ _ hname))
  · exact congrArg (Option.map ScenesWire.write) (scenes_alike (hsection _ _ hname))
  · exact congrArg (Option.map (writeArray LlmAdapterWire.write))
      (triggers_alike (hsection _ _ hname))
  · have hwritten := congrArg clientsStored (hreceivers (hstep.trans (congrArg Step.key hname)))
    rw [← clients_written,← clients_written] at hwritten
    exact hwritten

end Alike

end Stored

section Conditions

/-- Whether each section of a tree can be read. -/
def sectionReads (root : Json) : List (String×Bool) :=
  [("registry",(readSection RegistryWire.read root "registry").isSome),
    ("global",(readSection GlobalWire.read root "global").isSome),
    ("asr",(readSection AsrWire.read root "asr").isSome),
    ("llm",(readSection LlmWire.read root "llm").isSome),
    ("scenes",(readSection ScenesWire.read root "scenes").isSome),
    ("triggers",(readSection (readArray LlmAdapterWire.read) root "triggers").isSome),
    ("receivers",(readSection (readArray LlmAdapterWire.read) root "receivers").isSome)]

/-- Every list of a configuration can be kept as it is. -/
structure Orderly (config : CoreConfig) : Prop where
  baseUrls : Acceptable baseUrlTreatment [] config.registry.baseUrls
  llm : OrderlyLlm config.llm
  asrProviders : Acceptable asrProviderTreatment [] config.asr.providers
  scenes : OrderlyScenes config.scenes.definitions
  triggers : Acceptable adapterTreatment [] config.triggers
  receivers : Acceptable adapterTreatment (config.triggers.map LlmAdapter.id) config.receivers

/-- Lists whose entries have arguments. -/
def argumentLists : List Location :=
  [[.key "asr",.key "providers"],[.key "llm",.key "adapters"],[.key "triggers"],[.key "receivers"]]

/-- Lists whose entries are kept under names of their own. -/
def entryLists : List Location :=
  [[.key "registry",.key "base_urls"],[.key "asr",.key "providers"],[.key "llm",.key "providers"],
    [.key "llm",.key "adapters"],[.key "scenes",.key "definitions"],[.key "triggers"],
    [.key "receivers"]]

/-- The last entry of a list is replaced as a whole, and no builtin scene by that. It may
be dropped; nothing comes behind it. -/
def LastEntry (before : Json) (place : Location) (value : Json) : Prop :=
  ∃ list∈entryLists, ∃ position, place=list++[.index position] ∧
    nodeAt (list++[.index (position+1)]) before=none ∧
    (list=[.key "scenes",.key "definitions"] → ∀ id, isBuiltinSceneId id=true →
      id∈sceneIds (parseRoot (replace place value before)).scenes.definitions)

/-- A value that takes nothing else with it when it is put into a tree. -/
structure Fits (before : Json) (place : Location) (value : Json) : Prop where
  /-- The section around the place can still be read. -/
  reads : ∀ name next later, place=.key name::next::later →
    (name,false)∉sectionReads (replace place value before)
  /-- A list that is edited inside keeps all its entries, or is only edited at its end. -/
  orderly : (∃ position, .index position∈place) →
    Orderly (parseRoot (replace place value before)) ∨ LastEntry before place value
  /-- A provider does not change its kind. -/
  kinds : ∀ position, place=[.key "asr",.key "providers",.index position,.key "type"] →
    nodeAt place before=some value
  /-- An argument is a string, unless it is the last one. -/
  arguments : ∀ list∈argumentLists, ∀ position inner,
    place=list++[.index position,.key "args",.index inner] → (∃ text, value=.text text) ∨
      nodeAt (list++[.index position,.key "args",.index (inner+1)]) before=none
  /-- An address is a string that is not empty, unless it is the last one. -/
  addresses : ∀ position, place=[.key "registry",.key "base_urls",.index position] →
    (∃ url, url≠"" ∧ value=.text url) ∨
      nodeAt [.key "registry",.key "base_urls",.index (position+1)] before=none
  /-- No trigger takes the identity of a receiver. -/
  clients : ∀ rest, place=.key "triggers"::rest →
    ∀ receiver∈(parseRoot (replace place value before)).receivers,
      receiver.id∉(parseRoot (replace place value before)).triggers.map LlmAdapter.id

/-- A tree is read back from its text as it is, and everything in it can be written with
line breaks and read again. -/
def ReadBack (reread : Json → Text) (root : Json) : Prop :=
  reread root=.tree root ∧ root.isClean=true

/-- A reference with the list of the entries it can name. -/
def references : List (Location×Location) :=
  [([.key "asr",.key "active_provider"],[.key "asr",.key "providers"]),
    ([.key "scenes",.key "active_scene"],[.key "scenes",.key "definitions"])]

/-- A reference into the list that is edited. -/
def IsReference (place other : Location) : Prop :=
  ∃ list, (other,list)∈references ∧ list <+: place

/-- Trees that differ at a place only, except that a reference into the list
that is edited is cleared when no entry has the identity it names. -/
structure FrameKept (place : Location) (before after : Json) : Prop where
  others : ∀ other, Apart other place → ¬IsReference place other →
    nodeAt other after=nodeAt other before
  cleared : ∀ reference list, (reference,list)∈references → list <+: place →
    nodeAt reference after=nodeAt reference before ∨
      (nodeAt reference after=some (.text "") ∧
        ∀ position, nodeAt (list++[.index position,.key "id"]) after≠nodeAt reference before)

end Conditions

section Edits

theorem adapter_prepare {adapter prepared : LlmAdapter}
    (h : adapterTreatment.prepare adapter=some prepared) : prepared=adapter :=
  (named_eq_some.mp h).2

/-- Identities are only taken by triggers. -/
theorem mem_triggersKept {root : Json} {id : String} (h : id∈(triggersKept root).1) :
    id∈(parseRoot root).triggers.map LlmAdapter.id := by
  rcases mem_keepFirst_seen h with hnone | htaken
  · cases hnone
  · obtain ⟨prepared,hprepared,hid⟩ := List.mem_map.mp htaken
    obtain ⟨trigger,htrigger,hsame⟩ := List.mem_filterMap.mp hprepared
    rw [← hid,adapter_prepare hsame]
    exact List.mem_map_of_mem htrigger

/-- Receivers that no trigger crowds out can be kept as they are. -/
theorem acceptable_receivers {root : Json}
    (h : Acceptable adapterTreatment ((parseRoot root).triggers.map LlmAdapter.id)
      (parseRoot root).receivers) :
    Acceptable adapterTreatment (triggersKept root).1 (parseRoot root).receivers :=
  ⟨h.accepted,h.unique,fun prepared hprepared hmem =>
    h.fresh prepared hprepared (mem_triggersKept hmem)⟩

variable {config : CoreConfig}

/-- The lists of a stored configuration can be kept as they are. -/
theorem orderly_configTree (normal : Normal config) (writable : Writable config) :
    Orderly (parseRoot (configTree config)) := by
  have hparsed : parseRoot (configTree config)=written config := by
    have hread := written_recovered normal writable
    have hobject : coreConfigFromJson (coreConfigToJson config)=
        .ok (parseRoot (configTree config)) := rfl
    exact Except.ok.inj (hobject.symm.trans hread)
  rw [hparsed]
  refine ⟨normal.baseUrls.acceptable,⟨normal.llmProviders.acceptable,normal.adapters.acceptable⟩,
    normal.asrProviders.acceptable,⟨?_,?_⟩,normal.triggers.acceptable,
    normal.receivers.acceptable⟩
  · have hlabels := (normal_withoutBuiltinLabels normal).scenes.acceptable
    refine hlabels.map_congr fun scene hscene => ?_
    exact (prepareScene_writtenScene (writable.flags scene hscene)).symm
  · have hids : sceneIds (config.scenes.definitions.map writtenScene)=
        sceneIds config.scenes.definitions := by
      unfold sceneIds
      rw [List.map_map]
      rfl
    intro id hid
    dsimp only [written,writtenScenes]
    rw [hids]
    rcases isBuiltinSceneId_eq_true.mp hid with rfl | rfl
    · exact normal.rawScene
    · exact normal.commandScene

/-- The section around a value that fits is read. -/
theorem read_of_fits {α : Type} (read : Json → Option α) {root node value : Json} {name : String}
    {next : Step} {later : Location} (fits : Fits root (.key name::next::later) value)
    (hmem : (name,(readSection read (replace (.key name::next::later) value root) name).isSome)∈
      sectionReads (replace (.key name::next::later) value root))
    (hnode : root.find name=some node) :
    (replace (.key name::next::later) value root).find name=
        some (replace (next::later) value node) ∧
      ∃ wire, read (replace (next::later) value node)=some wire := by
  have hself := child_replace_self (.key name) (next::later) value root
  rw [child_key,child_key,hnode,Option.map_some] at hself
  refine ⟨hself,?_⟩
  have hread : readSection read (replace (.key name::next::later) value root) name=
      read (replace (next::later) value node) := by
    unfold readSection
    rw [hself]
    rfl
  rw [← hread]
  refine Option.isSome_iff_exists.mp (Bool.eq_true_of_not_eq_false fun hskipped => ?_)
  rw [hskipped] at hmem
  exact fits.reads name next later rfl hmem

/-- The end of a list is seen from the list. -/
theorem LastEntry.isLast {before node value : Json} {list rest : Location}
    (h : LastEntry before (list++rest) value) (hlist : list∈entryLists)
    (hrest : ∃ position, .index position∈rest)
    (hnode : ∀ position, nodeAt (list++[.index position]) before=child node (.index position)) :
    IsLast rest node ∧ (list=[.key "scenes",.key "definitions"] → ∀ id, isBuiltinSceneId id=true →
      id∈sceneIds (parseRoot (replace (list++rest) value before)).scenes.definitions) := by
  obtain ⟨other,hother,position,hplace,hnone,hbuiltin⟩ := h
  rcases rest.eq_nil_or_concat' with rfl | ⟨front,last,rfl⟩
  · obtain ⟨_,hmem⟩ := hrest
    cases hmem
  · rw [← List.append_assoc] at hplace
    obtain ⟨hlists,hlast⟩ := List.append_inj' hplace rfl
    have hapart : ∀ list∈entryLists, ∀ other∈entryLists, list<+:other → list=other := by decide
    have hsame := hapart list hlist other hother ⟨front,hlists⟩
    subst hsame
    have hfront : front=[] := List.append_right_eq_self.mp hlists
    subst hfront
    refine ⟨⟨position,hlast,?_⟩,hbuiltin⟩
    rw [← hnode]
    exact hnone

/-- The addresses of a stored configuration, if there are any. -/
theorem urls_element (config : CoreConfig) (position : ℕ) :
    nodeAt ([.key "registry",.key "base_urls"]++[.index position]) (configTree config)=
      child (fromStrings config.registry.baseUrls) (.index position) := by
  have hnode : child (configTree config) (.key "registry")=
      some (Registry.toWire config.registry).write := find_configTree config "registry"
  have hurls : child (Registry.toWire config.registry).write (.key "base_urls")=
      stringsTree config.registry.baseUrls := by
    rw [child_key]
    exact find_ofMembers (by simp [RegistryWire.members]) "base_urls"
  show nodeAt [.key "registry",.key "base_urls",.index position] _=_
  rw [nodeAt_cons hnode]
  show (child _ _).bind (nodeAt [.index position])=_
  rw [hurls,← Option.bind_some (fromStrings _) (child · (.index position)),← stringsTree_child]
  refine Option.bind_congr fun inner _ => nodeAt_single _ _

/-- Where a stored configuration has its services and adapters. -/
theorem llm_node (config : CoreConfig) :
    nodeAt [.key "llm",.key "providers"] (configTree config)=
        some (.array (config.llm.providers.map providerTree)) ∧
      nodeAt [.key "llm",.key "adapters"] (configTree config)=
        some (.array (config.llm.adapters.map adapterTree)) := by
  have hnode : child (configTree config) (.key "llm")=some (Llm.toWire config.llm).write :=
    find_configTree config "llm"
  rw [nodeAt_cons hnode,nodeAt_cons hnode,nodeAt_single,nodeAt_single]
  exact llm_lists config.llm

/-- Where it has its speech recognition providers. -/
theorem asr_node (config : CoreConfig) :
    nodeAt [.key "asr",.key "providers"] (configTree config)=
      some (.array (config.asr.providers.map asrProviderTree)) := by
  have hnode : child (configTree config) (.key "asr")=some (Asr.toWire config.asr).write :=
    find_configTree config "asr"
  rw [nodeAt_cons hnode,nodeAt_single]
  exact (asr_children config.asr).2.2

theorem scenes_node (config : CoreConfig) :
    nodeAt [.key "scenes",.key "definitions"] (configTree config)=
      some (.array (config.scenes.definitions.map sceneTree)) := by
  have hnode : child (configTree config) (.key "scenes")=
      some (Scenes.toWire config.scenes).write := find_configTree config "scenes"
  rw [nodeAt_cons hnode,nodeAt_single]
  exact (scenes_children config.scenes).2

/-- What is put into the arguments of an entry is seen from the list of the entries. -/
theorem texts_of_fits {before value : Json} {list rest : Location} {elements : List Json}
    (fits : Fits before (list++rest) value) (hlist : list∈argumentLists)
    (hnode : nodeAt list before=some (.array elements)) :
    TextInEntryArgs rest value (.array elements) := by
  intro position inner hrest
  refine (fits.arguments list hlist position inner (congrArg _ hrest)).imp_right fun hnone => ?_
  rw [nodeAt_below hnode] at hnone
  exact hnone

variable {skip : Location → Prop} {value : Json} {next : Step} {later : Location}

/-- An edit below the registry changes nothing else in it. -/
theorem registry_below (normal : Normal config)
    (fits : Fits (configTree config) (.key "registry"::next::later) value) :
    AgreeApart skip (next::later) ((reform (configTree config)).find "registry")
      ((reform (replace (.key "registry"::next::later) value (configTree config))).find
        "registry") := by
  have hnode : (configTree config).find "registry"=some (Registry.toWire config.registry).write :=
    find_configTree config "registry"
  have hurls : ∀ url∈config.registry.baseUrls, url≠"" := fun url hurl =>
    (named_eq_some.mp (normal.baseUrls.accepted url hurl).1).1
  obtain ⟨left,hleft,_⟩ := Option.map_eq_some_iff.mp (registry_recovered hurls)
  obtain ⟨hnode',right,hright⟩ :=
    read_of_fits RegistryWire.read fits (by simp [sectionReads]) hnode
  rw [reform_registry hnode hleft,reform_registry hnode' hright]
  refine registryStored_frame hleft hright normal.baseUrls ?_ ?_
  · rintro rest hplace ⟨position,hmem⟩
    rw [← parseRoot_registry hnode' hright]
    rw [hplace] at fits ⊢
    rcases fits.orderly ⟨position,by simp [hmem]⟩ with horderly | hlast
    · exact .inl horderly.baseUrls
    · exact .inr (LastEntry.isLast hlast (by simp [entryLists]) ⟨position,hmem⟩
        (urls_element config)).1
  · intro position hplace
    refine (fits.addresses position (congrArg _ hplace)).imp_right fun hnone => ?_
    rw [← child_key] at hnode
    rw [nodeAt_cons hnode] at hnone
    exact hnone

/-- An edit below the capture settings changes nothing else in them. -/
theorem global_below (normal : Normal config)
    (fits : Fits (configTree config) (.key "global"::next::later) value) :
    AgreeApart skip (next::later) ((reform (configTree config)).find "global")
      ((reform (replace (.key "global"::next::later) value (configTree config))).find
        "global") := by
  have hnode : (configTree config).find "global"=some (Global.toWire config.global).write :=
    find_configTree config "global"
  obtain ⟨hnode',right,hright⟩ :=
    read_of_fits GlobalWire.read fits (by simp [sectionReads]) hnode
  have hleft := @globalWire_read_write (Global.toWire config.global) normal.volume_finite
  rw [reform_global hnode hleft,reform_global hnode' hright]
  exact globalStored_frame hleft hright

/-- An edit below the language models changes nothing else in them. -/
theorem llm_below (normal : Normal config) (writable : Writable config)
    (fits : Fits (configTree config) (.key "llm"::next::later) value) :
    AgreeApart skip (next::later) ((reform (configTree config)).find "llm")
      ((reform (replace (.key "llm"::next::later) value (configTree config))).find "llm") := by
  have hnode : (configTree config).find "llm"=some (Llm.toWire config.llm).write :=
    find_configTree config "llm"
  obtain ⟨left,hleft,_⟩ := Option.map_eq_some_iff.mp (llm_recovered writable.bodies)
  obtain ⟨hnode',right,hright⟩ := read_of_fits LlmWire.read fits (by simp [sectionReads]) hnode
  rw [reform_llm hnode hleft,reform_llm hnode' hright]
  refine llmStored_frame hleft hright ?_ ?_ ?_ ?_
  · rw [← parseRoot_llm hnode hleft]
    exact (orderly_configTree normal writable).llm
  · rintro rest hplace ⟨position,hmem⟩
    rw [← parseRoot_llm hnode' hright]
    rw [hplace] at fits ⊢
    rcases fits.orderly ⟨position,by simp [hmem]⟩ with horderly | hlast
    · exact .inl horderly.llm.providers
    · exact .inr (LastEntry.isLast hlast (by simp [entryLists]) ⟨position,hmem⟩
        (nodeAt_element (llm_node config).1)).1
  · rintro rest hplace ⟨position,hmem⟩
    rw [← parseRoot_llm hnode' hright]
    rw [hplace] at fits ⊢
    rcases fits.orderly ⟨position,by simp [hmem]⟩ with horderly | hlast
    · exact .inl horderly.llm.adapters
    · exact .inr (LastEntry.isLast hlast (by simp [entryLists]) ⟨position,hmem⟩
        (nodeAt_element (llm_node config).2)).1
  · intro rest hplace
    rw [hplace] at fits
    exact texts_of_fits fits (by simp [argumentLists]) (llm_node config).2

/-- An edit below speech recognition changes nothing else in it but the reference. -/
theorem asr_below (normal : Normal config) (writable : Writable config)
    (fits : Fits (configTree config) (.key "asr"::next::later) value)
    (hskip : ∀ rest, next::later=.key "providers"::rest → skip [.key "active_provider"]) :
    AgreeApart skip (next::later) ((reform (configTree config)).find "asr")
      ((reform (replace (.key "asr"::next::later) value (configTree config))).find "asr") := by
  have hnode : (configTree config).find "asr"=some (Asr.toWire config.asr).write :=
    find_configTree config "asr"
  obtain ⟨left,hleft,_⟩ := Option.map_eq_some_iff.mp
    (asr_recovered normal.gain_finite normal.vad writable.timeouts)
  obtain ⟨hnode',right,hright⟩ := read_of_fits AsrWire.read fits (by simp [sectionReads]) hnode
  rw [reform_asr hnode hleft,reform_asr hnode' hright]
  refine asrStored_frame hleft hright ?_ ?_ ?_ ?_ hskip
  · rw [← parseRoot_asr hnode hleft]
    exact (orderly_configTree normal writable).asrProviders
  · rintro rest hplace ⟨position,hmem⟩
    rw [← parseRoot_asr hnode' hright]
    rw [hplace] at fits ⊢
    rcases fits.orderly ⟨position,by simp [hmem]⟩ with horderly | hlast
    · exact .inl horderly.asrProviders
    · exact .inr (LastEntry.isLast hlast (by simp [entryLists]) ⟨position,hmem⟩
        (nodeAt_element (asr_node config))).1
  · intro rest hplace
    rw [hplace] at fits
    exact texts_of_fits fits (by simp [argumentLists]) (asr_node config)
  · intro rest hplace position hrest
    have hkind := fits.kinds position (by rw [hplace,hrest])
    rw [hplace] at hkind
    unfold nodeAt at hkind
    rw [child_key,hnode,Option.bind_some] at hkind
    unfold nodeAt at hkind
    rw [(asr_children config.asr).2.2,Option.bind_some] at hkind
    exact hkind

/-- An edit below the scenes changes nothing else in them but the reference. -/
theorem scenes_below (normal : Normal config) (writable : Writable config)
    (fits : Fits (configTree config) (.key "scenes"::next::later) value)
    (hskip : ∀ rest, next::later=.key "definitions"::rest → skip [.key "active_scene"]) :
    AgreeApart skip (next::later) ((reform (configTree config)).find "scenes")
      ((reform (replace (.key "scenes"::next::later) value (configTree config))).find
        "scenes") := by
  have hnode : (configTree config).find "scenes"=some (Scenes.toWire config.scenes).write :=
    find_configTree config "scenes"
  have hlabels : ∀ scene∈config.scenes.definitions, isBuiltinSceneId scene.id=false →
      isBuiltinSceneLabelKey scene.label=false := fun scene hscene hid =>
    writable.labels scene hscene ((writable.flags scene hscene).trans hid)
  obtain ⟨left,hleft,_⟩ := Option.map_eq_some_iff.mp (scenes_recovered hlabels)
  obtain ⟨hnode',right,hright⟩ :=
    read_of_fits ScenesWire.read fits (by simp [sectionReads]) hnode
  rw [reform_scenes hnode hleft,reform_scenes hnode' hright]
  refine scenesStored_frame hleft hright ?_ ?_ hskip
  · rw [← parseRoot_scenes hnode hleft]
    exact (orderly_configTree normal writable).scenes
  · rintro rest hplace ⟨position,hmem⟩
    rw [← parseRoot_scenes hnode' hright]
    rw [hplace] at fits ⊢
    rcases fits.orderly ⟨position,by simp [hmem]⟩ with horderly | hlast
    · exact .inl horderly.scenes
    · obtain ⟨hend,hbuiltin⟩ := LastEntry.isLast hlast (by simp [entryLists]) ⟨position,hmem⟩
        (nodeAt_element (scenes_node config))
      exact .inr ⟨hend,hbuiltin rfl⟩

/-- Triggers are kept the same by an edit of something else. -/
theorem triggersKept_eq {step : Step} {rest : Location} (hstep : step≠.key "triggers") :
    triggersKept (replace (step::rest) value (configTree config))=
      triggersKept (configTree config) := by
  have hsame := child_replace_of_ne (Ne.symm hstep) rest value (configTree config)
  rw [child_key,child_key] at hsame
  unfold triggersKept
  dsimp only [parseRoot,readSection]
  rw [hsame]

/-- Clients are left out when there are none, and have no children then anyway. -/
theorem clientsStored_child (kept : List ClientSpec) (step : Step) :
    (clientsStored kept).bind (child · step)=
      (some (Json.array (kept.map adapterTree))).bind (child · step) := by
  unfold clientsStored given
  split
  · rfl
  · rename_i hempty
    rw [not_not.mp hempty]
    cases step <;> rfl

/-- An edit below one client. -/
theorem clients_frame {clients : List ClientSpec} {before after : List LlmAdapterWire}
    {seen : List String} {position : ℕ}
    (hbefore : readArray LlmAdapterWire.read (.array (clients.map adapterTree))=some before)
    (hafter : readArray LlmAdapterWire.read
      (replace (.index position::later) value (.array (clients.map adapterTree)))=some after)
    (acceptable : Acceptable adapterTreatment seen (before.map fun wire => wire.fromWire {}))
    (acceptable' : Acceptable adapterTreatment seen (after.map fun wire => wire.fromWire {}) ∨
      IsLast (.index position::later) (.array (clients.map adapterTree)))
    (htext : TextInEntryArgs (.index position::later) value (.array (clients.map adapterTree))) :
    AgreeApart skip (.index position::later)
      (clientsStored (keepFirst adapterTreatment seen (before.map fun wire => wire.fromWire {})).2)
      (clientsStored
        (keepFirst adapterTreatment seen (after.map fun wire => wire.fromWire {})).2) := by
  refine agreeApart_children (clientsStored_child _) (clientsStored_child _) ?_
  exact adapters_frame hbefore hafter acceptable (fun _ => acceptable') htext

/-- Clients of a stored configuration are there as an array of trees. -/
theorem clients_stored {clients : List ClientSpec} {node : Json}
    (h : clientsStored clients=some node) : node=.array (clients.map adapterTree) ∧
      readArray LlmAdapterWire.read node=some (clients.map LlmAdapter.toWire) := by
  unfold clientsStored given at h
  split at h
  · have hnode := (Option.some.inj h).symm
    refine ⟨hnode,?_⟩
    have hread : readArray LlmAdapterWire.read (.array ((clients.map LlmAdapter.toWire).map
        LlmAdapterWire.write))=some (clients.map LlmAdapter.toWire) :=
      readArray_toWire llmAdapter_read_write
    rw [List.map_map] at hread
    rw [hnode]
    exact hread
  · cases h

/-- An edit below the triggers changes nothing else in them. -/
theorem triggers_below (normal : Normal config) (writable : Writable config) {node : Json}
    (hnode : (configTree config).find "triggers"=some node)
    (fits : Fits (configTree config) (.key "triggers"::next::later) value) :
    AgreeApart skip (next::later) ((reform (configTree config)).find "triggers")
      ((reform (replace (.key "triggers"::next::later) value (configTree config))).find
        "triggers") := by
  obtain ⟨harray,hleft⟩ := clients_stored
    ((clients_written _).symm.trans ((find_configTree config "triggers").symm.trans hnode))
  obtain ⟨hnode',right,hright⟩ :=
    read_of_fits (readArray LlmAdapterWire.read) fits (by simp [sectionReads]) hnode
  cases next with
  | key name =>
    have hsame : child (configTree config) (.key "triggers")=
        child (replace (.key "triggers"::.key name::later) value (configTree config))
          (.key "triggers") := by
      rw [child_key,child_key,hnode,hnode',harray]
      rfl
    have hstored := reform_congr hsame fun hstep => absurd hstep (by decide)
    rw [child_key,child_key] at hstored
    exact (agree_of_eq hstored).apart
  | index position =>
    rw [reform_triggers,reform_triggers]
    unfold triggersKept
    have hbefore := (orderly_configTree normal writable).triggers
    have hlist : nodeAt [.key "triggers"] (configTree config)=
        some (.array (config.triggers.map adapterTree)) := by
      rw [nodeAt_single,child_key,hnode,harray]
    have hafter := (fits.orderly ⟨position,List.mem_cons_of_mem _ List.mem_cons_self⟩).imp
      Orderly.triggers fun hlast => (LastEntry.isLast hlast (by simp [entryLists])
        ⟨position,List.mem_cons_self⟩ (nodeAt_element hlist)).1
    rw [parseRoot_triggers hnode hleft] at hbefore ⊢
    rw [parseRoot_triggers hnode' hright] at hafter ⊢
    rw [harray] at hleft hright
    exact clients_frame hleft hright hbefore hafter
      (texts_of_fits fits (by simp [argumentLists]) hlist)

/-- Receivers are kept the same unless a trigger takes one of their
identities. -/
theorem receiversKept_eq (normal : Normal config) (writable : Writable config) {step : Step}
    {rest : Location}
    (hreceivers : (configTree config).find "receivers"=
      (replace (step::rest) value (configTree config)).find "receivers")
    (fits : Fits (configTree config) (step::rest) value) :
    receiversKept (configTree config)=
      receiversKept (replace (step::rest) value (configTree config)) := by
  have hparsed : (parseRoot (configTree config)).receivers=
      (parseRoot (replace (step::rest) value (configTree config))).receivers := by
    dsimp only [parseRoot,readSection]
    rw [hreceivers]
  unfold receiversKept
  rw [← hparsed]
  by_cases hstep : step=.key "triggers"
  · have hbefore := acceptable_receivers (orderly_configTree normal writable).receivers
    refine keepFirst_acceptable_congr hbefore ⟨hbefore.accepted,hbefore.unique,?_⟩
    intro prepared hprepared hmem
    obtain ⟨receiver,hreceiver,hsame⟩ := List.mem_filterMap.mp hprepared
    rw [adapter_prepare hsame] at hmem
    rw [hparsed] at hreceiver
    exact fits.clients rest (congrArg (·::rest) hstep) receiver hreceiver (mem_triggersKept hmem)
  · rw [triggersKept_eq hstep]

/-- An edit below the receivers changes nothing else in them. -/
theorem receivers_below (normal : Normal config) (writable : Writable config) {node : Json}
    (hnode : (configTree config).find "receivers"=some node)
    (fits : Fits (configTree config) (.key "receivers"::next::later) value) :
    AgreeApart skip (next::later) ((reform (configTree config)).find "receivers")
      ((reform (replace (.key "receivers"::next::later) value (configTree config))).find
        "receivers") := by
  obtain ⟨harray,hleft⟩ := clients_stored
    ((clients_written _).symm.trans ((find_configTree config "receivers").symm.trans hnode))
  obtain ⟨hnode',right,hright⟩ :=
    read_of_fits (readArray LlmAdapterWire.read) fits (by simp [sectionReads]) hnode
  rw [reform_receivers,reform_receivers]
  cases next with
  | key name =>
    refine (agree_of_eq (congrArg clientsStored (receiversKept_eq normal writable ?_ fits))).apart
    rw [hnode,hnode',harray]
    rfl
  | index position =>
    have hbefore := acceptable_receivers (orderly_configTree normal writable).receivers
    have hlist : nodeAt [.key "receivers"] (configTree config)=
        some (.array (config.receivers.map adapterTree)) := by
      rw [nodeAt_single,child_key,hnode,harray]
    have hafter := (fits.orderly ⟨position,List.mem_cons_of_mem _ List.mem_cons_self⟩).imp
      (fun horderly => acceptable_receivers horderly.receivers)
      fun hlast => (LastEntry.isLast hlast (by simp [entryLists]) ⟨position,List.mem_cons_self⟩
        (nodeAt_element hlist)).1
    unfold receiversKept
    rw [triggersKept_eq (by decide)] at hafter ⊢
    rw [parseRoot_receivers hnode hleft] at hbefore ⊢
    rw [parseRoot_receivers hnode' hright] at hafter ⊢
    rw [harray] at hleft hright
    exact clients_frame hleft hright hbefore hafter
      (texts_of_fits fits (by simp [argumentLists]) hlist)

/-- Only sections and clients of a stored configuration are containers. -/
theorem section_of_container {step : Step} {inner : Json}
    (hinner : child (configTree config) step=some inner) (hcontainer : isLeaf inner=false) :
    ∃ name∈["registry","global","asr","llm","scenes","triggers","receivers"],
      step=.key name := by
  have hleaves : ∀ entry∈(CoreConfig.toWire config).members,
      entry.1∉["registry","global","asr","llm","scenes","triggers","receivers"] →
      ∀ value, entry.2=some value → isLeaf value=true := by
    intro entry hentry hname value hvalue
    rcases List.mem_cons.mp hentry with rfl | hentry
    · exact leaf_of_some rfl hvalue
    · refine absurd ?_ hname
      have hkeys := List.mem_map_of_mem (f := Prod.fst) hentry
      exact hkeys
  exact step_of_container hleaves hinner hcontainer

/-- An edit that fits is seen at its place only. -/
theorem reform_frame (normal : Normal config) (writable : Writable config) {place : Location}
    (fits : Fits (configTree config) place value) :
    AgreeApart (IsReference place) place (some (configTree config))
      (some (reform (replace place value (configTree config)))) := by
  cases place with
  | nil => exact agreeApart_root _ _
  | cons step rest =>
    have hstored := reform_configTree normal
    nth_rewrite 1 [← hstored]
    refine agreeApart_record (configTree config) value (fun other h => ?_) ?_
    · refine agree_of_eq (reform_congr h.symm fun hother => ?_)
      rw [hother,child_key,child_key] at h
      exact receiversKept_eq normal writable h.symm fits
    · intro hrest inner hinner hcontainer
      obtain ⟨next,later,rfl⟩ := List.exists_cons_of_ne_nil hrest
      obtain ⟨name,hname,rfl⟩ := section_of_container hinner hcontainer
      rw [child_key] at hinner
      rw [child_key,child_key]
      simp only [List.mem_cons,List.not_mem_nil,or_false] at hname
      rcases hname with rfl | rfl | rfl | rfl | rfl | rfl | rfl
      · exact registry_below normal fits
      · exact global_below normal fits
      · refine asr_below normal writable fits fun rest hplace => ?_
        refine ⟨[.key "asr",.key "providers"],by simp [references],?_⟩
        rw [hplace]
        exact ⟨rest,rfl⟩
      · exact llm_below normal writable fits
      · refine scenes_below normal writable fits fun rest hplace => ?_
        refine ⟨[.key "scenes",.key "definitions"],by simp [references],?_⟩
        rw [hplace]
        exact ⟨rest,rfl⟩
      · exact triggers_below normal writable hinner fits
      · exact receivers_below normal writable hinner fits

end Edits

section References

/-- No entry of an array has an identity that is not among theirs. -/
theorem nodeAt_id_ne {α : Type} {tree : α → Json} {name : α → String}
    (hid : ∀ entry, child (tree entry) (.key "id")=some (.text (name entry)))
    {entries : List α} {reference : String} (hnone : reference∉entries.map name) (position : ℕ) :
    nodeAt [.index position,.key "id"] (.array (entries.map tree))≠some (.text reference) := by
  intro h
  obtain ⟨node,hnode,hvalue⟩ := Option.bind_eq_some_iff.mp h
  obtain ⟨entry,hentry,rfl⟩ := element_of_map hnode
  rw [nodeAt_cons (hid entry)] at hvalue
  cases hvalue
  exact hnone (List.mem_map_of_mem hentry)

/-- A reference is kept, or cleared because no entry has its identity. -/
theorem reference_kept {α : Type} {tree : α → Json} {name : α → String}
    (hid : ∀ entry, child (tree entry) (.key "id")=some (.text (name entry)))
    {before after : Json} {reference list : Location} {target : String} {found : Bool}
    {entries : List α} (hbefore : nodeAt reference before=some (.text target))
    (hafter : nodeAt reference after=some (.text (clearReference target found)))
    (hlist : ∀ position, nodeAt (list++[.index position,.key "id"]) after=
      nodeAt [.index position,.key "id"] (.array (entries.map tree)))
    (hfound : target≠"" → found=false → target∉entries.map name) :
    nodeAt reference after=nodeAt reference before ∨
      (nodeAt reference after=some (.text "") ∧
        ∀ position, nodeAt (list++[.index position,.key "id"]) after≠nodeAt reference before) := by
  rw [hbefore,hafter]
  unfold clearReference
  split
  · rename_i hcleared
    refine .inr ⟨rfl,fun position => ?_⟩
    rw [hlist]
    exact nodeAt_id_ne hid (hfound hcleared.1 hcleared.2) position
  · exact .inl rfl

/-- The identity of a provider in its tree. -/
theorem asrProviderTree_id (provider : AsrProvider) :
    child (asrProviderTree provider) (.key "id")=some (.text (asrProviderId provider)) := by
  rw [child_key]
  cases provider <;> rfl

/-- The identity of a scene in its tree. -/
theorem sceneTree_id (scene : Definition) :
    child (sceneTree scene) (.key "id")=some (.text scene.id) := by
  rw [child_key]
  rfl

/-- A provider that is not found has an identity nothing has. -/
theorem not_mem_of_findAsrProvider {providers : List AsrProvider} {id : String} (hid : id≠"")
    (h : (findAsrProvider providers id).isSome=false) : id∉providers.map asrProviderId := by
  intro hmem
  obtain ⟨provider,hprovider,hsame⟩ := List.mem_map.mp hmem
  unfold findAsrProvider at h
  rw [if_neg hid,Option.isSome_eq_false_iff,Option.isNone_iff_eq_none,List.find?_eq_none] at h
  exact h provider hprovider (decide_eq_true hsame)

/-- A scene that is not found has an identity nothing has. -/
theorem not_mem_of_findScene {definitions : List Definition} {id : String}
    (h : (findScene definitions id).isSome=false) : id∉sceneIds definitions := by
  intro hmem
  obtain ⟨scene,hscene,hsame⟩ := List.mem_map.mp hmem
  unfold findScene at h
  rw [Option.isSome_eq_false_iff,Option.isNone_iff_eq_none,List.find?_eq_none] at h
  exact h scene hscene (decide_eq_true hsame)

variable {config : CoreConfig} {value : Json} {rest : Location}

/-- The reference to a provider is kept or names none. -/
theorem active_provider_kept
    (fits : Fits (configTree config) (.key "asr"::.key "providers"::rest) value) {after : Json}
    (hafter : reform (replace (.key "asr"::.key "providers"::rest) value (configTree config))=
      after) :
    nodeAt [.key "asr",.key "active_provider"] after=
        nodeAt [.key "asr",.key "active_provider"] (configTree config) ∨
      (nodeAt [.key "asr",.key "active_provider"] after=some (.text "") ∧ ∀ position,
        nodeAt ([.key "asr",.key "providers"]++[.index position,.key "id"]) after≠
          nodeAt [.key "asr",.key "active_provider"] (configTree config)) := by
  have hnode : (configTree config).find "asr"=some (Asr.toWire config.asr).write :=
    find_configTree config "asr"
  obtain ⟨hnode',right,hright⟩ := read_of_fits AsrWire.read fits (by simp [sectionReads]) hnode
  have hstored := reform_asr hnode' hright
  rw [hafter,← child_key] at hstored
  rw [← child_key] at hnode
  have hactive : right.activeProvider=config.asr.activeProvider := by
    have hsame := child_replace_of_ne (show Step.key "active_provider"≠.key "providers" by decide)
      rest value (Asr.toWire config.asr).write
    rw [(asr_children config.asr).1,child_key] at hsame
    have hread := (asrWire_read hright).1
    unfold member at hread
    rw [hsame] at hread
    exact (Option.some.inj hread).symm
  obtain ⟨hreference,_,hlist⟩ := asr_children (normalAsr (right.fromWire {}))
  have hbefore : nodeAt [.key "asr",.key "active_provider"] (configTree config)=
      some (.text right.activeProvider) := by
    rw [nodeAt_cons hnode,nodeAt_cons (asr_children config.asr).1,hactive]
    rfl
  refine reference_kept asrProviderTree_id hbefore
    ((nodeAt_cons hstored).trans (nodeAt_cons hreference)) ?_ not_mem_of_findAsrProvider
  exact fun position => (nodeAt_cons hstored).trans (nodeAt_cons hlist)

/-- The reference to a scene is kept or names none. -/
theorem active_scene_kept
    (fits : Fits (configTree config) (.key "scenes"::.key "definitions"::rest) value)
    {after : Json}
    (hafter : reform (replace (.key "scenes"::.key "definitions"::rest) value
      (configTree config))=after) :
    nodeAt [.key "scenes",.key "active_scene"] after=
        nodeAt [.key "scenes",.key "active_scene"] (configTree config) ∨
      (nodeAt [.key "scenes",.key "active_scene"] after=some (.text "") ∧ ∀ position,
        nodeAt ([.key "scenes",.key "definitions"]++[.index position,.key "id"]) after≠
          nodeAt [.key "scenes",.key "active_scene"] (configTree config)) := by
  have hnode : (configTree config).find "scenes"=some (Scenes.toWire config.scenes).write :=
    find_configTree config "scenes"
  obtain ⟨hnode',right,hright⟩ :=
    read_of_fits ScenesWire.read fits (by simp [sectionReads]) hnode
  have hstored := reform_scenes hnode' hright
  rw [hafter,← child_key] at hstored
  rw [← child_key] at hnode
  have hactive : right.activeScene=config.scenes.activeScene := by
    have hsame := child_replace_of_ne (show Step.key "active_scene"≠.key "definitions" by decide)
      rest value (Scenes.toWire config.scenes).write
    rw [(scenes_children config.scenes).1,child_key] at hsame
    have hread := (scenesWire_read hright).1
    unfold member at hread
    rw [hsame] at hread
    exact (Option.some.inj hread).symm
  obtain ⟨hreference,hlist⟩ := scenes_children (normalScenes (right.fromWire {}))
  have hbefore : nodeAt [.key "scenes",.key "active_scene"] (configTree config)=
      some (.text right.activeScene) := by
    rw [nodeAt_cons hnode,nodeAt_cons (scenes_children config.scenes).1,hactive]
    rfl
  refine reference_kept sceneTree_id hbefore
    ((nodeAt_cons hstored).trans (nodeAt_cons hreference)) ?_ fun _ => not_mem_of_findScene
  exact fun position => (nodeAt_cons hstored).trans (nodeAt_cons hlist)

end References

section Settings

variable (translate : String → String) (readValue : String → Option Json) (reread : Json → Text)

/-- A tree that is loaded stands for a normal configuration that a file can hold. -/
theorem eq_of_loadConfigTree {file : Text} {root : Json} (h : loadConfigTree file=some root) :
    ∃ config, Normal config ∧ Writable config ∧ root=configTree config := by
  refine ⟨tidy (normalizeCoreConfig (loadCoreConfig file)),
    normal_tidy (normal_normalizeCoreConfig _),writable_tidy _,?_⟩
  rw [configTree_tidy]
  unfold loadConfigTree writtenText at h
  split at h
  · rename_i written hwritten
    split at hwritten
    · cases hwritten
      exact (Option.some.inj h).symm
    · cases hwritten
  · cases h

/-- The tree of a stored configuration is the one that was written. -/
theorem loadConfigTree_written {config : CoreConfig} (normal : Normal config)
    (clean : (configTree config).isClean=true) :
    loadConfigTree (writtenText config)=some (configTree config) := by
  have hwritten : ∀ config : CoreConfig, (configTree config).isClean=true →
      writtenText config=.tree (configTree config) := fun config hclean => if_pos hclean
  have hload : loadCoreConfig (writtenText config)=tidy config := by
    rw [hwritten config clean]
    exact normalize_parseRoot_configTree normal
  unfold loadConfigTree
  rw [hload,normalizeCoreConfig_of_normal (normal_tidy normal),hwritten (tidy config) ?_]
  · exact congrArg some (configTree_tidy config)
  · rw [configTree_tidy]
    exact clean

/-- A save replaces the file or leaves it. -/
theorem saveCoreConfig_cases (fails : Bool) (config : CoreConfig) (file : Text) :
    saveCoreConfig translate fails config file=(false,file) ∨
      (fails=false ∧ saveCoreConfig translate fails config file=
        (true,writtenText (normalizeCoreConfig config))) := by
  unfold saveCoreConfig
  split
  · exact .inl rfl
  · cases fails with
    | true => exact .inl rfl
    | false =>
      rw [writtenText_materialize]
      exact .inr ⟨rfl,rfl⟩

/-- A value is set by storing what is read of the edited tree, or not at all. -/
theorem setConfigValue_cases (fails : Bool) (pointer value : String) (file : Text) :
    (∃ reason, setConfigValue translate readValue reread fails pointer value file=
        (.error reason,file)) ∨
      ∃ before place updated, fails=false ∧ loadConfigTree file=some before ∧
        seekPointer before pointer=some place ∧
        coreConfigFromJson (reread (replace place (parseSetValue readValue value) before))=
          .ok updated ∧
        setConfigValue translate readValue reread fails pointer value file=
          (.ok (),writtenText (normalizeCoreConfig updated)) := by
  unfold setConfigValue
  cases hbefore : loadConfigTree file with
  | none => exact .inl ⟨_,rfl⟩
  | some before =>
    dsimp only
    cases hplace : seekPointer before pointer with
    | none => exact .inl ⟨_,rfl⟩
    | some place =>
      dsimp only
      split
      · exact .inl ⟨_,rfl⟩
      · rename_i updated hupdated
        rcases saveCoreConfig_cases translate fails updated file with hkept | ⟨hfails,hsaved⟩
        · rw [hkept]
          exact .inl ⟨_,rfl⟩
        · rw [hsaved]
          exact .inr ⟨before,place,updated,hfails,rfl,hplace,hupdated,rfl⟩

/-- Setting a value that fits changes nothing else, and a failed request
changes nothing. -/
theorem set_value_frame (fails : Bool) (pointer value : String) (file : Text)
    (fits : fails=false → ∀ before place updated, loadConfigTree file=some before →
      seekPointer before pointer=some place →
      coreConfigFromJson (reread (replace place (parseSetValue readValue value) before))=
        .ok updated →
      ReadBack reread (replace place (parseSetValue readValue value) before) ∧
        Fits before place (parseSetValue readValue value)) :
    (∃ reason, setConfigValue translate readValue reread fails pointer value file=
        (.error reason,file)) ∨
      ∃ before place stored after, loadConfigTree file=some before ∧
        seekPointer before pointer=some place ∧
        setConfigValue translate readValue reread fails pointer value file=(.ok (),stored) ∧
        loadConfigTree stored=some after ∧ FrameKept place before after := by
  rcases setConfigValue_cases translate readValue reread fails pointer value file with
    hfailed | ⟨before,place,updated,hfails,hbefore,hplace,hupdated,hstored⟩
  · exact .inl hfailed
  · obtain ⟨⟨hread,hclean⟩,hfits⟩ := fits hfails before place updated hbefore hplace hupdated
    rw [hread] at hupdated
    have hparsed : parseRoot (replace place (parseSetValue readValue value) before)=updated := by
      dsimp only [coreConfigFromJson] at hupdated
      split at hupdated
      · exact Except.ok.inj hupdated
      · cases hupdated
    subst hparsed
    obtain ⟨config,normal,writable,rfl⟩ := eq_of_loadConfigTree hbefore
    refine .inr ⟨_,place,_,_,hbefore,hplace,hstored,
      loadConfigTree_written (normal_normalizeCoreConfig _) (isClean_reform hclean),?_,?_⟩
    · intro other hapart hother
      exact (reform_frame normal writable hfits other hapart hother).symm
    · intro reference list hmem hlist
      obtain ⟨rest,rfl⟩ := hlist
      simp only [references,List.mem_cons,List.not_mem_nil,or_false,Prod.mk.injEq] at hmem
      rcases hmem with ⟨rfl,rfl⟩ | ⟨rfl,rfl⟩
      · exact active_provider_kept hfits rfl
      · exact active_scene_kept hfits rfl

/-- The sample as it is stored. -/
theorem sample_clean : (configTree (normalizeCoreConfig sampleConfig)).isClean=true := by
  decide +kernel

/-- Turning a switch of a full configuration off changes that switch only. -/
theorem switch_set_alone : ∃ before place stored after,
    loadConfigTree (writtenText (normalizeCoreConfig sampleConfig))=some before ∧
    seekPointer before "/asr/normalize_audio"=some place ∧
    setConfigValue id (fun _ => some (.bool false)) .tree false "/asr/normalize_audio" "false"
      (writtenText (normalizeCoreConfig sampleConfig))=(.ok (),stored) ∧
    loadConfigTree stored=some after ∧ FrameKept place before after := by
  have hloaded := loadConfigTree_written (normal_normalizeCoreConfig sampleConfig) sample_clean
  have hseek : seekPointer (configTree (normalizeCoreConfig sampleConfig)) "/asr/normalize_audio"=
      some [.key "asr",.key "normalize_audio"] := by decide +kernel
  have hset := set_value_frame id (fun _ => some (.bool false)) .tree false "/asr/normalize_audio"
    "false" (writtenText (normalizeCoreConfig sampleConfig)) ?_
  · rcases hset with ⟨reason,hfailed⟩ | hset
    · have hok : (setConfigValue id (fun _ => some (.bool false)) .tree false
          "/asr/normalize_audio" "false"
          (writtenText (normalizeCoreConfig sampleConfig))).1.isOk=true := by
        decide +kernel
      rw [hfailed] at hok
      cases hok
    · exact hset
  · intro _ before place updated hbefore hplace _
    obtain rfl := Option.some.inj (hbefore.symm.trans hloaded)
    obtain rfl := Option.some.inj (hplace.symm.trans hseek)
    refine ⟨⟨rfl,by decide +kernel⟩,?_,?_,?_,?_,?_,?_⟩
    · intro name next later hshape
      cases hshape
      decide +kernel
    · rintro ⟨position,hmem⟩
      simp at hmem
    · intro position hshape
      cases congrArg List.length hshape
    · intro list _ position inner hshape
      have hlast := congrArg List.getLast? hshape
      rw [List.getLast?_append] at hlast
      cases hlast
    · intro position hshape
      cases congrArg List.length hshape
    · intro rest hshape
      exact absurd (congrArg List.head? hshape) (by simp)

/-- A switch that is set to a word is no switch; the request succeeds and the
providers beside it are gone. -/
theorem providers_lost : ∃ before place stored after other,
    loadConfigTree (writtenText (normalizeCoreConfig sampleConfig))=some before ∧
    seekPointer before "/asr/normalize_audio"=some place ∧
    setConfigValue id (fun _ => none) .tree false "/asr/normalize_audio" "yes"
      (writtenText (normalizeCoreConfig sampleConfig))=(.ok (),stored) ∧
    loadConfigTree stored=some after ∧ Apart other place ∧ ¬IsReference place other ∧
    nodeAt other after≠nodeAt other before := by
  have hloaded := loadConfigTree_written (normal_normalizeCoreConfig sampleConfig) sample_clean
  have hseek : seekPointer (configTree (normalizeCoreConfig sampleConfig)) "/asr/normalize_audio"=
      some [.key "asr",.key "normalize_audio"] := by decide +kernel
  rcases setConfigValue_cases id (fun _ => none) .tree false "/asr/normalize_audio" "yes"
    (writtenText (normalizeCoreConfig sampleConfig)) with
    ⟨reason,hfailed⟩ | ⟨before,place,updated,_,hbefore,hplace,hupdated,hstored⟩
  · have hok : (setConfigValue id (fun _ => none) .tree false "/asr/normalize_audio" "yes"
        (writtenText (normalizeCoreConfig sampleConfig))).1.isOk=true := by decide +kernel
    rw [hfailed] at hok
    cases hok
  · obtain rfl := Option.some.inj (hbefore.symm.trans hloaded)
    obtain rfl := Option.some.inj (hplace.symm.trans hseek)
    have hedited : updated=parseRoot (replace [.key "asr",.key "normalize_audio"] (.text "yes")
        (configTree (normalizeCoreConfig sampleConfig))) := (Except.ok.inj hupdated).symm
    subst hedited
    refine ⟨_,_,_,_,[.key "asr",.key "providers",.index 0],hloaded,hseek,hstored,
      loadConfigTree_written (normal_normalizeCoreConfig _)
        (isClean_reform (by decide +kernel)),?_,?_,?_⟩
    · constructor <;> decide
    · rintro ⟨list,hmem,_⟩
      simp [references] at hmem
    · intro hsame
      exact absurd (congrArg Option.isSome hsame) (by decide +kernel)

end Settings

end Vinput.ConfigFrame
