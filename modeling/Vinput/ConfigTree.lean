import Vinput.CoreConfigRoundTrip
import Vinput.JsonLocation

/-!
# The tree of a configuration

A configuration is written to a tree and read from one. What the tree of a
normal configuration holds is a tidy configuration: negative time limits,
bodies that are no objects and labels that are not written are gone.
Reading and writing leaves such a tree alone.
-/

namespace Vinput.ConfigTree

open CoreConfigTypes CoreConfigNormalize CoreConfigJson CoreConfigRoundTrip FirstEntries JsonTree

/-- The tree a configuration is written to. -/
def configTree (config : CoreConfig) : Json := (CoreConfig.toWire config).write

/-- The tree that is stored when a tree is read as a configuration. -/
def reform (root : Json) : Json := configTree (normalizeCoreConfig (parseRoot root))

section Tidy

/-- Only an object is added to a request. -/
def tidyProvider (provider : LlmProvider) : LlmProvider :=
  {provider with extraBody := extraBodyOf (some provider.extraBody)}

/-- A time limit that a file can hold. -/
def tidyTimeout (timeoutMs : Int32) : Int32 := if 0<timeoutMs then timeoutMs else 0

/-- A provider with a time limit that a file can hold. -/
def tidyAsrProvider : AsrProvider → AsrProvider
  | .localProvider provider =>
    .localProvider {provider with timeoutMs := tidyTimeout provider.timeoutMs}
  | .commandProvider provider =>
    .commandProvider {provider with timeoutMs := tidyTimeout provider.timeoutMs}

/-- A scene with the label a file keeps, flagged by its identity. -/
def tidyScene (scene : Definition) : Definition :=
  {scene with
    label := if isBuiltinSceneId scene.id || isBuiltinSceneLabelKey scene.label then ""
      else scene.label
    builtin := isBuiltinSceneId scene.id}

/-- A configuration with nothing a file does not hold. -/
def tidy (config : CoreConfig) : CoreConfig :=
  {config with
    llm := {config.llm with providers := config.llm.providers.map tidyProvider}
    asr := {config.asr with providers := config.asr.providers.map tidyAsrProvider}
    scenes := {config.scenes with definitions := config.scenes.definitions.map tidyScene}}

/-- What is added to a request is an object. -/
theorem isObject_extraBodyOf (body : Option Json) : (extraBodyOf body).isObject=true := by
  cases body with
  | none => rfl
  | some body =>
    dsimp only [extraBodyOf]
    split
    · assumption
    · rfl

/-- A tidy service is written the same. -/
theorem toWire_tidyProvider (provider : LlmProvider) :
    LlmProvider.toWire (tidyProvider provider)=LlmProvider.toWire provider := by
  have hbody : given ((extraBodyOf (some provider.extraBody)).isObject=true ∧
      isEmptyObject (extraBodyOf (some provider.extraBody))=false)
      (extraBodyOf (some provider.extraBody))=
      given (provider.extraBody.isObject=true ∧ isEmptyObject provider.extraBody=false)
        provider.extraBody := by
    dsimp only [extraBodyOf]
    split
    · rfl
    · rename_i hno
      have hnone : ∀ body : Json, isEmptyObject body=true ∨ ¬body.isObject=true →
          given (body.isObject=true ∧ isEmptyObject body=false) body=none := by
        rintro body (hempty | hother)
        · exact if_neg fun h => Bool.false_ne_true (h.2.symm.trans hempty)
        · exact if_neg fun h => hother h.1
      rw [hnone (.object []) (.inl rfl),hnone provider.extraBody (.inr hno)]
  dsimp only [LlmProvider.toWire,tidyProvider]
  rw [hbody]

/-- A tidy time limit is written the same. -/
theorem given_tidyTimeout (timeoutMs : Int32) :
    given (0<tidyTimeout timeoutMs) (tidyTimeout timeoutMs)=
      given (0<timeoutMs) timeoutMs := by
  unfold tidyTimeout
  split
  · rfl
  · rename_i hno
    unfold given
    rw [if_neg hno,if_neg (by decide)]

/-- A tidy provider is written the same. -/
theorem toWire_tidyAsrProvider (provider : AsrProvider) :
    AsrProvider.toWire (tidyAsrProvider provider)=AsrProvider.toWire provider := by
  cases provider with
  | localProvider settings =>
    dsimp only [AsrProvider.toWire,tidyAsrProvider,asrProviderId,asrProviderType]
    rw [given_tidyTimeout]
  | commandProvider settings =>
    dsimp only [AsrProvider.toWire,tidyAsrProvider,asrProviderId,asrProviderType]
    rw [given_tidyTimeout]

/-- A tidy scene is written the same. -/
theorem toWire_tidyScene (scene : Definition) :
    Definition.toWire (tidyScene scene)=Definition.toWire scene := by
  have hlabel : given ((tidyScene scene).label≠"" ∧
      isBuiltinSceneLabelKey (tidyScene scene).label=false ∧
      isBuiltinSceneId (tidyScene scene).id=false) (tidyScene scene).label=
      given (scene.label≠"" ∧ isBuiltinSceneLabelKey scene.label=false ∧
        isBuiltinSceneId scene.id=false) scene.label := by
    dsimp only [tidyScene]
    split
    · rename_i hdropped
      unfold given
      rw [if_neg fun h => h.1 rfl,if_neg ?_]
      rintro ⟨_,hkey,hid⟩
      rw [hkey,hid] at hdropped
      cases hdropped
    · rfl
  unfold Definition.toWire
  rw [hlabel]
  rfl

/-- A tidy configuration is written to the same tree. -/
theorem configTree_tidy (config : CoreConfig) : configTree (tidy config)=configTree config := by
  have hproviders : (config.llm.providers.map tidyProvider).map LlmProvider.toWire=
      config.llm.providers.map LlmProvider.toWire := by
    rw [List.map_map]
    exact List.map_congr_left fun provider _ => toWire_tidyProvider provider
  have hasr : (config.asr.providers.map tidyAsrProvider).map AsrProvider.toWire=
      config.asr.providers.map AsrProvider.toWire := by
    rw [List.map_map]
    exact List.map_congr_left fun provider _ => toWire_tidyAsrProvider provider
  have hscenes : (config.scenes.definitions.map tidyScene).map Definition.toWire=
      config.scenes.definitions.map Definition.toWire := by
    rw [List.map_map]
    exact List.map_congr_left fun scene _ => toWire_tidyScene scene
  dsimp only [configTree,CoreConfig.toWire,tidy,Llm.toWire,Asr.toWire,Scenes.toWire]
  rw [hproviders,hasr,hscenes]

/-- Tidying keeps the identity of a provider. -/
theorem asrProviderId_tidy (provider : AsrProvider) :
    asrProviderId (tidyAsrProvider provider)=asrProviderId provider := by
  cases provider <;> rfl

/-- A provider is found among tidy ones when it was there. -/
theorem findAsrProvider_tidy (providers : List AsrProvider) (id : String) :
    (findAsrProvider (providers.map tidyAsrProvider) id).isSome=
      (findAsrProvider providers id).isSome := by
  unfold findAsrProvider
  split
  · rfl
  · rw [List.find?_map,Option.isSome_map]
    congr 2
    funext provider
    rw [Function.comp_apply,asrProviderId_tidy]

/-- A scene is found among tidy ones when it was there. -/
theorem findScene_tidy (definitions : List Definition) (id : String) :
    (findScene (definitions.map tidyScene) id).isSome=(findScene definitions id).isSome := by
  unfold findScene
  rw [List.find?_map,Option.isSome_map]
  rfl

/-- Tidying keeps the identities of the scenes. -/
theorem sceneIds_tidy (definitions : List Definition) :
    sceneIds (definitions.map tidyScene)=sceneIds definitions := by
  unfold sceneIds
  rw [List.map_map]
  rfl

theorem promptedScene_tidy (scene : Definition) :
    promptedScene (tidyScene scene)=tidyScene (promptedScene scene) := by
  have hnormal : normalizeDefinition (tidyScene scene)=tidyScene (normalizeDefinition scene) := by
    dsimp only [normalizeDefinition,tidyScene]
    rw [Bool.or_self]
  by_cases hprompt : scene.id=kCommandSceneId ∧ (scene.prompt="" ∨
      scene.prompt=kLegacyCommandPrompt ∨ scene.prompt=kShortTagCommandPrompt)
  · have hbefore : promptedScene scene=
        {normalizeDefinition scene with prompt := kDefaultCommandPrompt} := if_pos hprompt
    have hafter : promptedScene (tidyScene scene)=
        {normalizeDefinition (tidyScene scene) with prompt := kDefaultCommandPrompt} :=
      if_pos hprompt
    rw [hbefore,hafter,hnormal]
    rfl
  · have hbefore : promptedScene scene=normalizeDefinition scene := if_neg hprompt
    have hafter : promptedScene (tidyScene scene)=normalizeDefinition (tidyScene scene) :=
      if_neg hprompt
    rw [hbefore,hafter,hnormal]

/-- A scene that is prepared stays so. -/
theorem prepareScene_tidy {scene : Definition} (h : prepareScene scene=some scene) :
    prepareScene (tidyScene scene)=some (tidyScene scene) := by
  obtain ⟨hprompted,hvalid⟩ := prepareScene_eq_some.mp h
  refine prepareScene_eq_some.mpr ⟨?_,hvalid⟩
  rw [promptedScene_tidy,← hprompted]

/-- A provider that is finished stays so. -/
theorem finishAsrProvider_tidy {provider : AsrProvider}
    (h : finishAsrProvider provider=some provider) :
    finishAsrProvider (tidyAsrProvider provider)=some (tidyAsrProvider provider) := by
  cases provider with
  | localProvider settings => rfl
  | commandProvider settings =>
    dsimp only [finishAsrProvider,tidyAsrProvider] at h ⊢
    split at h
    · cases h
    · rename_i hcommand
      simp only [Option.some.injEq,AsrProvider.commandProvider.injEq] at h
      have henv : eraseEmptyKeys settings.env=settings.env := congrArg CommandAsrProvider.env h
      rw [if_neg hcommand,henv]

/-- A normal configuration is normal when it is tidy. -/
theorem normal_tidy {config : CoreConfig} (normal : Normal config) : Normal (tidy config) := by
  have hids : sceneIds (tidy config).scenes.definitions=sceneIds config.scenes.definitions :=
    sceneIds_tidy config.scenes.definitions
  refine ⟨normal.baseUrls,normal.duckOutputVolume,
    normal.llmProviders.map (fun _ => rfl) fun _ hprepared _ => ⟨?_,rfl⟩,normal.adapters,
    normal.asrProviders.map asrProviderId_tidy fun provider hprepared hfinished => ⟨?_,?_⟩,?_,
    normal.inputGain,normal.vad,
    normal.scenes.map (fun _ => rfl) fun _ hprepared _ => ⟨prepareScene_tidy hprepared,rfl⟩,
    ?_,?_,?_,normal.triggers,normal.receivers⟩
  · exact named_eq_some.mpr ⟨(named_eq_some.mp hprepared).1,rfl⟩
  · refine named_eq_some.mpr ⟨?_,rfl⟩
    rw [asrProviderId_tidy]
    exact (named_eq_some.mp hprepared).1
  · exact finishAsrProvider_tidy hfinished
  · dsimp only [tidy]
    rw [findAsrProvider_tidy]
    exact normal.activeProvider
  · rw [hids]
    exact normal.rawScene
  · rw [hids]
    exact normal.commandScene
  · dsimp only [tidy]
    rw [findScene_tidy]
    exact normal.activeScene

/-- A tidy configuration is one a file can hold. -/
theorem writable_tidy (config : CoreConfig) : Writable (tidy config) := by
  have htimeout : ∀ timeoutMs, 0 ≤ tidyTimeout timeoutMs := by
    intro timeoutMs
    unfold tidyTimeout
    split
    · rename_i hpositive
      exact Int32.le_of_lt hpositive
    · exact Int32.le_refl 0
  refine ⟨?_,?_,?_,?_⟩
  · intro provider hprovider
    obtain ⟨before,_,hsame⟩ := List.mem_map.mp hprovider
    rw [← hsame]
    cases before <;> exact htimeout _
  · intro provider hprovider
    obtain ⟨before,_,hsame⟩ := List.mem_map.mp hprovider
    rw [← hsame]
    exact isObject_extraBodyOf (some before.extraBody)
  · intro scene hscene
    obtain ⟨before,_,hsame⟩ := List.mem_map.mp hscene
    rw [← hsame]
    rfl
  · intro scene hscene hflag
    obtain ⟨before,_,hsame⟩ := List.mem_map.mp hscene
    rw [← hsame] at hflag ⊢
    dsimp only [tidyScene] at hflag ⊢
    rw [hflag,Bool.false_or]
    split
    · rfl
    · rename_i hkey
      exact Bool.eq_false_of_not_eq_true hkey

/-- A tidy configuration has no builtin labels. -/
theorem withoutBuiltinLabels_tidy (config : CoreConfig) :
    withoutBuiltinLabels (tidy config)=tidy config := by
  have hscene : ∀ scene, withoutBuiltinLabel (tidyScene scene)=tidyScene scene := by
    intro scene
    dsimp only [withoutBuiltinLabel,tidyScene]
    cases isBuiltinSceneId scene.id <;> rfl
  dsimp only [withoutBuiltinLabels,tidy]
  rw [List.map_map]
  exact congrArg (fun definitions => {tidy config with scenes := {config.scenes with
    definitions := definitions}}) (List.map_congr_left fun scene _ => hscene scene)

/-- The tree of a normal configuration is read as a tidy one. -/
theorem parseRoot_configTree {config : CoreConfig} (normal : Normal config) :
    parseRoot (configTree config)=written (tidy config) := by
  have hread : coreConfigFromJson (.tree (configTree (tidy config)))=
      .ok (written (tidy config)) := written_recovered (normal_tidy normal) (writable_tidy config)
  have hobject : coreConfigFromJson (.tree (configTree (tidy config)))=
      .ok (parseRoot (configTree (tidy config))) := rfl
  rw [← configTree_tidy]
  exact Except.ok.inj (hobject.symm.trans hread)

/-- A normal configuration is read back tidy. -/
theorem normalize_parseRoot_configTree {config : CoreConfig} (normal : Normal config) :
    normalizeCoreConfig (parseRoot (configTree config))=tidy config := by
  rw [parseRoot_configTree normal,
    normalizeCoreConfig_written (normal_tidy normal) (writable_tidy config).flags,
    withoutBuiltinLabels_tidy]

/-- Reading and writing leaves the tree of a normal configuration alone. -/
theorem reform_configTree {config : CoreConfig} (normal : Normal config) :
    reform (configTree config)=configTree config := by
  unfold reform
  rw [normalize_parseRoot_configTree normal,configTree_tidy]

end Tidy

end Vinput.ConfigTree
