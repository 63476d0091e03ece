import Mathlib.Data.List.Nodup
import Vinput.CoreConfigNormalize

/-!
# The store of scenes

Scenes are added, updated, removed and chosen by their identities, and lose
their language model when its service is removed. A call answers with the
reason why it failed, if it did, and leaves a store.
-/

namespace Vinput.SceneStore

open CoreConfigNormalize CoreConfigTypes FirstEntries

section Operations

/-- A scene is added unless it is invalid or there. -/
def addScene (config : Scenes) (definition : Definition) : Option String×Scenes :=
  let normalized := normalizeDefinition definition
  match validateDefinition normalized true with
  | some reason => (some reason,config)
  | none =>
    if (findScene config.definitions normalized.id).isSome then
      (some ("Scene id '"++normalized.id++"' already exists."),config)
    else (none,{config with definitions := config.definitions++[normalized]})

/-- A scene with the settings of another, under its own identity. -/
def updatedScene (scene definition : Definition) : Definition :=
  normalizeDefinition
    {scene with
      label := definition.label
      prompt := definition.prompt
      providerId := definition.providerId
      model := definition.model
      contextLines := definition.contextLines
      llmMaxCandidates := definition.llmMaxCandidates
      timeoutMs := definition.timeoutMs
      rawCand := definition.rawCand
      rawPrev := definition.rawPrev}

/-- The first scene of an identity is replaced. -/
def replaceScene (id : String) (updated : Definition) : List Definition → List Definition
  | [] => []
  | scene::rest => if scene.id=id then updated::rest else scene::replaceScene id updated rest

/-- A scene gets other settings under its identity. -/
def updateScene (config : Scenes) (id : String) (definition : Definition) :
    Option String×Scenes :=
  match findScene config.definitions id with
  | none => (some ("Scene id '"++id++"' not found."),config)
  | some scene =>
    let updated := updatedScene scene definition
    match validateDefinition updated true with
    | some reason => (some reason,config)
    | none => (none,{config with definitions := replaceScene id updated config.definitions})

/-- Erase the first scene of an identity; the first scene left takes over. -/
def eraseScene (config : Scenes) (id : String) : Scenes :=
  let scenes := config.definitions.eraseP fun scene => decide (scene.id=id)
  ⟨if config.activeScene=id then (scenes.head?.map Definition.id).getD "" else config.activeScene,
    scenes⟩

/-- A scene that is not builtin is removed; the active one only by force. -/
def removeScene (config : Scenes) (id : String) (force : Bool) : Option String×Scenes :=
  let found := findScene config.definitions id
  if (found.map Definition.builtin).getD false then
    (some ("Cannot remove built-in scene '"++id++"'."),config)
  else if force=false ∧ config.activeScene=id then
    (some ("Cannot remove active scene '"++id++"'."),config)
  else if found.isSome then (none,eraseScene config id)
  else (some ("Scene id '"++id++"' not found."),config)

/-- A scene that is there becomes the active one. -/
def setActiveScene (config : Scenes) (id : String) : Option String×Scenes :=
  if (findScene config.definitions id).isSome then (none,{config with activeScene := id})
  else (some ("Scene id '"++id++"' not found."),config)

/-- A scene without its language model if a service provides it. -/
def clearReferences (providerId : String) (scene : Definition) : Definition :=
  if scene.providerId=providerId then {scene with providerId := "",model := ""} else scene

/-- The number of scenes that were changed is returned. -/
def clearProviderReferences (config : Scenes) (providerId : String) : ℕ×Scenes :=
  if providerId="" then (0,config)
  else
    (config.definitions.countP fun scene => decide (scene.providerId=providerId),
      {config with definitions := config.definitions.map (clearReferences providerId)})

/-- A call of the store. -/
inductive Call where
  | addScene (definition : Definition)
  | updateScene (id : String) (definition : Definition)
  | removeScene (id : String) (force : Bool)
  | setActiveScene (id : String)
  | clearProviderReferences (providerId : String)

/-- What a call answers and leaves. -/
def step (config : Scenes) : Call → Option String×Scenes
  | .addScene definition => addScene config definition
  | .updateScene id definition => updateScene config id definition
  | .removeScene id force => removeScene config id force
  | .setActiveScene id => setActiveScene config id
  | .clearProviderReferences providerId => (none,(clearProviderReferences config providerId).2)

/-- The scenes after some calls. -/
def run (config : Scenes) (calls : List Call) : Scenes :=
  calls.foldl (fun current call => (step current call).2) config

end Operations

section Valid

/-- A scene is there and marked as built in. -/
def HasBuiltin (scenes : List Definition) (id : String) : Prop :=
  ∃ scene∈scenes, scene.id=id ∧ scene.builtin=true

/-- A service and a model are configured together. -/
def Paired (scene : Definition) : Prop :=
  scene.providerId="" ↔ scene.model=""

/-- A store that can be used. -/
structure Valid (config : Scenes) : Prop where
  unique : (sceneIds config.definitions).Nodup
  raw : HasBuiltin config.definitions kRawSceneId
  command : HasBuiltin config.definitions kCommandSceneId
  paired : ∀ scene∈config.definitions, Paired scene
  active : config.activeScene="" ∨ config.activeScene∈sceneIds config.definitions

variable {config : Scenes} {scenes : List Definition} {scene definition : Definition} {id : String}

/-- A scene is found by its identity. -/
theorem findScene_isSome : (findScene scenes id).isSome=true ↔ id∈sceneIds scenes := by
  simp [findScene,sceneIds]

/-- A scene that is found is there under that identity. -/
theorem findScene_spec (h : findScene scenes id=some scene) : scene∈scenes ∧ scene.id=id :=
  ⟨List.mem_of_find?_eq_some h,by simpa using List.find?_some h⟩

/-- A valid scene has a provider and a model or neither. -/
theorem paired_of_valid {requireId : Bool} (h : validateDefinition scene requireId=none) :
    Paired scene := by
  simp only [validateDefinition] at h
  split_ifs at h with _ _ _ hpair
  by_cases hprovider : scene.providerId="" <;> by_cases hmodel : scene.model=""
  all_goals simp_all [Paired]

/-- A normalised builtin scene is marked. -/
theorem normalizeDefinition_builtin (h : isBuiltinSceneId scene.id=true) :
    (normalizeDefinition scene).builtin=true := by
  simp [normalizeDefinition,h]

/-- Scenes that stay in a list keep the builtin ones there. -/
theorem HasBuiltin.mono {others : List Definition} (h : HasBuiltin scenes id)
    (hkept : ∀ scene∈scenes, scene.id=id → scene.builtin=true →
      ∃ other∈others, other.id=id ∧ other.builtin=true) : HasBuiltin others id := by
  obtain ⟨scene,hscene,hid,hbuiltin⟩ := h
  exact hkept scene hscene hid hbuiltin

/-- A new scene keeps the store valid. -/
theorem Valid.add (h : Valid config) {normalized : Definition} (hpaired : Paired normalized)
    (hnew : normalized.id∉sceneIds config.definitions) :
    Valid {config with definitions := config.definitions++[normalized]} := by
  have hids : sceneIds (config.definitions++[normalized])=
      sceneIds config.definitions++[normalized.id] := by simp [sceneIds]
  refine ⟨?_,?_,?_,?_,?_⟩
  · rw [hids]
    exact h.unique.append (List.nodup_singleton _) (by simpa using hnew)
  · exact h.raw.mono fun scene hscene hid hbuiltin => ⟨scene,by simp [hscene],hid,hbuiltin⟩
  · exact h.command.mono fun scene hscene hid hbuiltin => ⟨scene,by simp [hscene],hid,hbuiltin⟩
  · intro scene hscene
    rcases List.mem_append.mp hscene with hold | hadded
    · exact h.paired scene hold
    · rw [List.mem_singleton.mp hadded]
      exact hpaired
  · rw [hids]
    exact h.active.imp_right fun hactive => List.mem_append_left _ hactive

theorem replaceScene_ids {updated : Definition} (hid : updated.id=id) :
    sceneIds (replaceScene id updated scenes)=sceneIds scenes := by
  induction scenes with
  | nil => rfl
  | cons first rest ih =>
    rw [replaceScene]
    split_ifs with hfirst
    · simp [sceneIds,hid,hfirst]
    · simpa [sceneIds] using ih

/-- After replacing, a scene is the new one or an old one. -/
theorem mem_replaceScene {updated : Definition} (h : scene∈replaceScene id updated scenes) :
    scene=updated ∨ scene∈scenes := by
  induction scenes with
  | nil => simp [replaceScene] at h
  | cons first rest ih =>
    rw [replaceScene] at h
    split_ifs at h
    · exact (List.mem_cons.mp h).imp_right fun hrest => List.mem_cons_of_mem _ hrest
    · rcases List.mem_cons.mp h with hfirst | hrest
      · exact .inr (hfirst ▸ List.mem_cons_self)
      · exact (ih hrest).imp_right fun hold => List.mem_cons_of_mem _ hold

/-- A scene stays or the one in its place has its identity. -/
theorem kept_replaceScene {updated : Definition} (h : scene∈scenes) :
    scene∈replaceScene id updated scenes ∨
      scene.id=id ∧ updated∈replaceScene id updated scenes := by
  induction scenes with
  | nil => simp at h
  | cons first rest ih =>
    rw [replaceScene]
    split_ifs with hfirst
    · rcases List.mem_cons.mp h with rfl | hrest
      · exact .inr ⟨hfirst,List.mem_cons_self⟩
      · exact .inl (List.mem_cons_of_mem _ hrest)
    · rcases List.mem_cons.mp h with rfl | hrest
      · exact .inl List.mem_cons_self
      · exact (ih hrest).imp (List.mem_cons_of_mem _) fun hupdated =>
          ⟨hupdated.1,List.mem_cons_of_mem _ hupdated.2⟩

/-- Replacing keeps the store valid. -/
theorem Valid.replace (h : Valid config) {updated : Definition} (hid : updated.id=id)
    (hpaired : Paired updated)
    (hbuiltin : isBuiltinSceneId updated.id=true → updated.builtin=true) :
    Valid {config with definitions := replaceScene id updated config.definitions} := by
  have hkeeps : ∀ builtin, isBuiltinSceneId builtin=true → HasBuiltin config.definitions builtin →
      HasBuiltin (replaceScene id updated config.definitions) builtin := by
    intro builtin hname hhas
    refine hhas.mono fun scene hscene hsame hmarked => ?_
    have hplaced : scene∈replaceScene id updated config.definitions ∨
        scene.id=id ∧ updated∈replaceScene id updated config.definitions := kept_replaceScene hscene
    rcases hplaced with hstays | ⟨hreplaced,hupdated⟩
    · exact ⟨scene,hstays,hsame,hmarked⟩
    · have hbuiltinId : updated.id=builtin := by rw [hid,← hreplaced,hsame]
      exact ⟨updated,hupdated,hbuiltinId,hbuiltin (by rw [hbuiltinId,hname])⟩
  refine ⟨?_,hkeeps _ (by decide) h.raw,hkeeps _ (by decide) h.command,?_,?_⟩
  · rw [replaceScene_ids hid]
    exact h.unique
  · intro scene hscene
    rcases mem_replaceScene hscene with rfl | hold
    · exact hpaired
    · exact h.paired scene hold
  · rw [replaceScene_ids hid]
    exact h.active

/-- Scenes of other identities are not erased. -/
theorem mem_eraseScene (hscene : scene∈config.definitions) (hother : scene.id≠id) :
    scene∈(eraseScene config id).definitions :=
  (List.mem_eraseP_of_neg (by simpa using hother)).mpr hscene

/-- A scene that is not built in may go. -/
theorem Valid.erase (h : Valid config)
    (hbuiltin : ∀ scene∈config.definitions, scene.id=id → scene.builtin=false) :
    Valid (eraseScene config id) := by
  have hkeeps : ∀ builtin, HasBuiltin config.definitions builtin →
      HasBuiltin (eraseScene config id).definitions builtin := by
    intro builtin hhas
    refine hhas.mono fun scene hscene hsame hmarked => ?_
    have hother : scene.id≠id := fun herased => by
      simp [hbuiltin scene hscene herased] at hmarked
    exact ⟨scene,mem_eraseScene hscene hother,hsame,hmarked⟩
  refine ⟨h.unique.sublist (List.eraseP_sublist.map _),hkeeps _ h.raw,hkeeps _ h.command,?_,?_⟩
  · intro scene hscene
    exact h.paired scene (List.mem_of_mem_eraseP hscene)
  · by_cases hactive : config.activeScene=id
    · cases hscenes : (eraseScene config id).definitions with
      | nil =>
        left
        dsimp only [eraseScene] at hscenes ⊢
        rw [if_pos hactive,hscenes]
        rfl
      | cons first rest =>
        right
        dsimp only [eraseScene] at hscenes ⊢
        rw [if_pos hactive,hscenes]
        simp [sceneIds]
    · have hkept : (eraseScene config id).activeScene=config.activeScene := if_neg hactive
      rw [hkept]
      refine h.active.imp_right fun hmem => ?_
      obtain ⟨scene,hscene,hid⟩ := List.mem_map.mp hmem
      refine List.mem_map.mpr ⟨scene,mem_eraseScene hscene ?_,hid⟩
      rw [hid]
      exact hactive

theorem Valid.clear (h : Valid config) (providerId : String) :
    Valid {config with definitions := config.definitions.map (clearReferences providerId)} := by
  have hclear : ∀ scene, (clearReferences providerId scene).id=scene.id ∧
      (clearReferences providerId scene).builtin=scene.builtin := by
    intro scene
    rw [clearReferences]
    split_ifs <;> exact ⟨rfl,rfl⟩
  have hids : sceneIds (config.definitions.map (clearReferences providerId))=
      sceneIds config.definitions := by simp [sceneIds,hclear]
  have hkeeps : ∀ builtin, HasBuiltin config.definitions builtin →
      HasBuiltin (config.definitions.map (clearReferences providerId)) builtin := by
    intro builtin hhas
    refine hhas.mono fun scene hscene hsame hmarked => ?_
    refine ⟨_,List.mem_map_of_mem hscene,?_,?_⟩
    · rw [(hclear scene).1,hsame]
    · rw [(hclear scene).2,hmarked]
  refine ⟨?_,hkeeps _ h.raw,hkeeps _ h.command,?_,?_⟩
  · rw [hids]
    exact h.unique
  · intro cleared hcleared
    obtain ⟨scene,hscene,rfl⟩ := List.mem_map.mp hcleared
    rw [clearReferences]
    split_ifs
    · simp [Paired]
    · exact h.paired scene hscene
  · rw [hids]
    exact h.active

end Valid

section Runs

variable {config : Scenes}

/-- A call keeps a valid store valid. -/
theorem Valid.step (h : Valid config) (call : Call) : Valid (step config call).2 := by
  cases call with
  | addScene definition =>
    dsimp only [SceneStore.step,addScene]
    cases hreason : validateDefinition (normalizeDefinition definition) true with
    | some reason => exact h
    | none =>
      dsimp only
      split_ifs with hfound
      · exact h
      · rw [findScene_isSome] at hfound
        exact h.add (paired_of_valid hreason) hfound
  | updateScene id definition =>
    dsimp only [SceneStore.step,updateScene]
    cases hfound : findScene config.definitions id with
    | none => exact h
    | some scene =>
      dsimp only
      cases hreason : validateDefinition (updatedScene scene definition) true with
      | some reason => exact h
      | none =>
        have hmarked : isBuiltinSceneId scene.id=true →
            (updatedScene scene definition).builtin=true := fun hname =>
          normalizeDefinition_builtin hname
        exact h.replace (findScene_spec hfound).2 (paired_of_valid hreason) hmarked
  | removeScene id force =>
    dsimp only [SceneStore.step,removeScene]
    split_ifs with hbuiltin _ hfound
    · exact h
    · exact h
    · obtain ⟨found,hscene⟩ := Option.isSome_iff_exists.mp hfound
      refine h.erase fun scene hmem hid => ?_
      have hsame : scene=found :=
        List.inj_on_of_nodup_map h.unique hmem (findScene_spec hscene).1
          (by rw [hid,(findScene_spec hscene).2])
      simpa [hscene,hsame] using hbuiltin
    · exact h
  | setActiveScene id =>
    dsimp only [SceneStore.step,setActiveScene]
    split_ifs with hfound
    · exact ⟨h.unique,h.raw,h.command,h.paired,.inr (findScene_isSome.mp hfound)⟩
    · exact h
  | clearProviderReferences providerId =>
    dsimp only [SceneStore.step,clearProviderReferences]
    split_ifs
    · exact h
    · exact h.clear providerId

/-- A call that fails leaves the store as it was. -/
theorem step_failed {call : Call} (h : (step config call).1≠none) :
    (step config call).2=config := by
  cases call with
  | addScene definition =>
    simp only [step,addScene] at h ⊢
    split at h
    · rfl
    · split_ifs at h ⊢ <;> simp_all
  | updateScene id definition =>
    simp only [step,updateScene] at h ⊢
    split at h
    · rfl
    · split at h <;> simp_all
  | removeScene id force =>
    simp only [step,removeScene] at h ⊢
    split_ifs at h ⊢ <;> simp_all
  | setActiveScene id =>
    simp only [step,setActiveScene] at h ⊢
    split_ifs at h ⊢ <;> simp_all
  | clearProviderReferences providerId => simp [step] at h

/-- The scenes of a normalised configuration are a valid store. -/
theorem valid_normalized (config : CoreConfig) : Valid (normalizeCoreConfig config).scenes := by
  have hnormal := normal_normalizeCoreConfig config
  have haccepted : ∀ scene∈(normalizeCoreConfig config).scenes.definitions,
      scene=promptedScene scene ∧ validateDefinition scene true=none :=
    fun scene hscene => prepareScene_eq_some.mp (hnormal.scenes.accepted scene hscene).1
  have hbuiltin : ∀ id, isBuiltinSceneId id=true →
      id∈sceneIds (normalizeCoreConfig config).scenes.definitions →
      HasBuiltin (normalizeCoreConfig config).scenes.definitions id := by
    intro id hname hmem
    obtain ⟨scene,hscene,rfl⟩ := List.mem_map.mp hmem
    refine ⟨scene,hscene,rfl,?_⟩
    rw [(haccepted scene hscene).1]
    simp only [promptedScene]
    split_ifs
    · exact normalizeDefinition_builtin hname
    · exact normalizeDefinition_builtin hname
  refine ⟨hnormal.scenes.unique,hbuiltin _ (by decide) hnormal.rawScene,
    hbuiltin _ (by decide) hnormal.commandScene,
    fun scene hscene => paired_of_valid (haccepted scene hscene).2,?_⟩
  by_cases hempty : (normalizeCoreConfig config).scenes.activeScene=""
  · exact .inl hempty
  · right
    rw [← findScene_isSome]
    have hactive := hnormal.activeScene
    rw [clearReference] at hactive
    split_ifs at hactive with hclear
    · exact absurd hactive.symm hempty
    · simpa [hempty,Option.isSome_iff_ne_none] using hclear

/-- Calls keep a valid store valid, and a call that fails on the way leaves
the store as it was. -/
theorem store_valid (calls : List Call) (h : Valid config) :
    Valid (run config calls) ∧
      ∀ before call after, calls=before++call::after →
        (step (run config before) call).1≠none →
          run config (before++[call])=run config before := by
  refine ⟨?_,?_⟩
  · induction calls generalizing config with
    | nil => exact h
    | cons call rest ih => exact ih (h.step call)
  · intro before call after _ hfailed
    rw [run,List.foldl_append]
    exact step_failed hfailed

/-- A scene is added, made active and removed. -/
theorem store_valid_default :
    Valid (run (normalizeCoreConfig {}).scenes
      [.addScene {id := "x"},.setActiveScene "x",.removeScene "x" true]) :=
  (store_valid _ (valid_normalized {})).1

end Runs

end Vinput.SceneStore
