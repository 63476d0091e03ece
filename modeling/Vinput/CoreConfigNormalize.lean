import Mathlib.Tactic.NormNum
import Vinput.CoreConfigTypes

/-!
# Normal configurations

A configuration is normal when its lists are settled, its numbers are within
their bounds, both builtin scenes are there and its references name
something. Normalisation makes every configuration normal and leaves normal
ones alone.
-/

namespace Vinput.CoreConfigNormalize

open AsrSettings (StringMap)
open CoreConfigTypes FirstEntries JsonTree

section Numbers

/-- Bounds that are in order bring a value between them once and for all. -/
theorem clamp_clamp {α : Type*} [LT α] [DecidableLT α] {low high : α} (hlow : ¬low<low)
    (hhigh : ¬high<high) (horder : ¬high<low) (value : α) :
    clamp (clamp value low high) low high=clamp value low high := by
  unfold clamp
  by_cases hbelow : value<low
  · rw [if_pos hbelow,if_neg hlow,if_neg horder]
  · rw [if_neg hbelow]
    by_cases habove : high<value
    · rw [if_pos habove,if_neg horder,if_neg hhigh]
    · rw [if_neg habove,if_neg hbelow,if_neg habove]

/-- Numbers are brought between finite bounds once and for all. -/
theorem clamp_clamp_finite {low high : ℚ} (h : low ≤ high) (value : Double) :
    clamp (clamp value (.finite low) (.finite high)) (.finite low) (.finite high)=
      clamp value (.finite low) (.finite high) :=
  clamp_clamp (mt finite_lt_finite.mp (lt_irrefl low)) (mt finite_lt_finite.mp (lt_irrefl high))
    (mt finite_lt_finite.mp (not_lt.mpr h)) value

/-- Between finite bounds there is nothing infinite. -/
theorem clamp_isInfinite (low high : ℚ) (value : Double) :
    (clamp value (.finite low) (.finite high)).isInfinite=false := by
  cases value with
  | notANumber => rfl
  | minusInfinity => rfl
  | infinity => rfl
  | finite value =>
    unfold clamp
    split_ifs <;> rfl

/-- Silence trimming is normalised once. -/
theorem normalizeVad_idem (vad : Vad) : normalizeVad (normalizeVad vad)=normalizeVad vad := by
  dsimp only [normalizeVad]
  have hthreshold := clamp_clamp_finite (show (0.05 : ℚ) ≤ 0.95 by norm_num) vad.threshold
  have hspeech := clamp_clamp_finite (show (0.05 : ℚ) ≤ 2.0 by norm_num) vad.minSpeechDuration
  have hsilence := clamp_clamp_finite (show (0.05 : ℚ) ≤ 5.0 by norm_num) vad.minSilenceDuration
  have hpad := @clamp_clamp Int32 _ _ 0 2000 (by decide) (by decide) (by decide) vad.speechPadMs
  exact congr (congr (congr (congrArg (Vad.mk vad.enabled) hthreshold) hspeech) hsilence) hpad

theorem normalizeLlmMaxCandidates_idem (count : Int32) :
    normalizeLlmMaxCandidates (normalizeLlmMaxCandidates count)=
      normalizeLlmMaxCandidates count := by
  have hclamp : ∀ value, normalizeLlmMaxCandidates value=clamp value 0 9 := fun _ => rfl
  rw [hclamp count,hclamp]
  exact clamp_clamp (by decide) (by decide) (by decide) count

end Numbers

section Entries

theorem named_eq_some {α : Type*} {name : α → String} {entry later : α} :
    named name entry=some later ↔ name entry≠"" ∧ later=entry := by
  unfold named
  split
  · rename_i hempty
    exact ⟨nofun,fun h => absurd hempty h.1⟩
  · rename_i hname
    exact ⟨fun h => ⟨hname,(Option.some.inj h).symm⟩,fun h => congrArg some h.2.symm⟩

/-- Entries that are only named are treated once and for all. -/
theorem stable_named {α : Type*} (name : α → String) : Stable ⟨named name,name,some⟩ := by
  refine ⟨?_,?_,?_⟩
  · intro entry later h
    obtain ⟨hname,hlater⟩ := named_eq_some.mp h
    rw [hlater]
    exact named_eq_some.mpr ⟨hname,rfl⟩
  · intro entry later hprepared hfinished
    cases hfinished
    exact ⟨hprepared,rfl⟩
  · intro entry later hfinished
    cases hfinished
    rfl

/-- Named entries whose treatment keeps their names are treated once and
for all. -/
theorem stable_named_finish {α : Type*} {name : α → String} {finish : α → Option α}
    (hname : ∀ {entry later}, finish entry=some later → name later=name entry)
    (hfinish : ∀ {entry later}, finish entry=some later → finish later=some later) :
    Stable ⟨named name,name,finish⟩ := by
  refine ⟨(stable_named name).prepared,?_,hname⟩
  intro entry later hprepared hfinished
  refine ⟨named_eq_some.mpr ⟨?_,rfl⟩,hfinish hfinished⟩
  rw [hname hfinished]
  exact (named_eq_some.mp hprepared).1

theorem eraseEmptyKeys_idem (env : StringMap) :
    eraseEmptyKeys (eraseEmptyKeys env)=eraseEmptyKeys env := by
  unfold eraseEmptyKeys
  congr 1
  dsimp only
  rw [List.filter_filter]
  congr 1
  funext entry
  exact Bool.and_self _

theorem eraseEmptyEnvKeys_idem (adapter : LlmAdapter) :
    eraseEmptyEnvKeys (eraseEmptyEnvKeys adapter)=eraseEmptyEnvKeys adapter := by
  dsimp only [eraseEmptyEnvKeys]
  rw [eraseEmptyKeys_idem]

/-- Adapters are treated once and for all. -/
theorem stable_adapter : Stable adapterTreatment := by
  refine stable_named_finish ?_ ?_
  · intro entry later h
    cases h
    rfl
  · intro entry later h
    cases h
    exact congrArg some (eraseEmptyEnvKeys_idem entry)

theorem stable_asrProvider : Stable asrProviderTreatment := by
  refine stable_named_finish ?_ ?_
  · intro entry later h
    cases entry with
    | localProvider provider =>
      cases h
      rfl
    | commandProvider provider =>
      dsimp only [finishAsrProvider] at h
      split at h
      · cases h
      · cases h
        rfl
  · intro entry later h
    cases entry with
    | localProvider provider =>
      cases h
      rfl
    | commandProvider provider =>
      dsimp only [finishAsrProvider] at h
      split at h
      · cases h
      · rename_i hcommand
        cases h
        dsimp only [finishAsrProvider]
        rw [if_neg hcommand,eraseEmptyKeys_idem]

end Entries

section Scenes

theorem normalizeDefinition_idem (scene : Definition) :
    normalizeDefinition (normalizeDefinition scene)=normalizeDefinition scene := by
  have htimeout : (if (if scene.timeoutMs ≤ 0 then kDefaultTimeoutMs else scene.timeoutMs) ≤ 0 then
        kDefaultTimeoutMs else if scene.timeoutMs ≤ 0 then kDefaultTimeoutMs else scene.timeoutMs)=
      if scene.timeoutMs ≤ 0 then kDefaultTimeoutMs else scene.timeoutMs := by
    by_cases hzero : scene.timeoutMs ≤ 0
    · rw [if_pos hzero]
      rfl
    · rw [if_neg hzero,if_neg hzero]
  have hlines : (if (if scene.contextLines<0 then 0 else scene.contextLines)<0 then 0
        else if scene.contextLines<0 then 0 else scene.contextLines)=
      if scene.contextLines<0 then 0 else scene.contextLines := by
    by_cases hzero : scene.contextLines<0
    · rw [if_pos hzero]
      rfl
    · rw [if_neg hzero,if_neg hzero]
  dsimp only [normalizeDefinition]
  rw [htimeout,hlines,normalizeLlmMaxCandidates_idem,← Bool.or_assoc,Bool.or_self]

/-- The prompt of the command scene is none of those it replaces. -/
theorem defaultPrompt_kept : ¬(kDefaultCommandPrompt="" ∨
    kDefaultCommandPrompt=kLegacyCommandPrompt ∨ kDefaultCommandPrompt=kShortTagCommandPrompt) := by
  decide +kernel

theorem promptedScene_idem (scene : Definition) :
    promptedScene (promptedScene scene)=promptedScene scene := by
  by_cases hprompt : scene.id=kCommandSceneId ∧ (scene.prompt="" ∨
      scene.prompt=kLegacyCommandPrompt ∨ scene.prompt=kShortTagCommandPrompt)
  · have hscene : promptedScene scene=
        {normalizeDefinition scene with prompt := kDefaultCommandPrompt} := if_pos hprompt
    have hagain : normalizeDefinition {normalizeDefinition scene with prompt := kDefaultCommandPrompt}=
        {normalizeDefinition scene with prompt := kDefaultCommandPrompt} := by
      have hidem := normalizeDefinition_idem scene
      dsimp only [normalizeDefinition] at hidem ⊢
      simp only [Definition.mk.injEq] at hidem ⊢
      exact ⟨trivial,trivial,trivial,trivial,trivial,hidem.2.2.2.2.2⟩
    rw [hscene]
    unfold promptedScene
    dsimp only
    rw [hagain]
    exact if_neg fun h => defaultPrompt_kept h.2
  · have hscene : promptedScene scene=normalizeDefinition scene := if_neg hprompt
    rw [hscene]
    unfold promptedScene
    dsimp only
    rw [normalizeDefinition_idem]
    exact if_neg hprompt

/-- A scene that is prepared is prompted and valid. -/
theorem prepareScene_eq_some {scene later : Definition} :
    prepareScene scene=some later ↔
      later=promptedScene scene ∧ validateDefinition later true=none := by
  unfold prepareScene
  split
  · rename_i reason hinvalid
    refine ⟨nofun,?_⟩
    rintro ⟨hlater,hvalid⟩
    rw [hlater,hinvalid] at hvalid
    cases hvalid
  · rename_i hvalid
    constructor
    · intro h
      cases h
      exact ⟨rfl,hvalid⟩
    · rintro ⟨hlater,_⟩
      rw [hlater]

/-- Scenes are treated once and for all. -/
theorem stable_scene : Stable sceneTreatment := by
  refine ⟨?_,?_,?_⟩
  · intro entry later h
    obtain ⟨hlater,hvalid⟩ := prepareScene_eq_some.mp h
    refine prepareScene_eq_some.mpr ⟨?_,hvalid⟩
    rw [hlater,promptedScene_idem]
  · intro entry later hprepared hfinished
    cases hfinished
    exact ⟨hprepared,rfl⟩
  · intro entry later hfinished
    cases hfinished
    rfl

end Scenes

section Normal

/-- Identities of scenes. -/
def sceneIds (definitions : List Definition) : List String := definitions.map Definition.id

/-- A configuration in the form the daemon works with. -/
structure Normal (config : CoreConfig) : Prop where
  baseUrls : Settled baseUrlTreatment [] config.registry.baseUrls
  duckOutputVolume : clamp config.global.duckOutputVolume 0.0 1.0=config.global.duckOutputVolume
  llmProviders : Settled llmProviderTreatment [] config.llm.providers
  adapters : Settled adapterTreatment [] config.llm.adapters
  asrProviders : Settled asrProviderTreatment [] config.asr.providers
  activeProvider : clearReference config.asr.activeProvider
    (findAsrProvider config.asr.providers config.asr.activeProvider).isSome=
      config.asr.activeProvider
  inputGain : clamp config.asr.inputGain 0.1 10.0=config.asr.inputGain
  vad : normalizeVad config.asr.vad=config.asr.vad
  scenes : Settled sceneTreatment [] config.scenes.definitions
  rawScene : kRawSceneId∈sceneIds config.scenes.definitions
  commandScene : kCommandSceneId∈sceneIds config.scenes.definitions
  activeScene : clearReference config.scenes.activeScene
    (findScene config.scenes.definitions config.scenes.activeScene).isSome=
      config.scenes.activeScene
  triggers : Settled adapterTreatment [] config.triggers
  /-- Triggers and receivers share one set of identities. -/
  receivers : Settled adapterTreatment (config.triggers.map LlmAdapter.id) config.receivers

/-- What is brought between finite bounds is not infinite. -/
theorem isInfinite_of_clamped {low high : ℚ} {value : Double}
    (h : clamp value (.finite low) (.finite high)=value) : value.isInfinite=false :=
  h ▸ clamp_isInfinite low high value

/-- The volume of a normal configuration is finite. -/
theorem Normal.volume_finite {config : CoreConfig} (normal : Normal config) :
    config.global.duckOutputVolume.isInfinite=false :=
  isInfinite_of_clamped normal.duckOutputVolume

theorem Normal.gain_finite {config : CoreConfig} (normal : Normal config) :
    config.asr.inputGain.isInfinite=false :=
  isInfinite_of_clamped normal.inputGain

theorem clearReference_idem (found : String → Bool) (reference : String) :
    clearReference (clearReference reference (found reference))
      (found (clearReference reference (found reference)))=
        clearReference reference (found reference) := by
  by_cases hclear : reference≠"" ∧ found reference=false
  · have hcleared : clearReference reference (found reference)="" := if_pos hclear
    rw [hcleared]
    exact if_neg fun h => h.1 rfl
  · have hkept : clearReference reference (found reference)=reference := if_neg hclear
    rw [hkept,hkept]

/-- Scenes with the names seen while they were kept. -/
structure Kept (kept : List String×List Definition) : Prop where
  settled : Settled sceneTreatment [] kept.2
  seen : ∀ id, id∈kept.1 ↔ id∈sceneIds kept.2

/-- Scenes that are kept are settled. -/
theorem keepFirst_kept (definitions : List Definition) :
    Kept (keepFirst sceneTreatment [] definitions) := by
  refine ⟨keepFirst_settled stable_scene [] definitions,?_⟩
  intro id
  rw [keepFirst_seen stable_scene (fun _ => rfl),List.append_nil,List.mem_reverse]
  rfl

/-- A builtin scene is there once it is added. -/
theorem withBuiltin_kept {kept : List String×List Definition} (h : Kept kept) {id : String}
    (hscene : prepareScene (makeBuiltinScene id)=some (makeBuiltinScene id))
    (hid : (makeBuiltinScene id).id=id) :
    Kept (withBuiltin id kept) ∧ id∈sceneIds (withBuiltin id kept).2 ∧
      ∀ other∈sceneIds kept.2, other∈sceneIds (withBuiltin id kept).2 := by
  unfold withBuiltin
  split
  · rename_i hseen
    exact ⟨h,(h.seen id).mp hseen,fun _ hother => hother⟩
  · rename_i hseen
    have hids : sceneIds (kept.2++[makeBuiltinScene id])=sceneIds kept.2++[id] := by
      unfold sceneIds
      rw [List.map_append,List.map_singleton,hid]
    refine ⟨⟨?_,?_⟩,?_,?_⟩
    · refine Settled.snoc h.settled ⟨hscene,rfl⟩ List.not_mem_nil ?_
      intro hmem
      exact hseen ((h.seen id).mpr (hid ▸ hmem))
    · intro other
      rw [hids,List.mem_cons,List.mem_append,List.mem_singleton,h.seen,or_comm]
    · rw [hids]
      exact List.mem_append_right _ (List.mem_singleton_self id)
    · intro other hother
      rw [hids]
      exact List.mem_append_left _ hother

/-- Normalised scenes are settled and both builtin ones are among them. -/
theorem normalizeScenes_kept (definitions : List Definition) :
    Settled sceneTreatment [] (normalizeScenes definitions) ∧
      kRawSceneId∈sceneIds (normalizeScenes definitions) ∧
      kCommandSceneId∈sceneIds (normalizeScenes definitions) := by
  have hraw := withBuiltin_kept (keepFirst_kept definitions)
    (by decide +kernel : prepareScene (makeBuiltinScene kRawSceneId)=
      some (makeBuiltinScene kRawSceneId)) rfl
  have hcommand := withBuiltin_kept hraw.1
    (by decide +kernel : prepareScene (makeBuiltinScene kCommandSceneId)=
      some (makeBuiltinScene kCommandSceneId)) rfl
  exact ⟨hcommand.1.settled,hcommand.2.2 _ hraw.2.1,hcommand.2.1⟩

/-- Settled scenes with both builtin ones are left alone. -/
theorem normalizeScenes_of_settled {definitions : List Definition}
    (settled : Settled sceneTreatment [] definitions) (hraw : kRawSceneId∈sceneIds definitions)
    (hcommand : kCommandSceneId∈sceneIds definitions) :
    normalizeScenes definitions=definitions := by
  have hseen : ∀ id, id∈sceneIds definitions →
      id∈(keepFirst sceneTreatment [] definitions).1 := by
    intro id hid
    rw [keepFirst_of_settled settled,List.append_nil,List.mem_reverse]
    exact hid
  unfold normalizeScenes withBuiltin
  rw [if_pos (hseen _ hraw),if_pos (hseen _ hcommand),keepFirst_of_settled settled]

/-- Every configuration is made normal. -/
theorem normal_normalizeCoreConfig (config : CoreConfig) : Normal (normalizeCoreConfig config) := by
  obtain ⟨hscenes,hraw,hcommand⟩ := normalizeScenes_kept config.scenes.definitions
  refine ⟨keepFirst_settled (stable_named id) _ _,?_,keepFirst_settled (stable_named _) _ _,
    keepFirst_settled stable_adapter _ _,keepFirst_settled stable_asrProvider _ _,?_,?_,
    normalizeVad_idem _,hscenes,hraw,hcommand,?_,keepFirst_settled stable_adapter _ _,?_⟩
  · exact clamp_clamp_finite (show (0.0 : ℚ) ≤ 1.0 by norm_num) _
  · exact clearReference_idem (fun id => (findAsrProvider _ id).isSome) config.asr.activeProvider
  · exact clamp_clamp_finite (show (0.1 : ℚ) ≤ 10.0 by norm_num) _
  · exact clearReference_idem (fun id => (findScene _ id).isSome) config.scenes.activeScene
  · refine (keepFirst_settled stable_adapter _ config.receivers).mono ?_
    intro name hname
    rw [keepFirst_seen stable_adapter (fun _ => rfl),List.append_nil,List.mem_reverse]
    exact hname

/-- Normal configurations are left alone. -/
theorem normalizeCoreConfig_of_normal {config : CoreConfig} (normal : Normal config) :
    normalizeCoreConfig config=config := by
  have hreceivers : Settled adapterTreatment (keepFirst adapterTreatment [] config.triggers).1
      config.receivers := by
    refine normal.receivers.mono ?_
    intro name hname
    rw [keepFirst_of_settled normal.triggers,List.append_nil,List.mem_reverse] at hname
    exact hname
  unfold normalizeCoreConfig
  dsimp only
  rw [keepFirst_of_settled hreceivers,keepFirst_of_settled normal.triggers,keepFirst_of_settled normal.baseUrls,
    keepFirst_of_settled normal.llmProviders,keepFirst_of_settled normal.adapters,
    keepFirst_of_settled normal.asrProviders,normal.duckOutputVolume,normal.inputGain,normal.vad,
    normalizeScenes_of_settled normal.scenes normal.rawScene normal.commandScene,
    normal.activeProvider,normal.activeScene]

end Normal

end Vinput.CoreConfigNormalize
