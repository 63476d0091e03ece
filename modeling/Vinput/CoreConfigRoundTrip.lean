import Vinput.CoreConfigJson
import Vinput.CoreConfigNormalize

/-!
# Writing and reading a configuration

Every wire form is read back as it was written, and every section is
recovered from its wire form: what was left out was a default. A normal
configuration is therefore recovered up to the labels of builtin scenes,
which are not written.
-/

namespace Vinput.CoreConfigRoundTrip

open AsrSettings (StringMap)
open CoreConfigTypes CoreConfigNormalize CoreConfigJson FirstEntries JsonTree

section Access

/-- Strings are read as they were written. -/
theorem strings_fromStrings (values : List String) : strings (fromStrings values)=values := by
  dsimp only [strings,fromStrings]
  rw [List.filterMap_map]
  exact List.filterMap_some

/-- An entry below all others becomes the first. -/
theorem assignEntry_first {key value : String} {entries : List (String×String)}
    (h : ∀ entry∈entries, key<entry.1) : assignEntry key value entries=(key,value)::entries := by
  cases entries with
  | nil => rfl
  | cons first rest =>
    obtain ⟨name,old⟩ := first
    exact if_pos (h (name,old) List.mem_cons_self)

/-- The first member of an object is assigned last. -/
theorem stringMap_cons (key value : String) (members : List (String×Json)) :
    stringMap (.object ((key,.text value)::members))=
      assign (stringMap (.object members)) key value := rfl

/-- An environment is read as it was written. -/
theorem stringMap_fromStringMap (env : StringMap) : stringMap (fromStringMap env)=env := by
  obtain ⟨entries,ordered⟩ := env
  have hentries : ∀ later : List (String×String),
      later.Pairwise (fun left right => left.1<right.1) →
      (stringMap (.object (later.map fun entry => (entry.1,.text entry.2)))).entries=later := by
    intro later hordered
    induction later with
    | nil => rfl
    | cons entry rest ih =>
      obtain ⟨hfirst,hrest⟩ := List.pairwise_cons.mp hordered
      rw [List.map_cons,stringMap_cons]
      dsimp only [assign]
      rw [ih hrest]
      exact assignEntry_first hfirst
  have hmap := hentries entries ordered
  dsimp only [fromStringMap]
  cases hresult : stringMap (.object (entries.map fun entry => (entry.1,.text entry.2))) with
  | mk found _ =>
    rw [hresult] at hmap
    dsimp only at hmap
    subst hmap
    rfl

/-- A value that is left out is its fallback. -/
theorem given_getD {α : Type*} {condition : Prop} [Decidable condition] {value fallback : α}
    (h : ¬condition → fallback=value) : (given condition value).getD fallback=value := by
  unfold given
  split
  · rfl
  · rename_i hnot
    exact h hnot

/-- A list that is left out when it is empty. -/
theorem strings_given (values : List String) :
    ((given (values≠[]) (fromStrings values)).map strings).getD []=values := by
  unfold given
  split
  · exact strings_fromStrings values
  · rename_i hempty
    exact (not_not.mp hempty).symm

/-- An environment that is left out when it is empty. -/
theorem stringMap_given (env : StringMap) :
    ((given (env.entries≠[]) (fromStringMap env)).map stringMap).getD default=env := by
  unfold given
  split
  · exact stringMap_fromStringMap env
  · rename_i hempty
    obtain ⟨entries,ordered⟩ := env
    have hnone : entries=[] := not_not.mp hempty
    subst hnone
    rfl

/-- What may be left out is not written as null. -/
theorem given_ne_null {condition : Prop} [Decidable condition] {value : Json} (h : value≠.null) :
    given condition value≠some .null := by
  unfold given
  split
  · exact fun hsome => h (Option.some.inj hsome)
  · exact nofun

end Access

section Wires

/-- A service is read as it was written. -/
theorem llmProviderWire_read_write {wire : LlmProviderWire} (hbody : wire.extraBody≠some .null) :
    LlmProviderWire.read wire.write=some wire := by
  have hkeys : (wire.members.map Prod.fst).Nodup := by simp [LlmProviderWire.members]
  have hid : member "id" readText "" wire.write=some wire.id := member_text hkeys rfl
  have hbaseUrl : optional "base_url" readText wire.write=some wire.baseUrl :=
    optional_text hkeys rfl
  have hapiKey : optional "api_key" readText wire.write=some wire.apiKey :=
    optional_text hkeys rfl
  have hjsonObject : optional "json_object" readBool wire.write=some wire.jsonObject :=
    optional_bool hkeys rfl
  have hextraBody : optional "extra_body" readTree wire.write=some wire.extraBody :=
    optional_tree hkeys rfl hbody
  unfold LlmProviderWire.read
  rw [if_pos (show wire.write.isObject=true from rfl),hid,hbaseUrl,hapiKey,hjsonObject,hextraBody]
  rfl

/-- An adapter is read as it was written. -/
theorem llmAdapterWire_read_write {wire : LlmAdapterWire} (hargs : wire.args≠some .null)
    (henv : wire.env≠some .null) : LlmAdapterWire.read wire.write=some wire := by
  have hkeys : (wire.members.map Prod.fst).Nodup := by simp [LlmAdapterWire.members]
  have hid : member "id" readText "" wire.write=some wire.id := member_text hkeys rfl
  have hcommand : member "command" readText "" wire.write=some wire.command :=
    member_text hkeys rfl
  have hargs : optional "args" readTree wire.write=some wire.args := optional_tree hkeys rfl hargs
  have henv : optional "env" readTree wire.write=some wire.env := optional_tree hkeys rfl henv
  have hautoStart : optional "auto_start" readBool wire.write=some wire.autoStart :=
    optional_bool hkeys rfl
  unfold LlmAdapterWire.read
  rw [if_pos (show wire.write.isObject=true from rfl),hid,hcommand,hargs,henv,hautoStart]
  rfl

/-- A speech recognition provider is read as it was written. -/
theorem asrProviderWire_read_write {wire : AsrProviderWire} (hargs : wire.args≠some .null)
    (henv : wire.env≠some .null) : AsrProviderWire.read wire.write=some wire := by
  have hkeys : (wire.members.map Prod.fst).Nodup := by simp [AsrProviderWire.members]
  have hid : member "id" readText "" wire.write=some wire.id := member_text hkeys rfl
  have htype : member "type" readText "" wire.write=some wire.type := member_text hkeys rfl
  have hmodel : optional "model" readText wire.write=some wire.model := optional_text hkeys rfl
  have hhotwords : optional "hotwords_file" readText wire.write=some wire.hotwordsFile :=
    optional_text hkeys rfl
  have hcommand : optional "command" readText wire.write=some wire.command :=
    optional_text hkeys rfl
  have hargs : optional "args" readTree wire.write=some wire.args := optional_tree hkeys rfl hargs
  have henv : optional "env" readTree wire.write=some wire.env := optional_tree hkeys rfl henv
  have htimeout : optional "timeout_ms" readInt wire.write=some wire.timeoutMs :=
    optional_int hkeys rfl
  unfold AsrProviderWire.read
  rw [if_pos (show wire.write.isObject=true from rfl),hid,htype,hmodel,hhotwords,hcommand,hargs,
    henv,htimeout]
  rfl

/-- The capture settings are read as they were written. -/
theorem globalWire_read_write {wire : GlobalWire} (h : wire.duckOutputVolume.isInfinite=false) :
    GlobalWire.read wire.write=some wire := by
  have hkeys : (wire.members.map Prod.fst).Nodup := by simp [GlobalWire.members]
  have hdevice : member "capture_device" readText "" wire.write=some wire.captureDevice :=
    member_text hkeys rfl
  have hduck : member "duck_output_while_recording" readBool false wire.write=
      some wire.duckOutputWhileRecording := member_bool hkeys rfl
  have hvolume : member "duck_output_volume" readNumber 0.25 wire.write=
      some wire.duckOutputVolume := member_number hkeys h rfl
  unfold GlobalWire.read
  rw [if_pos (show wire.write.isObject=true from rfl),hdevice,hduck,hvolume]
  rfl

/-- Silence trimming within its bounds is read as it is written. -/
theorem vadWire_read_write {vad : Vad} (h : normalizeVad vad=vad) :
    VadWire.read (Vad.toWire vad).write=some (Vad.toWire vad) := by
  obtain ⟨wire,hwire⟩ : ∃ wire,wire=Vad.toWire vad := ⟨_,rfl⟩
  have hfinite : wire.threshold.isInfinite=false ∧ wire.minSpeechDuration.isInfinite=false ∧
      wire.minSilenceDuration.isInfinite=false := by
    rw [hwire]
    exact ⟨isInfinite_of_clamped (congrArg Vad.threshold h),
      isInfinite_of_clamped (congrArg Vad.minSpeechDuration h),
      isInfinite_of_clamped (congrArg Vad.minSilenceDuration h)⟩
  rw [←hwire]
  have hkeys : (wire.members.map Prod.fst).Nodup := by simp [VadWire.members]
  have henabled : member "enabled" readBool true wire.write=some wire.enabled :=
    member_bool hkeys rfl
  have hthreshold : member "threshold" readNumber 0.35 wire.write=some wire.threshold :=
    member_number hkeys hfinite.1 rfl
  have hspeech : member "min_speech_duration" readNumber 0.10 wire.write=
      some wire.minSpeechDuration := member_number hkeys hfinite.2.1 rfl
  have hsilence : member "min_silence_duration" readNumber 1.2 wire.write=
      some wire.minSilenceDuration := member_number hkeys hfinite.2.2 rfl
  have hpad : member "speech_pad_ms" readInt 500 wire.write=some wire.speechPadMs :=
    member_int hkeys rfl
  unfold VadWire.read
  rw [if_pos (show wire.write.isObject=true from rfl),henabled,hthreshold,hspeech,hsilence,hpad]
  rfl

/-- The registry is read as it was written. -/
theorem registryWire_read_write {wire : RegistryWire} (hurls : wire.baseUrls≠some .null) :
    RegistryWire.read wire.write=some wire := by
  have hkeys : (wire.members.map Prod.fst).Nodup := by simp [RegistryWire.members]
  have hbaseUrls : optional "base_urls" readTree wire.write=some wire.baseUrls :=
    optional_tree hkeys rfl hurls
  unfold RegistryWire.read
  rw [if_pos (show wire.write.isObject=true from rfl),hbaseUrls]
  rfl

/-- A scene is read as it was written. -/
theorem sceneWire_read_write (wire : SceneWire) : SceneWire.read wire.write=some wire := by
  have hkeys : (wire.members.map Prod.fst).Nodup := by simp [SceneWire.members]
  have hid : member "id" readText "" wire.write=some wire.id := member_text hkeys rfl
  have hlabel : optional "label" readText wire.write=some wire.label := optional_text hkeys rfl
  have hprompt : optional "prompt" readText wire.write=some wire.prompt := optional_text hkeys rfl
  have hprovider : optional "provider_id" readText wire.write=some wire.providerId :=
    optional_text hkeys rfl
  have hmodel : optional "model" readText wire.write=some wire.model := optional_text hkeys rfl
  have hcount : optional "count" readInt wire.write=some wire.count := optional_int hkeys rfl
  have htimeout : optional "timeout_ms" readInt wire.write=some wire.timeoutMs :=
    optional_int hkeys rfl
  have hlines : optional "context_lines" readInt wire.write=some wire.contextLines :=
    optional_int hkeys rfl
  have hrawCand : optional "raw_cand" readBool wire.write=some wire.rawCand :=
    optional_bool hkeys rfl
  have hrawPrev : optional "raw_prev" readBool wire.write=some wire.rawPrev :=
    optional_bool hkeys rfl
  unfold SceneWire.read
  rw [if_pos (show wire.write.isObject=true from rfl),hid,hlabel,hprompt,hprovider,hmodel,hcount,
    htimeout,hlines,hrawCand,hrawPrev]
  rfl

end Wires

section Entries

/-- An object without members. -/
theorem eq_of_isEmptyObject {body : Json} (hempty : isEmptyObject body=true) :
    body=.object [] := by
  cases body with
  | object members => rw [List.isEmpty_iff.mp hempty]
  | _ => cases hempty

/-- A service is recovered from its wire form. -/
theorem llmProvider_fromWire_toWire {provider : LlmProvider}
    (hbody : provider.extraBody.isObject=true) :
    (LlmProvider.toWire provider).fromWire {}=provider := by
  obtain ⟨id,baseUrl,apiKey,jsonObject,extraBody⟩ := provider
  have hurl : (given (baseUrl≠"") baseUrl).getD ""=baseUrl :=
    given_getD fun hnot => (not_not.mp hnot).symm
  have hkey : (given (apiKey≠"") apiKey).getD ""=apiKey :=
    given_getD fun hnot => (not_not.mp hnot).symm
  have hjson : (given (jsonObject=false) false).getD true=jsonObject := by
    cases jsonObject <;> rfl
  have hextra : extraBodyOf (given (extraBody.isObject=true ∧ isEmptyObject extraBody=false)
      extraBody)=extraBody := by
    unfold given
    by_cases hempty : isEmptyObject extraBody=true
    · rw [if_neg fun h => Bool.false_ne_true (h.2.symm.trans hempty)]
      exact (eq_of_isEmptyObject hempty).symm
    · rw [if_pos ⟨hbody,Bool.eq_false_of_not_eq_true hempty⟩]
      exact if_pos hbody
  dsimp only [LlmProvider.toWire,LlmProviderWire.fromWire]
  rw [hurl,hkey,hjson,hextra]

/-- The wire form of a service is read back. -/
theorem llmProvider_read_write (provider : LlmProvider) :
    LlmProviderWire.read (LlmProvider.toWire provider).write=some (LlmProvider.toWire provider) := by
  refine llmProviderWire_read_write ?_
  dsimp only [LlmProvider.toWire,given]
  split
  · rename_i hbody
    intro hnull
    rw [Option.some.inj hnull] at hbody
    cases hbody.1
  · exact nofun

theorem fromStrings_ne_null (values : List String) : fromStrings values≠.null := nofun

/-- Environments are not written as null. -/
theorem fromStringMap_ne_null (env : StringMap) : fromStringMap env≠.null := nofun

/-- An adapter is recovered from its wire form. -/
theorem llmAdapter_fromWire_toWire (adapter : LlmAdapter) :
    (LlmAdapter.toWire adapter).fromWire {}=adapter := by
  obtain ⟨id,command,args,env,autoStart⟩ := adapter
  have hauto : (given (autoStart=true) true).getD false=autoStart := by
    cases autoStart <;> rfl
  dsimp only [LlmAdapter.toWire,LlmAdapterWire.fromWire]
  rw [strings_given,stringMap_given,hauto]

/-- The wire form of an adapter is read back. -/
theorem llmAdapter_read_write (adapter : LlmAdapter) :
    LlmAdapterWire.read (LlmAdapter.toWire adapter).write=some (LlmAdapter.toWire adapter) :=
  llmAdapterWire_read_write (given_ne_null (fromStrings_ne_null _))
    (given_ne_null (fromStringMap_ne_null _))

/-- A time limit that is left out is zero. -/
theorem given_timeout {timeoutMs : Int32} (h : 0 ≤ timeoutMs) :
    (given (0<timeoutMs) timeoutMs).getD 0=timeoutMs :=
  given_getD fun hnot => Int32.le_antisymm h (Int32.not_lt.mp hnot)

/-- A provider is recovered from its wire form when its time limit is not negative. -/
theorem asrProvider_fromWire_toWire {provider : AsrProvider}
    (htimeout : 0 ≤ asrProviderTimeoutMs provider) :
    (AsrProvider.toWire provider).fromWire (.localProvider {})=provider := by
  cases provider with
  | localProvider settings =>
    dsimp only [asrProviderTimeoutMs] at htimeout
    obtain ⟨id,timeoutMs,model,hotwordsFile⟩ := settings
    have hmodel : (given (model≠"") model).getD ""=model :=
      given_getD fun hnot => (not_not.mp hnot).symm
    have hhotwords : (given (hotwordsFile≠"") hotwordsFile).getD ""=hotwordsFile :=
      given_getD fun hnot => (not_not.mp hnot).symm
    dsimp only [AsrProvider.toWire,AsrProviderWire.fromWire,asrProviderType,asrProviderId]
    rw [if_pos rfl,hmodel,hhotwords,given_timeout htimeout]
  | commandProvider settings =>
    dsimp only [asrProviderTimeoutMs] at htimeout
    obtain ⟨id,timeoutMs,command,args,env⟩ := settings
    have hcommand : (given (command≠"") command).getD ""=command :=
      given_getD fun hnot => (not_not.mp hnot).symm
    dsimp only [AsrProvider.toWire,AsrProviderWire.fromWire,asrProviderType,asrProviderId]
    rw [if_neg (by decide),if_pos rfl,hcommand,strings_given,stringMap_given,
      given_timeout htimeout]

/-- The wire form of a provider is read back. -/
theorem asrProvider_read_write (provider : AsrProvider) :
    AsrProviderWire.read (AsrProvider.toWire provider).write=
      some (AsrProvider.toWire provider) := by
  cases provider with
  | localProvider settings => exact asrProviderWire_read_write nofun nofun
  | commandProvider settings =>
    exact asrProviderWire_read_write (given_ne_null (fromStrings_ne_null _))
      (given_ne_null (fromStringMap_ne_null _))

/-- What a file keeps of a scene. -/
def writtenScene (scene : Definition) : Definition :=
  {scene with
    label := if isBuiltinSceneId scene.id then "" else scene.label
    builtin := false}

/-- A scene is recovered but for its builtin label. -/
theorem scene_fromWire_toWire {scene : Definition}
    (hlabel : isBuiltinSceneId scene.id=false → isBuiltinSceneLabelKey scene.label=false) :
    (Definition.toWire scene).fromWire {}=writtenScene scene := by
  obtain ⟨id,label,prompt,providerId,model,count,timeoutMs,contextLines,rawCand,rawPrev,builtin⟩ :=
    scene
  have hlabels : (given (label≠"" ∧ isBuiltinSceneLabelKey label=false ∧
      isBuiltinSceneId id=false) label).getD ""=if isBuiltinSceneId id then "" else label := by
    unfold given
    cases hbuiltin : isBuiltinSceneId id with
    | true =>
      rw [if_neg fun h => Bool.false_ne_true h.2.2.symm,if_pos rfl]
      rfl
    | false =>
      rw [if_neg Bool.false_ne_true]
      by_cases hempty : label=""
      · rw [if_neg fun h => h.1 hempty,hempty]
        rfl
      · rw [if_pos ⟨hempty,hlabel hbuiltin,rfl⟩]
        rfl
  have hprompt : (given (prompt≠"") prompt).getD ""=prompt :=
    given_getD fun hnot => (not_not.mp hnot).symm
  have hprovider : (given (providerId≠"") providerId).getD ""=providerId :=
    given_getD fun hnot => (not_not.mp hnot).symm
  have hmodel : (given (model≠"") model).getD ""=model :=
    given_getD fun hnot => (not_not.mp hnot).symm
  have hcount : (given (count≠kDefaultLlmMaxCandidates) count).getD kDefaultLlmMaxCandidates=
      count := given_getD fun hnot => (not_not.mp hnot).symm
  have htimeout : (given (timeoutMs≠kDefaultTimeoutMs) timeoutMs).getD kDefaultTimeoutMs=
      timeoutMs := given_getD fun hnot => (not_not.mp hnot).symm
  have hlines : (given (contextLines≠kDefaultContextLines) contextLines).getD
      kDefaultContextLines=contextLines := given_getD fun hnot => (not_not.mp hnot).symm
  have hrawCand : (given (rawCand=false) false).getD true=rawCand := by cases rawCand <;> rfl
  have hrawPrev : (given (rawPrev=false) false).getD true=rawPrev := by cases rawPrev <;> rfl
  dsimp only [Definition.toWire,SceneWire.fromWire,writtenScene]
  rw [hlabels,hprompt,hprovider,hmodel,hcount,htimeout,hlines,hrawCand,hrawPrev]

end Entries

section Sections

/-- A list is recovered entry by entry. -/
theorem map_toWire_fromWire {α β : Type*} {toWire : α → β} {fromWire : β → α} {entries : List α}
    (each : ∀ entry∈entries, fromWire (toWire entry)=entry) :
    (entries.map toWire).map fromWire=entries := by
  rw [List.map_map]
  exact (List.map_congr_left each).trans (List.map_id entries)

/-- A list of entries that is read back entry by entry. -/
theorem readArray_toWire {α β : Type*} {toWire : α → β} {write : β → Json}
    {read : Json → Option β} {entries : List α}
    (each : ∀ entry, read (write (toWire entry))=some (toWire entry)) :
    readArray read (writeArray write (entries.map toWire))=some (entries.map toWire) := by
  refine readArray_writeArray ?_
  intro wire hwire
  obtain ⟨entry,_,hentry⟩ := List.mem_map.mp hwire
  rw [← hentry]
  exact each entry

theorem registry_recovered {registry : Registry} (hurls : ∀ url∈registry.baseUrls, url≠"") :
    (RegistryWire.read (Registry.toWire registry).write).map RegistryWire.fromWire=
      some registry := by
  have hread : RegistryWire.read (Registry.toWire registry).write=
      some (Registry.toWire registry) :=
    registryWire_read_write (given_ne_null (fromStrings_ne_null registry.baseUrls))
  rw [hread]
  dsimp only [Option.map_some,Registry.toWire,RegistryWire.fromWire]
  rw [strings_given,List.filter_eq_self.mpr fun url hurl => decide_eq_true (hurls url hurl)]

/-- The capture settings are recovered. -/
theorem global_recovered {global : Global} (h : global.duckOutputVolume.isInfinite=false) :
    (GlobalWire.read (Global.toWire global).write).map GlobalWire.fromWire=some global := by
  have hwire : (Global.toWire global).duckOutputVolume.isInfinite=false := h
  rw [globalWire_read_write hwire]
  rfl

/-- The language models are recovered. -/
theorem llm_recovered {llm : Llm}
    (hbodies : ∀ provider∈llm.providers, provider.extraBody.isObject=true) :
    (LlmWire.read (Llm.toWire llm).write).map (fun wire => wire.fromWire {})=some llm := by
  have hkeys : ((Llm.toWire llm).members.map Prod.fst).Nodup := by simp [LlmWire.members]
  have hproviders : optional "providers" (readArray LlmProviderWire.read) (Llm.toWire llm).write=
      some (Llm.toWire llm).providers := by
    refine optional_ofMembers hkeys rfl ?_
    intro written hwritten
    cases hwritten
    exact ⟨readArray_toWire llmProvider_read_write,nofun⟩
  have hadapters : optional "adapters" (readArray LlmAdapterWire.read) (Llm.toWire llm).write=
      some (Llm.toWire llm).adapters := by
    refine optional_ofMembers hkeys rfl ?_
    intro written hwritten
    cases hwritten
    exact ⟨readArray_toWire llmAdapter_read_write,nofun⟩
  have hread : LlmWire.read (Llm.toWire llm).write=some (Llm.toWire llm) := by
    unfold LlmWire.read
    rw [if_pos (show (Llm.toWire llm).write.isObject=true from rfl),hproviders,hadapters]
    rfl
  rw [hread]
  dsimp only [Option.map_some,Llm.toWire,LlmWire.fromWire,Option.getD_some]
  rw [map_toWire_fromWire fun provider hprovider =>
      llmProvider_fromWire_toWire (hbodies provider hprovider),
    map_toWire_fromWire fun adapter _ => llmAdapter_fromWire_toWire adapter]

theorem asr_recovered {asr : Asr} (hgain : asr.inputGain.isInfinite=false)
    (hvad : normalizeVad asr.vad=asr.vad)
    (htimeouts : ∀ provider∈asr.providers, 0 ≤ asrProviderTimeoutMs provider) :
    (AsrWire.read (Asr.toWire asr).write).map (fun wire => wire.fromWire {})=some asr := by
  have hkeys : ((Asr.toWire asr).members.map Prod.fst).Nodup := by simp [AsrWire.members]
  have hactive : member "active_provider" readText "" (Asr.toWire asr).write=
      some (Asr.toWire asr).activeProvider := member_text hkeys rfl
  have hnormalize : member "normalize_audio" readBool true (Asr.toWire asr).write=
      some (Asr.toWire asr).normalizeAudio := member_bool hkeys rfl
  have hgain : member "input_gain" readNumber 1.0 (Asr.toWire asr).write=
      some (Asr.toWire asr).inputGain := member_number hkeys hgain rfl
  have hvad : optional "vad" VadWire.read (Asr.toWire asr).write=some (Asr.toWire asr).vad :=
    optional_ofMembers hkeys rfl fun written hwritten =>
      ⟨Option.some.inj hwritten ▸ vadWire_read_write hvad,nofun⟩
  have hproviders : optional "providers" (readArray AsrProviderWire.read) (Asr.toWire asr).write=
      some (Asr.toWire asr).providers := by
    refine optional_ofMembers hkeys rfl ?_
    intro written hwritten
    cases hwritten
    exact ⟨readArray_toWire asrProvider_read_write,nofun⟩
  have hread : AsrWire.read (Asr.toWire asr).write=some (Asr.toWire asr) := by
    unfold AsrWire.read
    rw [if_pos (show (Asr.toWire asr).write.isObject=true from rfl),hactive,hnormalize,hgain,hvad,
      hproviders]
    rfl
  rw [hread]
  dsimp only [Option.map_some,Asr.toWire,AsrWire.fromWire,Option.getD_some,Vad.toWire,
    VadWire.fromWire]
  rw [map_toWire_fromWire fun provider hprovider =>
    asrProvider_fromWire_toWire (htimeouts provider hprovider)]

/-- What a file keeps of the scenes. -/
def writtenScenes (scenes : Scenes) : Scenes :=
  {scenes with definitions := scenes.definitions.map writtenScene}

/-- The scenes are recovered but for builtin labels. -/
theorem scenes_recovered {scenes : Scenes}
    (hlabels : ∀ scene∈scenes.definitions, isBuiltinSceneId scene.id=false →
      isBuiltinSceneLabelKey scene.label=false) :
    (ScenesWire.read (Scenes.toWire scenes).write).map (fun wire => wire.fromWire {})=
      some (writtenScenes scenes) := by
  have hkeys : ((Scenes.toWire scenes).members.map Prod.fst).Nodup := by simp [ScenesWire.members]
  have hactive : member "active_scene" readText "" (Scenes.toWire scenes).write=
      some (Scenes.toWire scenes).activeScene := member_text hkeys rfl
  have hdefinitions : optional "definitions" (readArray SceneWire.read)
      (Scenes.toWire scenes).write=some (Scenes.toWire scenes).definitions := by
    refine optional_ofMembers hkeys rfl ?_
    intro written hwritten
    cases hwritten
    exact ⟨readArray_toWire fun scene => sceneWire_read_write (Definition.toWire scene),nofun⟩
  have hread : ScenesWire.read (Scenes.toWire scenes).write=some (Scenes.toWire scenes) := by
    unfold ScenesWire.read
    rw [if_pos (show (Scenes.toWire scenes).write.isObject=true from rfl),hactive,hdefinitions]
    rfl
  rw [hread]
  dsimp only [Option.map_some,Scenes.toWire,ScenesWire.fromWire,Option.getD_some,writtenScenes]
  rw [List.map_map]
  exact congrArg (fun definitions => some (Scenes.mk scenes.activeScene definitions))
    (List.map_congr_left fun scene hscene => scene_fromWire_toWire (hlabels scene hscene))

/-- Clients that are left out when there are none. -/
theorem clients_recovered {root : Json} {key : String} (clients : List ClientSpec)
    (hfind : root.find key=(given (clients≠[]) (clients.map LlmAdapter.toWire)).map
      (writeArray LlmAdapterWire.write)) :
    ((readSection (readArray LlmAdapterWire.read) root key).getD []).map
      (fun entry => entry.fromWire {})=clients := by
  unfold readSection
  rw [hfind]
  unfold given
  split
  · dsimp only [Option.map_some,Option.bind_some]
    rw [readArray_toWire llmAdapter_read_write]
    exact map_toWire_fromWire fun adapter _ => llmAdapter_fromWire_toWire adapter
  · rename_i hempty
    exact (not_not.mp hempty).symm

end Sections

section Files

/-- A scene without its label if it is builtin. -/
def withoutBuiltinLabel (scene : Definition) : Definition :=
  {scene with label := if isBuiltinSceneId scene.id then "" else scene.label}

/-- A configuration without the labels of its builtin scenes. -/
def withoutBuiltinLabels (config : CoreConfig) : CoreConfig :=
  {config with scenes := {config.scenes with
    definitions := config.scenes.definitions.map withoutBuiltinLabel}}

/-- What the wire forms can hold. -/
structure Writable (config : CoreConfig) : Prop where
  /-- Time limits of providers are not negative. -/
  timeouts : ∀ provider∈config.asr.providers, 0 ≤ asrProviderTimeoutMs provider
  /-- What is added to a request is an object. -/
  bodies : ∀ provider∈config.llm.providers, provider.extraBody.isObject=true
  /-- Scenes are flagged by their identity. -/
  flags : ∀ scene∈config.scenes.definitions, scene.builtin=isBuiltinSceneId scene.id
  /-- Only builtin scenes are labelled by a key. -/
  labels : ∀ scene∈config.scenes.definitions, scene.builtin=false →
    isBuiltinSceneLabelKey scene.label=false

/-- What a file keeps of a configuration. -/
def written (config : CoreConfig) : CoreConfig :=
  {config with scenes := writtenScenes config.scenes}

/-- A written configuration is read back. -/
theorem written_recovered {config : CoreConfig} (normal : Normal config)
    (writable : Writable config) :
    coreConfigFromJson (coreConfigToJson config)=.ok (written config) := by
  have hkeys : ((CoreConfig.toWire config).members.map Prod.fst).Nodup := by
    simp [CoreConfigWire.members]
  have hfind : ∀ key, (CoreConfig.toWire config).write.find key=
      ((CoreConfig.toWire config).members.lookup key).join := find_ofMembers hkeys
  have hurls : ∀ url∈config.registry.baseUrls, url≠"" := fun url hurl =>
    (named_eq_some.mp (normal.baseUrls.accepted url hurl).1).1
  have hlabels : ∀ scene∈config.scenes.definitions, isBuiltinSceneId scene.id=false →
      isBuiltinSceneLabelKey scene.label=false := fun scene hscene hid =>
    writable.labels scene hscene ((writable.flags scene hscene).trans hid)
  have hregistry : (readSection RegistryWire.read (CoreConfig.toWire config).write "registry").map
      RegistryWire.fromWire=some config.registry := by
    unfold readSection
    rw [hfind]
    exact registry_recovered hurls
  have hglobal : (readSection GlobalWire.read (CoreConfig.toWire config).write "global").map
      GlobalWire.fromWire=some config.global := by
    unfold readSection
    rw [hfind]
    exact global_recovered normal.volume_finite
  have hllm : (readSection LlmWire.read (CoreConfig.toWire config).write "llm").map
      (fun wire => wire.fromWire {})=some config.llm := by
    unfold readSection
    rw [hfind]
    exact llm_recovered writable.bodies
  have hscenes : (readSection ScenesWire.read (CoreConfig.toWire config).write "scenes").map
      (fun wire => wire.fromWire {})=some (writtenScenes config.scenes) := by
    unfold readSection
    rw [hfind]
    exact scenes_recovered hlabels
  have hasr : (readSection AsrWire.read (CoreConfig.toWire config).write "asr").map
      (fun wire => wire.fromWire {})=some config.asr := by
    unfold readSection
    rw [hfind]
    exact asr_recovered normal.gain_finite normal.vad writable.timeouts
  have htriggers := clients_recovered config.triggers (hfind "triggers")
  have hreceivers := clients_recovered config.receivers (hfind "receivers")
  dsimp only [coreConfigToJson,coreConfigFromJson]
  rw [if_pos (show (CoreConfig.toWire config).write.isObject=true from rfl)]
  unfold parseRoot
  rw [hregistry,hglobal,hllm,hscenes,hasr,htriggers,hreceivers,hfind]
  rfl

/-- A label does not matter to normalisation. -/
theorem promptedScene_withoutBuiltinLabel (scene : Definition) :
    promptedScene (withoutBuiltinLabel scene)=withoutBuiltinLabel (promptedScene scene) := by
  by_cases hprompt : scene.id=kCommandSceneId ∧ (scene.prompt="" ∨
      scene.prompt=kLegacyCommandPrompt ∨ scene.prompt=kShortTagCommandPrompt)
  · have hbefore : promptedScene scene=
        {normalizeDefinition scene with prompt := kDefaultCommandPrompt} := if_pos hprompt
    rw [hbefore]
    exact if_pos hprompt
  · have hbefore : promptedScene scene=normalizeDefinition scene := if_neg hprompt
    rw [hbefore]
    exact if_neg hprompt

/-- A scene stays prepared without its builtin label. -/
theorem prepareScene_withoutBuiltinLabel {scene : Definition}
    (h : prepareScene scene=some scene) :
    prepareScene (withoutBuiltinLabel scene)=some (withoutBuiltinLabel scene) := by
  obtain ⟨hprompted,hvalid⟩ := prepareScene_eq_some.mp h
  refine prepareScene_eq_some.mpr ⟨?_,hvalid⟩
  rw [promptedScene_withoutBuiltinLabel,← hprompted]

/-- A scene is prepared the same without its label and its flag. -/
theorem prepareScene_writtenScene {scene : Definition}
    (hflag : scene.builtin=isBuiltinSceneId scene.id) :
    prepareScene (writtenScene scene)=prepareScene (withoutBuiltinLabel scene) := by
  have hnormal : normalizeDefinition (writtenScene scene)=
      normalizeDefinition (withoutBuiltinLabel scene) := by
    dsimp only [normalizeDefinition,writtenScene,withoutBuiltinLabel]
    rw [hflag,Bool.or_false,Bool.or_self]
  unfold prepareScene promptedScene
  rw [hnormal]

theorem sceneIds_withoutBuiltinLabel (definitions : List Definition) :
    sceneIds (definitions.map withoutBuiltinLabel)=sceneIds definitions := by
  unfold sceneIds
  rw [List.map_map]
  rfl

/-- A scene is found with its label or without. -/
theorem findScene_withoutBuiltinLabel (definitions : List Definition) (id : String) :
    (findScene (definitions.map withoutBuiltinLabel) id).isSome=
      (findScene definitions id).isSome := by
  unfold findScene
  rw [List.find?_map,Option.isSome_map]
  rfl

/-- Labels do not matter to a normal configuration. -/
theorem normal_withoutBuiltinLabels {config : CoreConfig} (normal : Normal config) :
    Normal (withoutBuiltinLabels config) := by
  have hids : sceneIds (withoutBuiltinLabels config).scenes.definitions=
      sceneIds config.scenes.definitions := sceneIds_withoutBuiltinLabel config.scenes.definitions
  refine ⟨normal.baseUrls,normal.duckOutputVolume,normal.llmProviders,normal.adapters,
    normal.asrProviders,normal.activeProvider,normal.inputGain,normal.vad,?_,?_,?_,?_,
    normal.triggers,normal.receivers⟩
  · refine normal.scenes.map (fun _ => rfl) ?_
    intro scene hprepared _
    exact ⟨prepareScene_withoutBuiltinLabel hprepared,rfl⟩
  · rw [hids]
    exact normal.rawScene
  · rw [hids]
    exact normal.commandScene
  · dsimp only [withoutBuiltinLabels]
    rw [findScene_withoutBuiltinLabel]
    exact normal.activeScene

/-- What a file keeps is completed by normalisation. -/
theorem normalizeCoreConfig_written {config : CoreConfig} (normal : Normal config)
    (hflags : ∀ scene∈config.scenes.definitions, scene.builtin=isBuiltinSceneId scene.id) :
    normalizeCoreConfig (written config)=withoutBuiltinLabels config := by
  have hscenes : normalizeScenes (config.scenes.definitions.map writtenScene)=
      normalizeScenes (config.scenes.definitions.map withoutBuiltinLabel) := by
    unfold normalizeScenes
    rw [keepFirst_map_congr fun scene hscene => prepareScene_writtenScene (hflags scene hscene)]
  have hsame : normalizeCoreConfig (written config)=
      normalizeCoreConfig (withoutBuiltinLabels config) := by
    dsimp only [normalizeCoreConfig,written,writtenScenes,withoutBuiltinLabels]
    rw [hscenes]
  rw [hsame]
  exact normalizeCoreConfig_of_normal (normal_withoutBuiltinLabels normal)

theorem withoutBuiltinLabels_idem (config : CoreConfig) :
    withoutBuiltinLabels (withoutBuiltinLabels config)=withoutBuiltinLabels config := by
  have hscene : ∀ scene, withoutBuiltinLabel (withoutBuiltinLabel scene)=
      withoutBuiltinLabel scene := by
    intro scene
    dsimp only [withoutBuiltinLabel]
    split <;> rfl
  dsimp only [withoutBuiltinLabels]
  rw [List.map_map]
  exact congrArg (fun definitions => {config with scenes := {config.scenes with
    definitions := definitions}}) (List.map_congr_left fun scene _ => hscene scene)

/-- A normalised configuration is recovered from its file, up to the labels
of builtin scenes. -/
theorem config_round_trip (source : CoreConfig) (writable : Writable (normalizeCoreConfig source)) :
    ∃ parsed, coreConfigFromJson (coreConfigToJson (normalizeCoreConfig source))=.ok parsed ∧
      withoutBuiltinLabels (normalizeCoreConfig parsed)=
        withoutBuiltinLabels (normalizeCoreConfig source) := by
  have hnormal := normal_normalizeCoreConfig source
  refine ⟨written (normalizeCoreConfig source),written_recovered hnormal writable,?_⟩
  rw [normalizeCoreConfig_written hnormal writable.flags,withoutBuiltinLabels_idem]

/-- A configuration with an entry of every kind. -/
def sampleConfig : CoreConfig :=
  {registry := ⟨["mirror","mirror"]⟩
   llm :=
    ⟨[{id := "cloud",apiKey := "key",extraBody := .object [("temperature",.number 0.5)]}],
      [{id := "bridge",command := "run",args := ["-v"]}]⟩
   asr :=
    {activeProvider := "sherpa"
     providers :=
      [.localProvider {id := "sherpa",timeoutMs := 5000,model := "zipformer"},
        .commandProvider {id := "shell",command := "listen"}]}
   scenes := ⟨"polish",[{id := "polish",label := "Polish",prompt := "Fix typos."}]⟩
   triggers := [{id := "key",command := "watch",autoStart := true}]}

/-- Such a configuration is recovered. -/
theorem sample_round_trip :
    ∃ parsed, coreConfigFromJson (coreConfigToJson (normalizeCoreConfig sampleConfig))=.ok parsed ∧
      withoutBuiltinLabels (normalizeCoreConfig parsed)=
        withoutBuiltinLabels (normalizeCoreConfig sampleConfig) :=
  config_round_trip sampleConfig
    ⟨by decide +kernel,by decide +kernel,by decide +kernel,by decide +kernel⟩

end Files

end Vinput.CoreConfigRoundTrip
