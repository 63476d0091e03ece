import Vinput.CoreConfigNormalize
import Vinput.SignatureText

/-!
# Which settings a backend is made of

Creating a recognition backend reads the active provider, the model it names
and, for a model that sherpa-onnx runs offline, the settings of the silence
trimming. A reload is skipped when the runtime signatures agree, so every
setting that is read should be told by the signature.
-/

namespace Vinput.BackendFactory

open CoreConfigTypes CoreConfigNormalize SignatureText
open AsrSettings (quoted)
open JsonTree (Double)

section Factory

variable {Info : Type*}

/-- What the daemon is built with and what is installed beside it; `Info` is
the metadata of a model. -/
structure Host (Info : Type*) where
  /-- Local models are compiled in. -/
  enableLocalAsr : Bool
  /-- Check of the files of a model. -/
  ensureModels : String → Except String Unit
  /-- Metadata of a model. -/
  getModelInfo : String → Except String Info
  /-- Engine that the metadata names. -/
  backend : Info → String
  /-- Language hint of the metadata. -/
  runtimeLanguageHint : Info → String
  /-- A translated message with a text filled in. -/
  sprintf : String → String → String
  /-- The model of the silence trimming. -/
  vadModelPath : String
  /-- The value of a number in single precision. -/
  toFloat : Double → Double

/-- Settings that a local model runs with. -/
structure AsrConfig where
  /-- Language hint. -/
  language : String
  /-- Hotword list. -/
  hotwordsFile : String
  /-- Number of threads. -/
  threadNum : Int32 := 4
  /-- Silence is trimmed. -/
  vadEnabled : Bool := true
  /-- Model of the silence trimming. -/
  vadModelPath : String := ""
  /-- Probability above which a frame is speech. -/
  vadThreshold : Double := 0.35
  /-- Shortest speech in seconds. -/
  vadMinSpeechDuration : Double := 0.10
  /-- Shortest silence in seconds. -/
  vadMinSilenceDuration : Double := 1.2
  /-- Padding around speech in milliseconds. -/
  vadSpeechPadMs : Int32 := 500

/-- A backend holds all settings that it and its sessions read. -/
inductive Backend (Info : Type*) where
  | sherpaOffline (modelInfo : Info) (asrConfig : AsrConfig) (providerId : String)
  | sherpaStreaming (modelInfo : Info) (asrConfig : AsrConfig) (providerId : String)
  | commandStreaming (provider : CommandAsrProvider)
  | commandBatch (provider : CommandAsrProvider)

/-- The provider that a configuration selects. -/
def activeAsrProvider (config : CoreConfig) : Option AsrProvider :=
  findAsrProvider config.asr.providers config.asr.activeProvider

/-- Metadata of the model of a provider, and the settings that all local
engines share. -/
def loadLocalAsrModelContext (host : Host Info) (provider : LocalAsrProvider) :
    Except String (Info×AsrConfig) :=
  if provider.model="" then
    .error (host.sprintf "Local ASR model configuration is missing for provider '%s'."
      provider.id)
  else
    match host.ensureModels provider.model with
    | .error message =>
      .error (host.sprintf "Local ASR model check failed for provider '%s'." provider.id++"\n"++
        message)
    | .ok _ =>
      match host.getModelInfo provider.model with
      | .error message =>
        .error ("Failed to read local ASR model metadata for provider '"++provider.id++"': "++
          message)
      | .ok info =>
        .ok (info,
          {language := host.runtimeLanguageHint info,hotwordsFile := provider.hotwordsFile})

/-- The offline engine adds the settings of the silence trimming. -/
def createSherpaOfflineBackend (host : Host Info) (config : CoreConfig)
    (provider : LocalAsrProvider) (context : Info×AsrConfig) : Backend Info :=
  .sherpaOffline context.1
    {context.2 with
      vadEnabled := config.asr.vad.enabled
      vadModelPath := host.vadModelPath
      vadThreshold := host.toFloat config.asr.vad.threshold
      vadMinSpeechDuration := host.toFloat config.asr.vad.minSpeechDuration
      vadMinSilenceDuration := host.toFloat config.asr.vad.minSilenceDuration
      vadSpeechPadMs := config.asr.vad.speechPadMs}
    provider.id

/-- The streaming engine does not trim. -/
def createSherpaStreamingBackend (provider : LocalAsrProvider) (context : Info×AsrConfig) :
    Backend Info :=
  .sherpaStreaming context.1 {context.2 with vadEnabled := false,vadModelPath := ""} provider.id

/-- Engine of a model; the offline one unless the metadata names another. -/
def backendId (host : Host Info) (info : Info) : String :=
  if host.backend info="" then "sherpa-offline" else host.backend info

/-- The backend of a local provider. -/
def createLocalBackend (host : Host Info) (config : CoreConfig) (provider : LocalAsrProvider) :
    Except String (Backend Info) :=
  if host.enableLocalAsr=false then
    .error "Local ASR support is disabled in this Lite build."
  else
    match loadLocalAsrModelContext host provider with
    | .error message => .error message
    | .ok context =>
      if backendId host context.1="sherpa-offline" then
        .ok (createSherpaOfflineBackend host config provider context)
      else if backendId host context.1="sherpa-streaming" then
        .ok (createSherpaStreamingBackend provider context)
      else
        .error ("Unsupported local ASR backend '"++backendId host context.1++"' for provider '"++
          provider.id++"'.")

/-- Streaming commands are told by their identity. -/
def isStreamingCommandProvider (provider : CommandAsrProvider) : Bool :=
  ".streaming".toList.isSuffixOf provider.id.toList

/-- The backend of a command provider. -/
def createCommandBackend (provider : CommandAsrProvider) : Except String (Backend Info) :=
  if provider.command="" then .error "Command ASR provider has empty command."
  else if isStreamingCommandProvider provider then .ok (.commandStreaming provider)
  else .ok (.commandBatch provider)

/-- The backend of the active provider. -/
def createBackend (host : Host Info) (config : CoreConfig) : Except String (Backend Info) :=
  match activeAsrProvider config with
  | none => .error "Active ASR provider not found."
  | some (.localProvider provider) => createLocalBackend host config provider
  | some (.commandProvider provider) => createCommandBackend provider

end Factory

section Signature

/-- A provider as the signature takes it. -/
def signed : AsrProvider → AsrSettings.AsrProvider
  | .localProvider provider =>
    .localProvider ⟨provider.id,provider.timeoutMs.toInt,provider.model,provider.hotwordsFile⟩
  | .commandProvider provider =>
    .commandProvider
      ⟨provider.id,provider.timeoutMs.toInt,provider.command,provider.args,provider.env⟩

/-- The part of the configuration that the signature is built from. -/
def asrSettings (config : CoreConfig) : AsrSettings.CoreConfig :=
  ⟨config.asr.activeProvider,config.asr.vad.enabled,config.asr.providers.map signed⟩

/-- The runtime signature of a configuration. -/
def buildRuntimeSignature (config : CoreConfig) : List UInt8 :=
  AsrSettings.buildRuntimeSignature (asrSettings config)

/-- A signed provider keeps its identity. -/
theorem asrProviderId_signed (provider : AsrProvider) :
    AsrSettings.asrProviderId (signed provider)=asrProviderId provider := by
  cases provider <;> rfl

/-- The active provider is the one that is signed. -/
theorem activeAsrProvider_asrSettings (config : CoreConfig) :
    AsrSettings.activeAsrProvider (asrSettings config)=
      (activeAsrProvider config).map signed := by
  have hactive : (asrSettings config).activeProvider=config.asr.activeProvider := rfl
  have hproviders : (asrSettings config).providers=config.asr.providers.map signed := rfl
  rw [AsrSettings.activeAsrProvider,AsrSettings.findAsrProvider,activeAsrProvider,
    findAsrProvider,hactive,hproviders]
  by_cases hempty : config.asr.activeProvider=""
  · rw [if_pos hempty,if_pos hempty]
    rfl
  · rw [if_neg hempty,if_neg hempty,List.find?_map]
    simp only [Function.comp_def,asrProviderId_signed]

end Signature

section Reading

variable {Info : Type*}

/-- The settings that are read on each way of creating a backend, by the
factory or by the backend itself. The other providers are only searched for
the active identity. -/
inductive Reading where
  | nothing
  | lite (activeProvider : String)
  | noModel (id : String)
  | unusable (id model : String)
  | unsupported (id model hotwordsFile : String)
  | streaming (id model hotwordsFile : String)
  | offline (id model hotwordsFile : String) (vad : Vad)
  | noCommand (id : String)
  | command (provider : CommandAsrProvider)

/-- What is read of a local provider and the silence trimming. -/
def readLocal (host : Host Info) (config : CoreConfig) (provider : LocalAsrProvider) : Reading :=
  if host.enableLocalAsr=false then .lite provider.id
  else if provider.model="" then .noModel provider.id
  else
    match loadLocalAsrModelContext host provider with
    | .error _ => .unusable provider.id provider.model
    | .ok context =>
      if backendId host context.1="sherpa-offline" then
        .offline provider.id provider.model provider.hotwordsFile config.asr.vad
      else if backendId host context.1="sherpa-streaming" then
        .streaming provider.id provider.model provider.hotwordsFile
      else .unsupported provider.id provider.model provider.hotwordsFile

/-- What is read of a command provider. -/
def readCommand (provider : CommandAsrProvider) : Reading :=
  if provider.command="" then .noCommand provider.id else .command provider

/-- Every setting that is read when the backend of a configuration is
created and used. -/
def reading (host : Host Info) (config : CoreConfig) : Reading :=
  match activeAsrProvider config with
  | none => .nothing
  | some (.localProvider provider) => readLocal host config provider
  | some (.commandProvider provider) => readCommand provider

/-- The texts among the settings. -/
def Reading.texts : Reading → List String
  | .nothing => []
  | .lite activeProvider => [activeProvider]
  | .noModel id => [id]
  | .unusable id model => [id,model]
  | .unsupported id model hotwordsFile => [id,model,hotwordsFile]
  | .streaming id model hotwordsFile => [id,model,hotwordsFile]
  | .offline id model hotwordsFile _ => [id,model,hotwordsFile]
  | .noCommand id => [id]
  | .command provider =>
    provider.id::provider.command::(provider.args++
      (provider.env.entries.map Prod.fst++provider.env.entries.map Prod.snd))

/-- The numbers of the silence trimming, where they are read. -/
def Reading.vadNumbers : Reading → Option (Double×Double×Double×Int32)
  | .offline _ _ _ vad =>
    some (vad.threshold,vad.minSpeechDuration,vad.minSilenceDuration,vad.speechPadMs)
  | _ => none

/-- Two texts agree, or the writer of the signature tells them apart. -/
def Told (left right : String) : Prop := left=right ∨ Plain left ∧ Plain right

theorem told_refl (texts : List String) : List.Forall₂ Told texts texts :=
  List.forall₂_same.mpr fun _ _ => .inl rfl

/-- Texts that tell each other and are quoted alike are the same. -/
theorem Told.eq {left right : String} (h : Told left right) (hquoted : quoted left=quoted right) :
    left=right := by
  rcases h with heq | ⟨hleft,hright⟩
  · exact heq
  · exact quoted_inj hleft hright hquoted

theorem told_map_eq {left right : List String} (h : List.Forall₂ Told left right)
    (hquoted : left.map quoted=right.map quoted) : left=right := by
  induction h with
  | nil => rfl
  | cons hhead _ ih =>
    obtain ⟨hfirst,hrest⟩ := List.cons.inj hquoted
    rw [hhead.eq hfirst,ih hrest]

/-- A configuration with one provider, which is active. -/
def onlyProvider (vad : Vad) (provider : AsrProvider) : CoreConfig :=
  {asr := {activeProvider := asrProviderId provider,vad := vad,providers := [provider]}}

/-- A configuration that has the settings that were read and nothing else. -/
def Reading.config : Reading → CoreConfig
  | .nothing => {}
  | .lite activeProvider => onlyProvider {} (.localProvider {id := activeProvider})
  | .noModel id => onlyProvider {} (.localProvider {id := id})
  | .unusable id model => onlyProvider {} (.localProvider {id := id,model := model})
  | .unsupported id model hotwordsFile =>
    onlyProvider {} (.localProvider {id := id,model := model,hotwordsFile := hotwordsFile})
  | .streaming id model hotwordsFile =>
    onlyProvider {} (.localProvider {id := id,model := model,hotwordsFile := hotwordsFile})
  | .offline id model hotwordsFile vad =>
    onlyProvider vad (.localProvider {id := id,model := model,hotwordsFile := hotwordsFile})
  | .noCommand id => onlyProvider {} (.commandProvider {id := id})
  | .command provider => onlyProvider {} (.commandProvider provider)

/-- An active provider has an identity. -/
theorem activeAsrProvider_id {config : CoreConfig} {provider : AsrProvider}
    (h : activeAsrProvider config=some provider) : asrProviderId provider≠"" := by
  rw [activeAsrProvider,findAsrProvider] at h
  split_ifs at h with hempty
  have hid := List.find?_some h
  simp only [decide_eq_true_eq] at hid
  rw [hid]
  exact hempty

/-- A provider that is alone is the active one. -/
theorem activeAsrProvider_onlyProvider {vad : Vad} {provider : AsrProvider}
    (h : asrProviderId provider≠"") :
    activeAsrProvider (onlyProvider vad provider)=some provider := by
  simp [activeAsrProvider,findAsrProvider,onlyProvider,h]

/-- The time limit of a local provider is not read, and its hotword list only
once the model is loaded. -/
theorem load_error_congr {host : Host Info} {provider other : LocalAsrProvider}
    {message : String} (hid : provider.id=other.id) (hmodel : provider.model=other.model)
    (h : loadLocalAsrModelContext host provider=.error message) :
    loadLocalAsrModelContext host other=.error message := by
  simp only [loadLocalAsrModelContext,hid,hmodel] at h ⊢
  split_ifs at h ⊢ with hempty
  · exact h
  · cases hensure : host.ensureModels other.model with
    | error reason => simpa [hensure] using h
    | ok _ =>
      cases hinfo : host.getModelInfo other.model with
      | error reason => simpa [hensure,hinfo] using h
      | ok info => simp [hensure,hinfo] at h

/-- A model is loaded by identity, model and hotwords only. -/
theorem load_congr (host : Host Info) {provider other : LocalAsrProvider}
    (hid : provider.id=other.id) (hmodel : provider.model=other.model)
    (hhotwords : provider.hotwordsFile=other.hotwordsFile) :
    loadLocalAsrModelContext host provider=loadLocalAsrModelContext host other := by
  simp only [loadLocalAsrModelContext,hid,hmodel,hhotwords]

/-- A local provider is what is created and read. -/
theorem createBackend_local {host : Host Info} {config : CoreConfig} {provider : LocalAsrProvider}
    (h : activeAsrProvider config=some (.localProvider provider)) :
    createBackend host config=createLocalBackend host config provider ∧
      reading host config=readLocal host config provider := by
  rw [createBackend,reading,h]
  exact ⟨rfl,rfl⟩

theorem createBackend_command {host : Host Info} {config : CoreConfig}
    {provider : CommandAsrProvider}
    (h : activeAsrProvider config=some (.commandProvider provider)) :
    createBackend host config=createCommandBackend provider ∧
      reading host config=readCommand provider := by
  rw [createBackend,reading,h]
  exact ⟨rfl,rfl⟩

/-- A local backend is created from what is read of its settings. -/
theorem createLocalBackend_reading (host : Host Info) (config : CoreConfig)
    {provider : LocalAsrProvider} (hid : provider.id≠"") :
    createLocalBackend host config provider=
      createBackend host (readLocal host config provider).config := by
  have honly : ∀ (vad : Vad) (other : LocalAsrProvider), other.id=provider.id →
      createBackend host (onlyProvider vad (.localProvider other))=
        createLocalBackend host (onlyProvider vad (.localProvider other)) other := by
    intro vad other hother
    refine (createBackend_local (activeAsrProvider_onlyProvider ?_)).1
    exact fun hempty => hid (hother ▸ hempty)
  by_cases hlite : host.enableLocalAsr=false
  · rw [readLocal,if_pos hlite,Reading.config,honly]
    · simp [createLocalBackend,hlite]
    · rfl
  by_cases hmodel : provider.model=""
  · rw [readLocal,if_neg hlite,if_pos hmodel,Reading.config,honly]
    · simp [createLocalBackend,hlite,loadLocalAsrModelContext,hmodel]
    · rfl
  rw [readLocal,if_neg hlite,if_neg hmodel]
  cases hload : loadLocalAsrModelContext host provider with
  | error message =>
    have hother : loadLocalAsrModelContext host ⟨provider.id,0,provider.model,""⟩=
        .error message := by
      refine load_error_congr ?_ ?_ hload <;> rfl
    dsimp only [Reading.config]
    rw [honly]
    · simp [createLocalBackend,hlite,hload,hother]
    · rfl
  | ok context =>
    have hother : loadLocalAsrModelContext host
        ⟨provider.id,0,provider.model,provider.hotwordsFile⟩=.ok context := by
      rw [← hload]
      exact load_congr host rfl rfl rfl
    by_cases hoffline : backendId host context.1="sherpa-offline"
    · dsimp only
      rw [if_pos hoffline,Reading.config,honly]
      · simp [createLocalBackend,hlite,hload,hother,hoffline,createSherpaOfflineBackend,
          onlyProvider]
      · rfl
    by_cases hstreaming : backendId host context.1="sherpa-streaming"
    · dsimp only
      rw [if_neg hoffline,if_pos hstreaming,Reading.config,honly]
      · simp [createLocalBackend,hlite,hload,hother,hstreaming,createSherpaStreamingBackend]
      · rfl
    · dsimp only
      rw [if_neg hoffline,if_neg hstreaming,Reading.config,honly]
      · simp [createLocalBackend,hlite,hload,hother,hoffline,hstreaming]
      · rfl

theorem createCommandBackend_reading (host : Host Info) {provider : CommandAsrProvider}
    (hid : provider.id≠"") :
    (createCommandBackend provider : Except String (Backend Info))=
      createBackend host (readCommand provider).config := by
  have honly : ∀ other : CommandAsrProvider, other.id=provider.id →
      createBackend host (onlyProvider {} (.commandProvider other))=
        createCommandBackend other := by
    intro other hother
    refine (createBackend_command (activeAsrProvider_onlyProvider ?_)).1
    exact fun hempty => hid (hother ▸ hempty)
  by_cases hempty : provider.command=""
  · rw [readCommand,if_pos hempty,Reading.config,honly]
    · simp [createCommandBackend,hempty]
    · rfl
  · rw [readCommand,if_neg hempty,Reading.config,honly]
    rfl

/-- Creating a backend depends on nothing but what is read. -/
theorem createBackend_reading (host : Host Info) (config : CoreConfig) :
    createBackend host config=createBackend host (reading host config).config := by
  cases hactive : activeAsrProvider config with
  | none =>
    rw [createBackend,reading,hactive]
    rfl
  | some provider =>
    have hid := activeAsrProvider_id hactive
    cases provider with
    | localProvider provider =>
      rw [(createBackend_local hactive).1,(createBackend_local hactive).2]
      exact createLocalBackend_reading host config hid
    | commandProvider provider =>
      rw [(createBackend_command hactive).1,(createBackend_command hactive).2]
      exact createCommandBackend_reading host hid

end Reading

section Skipping

variable {Info : Type*}

/-- Environments with the same written members have the same written keys
and values. -/
theorem entries_quoted {left right : List (String×String)}
    (h : left.map entryText=right.map entryText) :
    (left.map Prod.fst).map quoted=(right.map Prod.fst).map quoted ∧
      (left.map Prod.snd).map quoted=(right.map Prod.snd).map quoted := by
  induction left generalizing right with
  | nil =>
    cases right with
    | nil => exact ⟨rfl,rfl⟩
    | cons entry rest => simp at h
  | cons entry rest ih =>
    cases right with
    | nil => simp at h
    | cons other others =>
      obtain ⟨hentry,hrest⟩ := List.cons.inj h
      obtain ⟨hkeys,hvalues⟩ := ih hrest
      have happend : entryText entry++[]=entryText other++[] := by rw [hentry]
      obtain ⟨⟨hkey,hvalue⟩,-⟩ := entryText_parts happend
      simp only [List.map_cons]
      exact ⟨by rw [hkey,hkeys],by rw [hvalue,hvalues]⟩

/-- Environments with the same names and values are the same. -/
theorem stringMap_ext {left right : AsrSettings.StringMap}
    (hkeys : left.entries.map Prod.fst=right.entries.map Prod.fst)
    (hvalues : left.entries.map Prod.snd=right.entries.map Prod.snd) : left=right := by
  have hentries : left.entries=right.entries := by
    rw [← List.zip_unzip left.entries,← List.zip_unzip right.entries]
    simp only [List.unzip_eq_map,hkeys,hvalues]
  cases left
  cases right
  subst hentries
  rfl

/-- Commands that the signature does not tell apart differ at most in texts
that it spoils. -/
theorem readCommand_congr {provider other : CommandAsrProvider}
    (hargs : provider.args.map quoted=other.args.map quoted)
    (hcommand : quoted provider.command=quoted other.command)
    (henv : provider.env.entries.map entryText=other.env.entries.map entryText)
    (hid : quoted provider.id=quoted other.id) (htimeout : provider.timeoutMs=other.timeoutMs)
    (htold : List.Forall₂ Told (readCommand provider).texts (readCommand other).texts) :
    readCommand provider=readCommand other := by
  obtain ⟨hkeys,hvalues⟩ := entries_quoted henv
  by_cases hempty : provider.command=""
  · by_cases hnone : other.command=""
    · simp only [readCommand,if_pos hempty,if_pos hnone,Reading.texts,List.forall₂_cons] at htold ⊢
      rw [htold.1.eq hid]
    · simp [readCommand,if_pos hempty,if_neg hnone,Reading.texts] at htold
  · by_cases hnone : other.command=""
    · simp [readCommand,if_neg hempty,if_pos hnone,Reading.texts] at htold
    · rw [readCommand,readCommand,if_neg hempty,if_neg hnone] at htold ⊢
      have htexts := told_map_eq htold (by
        simp only [Reading.texts,List.map_cons,List.map_append,hid,hcommand,hargs,hkeys,hvalues])
      simp only [Reading.texts,List.cons.injEq] at htexts
      obtain ⟨hsameId,hsameCommand,hrest⟩ := htexts
      have hlength := congrArg List.length hargs
      simp only [List.length_map] at hlength
      obtain ⟨hsameArgs,hentries⟩ := List.append_inj hrest hlength
      have hlength := congrArg List.length hkeys
      simp only [List.length_map] at hlength
      obtain ⟨hsameKeys,hsameValues⟩ := List.append_inj hentries (by simpa using hlength)
      have henv := stringMap_ext hsameKeys hsameValues
      cases provider
      cases other
      simp_all

/-- How far creating a local backend gets tells what is read. -/
theorem readLocal_cases {host : Host Info} (config : CoreConfig) (provider : LocalAsrProvider)
    (hlocal : host.enableLocalAsr≠false) :
    readLocal host config provider=.noModel provider.id ∨
      readLocal host config provider=.unusable provider.id provider.model ∨
      provider.model≠"" ∧ (∃ context, loadLocalAsrModelContext host provider=.ok context) ∧
        (readLocal host config provider).texts=
          [provider.id,provider.model,provider.hotwordsFile] := by
  by_cases hempty : provider.model=""
  · exact .inl (by rw [readLocal,if_neg hlocal,if_pos hempty])
  right
  rw [readLocal,if_neg hlocal,if_neg hempty]
  cases hload : loadLocalAsrModelContext host provider with
  | error message => exact .inl rfl
  | ok context =>
    refine .inr ⟨hempty,⟨context,rfl⟩,?_⟩
    dsimp only
    split_ifs <;> rfl

/-- Local providers that the signature does not tell apart differ at most in
texts that it spoils. -/
theorem readLocal_congr {host : Host Info} {first second : CoreConfig}
    {provider other : LocalAsrProvider}
    (hhotwords : quoted provider.hotwordsFile=quoted other.hotwordsFile)
    (hid : quoted provider.id=quoted other.id) (hmodel : quoted provider.model=quoted other.model)
    (henabled : first.asr.vad.enabled=second.asr.vad.enabled)
    (htold : List.Forall₂ Told (readLocal host first provider).texts
      (readLocal host second other).texts)
    (hvad : (readLocal host first provider).vadNumbers=
      (readLocal host second other).vadNumbers) :
    readLocal host first provider=readLocal host second other := by
  by_cases hlite : host.enableLocalAsr=false
  · simp only [readLocal,if_pos hlite,Reading.texts,List.forall₂_cons] at htold ⊢
    rw [htold.1.eq hid]
  have hlength := htold.length_eq
  obtain hleft | hleft | ⟨hleft,⟨context,hload⟩,htexts⟩ := readLocal_cases first provider hlite <;>
    obtain hright | hright | ⟨hright,⟨context',hload'⟩,htexts'⟩ :=
      readLocal_cases second other hlite
  case inl.inl =>
    rw [hleft,hright] at htold ⊢
    simp only [Reading.texts,List.forall₂_cons] at htold
    rw [htold.1.eq hid]
  case inr.inl.inr.inl =>
    rw [hleft,hright] at htold ⊢
    simp only [Reading.texts,List.forall₂_cons] at htold
    rw [htold.1.eq hid,htold.2.1.eq hmodel]
  case inr.inr.inr.inr =>
    rw [htexts,htexts'] at htold
    simp only [List.forall₂_cons] at htold
    have hsameId := htold.1.eq hid
    have hsameModel := htold.2.1.eq hmodel
    have hsameHotwords := htold.2.2.1.eq hhotwords
    have hsame : loadLocalAsrModelContext host other=.ok context := by
      rw [← hload]
      exact (load_congr host hsameId hsameModel hsameHotwords).symm
    rw [readLocal,if_neg hlite,if_neg hleft,hload] at hvad ⊢
    rw [readLocal,if_neg hlite,if_neg hright,hsame] at hvad ⊢
    dsimp only at hvad ⊢
    rw [hsameId,hsameModel,hsameHotwords] at hvad ⊢
    split_ifs at hvad ⊢ with hoffline hstreaming
    · simp only [Reading.vadNumbers,Option.some.injEq,Prod.mk.injEq] at hvad
      obtain ⟨hthreshold,hspeech,hsilence,hpad⟩ := hvad
      have hsameVad : first.asr.vad=second.asr.vad := by
        cases hfirst : first.asr.vad
        cases hsecond : second.asr.vad
        simp_all
      rw [hsameVad]
    · rfl
    · rfl
  -- the two got differently far, which the numbers of texts tell
  all_goals simp_all [Reading.texts]

/-- Two configurations with one runtime signature are read alike exactly when
the texts that the writer may spoil and, for the offline engine, the four
numbers of the silence trimming agree; then they also make the same backend. -/
theorem same_reading_iff (host : Host Info) (first second : CoreConfig)
    (hfirst : (activeAsrProvider first).isSome=true)
    (hsecond : (activeAsrProvider second).isSome=true)
    (hsignature : buildRuntimeSignature first=buildRuntimeSignature second) :
    (reading host first=reading host second ↔
      List.Forall₂ Told (reading host first).texts (reading host second).texts ∧
        (reading host first).vadNumbers=(reading host second).vadNumbers) ∧
    (reading host first=reading host second →
      createBackend host first=createBackend host second) := by
  refine ⟨⟨fun h => ?_,fun h => ?_⟩,fun h => ?_⟩
  · rw [h]
    exact ⟨told_refl _,rfl⟩
  · obtain ⟨htold,hvad⟩ := h
    obtain ⟨provider,hprovider⟩ := Option.isSome_iff_exists.mp hfirst
    obtain ⟨other,hother⟩ := Option.isSome_iff_exists.mp hsecond
    have hsigned := activeAsrProvider_asrSettings first
    have hsigned' := activeAsrProvider_asrSettings second
    rw [hprovider,Option.map_some] at hsigned
    rw [hother,Option.map_some] at hsigned'
    rw [buildRuntimeSignature,buildRuntimeSignature] at hsignature
    cases provider with
    | localProvider provider =>
      rw [(createBackend_local hprovider).2] at htold hvad ⊢
      rw [localSignature_eq hsigned] at hsignature
      cases other with
      | localProvider other =>
        rw [(createBackend_local hother).2] at htold hvad ⊢
        rw [localSignature_eq hsigned'] at hsignature
        obtain ⟨hhotwords,hid,hmodel,-,henabled⟩ :=
          localText_parts (signatureText_parts hsignature).2
        exact readLocal_congr hhotwords hid hmodel henabled htold hvad
      | commandProvider other =>
        rw [commandSignature_eq hsigned'] at hsignature
        exact absurd (signatureText_parts hsignature).2 localText_ne_commandText
    | commandProvider provider =>
      rw [(createBackend_command hprovider).2] at htold hvad ⊢
      rw [commandSignature_eq hsigned] at hsignature
      cases other with
      | localProvider other =>
        rw [localSignature_eq hsigned'] at hsignature
        exact absurd (signatureText_parts hsignature).2.symm localText_ne_commandText
      | commandProvider other =>
        rw [(createBackend_command hother).2] at htold hvad ⊢
        rw [commandSignature_eq hsigned'] at hsignature
        obtain ⟨hargs,hcommand,henv,hid,htimeout⟩ :=
          commandText_parts (signatureText_parts hsignature).2
        exact readCommand_congr hargs hcommand henv hid (Int32.toInt_inj.mp htimeout) htold
  · rw [createBackend_reading host first,createBackend_reading host second,h]

/-- A machine whose models all run offline; the metadata of a model is its
name. -/
def offlineHost : Host String :=
  {enableLocalAsr := true
   ensureModels := fun _ => .ok ()
   getModelInfo := .ok
   backend := fun _ => "sherpa-offline"
   runtimeLanguageHint := fun _ => "zh"
   sprintf := fun message text => message++text
   vadModelPath := "silero_vad.onnx"
   toFloat := id}

/-- A configuration with one local provider. -/
def paraformer (threshold inputGain : ℚ) : CoreConfig :=
  normalizeCoreConfig {asr := {
    activeProvider := "local"
    inputGain := .finite inputGain
    vad := {threshold := .finite threshold}
    providers := [.localProvider {id := "local",model := "paraformer"}]}}

/-- Gains above one make no difference to a model without them. -/
theorem paraformer_loud_alike :
    reading offlineHost (paraformer 0.5 1)=reading offlineHost (paraformer 0.5 2) ∧
      createBackend offlineHost (paraformer 0.5 1)=
        createBackend offlineHost (paraformer 0.5 2) := by
  have h := same_reading_iff offlineHost (paraformer 0.5 1) (paraformer 0.5 2) (by decide)
    (by decide) (by decide +kernel)
  have hreading := h.1.mpr ⟨told_refl _,rfl⟩
  exact ⟨hreading,h.2 hreading⟩

/-- Changing the threshold does not change the signature. -/
theorem threshold_not_signed :
    Normal (paraformer 0.35 1) ∧ Normal (paraformer 0.5 1) ∧
      (activeAsrProvider (paraformer 0.35 1)).isSome=true ∧
      (activeAsrProvider (paraformer 0.5 1)).isSome=true ∧
      buildRuntimeSignature (paraformer 0.35 1)=buildRuntimeSignature (paraformer 0.5 1) ∧
      reading offlineHost (paraformer 0.35 1)≠reading offlineHost (paraformer 0.5 1) := by
  refine ⟨normal_normalizeCoreConfig _,normal_normalizeCoreConfig _,by decide,by decide,
    by decide +kernel,?_⟩
  intro h
  have hvad := congrArg Reading.vadNumbers h
  have hfirst : (reading offlineHost (paraformer 0.35 1)).vadNumbers=
      some (0.35,0.10,1.2,500) := by decide +kernel
  have hsecond : (reading offlineHost (paraformer 0.5 1)).vadNumbers=
      some (0.5,0.10,1.2,500) := by decide +kernel
  rw [hfirst,hsecond] at hvad
  exact absurd hvad (by decide +kernel)

end Skipping

end Vinput.BackendFactory
