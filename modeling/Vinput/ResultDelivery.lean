import Vinput.ClientEvents
import Vinput.ContextHistory
import Vinput.PostCandidates
import Vinput.RuntimePhases

/-!
# From a recognised text to the input context

The pipeline of the daemon turns a recognised text into a payload, which goes
over the bus to the engine. The engine offers or commits what the pipeline has
decided: nothing is lost, made up or changed on the way, as long as no text holds a
control character that the vendored library writes without an escape.
-/

namespace Vinput.ResultDelivery

open ClientEvents (Plain plain_of_printable readsBack_vendored vendored)
open ContextHistory (Engine onRecognitionResult selectResultCandidate)
open CoreConfigTypes
open FrontendSession (InputContext)
open PostCandidates PostProcessing
open ProcessLines (Bytes)
open RecognitionResult (Glaze Parse Serialize bytes kSourceAsr kSourceLlm kSourceRaw)
open RuntimePhases (PostprocessingState)
open TrimmedText
open VersionConstraint

section Pipeline

/-- What is asked of the pipeline. -/
structure PostprocessRequest where
  text : Text := []
  sceneId : String := ""
  isCommand : Bool := false
  selectedText : Text := []

/-- What the pipeline returns. -/
structure RecognitionPipelineResult where
  payload : Payload := {}
  errors : List String := []

/-- An error text that is empty is no error. -/
def invokeProcessor (processed : Payload×Option String) : RecognitionPipelineResult where
  payload := processed.1
  errors := (processed.2.toList).filter fun error => decide (error≠"")

/-- The scene has a text rewritten. -/
def asksRewriter (scene : Definition) : Bool :=
  decide (0< scene.llmMaxCandidates ∧ scene.providerId≠"")

/-- The command scene, or what stands for it. -/
def commandScene (settings : CoreConfig) : Definition :=
  (findScene settings.scenes.definitions kCommandSceneId).getD
    {id := kCommandSceneId,builtin := true}

/-- Process a recognised text; without a post-processor nothing is done. -/
def Process (postProcessor : Option Environment) (request : PostprocessRequest)
    (settings : CoreConfig) : RecognitionPipelineResult :=
  match postProcessor with
  | none => {errors := ["Recognition pipeline is not initialized."]}
  | some env =>
    if request.text=[] then {}
    else if request.isCommand then
      if asksRewriter (commandScene settings) then
        invokeProcessor (processCommand env request.text request.selectedText
          (commandScene settings) settings)
      else {payload := {commitText := request.text}}
    else
      let targetSceneId :=
        if request.sceneId="" then settings.scenes.activeScene else request.sceneId
      match findScene settings.scenes.definitions targetSceneId with
      | none =>
        {payload := {commitText := request.text}
         errors := [env.sprintf "Scene '%s' not found." [targetSceneId]]}
      | some scene =>
        if asksRewriter scene then invokeProcessor (process env request.text scene settings)
        else {payload := {commitText := request.text}}

/-- What a cancellation during post-processing makes of the result. -/
def redirected (action : PostprocessingState) (request : PostprocessRequest)
    (result : RecognitionPipelineResult) : RecognitionPipelineResult :=
  match action with
  | .commitRaw =>
    {payload := {commitText := request.text,candidates := [⟨request.text,.raw⟩]},errors := []}
  | .discard => {}
  | _ => result

end Pipeline

section Bus

/-- The bytes of a text. -/
def utf8 (text : Text) : Bytes := Utf8Codec.encode (text.map Char.val)

/-- The name of a source on the wire. -/
def sourceName : Source → Bytes
  | .raw => kSourceRaw
  | .asr => kSourceAsr
  | .llm => kSourceLlm

/-- A candidate on the wire. -/
def wireCandidate (candidate : Candidate) : RecognitionResult.Candidate :=
  ⟨utf8 candidate.text,sourceName candidate.source⟩

/-- A payload as it is published. -/
def published (payload : Payload) : RecognitionResult.Payload :=
  ⟨utf8 payload.commitText,payload.candidates.map wireCandidate⟩

/-- A payload in which texts are empty together. -/
def Offerable (payload : Payload) : Prop :=
  if payload.commitText=[] then ∀ candidate∈payload.candidates,candidate.text=[]
  else ∀ candidate∈payload.candidates,candidate.text≠[]

/-- What the engine has in hand then: a text alone is a candidate as well. -/
def received (payload : Payload) : RecognitionResult.Payload :=
  if payload.commitText=[] then {}
  else if payload.candidates=[] then
    ⟨utf8 payload.commitText,[⟨utf8 payload.commitText,kSourceRaw⟩]⟩
  else published payload

variable {payload : Payload} {glaze : Glaze}

theorem encodable_char (c : Char) : Utf8Codec.Encodable c.val := by
  have hvalid := c.valid
  unfold UInt32.isValidChar Nat.isValidChar at hvalid
  unfold Utf8Codec.Encodable
  rw [UInt32.lt_iff_toNat_lt,UInt32.le_iff_toNat_le,UInt32.lt_iff_toNat_lt]
  change c.val.toNat<55296 ∨ 57344 ≤ c.val.toNat ∧ c.val.toNat<1114112
  omega

/-- Only the empty text has no bytes. -/
theorem utf8_eq_nil_iff {text : Text} : utf8 text=[] ↔ text=[] := by
  cases text with
  | nil => exact iff_of_true rfl rfl
  | cons c rest =>
    have hne := Utf8Codec.encodeCodepoint_ne_nil (encodable_char c)
    simp [utf8,Utf8Codec.encode,hne]

/-- Without a text to commit the engine has nothing in hand. -/
theorem received_empty (h : payload.commitText=[]) : received payload={} := if_pos h

/-- An offerable payload arrives as it was published. -/
theorem fromWire_published (h : Offerable payload) :
    RecognitionResult.fromWire (RecognitionResult.toWire (published payload))=
      received payload := by
  unfold Offerable at h
  unfold received
  split at h
  · rename_i hcommit
    have hnone : RecognitionResult.readCandidates
        ((published payload).candidates.map fun candidate =>
          ⟨some candidate.text,some candidate.source⟩)=[] := by
      refine List.filterMap_eq_nil_iff.mpr fun wire hwire => ?_
      obtain ⟨sent,hsent,rfl⟩ := List.mem_map.mp hwire
      obtain ⟨candidate,hcandidate,rfl⟩ := List.mem_map.mp hsent
      have htext : utf8 candidate.text=[] := utf8_eq_nil_iff.mpr (h candidate hcandidate)
      simp [wireCandidate,htext]
    have hcommitted : utf8 payload.commitText=[] := utf8_eq_nil_iff.mpr hcommit
    rw [if_pos hcommit]
    simp only [RecognitionResult.fromWire,RecognitionResult.toWire,Option.getD_some,hnone]
    simp [published,RecognitionResult.withCommitText,RecognitionResult.withCandidate,hcommitted]
  · rename_i hcommit
    have hcommitted : utf8 payload.commitText≠[] := fun hnil => hcommit (utf8_eq_nil_iff.mp hnil)
    rw [if_neg hcommit]
    by_cases hcandidates : payload.candidates=[]
    · rw [if_pos hcandidates]
      have hpublished : published payload=⟨utf8 payload.commitText,[]⟩ := by
        simp [published,hcandidates]
      rw [hpublished]
      exact RecognitionResult.fromWire_text hcommitted
    · rw [if_neg hcandidates]
      refine RecognitionResult.fromWire_toWire ⟨hcommitted,?_,?_⟩
      · simpa [published] using hcandidates
      · intro sent hsent
        obtain ⟨candidate,hcandidate,rfl⟩ := List.mem_map.mp hsent
        exact fun hnil => h candidate hcandidate (utf8_eq_nil_iff.mp hnil)

/-- The texts of a payload are written as JSON strings that can be read. -/
structure Speakable (payload : Payload) : Prop where
  committed : Plain (utf8 payload.commitText)
  offered : ∀ candidate∈payload.candidates,Plain (utf8 candidate.text)

/-- The name of a source needs no escape. -/
theorem plain_sourceName (source : Source) : Plain (sourceName source) := by
  have hraw : sourceName .raw=[114,97,119] := rfl
  have hasr : sourceName .asr=[97,115,114] := rfl
  have hllm : sourceName .llm=[108,108,109] := rfl
  refine plain_of_printable ?_
  cases source with
  | raw => simp [hraw]
  | asr => simp [hasr]
  | llm => simp [hllm]

/-- A speakable payload is read as it was published. -/
theorem Speakable.readsBack (h : Speakable payload) : vendored.ReadsBack (published payload) := by
  refine readsBack_vendored h.committed ?_
  intro sent hsent
  obtain ⟨candidate,hcandidate,rfl⟩ := List.mem_map.mp hsent
  exact ⟨h.offered candidate hcandidate,plain_sourceName candidate.source⟩

/-- The engine has in hand what has been published. -/
theorem parse_published (h : Offerable payload) (hglaze : glaze.ReadsBack (published payload)) :
    Parse glaze (Serialize glaze (published payload))=received payload :=
  (RecognitionResult.parse_serialize hglaze).trans (fromWire_published h)

end Bus

section Offers

/-- A payload without empty texts is offerable. -/
theorem offerable_of_texts {payload : Payload} (hcommit : payload.commitText≠[])
    (h : ∀ candidate∈payload.candidates,candidate.text≠[]) : Offerable payload := by
  unfold Offerable
  rw [if_neg hcommit]
  exact h

theorem offerable_nothing {payload : Payload} (h : payload.candidates=[]) :
    Offerable payload := by
  unfold Offerable
  split <;> simp [h]

theorem offerable_wellFormed {count : ℕ} {payload : Payload} (h : WellFormed count payload) :
    Offerable payload := by
  obtain ⟨candidate,hcandidate,hcommit⟩ := List.mem_map.mp h.committed
  refine offerable_of_texts ?_ fun other hother => (h.texts other hother).1
  exact hcommit ▸ (h.texts candidate hcandidate).1

/-- The fallback offers the trimmed text when there is one. -/
theorem fallback_candidates (text : Text) :
    (fallbackPayload text).candidates=if trim text=[] then [] else [⟨trim text,.raw⟩] := by
  unfold fallbackPayload appendCandidate
  split <;> simp

theorem offerable_fallback (text : Text) : Offerable (fallbackPayload text) := by
  have hcandidates := fallback_candidates text
  by_cases htrim : trim text=[]
  · rw [if_pos htrim] at hcandidates
    exact offerable_nothing hcandidates
  · rw [if_neg htrim] at hcandidates
    refine offerable_of_texts ?_ ?_
    · rintro (rfl : text=[])
      exact htrim rfl
    · simp [hcandidates,htrim]

variable (env : Environment) (settings : CoreConfig)

/-- What a scene makes of a text is offerable. -/
theorem offerable_process (rawText : Text) (scene : Definition) :
    Offerable (process env rawText scene settings).1 := by
  by_cases h : trim rawText=[]
  · refine offerable_nothing ?_
    simp [process,h]
  · exact offerable_wellFormed (wellFormed_process env h scene settings)

/-- A spoken text leaves something to commit. -/
theorem process_committed {rawText : Text} (h : trim rawText≠[]) (scene : Definition) :
    (process env rawText scene settings).1.commitText≠[] := by
  have hwell := wellFormed_process env h scene settings
  obtain ⟨candidate,hcandidate,hcommit⟩ := List.mem_map.mp hwell.committed
  exact hcommit ▸ (hwell.texts candidate hcandidate).1

/-- A command leaves something to commit when a text is selected. -/
theorem commandPayload_committed {selectedText : Text} (hselected : selectedText≠[]) (count : ℕ)
    (normalizedAsr : Text) (texts : List Text) :
    (commandPayload count normalizedAsr selectedText texts).commitText≠[] := by
  unfold commandPayload
  dsimp only
  cases haccepted : acceptedTexts count (seenCommand normalizedAsr selectedText) texts with
  | nil => simpa using hselected
  | cons first rest =>
    have hmem : first∈acceptedTexts count (seenCommand normalizedAsr selectedText) texts :=
      haccepted ▸ List.mem_cons_self
    simpa using (mem_acceptedTexts hmem).1

/-- What a command makes of a selected text is offerable. -/
theorem offerable_commandPayload {normalizedAsr selectedText : Text} (h : normalizedAsr≠[])
    (htrim : trim normalizedAsr=normalizedAsr) (hselected : selectedText≠[]) (count : ℕ)
    (texts : List Text) : Offerable (commandPayload count normalizedAsr selectedText texts) := by
  refine offerable_of_texts (commandPayload_committed hselected count normalizedAsr texts) ?_
  intro candidate hcandidate
  rcases List.mem_append.mp hcandidate with hleading | haccepted
  · exact (leading_leadingCommand h htrim selectedText candidate hleading).1
  · obtain ⟨text,htext,rfl⟩ := List.mem_map.mp haccepted
    exact (mem_acceptedTexts htext).1

theorem offerable_command (asrText selectedText : Text) (scene : Definition) :
    Offerable (processCommand env asrText selectedText scene settings).1 := by
  by_cases hdata : trim asrText=[] ∨ selectedText=[]
  · have hfallback : (processCommand env asrText selectedText scene settings).1=
        fallbackPayload (if trim asrText=[] then selectedText else trim asrText) := by
      simp only [processCommand,if_pos hdata]
    rw [hfallback]
    exact offerable_fallback _
  · obtain ⟨hasr,hselected⟩ := not_or.mp hdata
    rcases processCommand_eq env hasr hselected scene settings with ⟨_,heq⟩ | ⟨_,heq⟩
    · rw [heq]
      exact offerable_fallback _
    · rw [heq]
      exact offerable_commandPayload hasr (trim_trim asrText) hselected _ _

/-- A spoken command leaves something to commit. -/
theorem command_committed {asrText : Text} (h : trim asrText≠[]) (selectedText : Text)
    (scene : Definition) :
    (processCommand env asrText selectedText scene settings).1.commitText≠[] := by
  by_cases hselected : selectedText=[]
  · have hfallback : (processCommand env asrText selectedText scene settings).1=
        fallbackPayload (trim asrText) := by
      simp [processCommand,hselected,h]
    rw [hfallback]
    exact h
  · rcases processCommand_eq env h hselected scene settings with ⟨_,heq⟩ | ⟨_,heq⟩
    · rw [heq]
      exact h
    · rw [heq]
      exact commandPayload_committed hselected _ _ _

/-- Whatever the pipeline is asked, texts of its payload are empty together. -/
theorem offerable_Process (postProcessor : Option Environment) (request : PostprocessRequest) :
    Offerable (Process postProcessor request settings).payload := by
  unfold Process
  cases postProcessor with
  | none => exact offerable_nothing rfl
  | some env =>
    dsimp only
    split
    · exact offerable_nothing rfl
    · split
      · split
        · exact offerable_command env settings request.text request.selectedText _
        · exact offerable_nothing rfl
      · split
        · exact offerable_nothing rfl
        · split
          · exact offerable_process env settings request.text _
          · exact offerable_nothing rfl

/-- A spoken request leaves something to commit, whatever it asks for. -/
theorem process_spoken (request : PostprocessRequest) (h : trim request.text≠[]) :
    (Process (some env) request settings).payload.commitText≠[] := by
  have htext : request.text≠[] := by
    intro hnil
    rw [hnil] at h
    exact h rfl
  unfold Process
  dsimp only
  rw [if_neg htext]
  split
  · split
    · exact command_committed env settings h request.selectedText _
    · exact htext
  · split
    · exact htext
    · split
      · exact process_committed env settings h _
      · exact htext

/-- A redirected result stays offerable. -/
theorem offerable_redirected (action : PostprocessingState) (request : PostprocessRequest)
    {result : RecognitionPipelineResult} (h : Offerable result.payload) :
    Offerable (redirected action request result).payload := by
  cases action with
  | commitRaw =>
    unfold Offerable redirected
    dsimp only
    split <;> simp_all
  | discard => exact offerable_nothing rfl
  | inactive => exact h
  | dictation => exact h
  | command => exact h

end Offers

section Delivery

/-- What becomes of a result in the eyes of the user. -/
inductive Outcome where
  | nothing
  | committed (text : Text)
  /-- A menu with these candidates. -/
  | offered (candidates : List Candidate)
deriving DecidableEq

/-- The outcome that a payload stands for: a dictation offers all there is to
choose from, a command only several texts of the language model. -/
def outcome (isCommand : Bool) (payload : Payload) : Outcome :=
  if payload.commitText=[] then .nothing
  else if 1< (if isCommand then (llmTexts payload).length else payload.candidates.length) then
    .offered payload.candidates
  else .committed payload.commitText

/-- The engine shows an outcome in an input context; each candidate of a menu
commits its text. -/
def Shown (ic : InputContext) (after : Engine×Option (Bytes×InputContext)) : Outcome → Prop
  | .nothing => after.2=none ∧ after.1.resultMenuIc=none
  | .committed text => after.2=some (utf8 text,ic) ∧ after.1.resultMenuIc=none
  | .offered candidates => after.2=none ∧ after.1.resultMenuIc=some ic ∧
    ∀ index,(selectResultCandidate after.1 index ic).2=
      (candidates[index]?).map fun candidate => (utf8 candidate.text,ic)

/-- The command mode of the engine's session. -/
def sessionCommand (request : PostprocessRequest) : Option Bytes :=
  if request.isCommand then some (utf8 request.selectedText) else none

/-- Only candidates of a language model are named so. -/
theorem sourceName_eq_llm_iff (source : Source) : sourceName source=kSourceLlm ↔ source=.llm := by
  cases source <;> decide

/-- The texts of a language model are counted the same on both sides. -/
theorem llm_count (payload : Payload) :
    ((published payload).candidates.filter fun candidate =>
      decide (candidate.source=kSourceLlm)).length=(llmTexts payload).length := by
  have hsource : (fun candidate : RecognitionResult.Candidate =>
      decide (candidate.source=kSourceLlm)) ∘ wireCandidate=
      fun candidate => decide (candidate.source=.llm) := by
    funext candidate
    exact decide_eq_decide.mpr (sourceName_eq_llm_iff candidate.source)
  unfold published llmTexts
  rw [List.filter_map,List.length_map,List.length_map,hsource]

/-- The engine shows a menu for the payloads that the outcome offers. -/
theorem shows_menu_iff (request : PostprocessRequest) {payload : Payload}
    (hcommit : payload.commitText≠[]) :
    ContextHistory.shouldShowResultMenu (received payload) (sessionCommand request)=true ↔
      1< (if request.isCommand then (llmTexts payload).length
        else payload.candidates.length) := by
  unfold received
  rw [if_neg hcommit]
  by_cases hcandidates : payload.candidates=[]
  · rw [if_pos hcandidates]
    unfold sessionCommand llmTexts
    cases request.isCommand
    · simp [ContextHistory.shouldShowResultMenu,hcandidates]
    · simp [ContextHistory.shouldShowResultMenu,hcandidates,show kSourceRaw≠kSourceLlm by decide]
  · rw [if_neg hcandidates]
    have hcount := llm_count payload
    unfold sessionCommand
    cases request.isCommand
    · simp [ContextHistory.shouldShowResultMenu,published]
    · simp only [ContextHistory.shouldShowResultMenu,if_true,decide_eq_true_eq]
      rw [hcount]

/-- The context history leaves the result menu alone. -/
@[simp] theorem append_menu (engine : Engine) (text source : Bytes) :
    (ContextHistory.appendContextEntry engine text source).resultMenuIc=engine.resultMenuIc := by
  simp only [ContextHistory.appendContextEntry,ContextHistory.flushContextBuffer,
    ContextHistory.enqueue]
  split_ifs <;> rfl

@[simp] theorem recognised_menu (engine : Engine) (payload : RecognitionResult.Payload)
    (command : Option Bytes) :
    (ContextHistory.noteRecognised engine payload command).resultMenuIc=engine.resultMenuIc := by
  unfold ContextHistory.noteRecognised
  split
  · split
    · exact append_menu engine _ _
    · rfl
  · rfl

/-- A candidate of the menu commits its text. -/
theorem select_commits (engine : Engine) (index : ℕ) (ic : InputContext) :
    (selectResultCandidate engine index ic).2=
      (engine.resultCandidates[index]?).map fun candidate => (candidate.text,ic) := by
  unfold selectResultCandidate
  dsimp only
  cases engine.resultCandidates[index]? <;> rfl

variable {glaze : Glaze}

/-- The engine shows what the payload in its hands stands for. -/
theorem shown_received (engine : Engine) (request : PostprocessRequest) (payload : Payload)
    (ic : InputContext) {payloadText : Bytes} (hparse : Parse glaze payloadText=received payload) :
    Shown ic (onRecognitionResult glaze engine payloadText (sessionCommand request) (some ic))
      (outcome request.isCommand payload) := by
  unfold onRecognitionResult outcome
  dsimp only
  rw [hparse]
  by_cases hcommit : payload.commitText=[]
  · have hnone := received_empty hcommit
    rw [if_pos hcommit,hnone]
    exact ⟨rfl,rfl⟩
  · have hmenu := shows_menu_iff request hcommit
    have htext : (received payload).commitText=utf8 payload.commitText := by
      unfold received
      rw [if_neg hcommit]
      split <;> rfl
    have hsent : (received payload).commitText≠[] := by
      rw [htext]
      exact fun hnil => hcommit (utf8_eq_nil_iff.mp hnil)
    rw [if_neg hcommit,if_neg hsent]
    by_cases hchoice : 1< (if request.isCommand then (llmTexts payload).length
        else payload.candidates.length)
    · have hcandidates : payload.candidates≠[] := by
        intro hnil
        simp [llmTexts,hnil] at hchoice
      have hreceived : received payload=published payload := by
        unfold received
        rw [if_neg hcommit,if_neg hcandidates]
      have hoffered : (published payload).candidates≠[] := by
        simpa [published] using hcandidates
      rw [if_pos hchoice,if_pos (hmenu.mpr hchoice),hreceived]
      unfold ContextHistory.showResultMenu
      rw [if_neg hoffered]
      refine ⟨rfl,rfl,fun index => ?_⟩
      rw [select_commits]
      simp [published,wireCandidate,Function.comp_def]
    · rw [if_neg hchoice,if_neg (mt hmenu.mp hchoice),htext]
      refine ⟨rfl,?_⟩
      unfold ContextHistory.suppressNextCommitContext
      dsimp only
      split <;> simp [ContextHistory.resetResultMenuState]

/-- Whatever has been recognised and whatever the language model has made of
it, the engine commits or offers what the pipeline has decided, and as long as
more than white space was spoken, it does commit or offer something, unless the
result is discarded. -/
theorem result_delivered (postProcessor : Option Environment) (request : PostprocessRequest)
    (settings : CoreConfig) (action : PostprocessingState) (engine : Engine) (ic : InputContext)
    (hspeakable : Speakable
      (redirected action request (Process postProcessor request settings)).payload) :
    let payload := (redirected action request (Process postProcessor request settings)).payload
    Shown ic (onRecognitionResult vendored engine (Serialize vendored (published payload))
        (sessionCommand request) (some ic)) (outcome request.isCommand payload) ∧
      (trim request.text≠[] → postProcessor≠none → action≠.discard →
        outcome request.isCommand payload≠.nothing) := by
  intro payload
  have hoffer : Offerable payload :=
    offerable_redirected action request (offerable_Process settings postProcessor request)
  refine ⟨shown_received engine request payload ic (parse_published hoffer hspeakable.readsBack),?_⟩
  intro hspoken hprocessor haction
  have hcommit : payload.commitText≠[] := by
    obtain ⟨env,rfl⟩ := Option.ne_none_iff_exists'.mp hprocessor
    have hprocessed := process_spoken env settings request hspoken
    cases action with
    | commitRaw =>
      rintro (hnil : request.text=[])
      rw [hnil] at hspoken
      exact hspoken rfl
    | discard => exact absurd rfl haction
    | inactive => exact hprocessed
    | dictation => exact hprocessed
    | command => exact hprocessed
  unfold outcome
  rw [if_neg hcommit]
  split_ifs <;> simp

/-- Post-processing that is not asked for anything. -/
def idleEnvironment : Environment where
  openAiCompatible _ _ _ _ _ _ _ := {}
  commandAdapter _ _ _ _ := {}
  loadFromFileUri _ := .error ""
  sprintf format _ := format
  toText _ := []

/-- A dictation without a scene for it is committed. -/
theorem result_delivered_plain :
    (onRecognitionResult vendored {} (Serialize vendored ⟨bytes "hi",[]⟩) none (some 7)).2=
      some (bytes "hi",7) := by
  have hpayload : (redirected .inactive {text := ['h', 'i']}
      (Process (some idleEnvironment) {text := ['h', 'i']} {})).payload={commitText := ['h', 'i']} := by
    decide
  have hbytes : utf8 ['h', 'i']=[104,105] := by decide
  have hspeakable : Speakable {commitText := ['h', 'i']} :=
    ⟨plain_of_printable (by simp [hbytes]),fun _ hcandidate => absurd hcandidate List.not_mem_nil⟩
  have hdelivered := result_delivered (some idleEnvironment) {text := ['h', 'i']} {}
    .inactive {} 7 (by rw [hpayload]; exact hspeakable)
  have hshown := hdelivered.1
  rw [hpayload] at hshown
  exact hshown.1

end Delivery

end Vinput.ResultDelivery
