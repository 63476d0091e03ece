import Vinput.PostProcessing

/-!
# Candidates of the post-processing

The texts of a rewriter become the distinct texts that have not been seen, up
to the number asked for. Transcripts are offered without the white space
around them. A selected text is offered so as well, but it is looked up and
committed as it is.
-/

namespace Vinput.PostCandidates

open CoreConfigTypes JsonTree VersionConstraint TrimmedText FreshValues PostProcessing

section Merged

/-- Texts that are not blank, trimmed. -/
def plainTexts (texts : List Text) : List Text := (texts.map trim).filter fun text => text≠[]

/-- Plain texts are trimmed and not empty. -/
theorem mem_plainTexts {texts : List Text} {text : Text} (h : text∈plainTexts texts) :
    text≠[] ∧ trim text=text := by
  obtain ⟨hmem,hne⟩ := List.mem_filter.mp h
  obtain ⟨source,_,rfl⟩ := List.mem_map.mp hmem
  exact ⟨of_decide_eq_true hne,trim_trim source⟩

/-- A text of a language model. -/
def llmCandidate (text : Text) : Candidate := ⟨text,.llm⟩

/-- Texts that a merging still accepts. -/
def acceptedTexts (count : ℕ) (seen texts : List Text) : List Text :=
  (fresh seen (plainTexts texts)).take count

theorem plainTexts_cons_blank {text : Text} (h : trim text=[]) (texts : List Text) :
    plainTexts (text::texts)=plainTexts texts := by
  simp [plainTexts,h]

theorem plainTexts_cons {text : Text} (h : trim text≠[]) (texts : List Text) :
    plainTexts (text::texts)=trim text::plainTexts texts := by
  simp [plainTexts,h]

/-- A trimmed text becomes a candidate as it is. -/
theorem appendCandidate_trimmed {payload : Payload} {text : Text} (source : Source)
    (h : text≠[]) (htrim : trim text=text) :
    appendCandidate payload text source=
      {payload with candidates := payload.candidates++[⟨text,source⟩]} := by
  simp [appendCandidate,htrim,h]

/-- What the texts of a rewriter add. -/
theorem mergeRewritten_eq (maxCandidates : Int32) (texts : List Text) (merging : Merging)
    {count : ℕ} (h : maxCandidates.toInt=merging.accepted+count) (hcount : 0<count) :
    (mergeRewritten maxCandidates texts merging).payload=
      {merging.payload with candidates := merging.payload.candidates++
        (acceptedTexts count merging.seen texts).map llmCandidate} ∧
    (mergeRewritten maxCandidates texts merging).firstLlmText=
      if merging.firstLlmText=[] then (acceptedTexts count merging.seen texts).headD []
      else merging.firstLlmText := by
  induction texts generalizing merging count with
  | nil => simp [mergeRewritten,acceptedTexts,plainTexts,fresh]
  | cons text rest ih =>
    by_cases hblank : trim text=[]
    · simp only [mergeRewritten,hblank,if_true,acceptedTexts,plainTexts_cons_blank hblank]
      exact ih merging h hcount
    · by_cases hseen : trim text∈merging.seen
      · simp only [mergeRewritten,hblank,if_false,hseen,if_true,acceptedTexts,
          plainTexts_cons hblank,fresh_cons_of_mem hseen]
        exact ih merging h hcount
      · obtain ⟨left,rfl⟩ := Nat.exists_eq_succ_of_ne_zero (Nat.pos_iff_ne_zero.mp hcount)
        have happend : appendCandidate merging.payload (trim text) .llm=
            {merging.payload with candidates := merging.payload.candidates++
              [llmCandidate (trim text)]} :=
          appendCandidate_trimmed .llm hblank (trim_trim text)
        have haccepted : acceptedTexts (left+1) merging.seen (text::rest)=
            trim text::acceptedTexts left (trim text::merging.seen) rest := by
          simp [acceptedTexts,plainTexts_cons hblank,fresh_cons_of_not_mem hseen]
        rw [haccepted]
        simp only [mergeRewritten,hblank,if_false,hseen,happend]
        split
        · rename_i hfull
          have hleft : left=0 := by omega
          simp [hleft,acceptedTexts]
        · rename_i hroom
          have hmore : 0<left := by omega
          generalize hmerged : (Merging.mk _ _ _ _ : Merging)=merged
          have hcounts : maxCandidates.toInt=merged.accepted+left := by
            rw [← hmerged]
            push_cast
            omega
          obtain ⟨hpayload,hfirst⟩ := ih merged hcounts hmore
          rw [hpayload,hfirst,← hmerged]
          constructor
          · simp [List.append_assoc]
          · by_cases hnone : merging.firstLlmText=[]
            · simp [hnone,hblank]
            · simp [hnone]

/-- Accepted texts are trimmed and new. -/
theorem mem_acceptedTexts {count : ℕ} {seen texts : List Text} {text : Text}
    (h : text∈acceptedTexts count seen texts) : text≠[] ∧ trim text=text ∧ text∉seen := by
  obtain ⟨hplain,hnew⟩ := mem_fresh.mp (List.mem_of_mem_take h)
  obtain ⟨hne,htrim⟩ := mem_plainTexts hplain
  exact ⟨hne,htrim,hnew⟩

theorem nodup_acceptedTexts (count : ℕ) (seen texts : List Text) :
    (acceptedTexts count seen texts).Nodup := (nodup_fresh _ _).take

end Merged

section Payloads

/-- Number of candidates of a language model that a scene asks for. -/
def llmCount (scene : Definition) : ℕ :=
  (normalizeLlmMaxCandidates scene.llmMaxCandidates).toInt.toNat

/-- Texts of a language model among the candidates. -/
def llmTexts (payload : Payload) : List Text :=
  (payload.candidates.filter fun candidate => candidate.source=.llm).map Candidate.text

/-- Candidates as they should be. -/
structure WellFormed (count : ℕ) (payload : Payload) : Prop where
  /-- Texts are trimmed and not empty. -/
  texts : ∀ candidate∈payload.candidates, candidate.text≠[] ∧ trim candidate.text=candidate.text
  distinct : (payload.candidates.map Candidate.text).Nodup
  bounded : (llmTexts payload).length ≤ count
  /-- What is committed is offered. -/
  committed : payload.commitText∈payload.candidates.map Candidate.text

/-- Candidates in front of those of a language model. -/
def Leading (before : List Candidate) : Prop :=
  ∀ candidate∈before, candidate.text≠[] ∧ trim candidate.text=candidate.text ∧ candidate.source≠.llm

/-- Behind the leading candidates are those of the language model. -/
theorem llmTexts_append {before : List Candidate} (h : Leading before) (commitText : Text)
    (texts : List Text) :
    llmTexts ⟨commitText,before++texts.map llmCandidate⟩=texts := by
  have hnone : before.filter (fun candidate => candidate.source=.llm)=[] := by
    rw [List.filter_eq_nil_iff]
    intro candidate hcandidate
    simpa using (h candidate hcandidate).2.2
  have hall : (texts.map llmCandidate).filter (fun candidate => candidate.source=.llm)=
      texts.map llmCandidate := by
    rw [List.filter_eq_self]
    intro candidate hcandidate
    obtain ⟨text,_,rfl⟩ := List.mem_map.mp hcandidate
    rfl
  have htexts : (texts.map llmCandidate).map Candidate.text=texts := by
    rw [List.map_map]
    exact List.map_id texts
  rw [llmTexts,List.filter_append,hnone,hall,List.nil_append,htexts]

/-- Candidates are as they should be when the texts differ and one of them is
committed. -/
theorem wellFormed_iff {before : List Candidate} (hbefore : Leading before) {count : ℕ}
    (seen texts : List Text) (commitText : Text) :
    WellFormed count ⟨commitText,before++(acceptedTexts count seen texts).map llmCandidate⟩ ↔
      (before.map Candidate.text++acceptedTexts count seen texts).Nodup ∧
        commitText∈before.map Candidate.text++acceptedTexts count seen texts := by
  have htexts : (before++(acceptedTexts count seen texts).map llmCandidate).map Candidate.text=
      before.map Candidate.text++acceptedTexts count seen texts := by
    rw [List.map_append,List.map_map]
    congr 1
    exact List.map_id _
  constructor
  · intro h
    exact ⟨htexts ▸ h.distinct,htexts ▸ h.committed⟩
  · rintro ⟨hdistinct,hcommitted⟩
    refine ⟨?_,htexts ▸ hdistinct,?_,htexts ▸ hcommitted⟩
    · intro candidate hcandidate
      rcases List.mem_append.mp hcandidate with hfirst | hlater
      · exact ⟨(hbefore candidate hfirst).1,(hbefore candidate hfirst).2.1⟩
      · obtain ⟨text,htext,rfl⟩ := List.mem_map.mp hlater
        exact ⟨(mem_acceptedTexts htext).1,(mem_acceptedTexts htext).2.1⟩
    · rw [llmTexts_append hbefore]
      exact List.length_take_le _ _

/-- One text alone. -/
theorem wellFormed_fallback {text : Text} (h : text≠[]) (htrim : trim text=text) (count : ℕ) :
    WellFormed count (fallbackPayload text) := by
  have hleading : Leading [⟨text,.raw⟩] := by
    intro candidate hcandidate
    rw [List.mem_singleton.mp hcandidate]
    exact ⟨h,htrim,by simp⟩
  have hpayload : fallbackPayload text=
      ⟨text,[⟨text,.raw⟩]++(acceptedTexts count [] []).map llmCandidate⟩ := by
    rw [fallbackPayload,appendCandidate_trimmed .raw h htrim]
    simp [acceptedTexts,plainTexts,fresh]
  rw [hpayload]
  refine (wellFormed_iff hleading [] [] text).mpr ?_
  simp [acceptedTexts,plainTexts,fresh]

/-- The number of candidates is zero or positive. -/
theorem normalize_bounds (count : Int32) :
    normalizeLlmMaxCandidates count=0 ∨ 0<(normalizeLlmMaxCandidates count).toInt := by
  unfold normalizeLlmMaxCandidates
  split
  · exact .inl rfl
  · split
    · exact .inr (by decide)
    · rename_i hsign _
      by_cases hzero : count=0
      · exact .inl hzero
      · right
        have hle : ¬count.toInt<0 := fun h => hsign (Int32.lt_iff_toInt_lt.mpr h)
        have hne : count.toInt≠0 := fun h => hzero (Int32.toInt_inj.mp h)
        omega

/-- Number of candidates while some are asked for. -/
theorem llmCount_eq {scene : Definition}
    (h : normalizeLlmMaxCandidates scene.llmMaxCandidates≠0) :
    (normalizeLlmMaxCandidates scene.llmMaxCandidates).toInt=llmCount scene ∧ 0<llmCount scene := by
  have hpositive := (normalize_bounds scene.llmMaxCandidates).resolve_left h
  unfold llmCount
  omega

end Payloads

section Transcripts

variable (env : Environment)

/-- Candidates in front of those of a rewriter. -/
def leadingOf (scene : Definition) (text : Text) : List Candidate :=
  if scene.rawCand then [⟨text,.raw⟩] else []

/-- Texts seen before those of a rewriter. -/
def seenOf (scene : Definition) (text : Text) : List Text := if scene.rawCand then [text] else []

/-- What a rewriter's reply makes of a transcript. -/
def mergedPayload (scene : Definition) (text : Text) (texts : List Text) : Payload :=
  let accepted := acceptedTexts (llmCount scene) (seenOf scene text) texts
  if scene.rawCand=false ∧ accepted=[] then fallbackPayload text
  else
    ⟨if accepted=[] then text else accepted.headD [],
      leadingOf scene text++accepted.map llmCandidate⟩

theorem finishTranscript_eq {text : Text} (h : text≠[]) (htrim : trim text=text)
    {scene : Definition} (hcount : normalizeLlmMaxCandidates scene.llmMaxCandidates≠0)
    (texts : List Text) :
    finishTranscript text (mergeRewritten (normalizeLlmMaxCandidates scene.llmMaxCandidates) texts
      (startTranscript scene.rawCand text))=mergedPayload scene text texts := by
  obtain ⟨hmax,hpositive⟩ := llmCount_eq hcount
  have hstart : startTranscript scene.rawCand text=
      {payload := {candidates := leadingOf scene text},seen := seenOf scene text} := by
    unfold startTranscript leadingOf seenOf
    split
    · rw [appendCandidate_trimmed .raw h htrim]
      rfl
    · rfl
  have hcounts : (normalizeLlmMaxCandidates scene.llmMaxCandidates).toInt=
      (startTranscript scene.rawCand text).accepted+llmCount scene := by
    rw [hstart,hmax]
    simp
  obtain ⟨hpayload,hfirst⟩ := mergeRewritten_eq _ texts _ hcounts hpositive
  unfold finishTranscript mergedPayload
  rw [hpayload,hfirst,hstart]
  dsimp only
  cases haccepted : acceptedTexts (llmCount scene) (seenOf scene text) texts with
  | nil => cases hraw : scene.rawCand <;> simp [leadingOf,hraw]
  | cons first rest =>
    have hne : first≠[] := by
      have hmem : first∈acceptedTexts (llmCount scene) (seenOf scene text) texts := by
        rw [haccepted]
        exact List.mem_cons_self
      exact (mem_acceptedTexts hmem).1
    simp [hne]

/-- The leading candidate of a transcript is its own text. -/
theorem leading_leadingOf {text : Text} (h : text≠[]) (htrim : trim text=text)
    (scene : Definition) : Leading (leadingOf scene text) := by
  intro candidate hcandidate
  unfold leadingOf at hcandidate
  split at hcandidate
  · rw [List.mem_singleton.mp hcandidate]
    exact ⟨h,htrim,by simp⟩
  · cases hcandidate

/-- Replies of a rewriter give candidates as they should be. -/
theorem wellFormed_mergedPayload {text : Text} (h : text≠[]) (htrim : trim text=text)
    (scene : Definition) (texts : List Text) :
    WellFormed (llmCount scene) (mergedPayload scene text texts) := by
  unfold mergedPayload
  dsimp only
  split
  · exact wellFormed_fallback h htrim _
  · rename_i hsome
    refine (wellFormed_iff (leading_leadingOf h htrim scene) _ texts _).mpr ⟨?_,?_⟩
    · refine List.nodup_append.mpr ⟨?_,nodup_acceptedTexts _ _ _,?_⟩
      · unfold leadingOf
        split <;> simp
      · intro first hfirst second hsecond
        have hnew := (mem_acceptedTexts hsecond).2.2
        rintro rfl
        cases hraw : scene.rawCand <;> simp_all [leadingOf,seenOf]
    · cases haccepted : acceptedTexts (llmCount scene) (seenOf scene text) texts with
      | nil =>
        have hraw : scene.rawCand=true := by
          by_contra hoff
          exact hsome ⟨Bool.eq_false_of_not_eq_true hoff,haccepted⟩
        simp [leadingOf,hraw]
      | cons first rest => simp

/-- Candidates for a transcript are as they should be. -/
theorem wellFormed_process {rawText : Text} (h : trim rawText≠[]) (scene : Definition)
    (settings : CoreConfig) :
    WellFormed (llmCount scene) (process env rawText scene settings).1 := by
  have hfallback := wellFormed_fallback h (trim_trim rawText) (llmCount scene)
  unfold process
  dsimp only
  rw [if_neg h]
  split
  · exact hfallback
  · split
    · exact hfallback
    · rename_i hcount
      split
      · exact hfallback
      · rename_i texts _
        rw [finishTranscript_eq h (trim_trim rawText) hcount]
        exact wellFormed_mergedPayload h (trim_trim rawText) scene texts

end Transcripts

section Commands

variable (env : Environment)

/-- Candidates in front of those of a command's rewriter. -/
def leadingCommand (normalizedAsr selectedText : Text) : List Candidate :=
  (if trim selectedText=[] then [] else [⟨trim selectedText,.raw⟩])++
    (if normalizedAsr=selectedText then [] else [⟨normalizedAsr,.asr⟩])

/-- Texts seen before those of a command's rewriter. -/
def seenCommand (normalizedAsr selectedText : Text) : List Text :=
  if normalizedAsr=selectedText then [selectedText] else [normalizedAsr,selectedText]

/-- What a rewriter's reply makes of a command. -/
def commandPayload (count : ℕ) (normalizedAsr selectedText : Text) (texts : List Text) : Payload :=
  let accepted := acceptedTexts count (seenCommand normalizedAsr selectedText) texts
  ⟨if accepted=[] then selectedText else accepted.headD [],
    leadingCommand normalizedAsr selectedText++accepted.map llmCandidate⟩

theorem finishCommand_eq {normalizedAsr : Text} (h : normalizedAsr≠[])
    (htrim : trim normalizedAsr=normalizedAsr) (selectedText : Text) {scene : Definition}
    (hcount : normalizeLlmMaxCandidates scene.llmMaxCandidates≠0) (texts : List Text) :
    finishCommand selectedText (mergeRewritten (normalizeLlmMaxCandidates scene.llmMaxCandidates)
      texts (startCommand normalizedAsr selectedText))=
    commandPayload (llmCount scene) normalizedAsr selectedText texts := by
  obtain ⟨hmax,hpositive⟩ := llmCount_eq hcount
  have hstart : startCommand normalizedAsr selectedText=
      {payload := {candidates := leadingCommand normalizedAsr selectedText}
       seen := seenCommand normalizedAsr selectedText} := by
    unfold startCommand leadingCommand seenCommand
    simp only [List.mem_singleton]
    split
    · simp only [appendCandidate]
      split <;> simp
    · rw [appendCandidate_trimmed .asr h htrim]
      simp only [appendCandidate]
      split <;> simp
  have hcounts : (normalizeLlmMaxCandidates scene.llmMaxCandidates).toInt=
      (startCommand normalizedAsr selectedText).accepted+llmCount scene := by
    rw [hstart,hmax]
    simp
  obtain ⟨hpayload,hfirst⟩ := mergeRewritten_eq _ texts _ hcounts hpositive
  unfold finishCommand commandPayload
  rw [hpayload,hfirst,hstart]
  dsimp only
  cases haccepted : acceptedTexts (llmCount scene) (seenCommand normalizedAsr selectedText) texts with
  | nil => simp
  | cons first rest =>
    have hne : first≠[] := by
      have hmem : first∈acceptedTexts (llmCount scene) (seenCommand normalizedAsr selectedText)
          texts := by
        rw [haccepted]
        exact List.mem_cons_self
      exact (mem_acceptedTexts hmem).1
    simp [hne]

/-- The leading candidate of a command is its spoken text. -/
theorem leading_leadingCommand {normalizedAsr : Text} (h : normalizedAsr≠[])
    (htrim : trim normalizedAsr=normalizedAsr) (selectedText : Text) :
    Leading (leadingCommand normalizedAsr selectedText) := by
  intro candidate hcandidate
  rcases List.mem_append.mp hcandidate with hselected | hasr
  · split at hselected
    · cases hselected
    · rename_i hne
      rw [List.mem_singleton.mp hselected]
      exact ⟨hne,trim_trim selectedText,by simp⟩
  · split at hasr
    · cases hasr
    · rw [List.mem_singleton.mp hasr]
      exact ⟨h,htrim,by simp⟩

/-- A text of the rewriter is accepted, and the trimmed selected text is
neither the command nor one of the accepted texts. -/
def OfferedApart (count : ℕ) (normalizedAsr selectedText : Text) (texts : List Text) : Prop :=
  acceptedTexts count [normalizedAsr] texts≠[] ∧ (trim selectedText=[] ∨
    (trim selectedText≠normalizedAsr ∧ trim selectedText∉acceptedTexts count [normalizedAsr] texts))

/-- A selected text with white space around it is not among the texts. -/
theorem acceptedTexts_untrimmed {selectedText : Text} (h : trim selectedText≠selectedText)
    (count : ℕ) (normalizedAsr : Text) (texts : List Text) :
    acceptedTexts count [normalizedAsr,selectedText] texts=
      acceptedTexts count [normalizedAsr] texts := by
  unfold acceptedTexts
  congr 1
  refine fresh_congr fun text htext => ?_
  have hother : text≠selectedText := by
    rintro rfl
    exact h (mem_plainTexts htext).2
  simp [hother]

/-- A selected text without white space around it gives candidates as they
should be. -/
theorem wellFormed_trimmed {normalizedAsr : Text} (h : normalizedAsr≠[])
    (htrim : trim normalizedAsr=normalizedAsr) {selectedText : Text} (hselected : selectedText≠[])
    (hkept : trim selectedText=selectedText) (count : ℕ) (texts : List Text) :
    WellFormed count (commandPayload count normalizedAsr selectedText texts) := by
  have hleading := leading_leadingCommand h htrim selectedText
  refine (wellFormed_iff hleading _ texts _).mpr ⟨?_,?_⟩
  · refine List.nodup_append.mpr ⟨?_,nodup_acceptedTexts _ _ _,?_⟩
    · by_cases hsame : normalizedAsr=selectedText
      · simp [leadingCommand,hsame,hkept,hselected]
      · simp [leadingCommand,hsame,hkept,hselected,Ne.symm hsame]
    · intro first hfirst second hsecond
      have hnew := (mem_acceptedTexts hsecond).2.2
      rintro rfl
      by_cases hsame : normalizedAsr=selectedText
      · simp_all [leadingCommand,seenCommand]
      · simp_all [leadingCommand,seenCommand]
  · cases acceptedTexts count (seenCommand normalizedAsr selectedText) texts with
    | nil => simp [leadingCommand,hkept,hselected]
    | cons first rest => simp

/-- When the candidates of a command are as they should be. -/
theorem wellFormed_command_iff {normalizedAsr : Text} (h : normalizedAsr≠[])
    (htrim : trim normalizedAsr=normalizedAsr) {selectedText : Text} (hselected : selectedText≠[])
    (count : ℕ) (texts : List Text) :
    WellFormed count (commandPayload count normalizedAsr selectedText texts) ↔
      trim selectedText=selectedText ∨ OfferedApart count normalizedAsr selectedText texts := by
  by_cases hkept : trim selectedText=selectedText
  · simp [hkept,wellFormed_trimmed h htrim hselected hkept]
  · have hother : normalizedAsr≠selectedText := by
      rintro rfl
      exact hkept htrim
    have hleading := leading_leadingCommand h htrim selectedText
    have hnew : normalizedAsr∉acceptedTexts count [normalizedAsr] texts := by
      intro hmem
      exact (mem_acceptedTexts hmem).2.2 List.mem_cons_self
    have hnodup := nodup_acceptedTexts count [normalizedAsr] texts
    unfold commandPayload
    rw [wellFormed_iff hleading]
    simp only [seenCommand,if_neg hother,acceptedTexts_untrimmed hkept,leadingCommand,OfferedApart,
      hkept,false_or]
    cases haccepted : acceptedTexts count [normalizedAsr] texts with
    | nil =>
      have hmissing : selectedText≠trim selectedText := Ne.symm hkept
      by_cases hblank : trim selectedText=[]
      · simp [hblank,Ne.symm hother]
      · simp [hblank,hmissing,Ne.symm hother]
    | cons first rest =>
      rw [haccepted] at hnew hnodup
      have hfirst : normalizedAsr≠first ∧ normalizedAsr∉rest := by simpa using hnew
      by_cases hblank : trim selectedText=[]
      · simp [hblank,hfirst,List.nodup_cons.mp hnodup]
      · simp [hblank,hfirst,List.nodup_cons.mp hnodup]

/-- No rewriter is asked. -/
def Unasked (commandScene : Definition) (settings : CoreConfig) : Prop :=
  findService settings commandScene.providerId=none ∨
    normalizeLlmMaxCandidates commandScene.llmMaxCandidates=0 ∨
    ∃ provider error, findService settings commandScene.providerId=some (.provider provider) ∧
      resolvePrompt env commandScene.prompt=.error error

/-- What the rewriter of a command returns. -/
def repliedTexts (asrText selectedText : Text) (commandScene : Definition)
    (settings : CoreConfig) : List Text :=
  match findService settings commandScene.providerId with
  | none => []
  | some service =>
    match rewriteCommand env (trim asrText) selectedText commandScene
      (normalizeLlmMaxCandidates commandScene.llmMaxCandidates) service with
    | .error _ => []
    | .ok rewritten => rewritten.candidates.getD []

/-- A prompt that cannot be read leaves the rewriter unasked. -/
theorem rewriteCommand_error {normalizedAsr selectedText : Text} {commandScene : Definition}
    {maxCandidates : Int32} {service : Service} {error : String}
    (h : rewriteCommand env normalizedAsr selectedText commandScene maxCandidates service=
      .error error) :
    ∃ provider, service=.provider provider ∧
      resolvePrompt env commandScene.prompt=.error error := by
  cases service with
  | adapter adapter => cases h
  | provider provider =>
    refine ⟨provider,rfl,?_⟩
    simp only [rewriteCommand] at h
    split at h
    · rename_i hprompt
      cases h
      exact hprompt
    · cases h

/-- What is returned for a command: the command alone when no rewriter is
asked, or else what its reply makes of it. -/
theorem processCommand_eq {asrText selectedText : Text} (h : trim asrText≠[])
    (hselected : selectedText≠[]) (commandScene : Definition) (settings : CoreConfig) :
    (Unasked env commandScene settings ∧
      (processCommand env asrText selectedText commandScene settings).1=
        fallbackPayload (trim asrText)) ∨
    (¬Unasked env commandScene settings ∧
      (processCommand env asrText selectedText commandScene settings).1=
        commandPayload (llmCount commandScene) (trim asrText) selectedText
          (repliedTexts env asrText selectedText commandScene settings)) := by
  have hdata : ¬(trim asrText=[] ∨ selectedText=[]) := not_or.mpr ⟨h,hselected⟩
  simp only [processCommand,if_neg hdata,if_neg h,repliedTexts]
  cases hservice : findService settings commandScene.providerId with
  | none => exact .inl ⟨.inl hservice,rfl⟩
  | some service =>
    dsimp only
    by_cases hcount : normalizeLlmMaxCandidates commandScene.llmMaxCandidates=0
    · rw [if_pos hcount]
      exact .inl ⟨.inr (.inl hcount),rfl⟩
    · rw [if_neg hcount]
      cases hrewritten : rewriteCommand env (trim asrText) selectedText commandScene
          (normalizeLlmMaxCandidates commandScene.llmMaxCandidates) service with
      | error error =>
        obtain ⟨provider,rfl,hprompt⟩ := rewriteCommand_error env hrewritten
        exact .inl ⟨.inr (.inr ⟨provider,error,hservice,hprompt⟩),rfl⟩
      | ok rewritten =>
        right
        constructor
        · rintro (hnone | hzero | ⟨provider,error,hprovider,hprompt⟩)
          · rw [hservice] at hnone
            cases hnone
          · exact hcount hzero
          · rw [hservice,Option.some.injEq] at hprovider
            subst hprovider
            simp only [rewriteCommand,hprompt] at hrewritten
            cases hrewritten
        · have hfinish := finishCommand_eq h (trim_trim asrText) selectedText hcount
            (rewritten.candidates.getD [])
          rw [← hfinish]
          dsimp only
          cases rewritten.candidates <;> rfl

/-- Candidates are as they should be for every transcript, and for a command
unless its selected text has white space around it and is offered twice or
committed without being offered. -/
theorem candidates_wellFormed_iff (text selectedText : Text) (scene : Definition)
    (settings : CoreConfig) (h : trim text≠[]) :
    WellFormed (llmCount scene) (process env text scene settings).1 ∧
    (WellFormed (llmCount scene) (processCommand env text selectedText scene settings).1 ↔
      trim selectedText=selectedText ∨ Unasked env scene settings ∨
        OfferedApart (llmCount scene) (trim text) selectedText
          (repliedTexts env text selectedText scene settings)) := by
  have hfallback := wellFormed_fallback h (trim_trim text) (llmCount scene)
  refine ⟨wellFormed_process env h scene settings,?_⟩
  by_cases hselected : selectedText=[]
  · have hempty : (processCommand env text selectedText scene settings).1=
        fallbackPayload (trim text) := by
      simp [processCommand,hselected,h]
    rw [hempty,hselected]
    simp [hfallback,show trim ([] : Text)=[] from rfl]
  · rcases processCommand_eq env h hselected scene settings with
      ⟨hunasked,hpayload⟩ | ⟨hasked,hpayload⟩
    · rw [hpayload]
      simp [hfallback,hunasked]
    · rw [hpayload,wellFormed_command_iff h (trim_trim text) hselected]
      simp [hasked]

/-- An adapter that answers a greeting. -/
def greeting : Environment where
  openAiCompatible := fun _ _ _ _ _ _ _ => {}
  commandAdapter := fun _ _ _ _ => {candidates := some ["hi".toList]}
  loadFromFileUri := fun _ => .error ""
  sprintf := fun message _ => message
  toText := fun _ => []

/-- Settings with one adapter. -/
def adapterSettings : CoreConfig := {llm := {adapters := [{id := "local",command := "rewrite"}]}}

/-- A scene of that adapter. -/
def adapterScene : Definition := {id := "short",providerId := "local"}

/-- A selected text with white space around it is offered twice. -/
theorem selected_offered_twice :
    (processCommand greeting "hello".toList " hello ".toList adapterScene adapterSettings).1=
      ⟨"hi".toList,[⟨"hello".toList,.raw⟩,⟨"hello".toList,.asr⟩,⟨"hi".toList,.llm⟩]⟩ ∧
    ¬WellFormed (llmCount adapterScene)
      (processCommand greeting "hello".toList " hello ".toList adapterScene adapterSettings).1 := by
  have hpayload :
      (processCommand greeting "hello".toList " hello ".toList adapterScene adapterSettings).1=
        ⟨"hi".toList,[⟨"hello".toList,.raw⟩,⟨"hello".toList,.asr⟩,⟨"hi".toList,.llm⟩]⟩ := by
    decide +kernel
  refine ⟨hpayload,fun hformed => ?_⟩
  rw [hpayload] at hformed
  exact absurd hformed.distinct (by decide)

/-- One without is offered once. -/
theorem trimmed_offered_once :
    WellFormed (llmCount adapterScene)
      (processCommand greeting "shorter".toList "hello".toList adapterScene adapterSettings).1 :=
  ((candidates_wellFormed_iff greeting "shorter".toList "hello".toList adapterScene adapterSettings
    (by decide)).2).mpr (.inl (by decide))

end Commands

end Vinput.PostCandidates
