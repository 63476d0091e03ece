import Vinput.BackendSessions
import Vinput.InterleavedRuns

/-!
# What a gathering session tells

However the audio is cut into chunks and whenever the events are polled, a
session that is finished tells one script, which the audio alone fixes. A
cancel takes back what was not polled. The text of the offline session is made of the
texts of the segments, in order and with nothing lost.
-/

namespace Vinput.BackendSessionRuns

open InterleavedRuns EventSessions BackendSessions
open RuntimeController (RecognitionEvent)

section Texts

variable {α : Type*} {infer : List α → Except String Text}

/-- Texts in order, with a space where two words would run together. -/
def joinTexts : List Text → Text
  | [] => []
  | [text] => text
  | text::next::rest => text++(gap text next++joinTexts (next::rest))

/-- Further texts behind a text. -/
def joinBehind (text : Text) : List Text → Text
  | [] => text
  | next::rest => text++(gap text next++joinTexts (next::rest))

/-- The gap only looks at the end of the text. -/
theorem gap_append {left right next : Text} (h : right≠[]) :
    gap (left++right) next=gap right next := by
  unfold gap
  rw [List.getLast?_append_of_ne_nil left h]

/-- A text joins what is behind it only. -/
theorem joinBehind_append {left right : Text} (h : right≠[]) (rest : List Text) :
    joinBehind (left++right) rest=left++joinBehind right rest := by
  cases rest with
  | nil => rfl
  | cons next rest =>
    show left++right++(gap (left++right) next++joinTexts (next::rest))=
      left++(right++(gap right next++joinTexts (next::rest)))
    rw [gap_append h,List.append_assoc]

/-- The first text is joined without a gap. -/
theorem joinTexts_cons (text : Text) (rest : List Text) :
    joinTexts (text::rest)=joinBehind text rest := by
  cases rest <;> rfl

/-- Joining adds spaces and nothing else. -/
theorem joinTexts_words (texts : List Text) :
    (joinTexts texts).filter (fun c => decide (c≠ ' '))=
      texts.flatten.filter fun c => decide (c≠ ' ') := by
  have hgap : ∀ left right, (gap left right).filter (fun c => decide (c≠ ' '))=[] := by
    intro left right
    unfold gap
    split
    · split <;> rfl
    · rfl
  induction texts with
  | nil => rfl
  | cons text rest ih =>
    cases rest with
    | nil => rw [List.flatten_cons,List.flatten_nil,List.append_nil]; rfl
    | cons next rest =>
      unfold joinTexts
      rw [List.filter_append,List.filter_append,hgap,ih,List.nil_append,
        @List.flatten_cons _ text,List.filter_append]

/-- Segments and texts that are not empty. -/
def spoken {β : Type*} (parts : List (List β)) : List (List β) :=
  parts.filter fun part => !part.isEmpty

/-- The loop over the segments joins the texts of the segments. -/
theorem inferSegments_eq (text : Text) (segments : List (List α)) :
    inferSegments infer text segments=
      ((spoken segments).mapM infer).map fun texts => joinBehind text (spoken texts) := by
  induction segments generalizing text with
  | nil => rfl
  | cons segment rest ih =>
    unfold inferSegments
    by_cases hempty : segment.isEmpty=true
    · rw [if_pos hempty,ih]
      unfold spoken
      rw [List.filter_cons_of_neg (by rw [hempty]; decide)]
    · have hspoken : spoken (segment::rest)=segment::spoken rest :=
        List.filter_cons_of_pos (by simpa using hempty)
      rw [if_neg hempty,hspoken,List.mapM_cons]
      cases infer segment with
      | error what => rfl
      | ok segText =>
        dsimp only [bind,Except.bind]
        by_cases hsilent : segText.isEmpty=true
        · rw [if_pos hsilent,ih]
          cases (spoken rest).mapM infer with
          | error what => rfl
          | ok texts =>
            have hskip : spoken (segText::texts)=spoken texts :=
              List.filter_cons_of_neg (by rw [hsilent]; decide)
            dsimp only [Except.map,pure,Except.pure]
            rw [hskip]
        · rw [if_neg hsilent,ih]
          cases (spoken rest).mapM infer with
          | error what => rfl
          | ok texts =>
            have hkeep : spoken (segText::texts)=segText::spoken texts :=
              List.filter_cons_of_pos (by simpa using hsilent)
            have hne : segText≠[] := fun hnil => hsilent (by rw [hnil]; rfl)
            dsimp only [Except.map,pure,Except.pure]
            rw [hkeep]
            have hfound : joinBehind text (segText::spoken texts)=
                text++(gap text segText++joinTexts (segText::spoken texts)) := rfl
            rw [hfound,joinTexts_cons,←List.append_assoc text,←List.append_assoc text,
              joinBehind_append hne]

end Texts

section Told

variable {α : Type*} (transcribe : List α → Transcription)

/-- A session that gathers these chunks. -/
structure Gathering (chunks : List (List α)) (session : BufferedSession α) : Prop where
  unfinished : session.finished=false
  samples : session.samples=chunks.flatten
  silent : session.events=[]

variable {transcribe} {chunks : List (List α)} {session : BufferedSession α}

theorem gathering_push (h : Gathering chunks session) (samples : List α) :
    Gathering (chunks++[samples]) (pushAudio samples session).1 := by
  unfold pushAudio
  rw [if_neg (by rw [h.unfinished]; decide)]
  refine ⟨h.unfinished,?_,h.silent⟩
  rw [List.flatten_append,List.flatten_singleton,h.samples]

/-- A finish tells the verdict on all samples. -/
theorem finish_gathering (h : Gathering chunks session) : finish transcribe session=
    (({finished := true, samples := chunks.flatten, events := verdictAndEnd transcribe chunks} :
        BufferedSession α),
      (transcribe chunks.flatten).ok,(transcribe chunks.flatten).error) := by
  unfold finish
  rw [if_neg (by rw [h.unfinished]; decide),h.silent,h.samples]
  rfl

variable (transcribe)

/-- Such a session tells nothing while it gathers. -/
def protocol : Protocol (machine transcribe) {} completed (fun _ => [])
    (verdictAndEnd transcribe) where
  finished session := session.finished=true
  listens := Gathering
  started := ⟨⟨rfl,rfl,rfl⟩,rfl,rfl⟩
  push_listens := by
    intro chunks samples session h
    have hpushed := gathering_push h samples
    refine ⟨hpushed,[],?_,rfl⟩
    show (pushAudio samples session).1.events=session.events++[]
    rw [hpushed.silent,h.silent]
    rfl
  finish_listens := by
    intro chunks session h
    dsimp only [machine]
    rw [finish_gathering h,h.silent]
    exact ⟨rfl,verdictAndEnd transcribe chunks,rfl,rfl⟩
  poll_listens := fun _ _ h => ⟨h.unfinished,h.samples,rfl⟩
  push_finished := by
    intro samples session h
    show (pushAudio samples session).1=session
    unfold pushAudio
    rw [if_pos h]
  finish_finished := by
    intro session h
    show (finish transcribe session).1=session
    unfold finish
    rw [if_pos h]
  poll_finished := fun _ h => h
  poll_events := fun _ => ⟨rfl,rfl⟩
  cancel_finished := fun _ => ⟨rfl,rfl⟩

/-- The session after chunks that are only pushed. -/
def gathered (chunks : List (List α)) : BufferedSession α :=
  (run (perform (machine transcribe)) ⟨{},[]⟩ (chunks.map .push)).session

/-- What is collected from a session, however its audio is cut into chunks. -/
theorem finishSession_gathered (chunks : List (List α)) :
    finishSession transcribe (gathered transcribe chunks)=
      RuntimeController.finishSessionAndCollectResult (transcribe chunks.flatten).ok
        (transcribe chunks.flatten).error (verdictAndEnd transcribe chunks) := by
  have hgathers : Gathering chunks (gathered transcribe chunks) :=
    pushed (protocol transcribe) chunks
  unfold finishSession
  rw [finish_gathering hgathers]
  rfl

end Told

section Verdicts

open PostProcessing (CommandResult)

variable {α : Type*}

/-- A text that is not empty, an error, or neither. -/
def Verdict (events : List RecognitionEvent) : Prop :=
  events=[] ∨ (∃ text, text≠"" ∧ events=[{kind := .finalText, text := text}]) ∨
    ∃ error, events=[{kind := .error, error := error}]

/-- A text that is not empty stays so. -/
theorem ofList_ne {text : Text} (h : text.isEmpty≠true) : String.ofList text≠"" := by
  intro hempty
  have hnil : text=[] := String.ofList_injective hempty
  exact h (by rw [hnil]; rfl)

/-- An offline recogniser gives a verdict. -/
theorem offline_verdict (recognizer : Recognizer α) (samples : List α) :
    Verdict (offlineTranscribe recognizer samples).events := by
  unfold offlineTranscribe
  split
  · exact .inl rfl
  · split
    · exact .inr (.inr ⟨_,rfl⟩)
    · dsimp only
      split
      · exact .inl rfl
      · rename_i hne
        exact .inr (.inl ⟨_,ofList_ne hne,rfl⟩)

theorem batch_verdict (command : List Int16 → CommandResult) (pcm : List Int16) :
    Verdict (batchTranscribe command pcm).events ∧ (batchTranscribe command pcm).events≠[] := by
  dsimp only [batchTranscribe]
  unfold batchEvents
  split
  · exact ⟨.inr (.inr ⟨_,rfl⟩),nofun⟩
  · split
    · exact ⟨.inr (.inr ⟨_,rfl⟩),nofun⟩
    · split
      · exact ⟨.inr (.inr ⟨_,rfl⟩),nofun⟩
      · dsimp only
        split
        · exact ⟨.inr (.inr ⟨_,rfl⟩),nofun⟩
        · rename_i hne
          exact ⟨.inr (.inl ⟨_,ofList_ne hne,rfl⟩),nofun⟩

/-- Whatever is called on an offline or a batch session and in which order:
before the end it tells nothing, then one verdict and that it is over, and a
cancel puts that it is over in the place of what was not polled. A command that
was run always gives a verdict. -/
theorem verdict_told (recognizer : Recognizer α) (command : List Int16 → CommandResult) :
    Tells (machine (offlineTranscribe recognizer)) {} completed (fun _ => [])
      (verdictAndEnd (offlineTranscribe recognizer)) ∧
    Tells (machine (batchTranscribe command)) {} completed (fun _ => [])
      (verdictAndEnd (batchTranscribe command)) ∧
    (∀ samples, Verdict (offlineTranscribe recognizer samples).events) ∧
    ∀ pcm, Verdict (batchTranscribe command pcm).events ∧
      (batchTranscribe command pcm).events≠[] :=
  ⟨tells (protocol _),tells (protocol _),offline_verdict recognizer,batch_verdict command⟩

end Verdicts

section Collected

variable {α : Type*}

/-- The text in a recording: the texts of its segments, in order. -/
def spokenText (recognizer : Recognizer α) (samples : List α) : Except String Text :=
  match recognizer.segment with
  | none => recognizer.infer samples
  | some segment =>
    (segment samples).bind fun segments =>
      ((spoken segments).mapM recognizer.infer).map fun texts => joinTexts (spoken texts)

/-- What is made of a recording. -/
def offlineResult (recognizer : Recognizer α) (samples : List α) :
    RuntimeController.RecognitionRunResult :=
  if samples.length<kMinSamplesForInference then {}
  else
    match spokenText recognizer samples with
    | .ok text => {text := String.ofList text}
    | .error what =>
      let friendly := formatOfflineAsrError recognizer.tooLong what samples.length
      ⟨false,"",if friendly="" then "Failed to finish recognition session." else friendly⟩

/-- Behind nothing texts are joined as they are. -/
theorem joinBehind_nil (texts : List Text) : joinBehind [] texts=joinTexts texts := by
  cases texts <;> rfl

/-- The text of a recogniser is what it spoke of its segments. -/
theorem offlineText_eq (recognizer : Recognizer α) (samples : List α) :
    offlineText recognizer samples=spokenText recognizer samples := by
  unfold offlineText spokenText
  cases recognizer.segment with
  | none => rfl
  | some segment =>
    dsimp only
    cases segment samples with
    | error what => rfl
    | ok segments =>
      dsimp only [Except.bind]
      rw [inferSegments_eq]
      cases (spoken segments).mapM recognizer.infer with
      | error what => rfl
      | ok texts =>
        dsimp only [Except.map]
        rw [joinBehind_nil]

/-- However a recording is cut into chunks, the offline session makes the same
of it: nothing of a recording that is too short, else the texts of its segments
in order, with spaces added and nothing lost, and no text at all where the
recognizer fails. -/
theorem offline_collected (recognizer : Recognizer α) :
    (∀ chunks : List (List α), finishSession (offlineTranscribe recognizer)
      (gathered (offlineTranscribe recognizer) chunks)=
        offlineResult recognizer chunks.flatten) ∧
    ∀ texts : List Text, (joinTexts texts).filter (fun c => decide (c≠ ' '))=
      texts.flatten.filter fun c => decide (c≠ ' ') := by
  refine ⟨fun chunks => ?_,joinTexts_words⟩
  rw [finishSession_gathered]
  unfold verdictAndEnd offlineTranscribe offlineResult
  rw [offlineText_eq]
  by_cases hshort : chunks.flatten.length<kMinSamplesForInference
  · rw [if_pos hshort,if_pos hshort]
    rfl
  · rw [if_neg hshort,if_neg hshort]
    cases spokenText recognizer chunks.flatten with
    | error what =>
      dsimp only
      generalize formatOfflineAsrError recognizer.tooLong what chunks.flatten.length=friendly
      by_cases hfriendly : friendly=""
      · rw [hfriendly]
        rfl
      · unfold RuntimeController.finishSessionAndCollectResult
        rw [if_neg hfriendly]
        dsimp only [List.cons_append,List.nil_append,List.foldl_cons,
          RuntimeController.collectEvent]
        rw [if_neg hfriendly]
        rfl
    | ok text =>
      cases text <;> rfl

end Collected

end Vinput.BackendSessionRuns
