import Vinput.EventSessions
import Vinput.PostProcessing
import Vinput.RuntimeController

/-!
# Sessions that recognize when they are finished

The offline session and the batch session gather audio and do all their work
in Finish. They differ in what they make of the audio only, so one session with
a parameter stands for both.
-/

namespace Vinput.BackendSessions

open RuntimeController

/-- A text that was recognised. -/
abbrev Text := List Char

section Session

/-- What Finish makes of the audio: the events before the last one, whether it
reports success, and the error it reports. -/
structure Transcription where
  events : List RecognitionEvent
  ok : Bool := true
  error : String := ""
deriving DecidableEq

/-- A session that gathers audio. -/
structure BufferedSession (α : Type*) where
  finished : Bool := false
  samples : List α := []
  events : List RecognitionEvent := []

variable {α : Type*} (transcribe : List α → Transcription)

/-- The end of a session. -/
def completed : RecognitionEvent := {kind := .completed}

/-- Audio is gathered until the session ends. -/
def pushAudio (samples : List α) (session : BufferedSession α) : BufferedSession α×Option String :=
  if session.finished=true then (session,some "Recognition session already finished.")
  else ({session with samples := session.samples++samples},none)

/-- The session, whether it is finished well, and the error text. -/
def finish (session : BufferedSession α) : BufferedSession α×Bool×String :=
  if session.finished=true then (session,true,"")
  else
    let made := transcribe session.samples
    ({session with finished := true, events := session.events++made.events++[completed]},
      made.ok,made.error)

/-- Nothing is told any more but that the session is over. -/
def cancel (_ : BufferedSession α) : BufferedSession α :=
  {finished := true, samples := [], events := [completed]}

/-- The events are handed out once. -/
def pollEvents (session : BufferedSession α) : BufferedSession α×List RecognitionEvent :=
  ({session with events := []},session.events)

/-- Finish, then the events at once, as the lifecycle manager does. -/
def finishSession (session : BufferedSession α) : RecognitionRunResult :=
  let (session,ok,error) := finish transcribe session
  finishSessionAndCollectResult ok error (pollEvents session).2

end Session

section Offline

/-- What the offline session relies on: the recognizer, the detector of speech
where there is one, each of which may throw, and the text about audio that is
too long for a model. -/
structure Recognizer (α : Type*) where
  infer : List α → Except String Text
  segment : Option (List α → Except String (List (List α)))
  tooLong : ℕ → String

/-- Less audio than this is not recognised. -/
def kMinSamplesForInference : ℕ := 8000

/-- An ASCII letter or digit. -/
def isAsciiAlnum (c : Char) : Bool :=
  decide (('a' ≤ c ∧ c ≤ 'z') ∨ ('A' ≤ c ∧ c ≤ 'Z') ∨ ('0' ≤ c ∧ c ≤ '9'))

/-- Two words of ASCII letters are kept apart. -/
def needsSpaceBetween (left right : Char) : Bool := isAsciiAlnum left && isAsciiAlnum right

/-- The space between two texts. -/
def gap (left right : Text) : Text :=
  match left.getLast?,right.head? with
  | some last,some first => if needsSpaceBetween last first=true then [' '] else []
  | _,_ => []

variable {α : Type*}

/-- The loop over the segments. -/
def inferSegments (infer : List α → Except String Text) : Text → List (List α) → Except String Text
  | text,[] => .ok text
  | text,segment::rest =>
    if segment.isEmpty=true then inferSegments infer text rest
    else
      match infer segment with
      | .error what => .error what
      | .ok segText =>
        if segText.isEmpty=true then inferSegments infer text rest
        else inferSegments infer (text++(gap text segText++segText)) rest

/-- The text of a recording, or why there is none. -/
def offlineText (recognizer : Recognizer α) (samples : List α) : Except String Text :=
  match recognizer.segment with
  | some segment =>
    match segment samples with
    | .error what => .error what
    | .ok segments => inferSegments recognizer.infer [] segments
  | none => recognizer.infer samples

/-- A text occurs in another. -/
def occursIn (part : Text) : Text → Bool
  | [] => part.isEmpty
  | c::rest => part.isPrefixOf (c::rest) || occursIn part rest

/-- Twenty seconds at the rate of the recognizer. -/
def kOfflineCapacityLimitSamples : ℕ := 20*16000

/-- What is said of an exception. -/
def formatOfflineAsrError (tooLong : ℕ → String) (rawError : String) (count : ℕ) : String :=
  if (occursIn "Reshape".toList rawError.toList ||
      occursIn "cannot be reshaped".toList rawError.toList)=true ∧
      kOfflineCapacityLimitSamples<count then
    tooLong count
  else rawError

/-- A recording is recognised as a whole. -/
def offlineTranscribe (recognizer : Recognizer α) (samples : List α) : Transcription :=
  if samples.length<kMinSamplesForInference then ⟨[],true,""⟩
  else
    match offlineText recognizer samples with
    | .error what =>
      let friendly := formatOfflineAsrError recognizer.tooLong what samples.length
      ⟨[{kind := .error, error := friendly}],false,friendly⟩
    | .ok text =>
      ⟨if text.isEmpty=true then [] else [{kind := .finalText, text := String.ofList text}],true,""⟩

end Offline

section Batch

open PostProcessing (CommandResult)

/-- The events of one run of the command. -/
def batchEvents (result : CommandResult) : List RecognitionEvent :=
  if result.launchFailed=true then
    [{kind := .error, error := "Command ASR provider failed to start."}]
  else if result.timedOut=true then
    [{kind := .error, error := "Command ASR provider timed out."}]
  else if result.exitCode≠0 then
    [{kind := .error, error := "Command ASR provider exited abnormally."}]
  else
    let text := VersionConstraint.trim result.stdoutText
    if text.isEmpty=true then
      [{kind := .error, error := "Command ASR provider returned no text."}]
    else [{kind := .finalText, text := String.ofList text}]

/-- A recording is handed to a command. -/
def batchTranscribe (run : List Int16 → CommandResult) (pcm : List Int16) : Transcription :=
  let events := batchEvents (run pcm)
  let error := match events.head? with
    | some event => if event.kind=.error then event.error else ""
    | none => ""
  ⟨events,decide (error=""),error⟩

end Batch

section Calls

open EventSessions (Machine)

variable {α : Type*} (transcribe : List α → Transcription)

/-- What can be called on such a session; the input comes in chunks. -/
def machine : Machine (BufferedSession α) (List α) RecognitionEvent where
  push samples session := (pushAudio samples session).1
  finish session := (finish transcribe session).1
  cancel := cancel
  poll := pollEvents
  events session := session.events

/-- What a session tells once it is finished. -/
def verdictAndEnd (chunks : List (List α)) : List RecognitionEvent :=
  (transcribe chunks.flatten).events++[completed]

end Calls

end Vinput.BackendSessions
