import Vinput.BackendSessions

/-!
# The streaming session of the local recognizer

The audio goes to the recognizer as it comes. Every decoding step is followed
by a look at the text, and a text that has changed is told at once. Finish adds
silence behind the audio, so that the recognizer gives its last words.
-/

namespace Vinput.OnlineRecognition

open RuntimeController (RecognitionEvent)
open BackendSessions (Text completed)
open EventSessions (Machine)

/-- A streaming recognizer over the state of a stream. A step of decoding uses
up frames that wait, so decoding comes to an end. -/
structure OnlineRecognizer (σ α : Type*) where
  acceptWaveform : List α → σ → σ
  inputFinished : σ → σ
  isReady : σ → Bool
  decode : σ → σ
  getText : σ → Text
  waiting : σ → ℕ
  settles : ∀ stream, isReady stream=true → waiting (decode stream)<waiting stream

/-- A stream and what was told of it. -/
structure Session (σ : Type*) where
  /-- Nothing once the session is reset. -/
  stream : Option σ
  finished : Bool := false
  totalSamples : ℕ := 0
  lastPartialText : Text := []
  events : List RecognitionEvent := []

variable {σ α : Type*} (recognizer : OnlineRecognizer σ α)

/-- A text that may still change. -/
def partialEvent (text : Text) : RecognitionEvent :=
  {kind := .partialText, text := String.ofList text}

/-- A text that will not change. -/
def finalEvent (text : Text) : RecognitionEvent :=
  {kind := .finalText, text := String.ofList text}

/-- The text of a stream, trimmed. -/
def currentText (stream : σ) : Text := VersionConstraint.trim (recognizer.getText stream)

/-- The text so far. -/
def getCurrentText (session : Session σ) : Text :=
  match session.stream with
  | none => []
  | some stream => currentText recognizer stream

/-- A text that is not the last one told is told. -/
def tellPartial (text : Text) (session : Session σ) : Session σ :=
  if text≠[] ∧ text≠session.lastPartialText then
    {session with
      lastPartialText := text
      events := session.events++[partialEvent text]}
  else session

/-- The loop of decoding, on the stream of the session. -/
def decodeLoop (stream : σ) (session : Session σ) : Session σ :=
  if _h : recognizer.isReady stream=true then
    decodeLoop (recognizer.decode stream)
      (tellPartial (currentText recognizer (recognizer.decode stream)) session)
  else {session with stream := some stream}
termination_by recognizer.waiting stream
decreasing_by exact recognizer.settles stream _h

/-- What is there is decoded and told. -/
def decodeAvailable (session : Session σ) : Session σ :=
  match session.stream with
  | none => session
  | some stream => decodeLoop recognizer stream session

/-- The samples go to the stream, then what can be decoded is decoded. -/
def pushAudio (samples : List α) (session : Session σ) : Session σ×Option String :=
  if session.finished=true then (session,some "Recognition session already finished.")
  else
    match session.stream with
    | none => (session,some "Streaming recognizer is not initialized.")
    | some stream =>
      if samples.isEmpty=true then (session,none)
      else
        (decodeAvailable recognizer
          {session with
            stream := some (recognizer.acceptWaveform samples stream)
            totalSamples := session.totalSamples+samples.length},none)

/-- The silence at the end, two thirds of a second. -/
def kTailPaddingSamples : ℕ := 16000*66/100

/-- The stream once its input is over. -/
def closeInput [Zero α] (total : ℕ) (stream : σ) : σ :=
  recognizer.inputFinished
    (if 0<total then recognizer.acceptWaveform (List.replicate kTailPaddingSamples 0) stream
    else stream)

/-- What Finish tells about the text at the end. -/
def tellFinal (text : Text) (session : Session σ) : Session σ :=
  if text≠[] then
    let session :=
      if text≠session.lastPartialText then
        {session with
          lastPartialText := text
          events := session.events++[partialEvent text]}
      else session
    {session with events := session.events++[finalEvent text]}
  else session

/-- The silence is added and the last text told. -/
def finish [Zero α] (session : Session σ) : Session σ×Option String :=
  if session.finished=true then (session,none)
  else
    match session.stream with
    | none => (session,some "Streaming recognizer is not initialized.")
    | some stream =>
      let session := decodeAvailable recognizer
        {session with
          finished := true
          stream := some (closeInput recognizer session.totalSamples stream)}
      let session := tellFinal (getCurrentText recognizer session) session
      ({session with events := session.events++[completed]},none)

/-- The session ends without a text. -/
def cancel (session : Session σ) : Session σ :=
  {session with
    finished := true
    events := [completed]
    stream := none}

/-- The events are handed out once. -/
def pollEvents (session : Session σ) : Session σ×List RecognitionEvent :=
  ({session with events := []},session.events)

/-- A session on a stream that was just made. -/
def createSession (stream : σ) : Session σ := {stream := some stream}

/-- What can be called on such a session; the input comes in chunks. -/
def machine [Zero α] : Machine (Session σ) (List α) RecognitionEvent where
  push samples session := (pushAudio recognizer samples session).1
  finish session := (finish recognizer session).1
  cancel := cancel
  poll := pollEvents
  events session := session.events

section Transcripts

/-- The stream once nothing can be decoded any more, and the texts seen on the way. -/
def settle (stream : σ) : σ×List Text :=
  if _h : recognizer.isReady stream=true then
    ((settle (recognizer.decode stream)).1,
      currentText recognizer (recognizer.decode stream)::(settle (recognizer.decode stream)).2)
  else (stream,[])
termination_by recognizer.waiting stream
decreasing_by all_goals exact recognizer.settles stream _h

/-- The stream after chunks of audio, and the texts seen on the way. -/
def hear (stream : σ) : List (List α) → σ×List Text
  | [] => (stream,[])
  | chunk::rest =>
    if chunk.isEmpty=true then hear stream rest
    else
      let settled := settle recognizer (recognizer.acceptWaveform chunk stream)
      let heard := hear settled.1 rest
      (heard.1,settled.2++heard.2)

/-- The texts seen up to the end of the input, and the text at the end. -/
def hearOut [Zero α] (stream : σ) (chunks : List (List α)) : List Text×Text :=
  let heard := hear recognizer stream chunks
  let settled := settle recognizer (closeInput recognizer chunks.flatten.length heard.1)
  (heard.2++settled.2,currentText recognizer settled.1)

/-- Texts that are told: not empty, and no text twice in a row. -/
def partials (texts : List Text) : List RecognitionEvent :=
  ((texts.filter fun text => decide (text≠[])).destutter (· ≠ ·)).map partialEvent

/-- The text at the end, where there is one, and that it is the end. -/
def ending (last : Text) : List RecognitionEvent :=
  (if last=[] then [] else [finalEvent last])++[completed]

/-- What a session tells about audio it takes. -/
def heardSoFar (stream : σ) (chunks : List (List α)) : List RecognitionEvent :=
  partials (hear recognizer stream chunks).2

/-- What a session tells once it is finished: a text at the end is the last
partial text as well. -/
def heardOut [Zero α] (stream : σ) (chunks : List (List α)) : List RecognitionEvent :=
  let (texts,last) := hearOut recognizer stream chunks
  partials (texts++[last])++ending last

end Transcripts

end Vinput.OnlineRecognition
