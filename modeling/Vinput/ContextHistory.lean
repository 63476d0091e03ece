import Vinput.FrontendSession
import Vinput.RecognitionResult

/-!
# The context history of the engine

The engine keeps a history of what is written, as context for language models.
Texts that other input methods commit are joined until a sentence ends, the
input context changes or nothing is typed for a while. Recognised texts and
texts of a language model are noted by themselves. The text the engine commits
is known from its result, so that its own commit event is not noted again.
-/

namespace Vinput.ContextHistory

open FrontendSession (InputContext)
open HotwordFile (decodeCodepoint)
open ProcessLines (Bytes)
open RecognitionResult Utf8Codec

section Texts

/-- Properties of code points in the tables of unicodelib. -/
structure UnicodeTables where
  isUnifiedIdeograph : UInt32 → Bool
  isIdeographic : UInt32 → Bool
  isSentenceTerminal : UInt32 → Bool

/-- The source of typed text. -/
def kContextSourceUser : Bytes := bytes "user"

/-- Ill formed bytes are left out. -/
def SanitizeUtf8 (text : Bytes) : Bytes := if text=[] then text else encode (decode text)

/-- The first code point of a text. -/
def decodeFirst (text : Bytes) : UInt32 :=
  match decodeCodepoint text with
  | some (_,cp) => cp
  | none => 0

/-- The last code point of a text. -/
def decodeLast (text : Bytes) : UInt32 := (decode text).getLastD 0

variable (tables : UnicodeTables)

/-- A Chinese, Japanese or Korean character. -/
def isCjk (cp : UInt32) : Bool := tables.isUnifiedIdeograph cp || tables.isIdeographic cp

/-- There is one on either side. -/
def IsCjkAtBoundary (left right : Bytes) : Bool :=
  isCjk tables (decodeLast left) || isCjk tables (decodeFirst right)

/-- An ellipsis and a line break end a sentence as well. -/
def EndsWithSentenceTerminal (text : Bytes) : Bool :=
  match (decode text).getLast? with
  | none => false
  | some cp => tables.isSentenceTerminal cp || decide (cp=0x2026) || decide (cp=0x0A)

/-- Texts are joined with a blank, except next to an ideograph. -/
def joinText (buffer text : Bytes) : Bytes :=
  (if buffer≠[] ∧ IsCjkAtBoundary tables buffer text=false ∧ buffer.getLast?≠some 0x20 then
    buffer++[0x20]
  else buffer)++text

end Texts

section Engine

/-- A line handed to the context writer. -/
structure ContextEntry where
  text : Bytes
  source : Bytes
  timestamp : ℤ
  maxLines : ℤ
deriving DecidableEq

/-- What the engine keeps for the history. -/
structure Engine where
  maxContextLines : ℤ := 0
  contextBufferText : Bytes := []
  contextBufferIc : Option InputContext := none
  /-- The timer that ends a pause is enabled. -/
  contextFlushTimer : Bool := false
  pendingSuppressedCommitText : Option Bytes := none
  resultMenuIc : Option InputContext := none
  resultCandidates : List Candidate := []
  /-- Seconds of the clock. -/
  now : ℤ := 0
  /-- Lines handed to the context writer, the first one first. What its bounded queue gives
  up is only logged. -/
  written : List ContextEntry := []
deriving DecidableEq

/-- A line is handed to the context writer. -/
def enqueue (engine : Engine) (text source : Bytes) : Engine :=
  {engine with
    written := engine.written++
      [⟨SanitizeUtf8 text,SanitizeUtf8 source,engine.now,engine.maxContextLines⟩]}

/-- What has been typed is handed to the writer. -/
def flushContextBuffer (engine : Engine) : Engine :=
  let engine := {engine with contextBufferIc := none}
  if engine.contextBufferText=[] then engine
  else
    let engine :=
      if engine.maxContextLines ≤ 0 then engine
      else enqueue engine engine.contextBufferText kContextSourceUser
    {engine with
      contextBufferText := []
      contextFlushTimer := false}

/-- What has been typed before comes first. -/
def appendContextEntry (engine : Engine) (text source : Bytes) : Engine :=
  if engine.maxContextLines ≤ 0 ∨ text=[] then engine
  else
    enqueue
      (if source≠kContextSourceUser ∧ engine.contextBufferText≠[] then flushContextBuffer engine
      else engine) text source

/-- The next commit of this text is ignored. -/
def suppressNextCommitContext (engine : Engine) (text : Bytes) : Engine :=
  {engine with pendingSuppressedCommitText := if text=[] then none else some text}

variable (tables : UnicodeTables)

/-- A text is added to what has been typed; the end of a sentence is flushed. -/
def extendContextBuffer (engine : Engine) (text : Bytes) (ic : InputContext) : Engine :=
  let engine :=
    {engine with
      contextBufferIc := some ic
      contextBufferText := joinText tables engine.contextBufferText text}
  if EndsWithSentenceTerminal tables engine.contextBufferText then flushContextBuffer engine
  else {engine with contextFlushTimer := true}

/-- A typed text joins the buffer of its context. -/
def accumulateContextBuffer (engine : Engine) (text : Bytes) (ic : InputContext) : Engine :=
  extendContextBuffer tables
    (if engine.contextBufferIc≠some ic ∧ engine.contextBufferText≠[] then flushContextBuffer engine
    else engine) text ic

/-- A text was committed. -/
def onCommitString (engine : Engine) (text : Bytes) (ic : InputContext) : Engine :=
  let pending := engine.pendingSuppressedCommitText
  let engine := {engine with pendingSuppressedCommitText := none}
  if engine.maxContextLines ≤ 0 ∨ text=[] then engine
  else if pending=some text then engine
  else accumulateContextBuffer tables engine text ic

/-- The settings of the scenes are read again. -/
def reloadSceneConfig (engine : Engine) (contextLines : List ℤ) : Engine :=
  let engine := {engine with maxContextLines := contextLines.foldl max 0}
  if engine.maxContextLines ≤ 0 then
    {engine with
      contextBufferText := []
      contextBufferIc := none
      contextFlushTimer := false}
  else engine

end Engine

section Results

/-- A menu is gone. -/
def resetResultMenuState (engine : Engine) : Engine :=
  {engine with
    resultMenuIc := none
    resultCandidates := []}

/-- The recognised text among the candidates. In command mode the selected
text is a raw candidate as well. -/
def asrCandidate (payload : Payload) (command : Option Bytes) : Option Candidate :=
  match payload.candidates.find? fun candidate => decide (candidate.source=kSourceAsr) with
  | some candidate => some candidate
  | none =>
    payload.candidates.find? fun candidate =>
      decide (candidate.source=kSourceRaw ∧ command≠some candidate.text)

/-- The committed text is of a language model. -/
def commitFromLlm (payload : Payload) : Bool :=
  payload.candidates.any fun candidate =>
    decide (candidate.source=kSourceLlm ∧ candidate.text=payload.commitText)

/-- There is something to choose. -/
def shouldShowResultMenu (payload : Payload) (command : Option Bytes) : Bool :=
  match command with
  | some _ => decide (1<(payload.candidates.filter fun candidate =>
      decide (candidate.source=kSourceLlm)).length)
  | none => decide (1<payload.candidates.length)

/-- The candidates of a result are shown. -/
def showResultMenu (engine : Engine) (ic : InputContext) (payload : Payload) : Engine :=
  if payload.candidates=[] then engine
  else
    {engine with
      resultMenuIc := some ic
      resultCandidates := payload.candidates}

/-- The recognised text of a result is noted. -/
def noteRecognised (engine : Engine) (payload : Payload) (command : Option Bytes) : Engine :=
  match asrCandidate payload command with
  | some candidate =>
    if candidate.text≠[] then appendContextEntry engine candidate.text kSourceAsr else engine
  | none => engine

/-- A result is offered in a menu or committed. `command` is the selected text
of a session in command mode, `ic` the input context of the session. -/
def onRecognitionResult (glaze : Glaze) (engine : Engine) (payloadText : Bytes)
    (command : Option Bytes) (ic : Option InputContext) :
    Engine×Option (Bytes×InputContext) :=
  match ic with
  | none => (engine,none)
  | some ic =>
    let payload := Parse glaze payloadText
    let engine := resetResultMenuState engine
    if payload.commitText=[] then (engine,none)
    else
      let engine := noteRecognised engine payload command
      if shouldShowResultMenu payload command then (showResultMenu engine ic payload,none)
      else
        let engine :=
          if commitFromLlm payload then appendContextEntry engine payload.commitText kSourceLlm
          else engine
        (suppressNextCommitContext engine payload.commitText,some (payload.commitText,ic))

/-- A candidate of the menu is committed. -/
def selectResultCandidate (engine : Engine) (index : ℕ) (ic : InputContext) :
    Engine×Option (Bytes×InputContext) :=
  let chosen := engine.resultCandidates[index]?
  let engine := resetResultMenuState engine
  match chosen with
  | none => (engine,none)
  | some chosen =>
    let engine :=
      if chosen.source=kSourceLlm then appendContextEntry engine chosen.text kSourceLlm else engine
    (suppressNextCommitContext engine chosen.text,some (chosen.text,ic))

/-- An input context goes away. -/
def inputContextDestroyed (engine : Engine) (ic : InputContext) : Engine :=
  let engine := if engine.resultMenuIc=some ic then resetResultMenuState engine else engine
  if engine.contextBufferIc=some ic then flushContextBuffer engine else engine

/-- The timer is one-shot. -/
def contextFlushTimerFires (engine : Engine) : Engine :=
  if engine.contextFlushTimer then flushContextBuffer {engine with contextFlushTimer := false}
  else engine

end Results

section Machine

/-- What the event loop hands to the engine. -/
inductive Event where
  /-- A text has been committed to an input context, by whomever. -/
  | commitString (text : Bytes) (ic : InputContext)
  | recognitionResult (payloadText : Bytes) (command : Option Bytes) (ic : Option InputContext)
  | selectResult (index : ℕ) (ic : InputContext)
  | hideResultMenu
  | startRecording
  | inputContextDestroyed (ic : InputContext)
  | contextFlushTimer
  /-- The settings are read: the context lines of the scenes. -/
  | reloadSceneConfig (contextLines : List ℤ)
  /-- Time passes. -/
  | clock (now : ℤ)

/-- What the engine depends on. -/
structure Library where
  tables : UnicodeTables
  glaze : Glaze
  /-- What the framework makes of a text that is committed, before it announces it. -/
  commitFilter : InputContext → Bytes → Bytes

variable (library : Library)

/-- An event is handled; the text the engine commits by itself is told. -/
def handle (engine : Engine) : Event → Engine×Option (Bytes×InputContext)
  | .commitString text ic => (onCommitString library.tables engine text ic,none)
  | .recognitionResult payloadText command ic =>
    onRecognitionResult library.glaze engine payloadText command ic
  | .selectResult index ic => selectResultCandidate engine index ic
  | .hideResultMenu => (resetResultMenuState engine,none)
  | .startRecording => (flushContextBuffer engine,none)
  | .inputContextDestroyed ic => (inputContextDestroyed engine ic,none)
  | .contextFlushTimer => (contextFlushTimerFires engine,none)
  | .reloadSceneConfig contextLines => (reloadSceneConfig engine contextLines,none)
  | .clock now => ({engine with now := now},none)

/-- The engine after an event. -/
def step (engine : Engine) (event : Event) : Engine := (handle library engine event).1

/-- The engine after an event and after its own commit has come back as an
event, before any other one. -/
def promptStep (engine : Engine) (event : Event) : Engine :=
  match handle library engine event with
  | (engine,none) => engine
  | (engine,some (text,ic)) =>
    onCommitString library.tables engine (library.commitFilter ic text) ic

end Machine

end Vinput.ContextHistory
