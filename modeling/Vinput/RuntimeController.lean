import Vinput.InterleavedRuns
import Vinput.AsrSettings
import Vinput.RuntimePhases
import Vinput.RecordingBuffer

/-!
# The daemon runtime controller

All threads of the controller over one memory. Every region of the state
mutex, every access to an atomic flag and every step of the capture device
is one step; a thread is a program counter between two such steps with the
locals it carries. Recognition sessions are numbered in the order of their
creation. What the environment decides, such as the calls that arrive, the
outcome of opening the capture or of creating a session, the events of a
session and the result of post-processing, is an oracle of each step.
-/

namespace Vinput.RuntimeController

open InterleavedRuns AsrSettings RuntimePhases
open RecordingBuffer (Gain AudioPcmChunk AudioRecordingBuffer streamingChunkSamples)

/-- Fewest samples worth recognizing. -/
def minSamplesForRecognition : ℕ := 8000

/-- Result of a method call. -/
structure MethodResult where
  /-- The call succeeded. -/
  ok : Bool
  /-- Text of a failure. -/
  message : String := ""
deriving DecidableEq, Repr

/-- Successful result. -/
def success : MethodResult := ⟨true,""⟩

/-- Failed result with its text. -/
def failure (message : String) : MethodResult := ⟨false,message⟩

/-- Kinds of events a session reports. -/
inductive RecognitionEventKind where
  | partialText
  | finalText
  | error
  | completed
deriving DecidableEq, Repr

/-- An event of a recognition session. -/
structure RecognitionEvent where
  /-- Kind of the event. -/
  kind : RecognitionEventKind := .completed
  /-- Transcript of a text event. -/
  text : String := ""
  /-- Text of an error event. -/
  error : String := ""
deriving DecidableEq, Repr

/-- What post-processing is asked to work on. -/
structure PostprocessRequest where
  /-- Recognized or injected text. -/
  text : String := ""
  /-- Scene to apply. -/
  sceneId : String := ""
  /-- The text is a command. -/
  isCommand : Bool := false
  /-- Text the command applies to. -/
  selectedText : String := ""
deriving DecidableEq, Repr

/-- An order for the worker. -/
structure RecognitionOrder where
  /-- How the session receives audio. -/
  audioDeliveryMode : AudioDeliveryMode := .chunked
  /-- Session to finish, absent for injected text. -/
  session : Option ℕ := none
  /-- Backend of the session. -/
  backend : BackendDescriptor := {}
  /-- Samples the session has not received. -/
  pcm : List Int16 := []
  /-- Request for post-processing. -/
  postprocessRequest : PostprocessRequest := {}
  /-- The input method receives the result. -/
  ime : Bool := true
deriving DecidableEq

/-- The slot of the current order. Moving an order out leaves the slot
engaged with an order that has nothing left. -/
inductive OrderSlot where
  | empty
  | queued (order : RecognitionOrder)
  | movedFrom
deriving DecidableEq

/-- Arguments of a start. -/
structure StartCall where
  /-- The input method takes part. -/
  ime : Bool := true
  /-- Command recording. -/
  isCommand : Bool := false
  /-- Text the command applies to. -/
  selectedText : String := ""
deriving DecidableEq, Repr

/-- Stage of an injected text. -/
inductive InjectStage where
  | partialText
  | finalText
deriving DecidableEq, Repr

/-- Calls that arrive from the bus, the clients, the main loop and the
capture device. -/
inductive Call where
  | startRecording (call : StartCall)
  | stopRecording (ime : Bool) (sceneId : String)
  | cancelOperation (ime commitRawText : Bool)
  | injectText (ime : Bool) (stage : InjectStage) (text sceneId : String)
  | reloadAsrBackend
  | flushDeferredActions
  | maybeDestroyExpiredStream
  | processCallback (chunks : List AudioPcmChunk)
  | shutdown

/-- Outcome of opening the capture. A reused stream that cannot be
activated is recreated, and then the recording flag stays off. -/
inductive CaptureOutcome where
  | opened
  | reopened
  | failed (error : String)
deriving DecidableEq, Repr

/-- Outcome of creating a session. -/
inductive SessionOutcome where
  | created (backend : BackendDescriptor)
  | refused (error : String)
deriving DecidableEq, Repr

/-- Source of a candidate that is the recognized text itself. -/
def sourceRaw : String := "raw"

/-- A candidate of a result. -/
structure Candidate where
  /-- Text of the candidate. -/
  text : String := ""
  /-- Where the text comes from. -/
  source : String := ""
deriving DecidableEq, Repr

/-- What a result carries to its receivers. -/
structure Payload where
  /-- Text to commit. -/
  commitText : String := ""
  /-- Candidates to choose from. -/
  candidates : List Candidate := []
deriving DecidableEq, Repr

/-- The payload of a text as it was recognized or injected. -/
def rawPayload (text : String) : Payload :=
  {commitText := text,candidates := [{text := text,source := sourceRaw}]}

/-- Result of the recognition pipeline. -/
structure PipelineResult where
  /-- Payload to publish. -/
  payload : Payload := {}
  /-- Errors to notify. -/
  errors : List String := []
deriving DecidableEq, Repr

/-- What the environment decides in one step. -/
structure Oracle where
  /-- Next call of a thread outside any call. -/
  call : Call := .flushDeferredActions
  /-- The stream can be reused. -/
  reuse : Bool := false
  /-- Outcome of opening the capture. -/
  capture : CaptureOutcome := .opened
  /-- Outcome of creating the session. -/
  session : SessionOutcome := .created {}
  /-- Configured input gain. -/
  gain : Gain := RecordingBuffer.unity
  /-- The session takes a push. -/
  pushed : Bool := true
  /-- Error text of a push. -/
  pushError : String := ""
  /-- Events the session reports. -/
  events : List RecognitionEvent := []
  /-- Failure of an asynchronous session. -/
  asyncFailure : Option String := none
  /-- Finishing the session succeeds. -/
  finished : Bool := true
  /-- Error text of finishing. -/
  finishError : String := ""
  /-- The step of the worker throws. -/
  throws : Bool := false
  /-- The pipeline enters post-processing. -/
  entersPostprocessing : Bool := false
  /-- Result of the pipeline. -/
  pipeline : PipelineResult := {}

/-- The capture device as the controller sees it. -/
structure AudioCapture where
  /-- Callbacks enqueue. -/
  recording : Bool := false
  /-- Captured chunks, oldest first. -/
  queue : List AudioPcmChunk := []

/-- Memory shared by all threads. -/
structure Shared where
  /-- Phase and post-processing state. -/
  machine : RuntimeStateMachine := {}
  /-- Post-processing has been asked to stop. -/
  postprocessingCancelRequested : Bool := false
  /-- The single slot for orders. -/
  currentOrder : OrderSlot := .empty
  /-- Session of the recording. -/
  active : Option ℕ := none
  /-- Sessions waiting to be destroyed. -/
  deferred : List ℕ := []
  /-- Backend of the active session. -/
  activeBackend : BackendDescriptor := {}
  /-- Samples of the recording. -/
  audioBuffer : AudioRecordingBuffer := {}
  /-- Last final text polled from the active session. -/
  latestFinalText : String := ""
  /-- The mark of a start in progress. -/
  startRecordingInProgress : Bool := false
  /-- A reload waits for the idle phase. -/
  pendingAsrBackendReload : Bool := false
  /-- The input method takes part in the session. -/
  sessionIme : Bool := true
  /-- The main loop has to stop the capture. -/
  pendingCaptureStop : Bool := false
  /-- Captured chunks are taken in. -/
  acceptingChunks : Bool := false
  /-- The worker loop goes on. -/
  workerRunning : Bool := true
  /-- The worker thread has ended. -/
  workerExited : Bool := false
  /-- The capture device. -/
  capture : AudioCapture := {}
  /-- Sessions created so far. -/
  sessions : ℕ := 0
  /-- Samples each session has received, in the order of the pushes. -/
  received : List (ℕ×List Int16) := []
  /-- Results emitted to the input method. -/
  emitted : List Payload := []
  /-- Results broadcast to the clients, each with its input method flag. -/
  broadcast : List (Payload×Bool) := []

/-- Phase of the controller. -/
abbrev Shared.phase (shared : Shared) : Status := shared.machine.phase

/-- A session delivers in one piece. -/
def usesBufferedDelivery (backend : BackendDescriptor) : Bool :=
  backend.capabilities.audioDeliveryMode=.buffered

/-- Forget the recording but not its session. -/
def resetRecordingStateLocked (shared : Shared) : Shared :=
  {shared with
    audioBuffer := RecordingBuffer.clear shared.audioBuffer
    latestFinalText := ""
    activeBackend := {}}

/-- Hand a session over for destruction by the main loop. -/
def retireSession (session : Option ℕ) (shared : Shared) : Shared :=
  {shared with deferred := shared.deferred++session.toList}

/-- The last non-empty final text among the events. -/
def applyRecognitionEvents (latest : String) (events : List RecognitionEvent) : String :=
  events.foldl (fun text event =>
    if event.kind=.finalText ∧ event.text≠"" then event.text else text) latest

/-- Failure of a poll: that of the asynchronous session, else the first
error event. -/
def pollFailure (events : List RecognitionEvent) (asyncFailure : Option String) :
    Option String :=
  match asyncFailure with
  | some error => some error
  | none =>
    match events.find? (fun event => event.kind=.error) with
    | some event => some (if event.error="" then "ASR provider failed." else event.error)
    | none => none

/-- Events of a poll without the errors when the session has failed. -/
def pollEvents (events : List RecognitionEvent) (asyncFailure : Option String) :
    List RecognitionEvent :=
  if (pollFailure events asyncFailure).isSome then
    events.filter fun event => event.kind≠.error
  else events

/-- Outcome of finishing a session. -/
structure RecognitionRunResult where
  /-- No part of the run failed. -/
  ok : Bool := true
  /-- Recognized text. -/
  text : String := ""
  /-- Error text. -/
  error : String := ""
deriving DecidableEq, Repr

/-- One event of a finished session. -/
def collectEvent (result : RecognitionRunResult) (event : RecognitionEvent) :
    RecognitionRunResult :=
  match event.kind with
  | .partialText => result
  | .finalText => {result with text := event.text}
  | .error =>
    if event.error="" then {result with ok := false}
    else {result with ok := false,error := event.error}
  | .completed => result

/-- Finish a session and collect its result. -/
def finishSessionAndCollectResult (finished : Bool) (finishError : String)
    (events : List RecognitionEvent) : RecognitionRunResult :=
  let start : RecognitionRunResult :=
    if finished then {}
    else
      {ok := false
       error := if finishError="" then "Failed to finish recognition session." else finishError}
  events.foldl collectEvent start

/-- Points of `StartRecordingInternal`. -/
inductive StartPoint where
  /-- Before the deferred stop is looked at. -/
  | enter
  /-- Before the region that sets the mark. -/
  | accept
  /-- Before the capture queue is drained. -/
  | drain
  /-- Before the capture is armed. -/
  | arm
  /-- The old stream is destroyed, before arming a new one. -/
  | armNew
  /-- Armed, before the stream is open. -/
  | armed (reused : Bool)
  /-- The capture failed, before the region that clears the mark. -/
  | failed (error : String)
  /-- Before the session is created. -/
  | session
  /-- No session, before the recording flag is cleared. -/
  | noSession (error : String)
  /-- No session, before the region that clears the mark. -/
  | noSessionLocked (error : String)
  /-- No session, before the capture stop is scheduled. -/
  | noSessionSchedule (error : String)
  /-- Before the region that installs the session. -/
  | install (id : ℕ) (backend : BackendDescriptor)
  /-- Not installed, before the recording flag is cleared. -/
  | abort
  /-- Not installed, before the capture stop is scheduled. -/
  | abortSchedule

/-- Points of `StopRecording`. -/
inductive StopPoint where
  /-- Before the region that accepts. -/
  | enter
  /-- Before the recording flag is cleared. -/
  | capture
  /-- Before the capture queue is drained. -/
  | drain
  /-- Before the region that submits. -/
  | submit (pcm : List Int16)
  /-- Before the session is retired and a reload applied. -/
  | retire (session : Option ℕ) (applyPendingReload : Bool)

/-- Points of `CancelOperation`. -/
inductive CancelPoint where
  /-- Before its region. -/
  | enter
  /-- Before the recording flag is cleared. -/
  | capture (session : Option ℕ) (applyPendingReload : Bool)
  /-- Before the capture queue is drained. -/
  | drain (session : Option ℕ) (applyPendingReload : Bool)
  /-- Before the session is retired and a reload applied. -/
  | retire (session : Option ℕ) (applyPendingReload : Bool)

/-- Where a flush goes on after a failed session. -/
inductive AfterFailure where
  | draining
  | polling
deriving DecidableEq, Repr

/-- Points of `FlushDeferredActions` and of the functions it calls. -/
inductive FlushPoint where
  /-- Before the retired sessions are destroyed. -/
  | enter
  /-- Before the accepting flag is read. -/
  | drainEnter
  /-- Before a chunk is dequeued. -/
  | drainLoop
  /-- A chunk is held, before the accepting flag is read again. -/
  | audioCheck (pcm : List Int16)
  /-- Before the startup region. -/
  | audioStartup (pcm : List Int16)
  /-- Before the live region. -/
  | audioAppend (pcm : List Int16)
  /-- Before a streaming chunk is pushed. -/
  | audioPush (id : ℕ) (chunk : List Int16)
  /-- Before the region that pops the next streaming chunk. -/
  | audioNext (id : ℕ)
  /-- The pushed session is no longer active. -/
  | audioRetire (id : ℕ)
  /-- Before the region of `FailActiveSession`. -/
  | failActive (id : ℕ) (after : AfterFailure)
  /-- Failed, before the session is cancelled. -/
  | failRetire (id : ℕ) (after : AfterFailure)
  /-- Failed, before the recording flag is cleared. -/
  | failEnd (after : AfterFailure)
  /-- Failed, before the capture stop is scheduled. -/
  | failSchedule (after : AfterFailure)
  /-- Before the region that polls the active session. -/
  | pollEnter
  /-- Before the deferred stop is taken. -/
  | exchange
  /-- Before the region that decides on the teardown. -/
  | decide
  /-- Before the capture is stopped. -/
  | stop
  /-- Before the capture queue is drained. -/
  | drain

/-- Points of `WorkerMain`. -/
inductive WorkerPoint where
  /-- Before the running flag is read. -/
  | loop
  /-- Before the region that takes an order. -/
  | wait
  /-- Before the remaining samples are pushed. -/
  | push (order : RecognitionOrder)
  /-- Before the session is finished. -/
  | finish (order : RecognitionOrder)
  /-- Before the cancel flag is cleared. -/
  | arm (order : RecognitionOrder)
  /-- Before the pipeline runs. -/
  | pipeline (order : RecognitionOrder)
  /-- Before the region of `EnterPostprocessing`. -/
  | enter (order : RecognitionOrder)
  /-- Before post-processing returns. -/
  | process (order : RecognitionOrder)
  /-- Before the region that takes the post-processing state. -/
  | take (order : RecognitionOrder) (result : PipelineResult)
  /-- Before the result is sent out. -/
  | publish (order : RecognitionOrder) (result : PipelineResult)
  /-- An exception was caught. -/
  | caught
  /-- The thread has ended. -/
  | done

/-- Points of `Shutdown`. -/
inductive ShutdownPoint where
  /-- Before chunks are refused. -/
  | enter
  /-- Before the deferred stop is dropped. -/
  | pending
  /-- Before the capture is stopped. -/
  | stop
  /-- Before the capture queue is drained. -/
  | drain
  /-- Before its region. -/
  | locked
  /-- Before the active session is cancelled. -/
  | retire
  /-- Before the worker has ended. -/
  | join
  /-- Before the sessions are cleared. -/
  | clear

/-- Where a shared tail returns to. -/
inductive Resume where
  /-- The main loop. -/
  | mainLoop
  /-- A start that flushed first. -/
  | start (call : StartCall)
  /-- The worker loop. -/
  | worker
  /-- The caller of a method. -/
  | method (result : MethodResult)

/-- Program counter of one thread. -/
inductive Pc where
  /-- Outside any call, with the result of the last one. -/
  | ready (last : Option MethodResult)
  | start (call : StartCall) (point : StartPoint)
  | stop (ime : Bool) (sceneId : String) (point : StopPoint)
  | cancel (ime commitRawText : Bool) (point : CancelPoint)
  /-- Before the region that queues an injected text. -/
  | inject (ime : Bool) (text sceneId : String)
  /-- Before the region of `ReloadAsrBackend`. -/
  | reload
  /-- The stream has expired, before it is destroyed. -/
  | expire
  | flush (resume : Resume) (point : FlushPoint)
  /-- Before the region of `ResetToIdle`. -/
  | resetToIdle (resume : Resume)
  /-- Before the region of `MaybeApplyPendingAsrBackendReload`. -/
  | maybeApply (resume : Resume)
  /-- Before the recognition manager is synchronized. -/
  | synchronize (resume : Resume)
  | worker (point : WorkerPoint)
  | shutdown (point : ShutdownPoint)

/-- The program counter a tail returns to. -/
def Resume.pc : Resume → Pc
  | .mainLoop => .ready none
  | .start call => .start call .accept
  | .worker => .worker .loop
  | .method result => .ready (some result)

/-- A call returns. -/
def returns (result : MethodResult) : Pc := .ready (some result)

/-- Clear or set the recording flag of the capture. -/
def setRecording (recording : Bool) (shared : Shared) : Shared :=
  {shared with capture := {shared.capture with recording := recording}}

/-- Drop everything in the capture queue. -/
def drainQueue (shared : Shared) : Shared :=
  {shared with capture := {shared.capture with queue := []}}

/-- All samples in the capture queue. -/
def queuedSamples (shared : Shared) : List Int16 :=
  shared.capture.queue.flatMap AudioPcmChunk.samples

/-- A push the session takes is recorded. -/
def pushAudio (pushed : Bool) (id : ℕ) (pcm : List Int16) (shared : Shared) : Shared :=
  if pushed then {shared with received := shared.received++[(id,pcm)]} else shared

/-- A result goes to the input method when it takes part, and to the
clients when there is a text to commit. -/
def publish (ime : Bool) (payload : Payload) (shared : Shared) : Shared :=
  {shared with
    emitted := if ime then shared.emitted++[payload] else shared.emitted
    broadcast := if payload.commitText="" then shared.broadcast
      else shared.broadcast++[(payload,ime)]}

/-- The mark is cleared and the startup samples are dropped. -/
def clearStartLocked (shared : Shared) : Shared :=
  {shared with
    startRecordingInProgress := false
    acceptingChunks := false
    audioBuffer := RecordingBuffer.clear shared.audioBuffer}

/-- The region that accepts a start. -/
def acceptStartLocked (call : StartCall) (shared : Shared) : Shared :=
  {shared with
    pendingCaptureStop := false
    audioBuffer := RecordingBuffer.reset RecordingBuffer.unity shared.audioBuffer
    sessionIme := call.ime
    startRecordingInProgress := true
    acceptingChunks := true}

/-- The region that installs a session and begins the recording. A session
that is still active is cancelled and retired. -/
def installLocked (call : StartCall) (gain : Gain) (id : ℕ) (backend : BackendDescriptor)
    (shared : Shared) : Shared :=
  {shared with
    currentOrder := .empty
    active := some id
    deferred := shared.deferred++shared.active.toList
    activeBackend := backend
    machine := (onStartRecording shared.machine call.isCommand call.selectedText).1
    audioBuffer := RecordingBuffer.activate (usesBufferedDelivery backend)
      (RecordingBuffer.setGain gain shared.audioBuffer)
    latestFinalText := ""
    acceptingChunks := true
    startRecordingInProgress := false}

/-- The daemon is busy for a new recording. -/
def busyForStart (shared : Shared) : Bool :=
  shared.phase≠.idle || shared.startRecordingInProgress

/-- Text of a start whose capture failed. -/
def captureFailureText (call : StartCall) (error : String) : String :=
  let text := if call.isCommand then "Failed to start command recording" else
    "Failed to start recording"
  if error="" then text++"." else text++": "++error

/-- Text of a start without a session. -/
def sessionFailureText (error : String) : String :=
  if error="" then "Failed to start recognition session."
  else "Failed to start recognition session. "++error

/-- Steps of `StartRecordingInternal`. -/
def nextStart (oracle : Oracle) (shared : Shared) (call : StartCall) : StartPoint → Shared×Pc
  | .enter =>
    if shared.pendingCaptureStop then (shared,.flush (.start call) .enter)
    else (shared,.start call .accept)
  | .accept =>
    if busyForStart shared then (shared,returns (failure busyText))
    else (acceptStartLocked call shared,.start call .drain)
  | .drain => (drainQueue shared,.start call .arm)
  | .arm =>
    if oracle.reuse then (setRecording true shared,.start call (.armed true))
    else (setRecording false shared,.start call .armNew)
  | .armNew => (setRecording true shared,.start call (.armed false))
  | .armed reused =>
    match oracle.capture with
    | .opened => (shared,.start call .session)
    | .reopened =>
      if reused then (setRecording false shared,.start call .session)
      else (shared,.start call .session)
    | .failed error => (setRecording false shared,.start call (.failed error))
  | .failed error => (clearStartLocked shared,returns (failure (captureFailureText call error)))
  | .session =>
    match oracle.session with
    | .created backend =>
      ({shared with sessions := shared.sessions+1},.start call (.install shared.sessions backend))
    | .refused error => (shared,.start call (.noSession error))
  | .noSession error => (setRecording false shared,.start call (.noSessionLocked error))
  | .noSessionLocked error => (clearStartLocked shared,.start call (.noSessionSchedule error))
  | .noSessionSchedule error =>
    ({shared with pendingCaptureStop := true},returns (failure (sessionFailureText error)))
  | .install id backend =>
    if !shared.startRecordingInProgress || shared.phase≠.idle then
      (clearStartLocked shared,.start call .abort)
    else (installLocked call oracle.gain id backend shared,returns success)
  | .abort => (setRecording false shared,.start call .abortSchedule)
  | .abortSchedule => ({shared with pendingCaptureStop := true},returns (failure busyText))

/-- The order that a stop submits. -/
def submittedOrder (sceneId : String) (id : ℕ) (machine : RuntimeStateMachine)
    (buffer : AudioRecordingBuffer) (shared : Shared) : RecognitionOrder :=
  {audioDeliveryMode := shared.activeBackend.capabilities.audioDeliveryMode
   session := some id
   backend := shared.activeBackend
   pcm := if usesBufferedDelivery shared.activeBackend then
      (RecordingBuffer.takeBufferedPcm buffer).2 else
      (RecordingBuffer.drainStreamingTail buffer).2
   postprocessRequest :=
    {text := shared.latestFinalText
     sceneId := sceneId
     isCommand := machine.isCommand
     selectedText := machine.selectedText}
   ime := shared.sessionIme}

/-- The second region of a stop: the memory after it, the session to cancel
and whether a reload is to be applied. It acts on whatever is current. -/
def submitLocked (sceneId : String) (pcm : List Int16) (shared : Shared) :
    Shared×Option ℕ×Bool :=
  match shared.active with
  | none =>
    ({shared with machine := (onResetToIdle shared.machine).1,currentOrder := .empty},none,true)
  | some id =>
    let buffer := RecordingBuffer.append pcm shared.audioBuffer
    let transition :=
      onStopRecording shared.machine buffer.totalSamples minSamplesForRecognition
    if transition.2.isTooShort then
      ({resetRecordingStateLocked shared with
        machine := transition.1
        active := none
        currentOrder := .empty},some id,true)
    else
      ({shared with
        machine := transition.1
        active := none
        audioBuffer := if usesBufferedDelivery shared.activeBackend then
          (RecordingBuffer.takeBufferedPcm buffer).1 else
          (RecordingBuffer.drainStreamingTail buffer).1
        activeBackend := {}
        currentOrder := .queued (submittedOrder sceneId id transition.1 buffer shared)},none,false)

/-- A method returns after a deferred reload has had its chance. -/
def finishMethod (applyPendingReload : Bool) (result : MethodResult) : Pc :=
  if applyPendingReload then .maybeApply (.method result) else returns result

/-- Steps of `StopRecording`. -/
def nextStop (shared : Shared) (ime : Bool) (sceneId : String) : StopPoint → Shared×Pc
  | .enter =>
    if shared.phase≠.recording then (shared,returns (failure notRecordingText))
    else ({shared with sessionIme := ime,acceptingChunks := false},.stop ime sceneId .capture)
  | .capture => (setRecording false shared,.stop ime sceneId .drain)
  | .drain => (drainQueue shared,.stop ime sceneId (.submit (queuedSamples shared)))
  | .submit pcm =>
    let outcome := submitLocked sceneId pcm shared
    (outcome.1,.stop ime sceneId (.retire outcome.2.1 outcome.2.2))
  | .retire session applyPendingReload =>
    (retireSession session shared,finishMethod applyPendingReload success)

/-- Where a cancel goes on after its region. -/
inductive CancelOutcome where
  | returned (result : MethodResult)
  | stopCapture (session : Option ℕ) (applyPendingReload : Bool)

/-- The mark of a start in progress is taken away by a cancel. -/
def cancelStartLocked (shared : Shared) : Shared :=
  if shared.startRecordingInProgress then clearStartLocked shared else shared

/-- The region of a cancel. -/
def cancelLocked (ime commitRawText : Bool) (shared : Shared) : Shared×CancelOutcome :=
  let unmarked := cancelStartLocked shared
  let transition := onCancel unmarked.machine commitRawText
  if !transition.2.accepted then
    (unmarked,.returned (if shared.startRecordingInProgress then success
      else failure transition.2.rejectionReason))
  else if transition.2.shouldStopCapture then
    ({resetRecordingStateLocked unmarked with
      sessionIme := ime
      machine := transition.1
      acceptingChunks := false
      active := none
      currentOrder := .empty},.stopCapture unmarked.active unmarked.pendingAsrBackendReload)
  else
    ({unmarked with
      sessionIme := ime
      machine := transition.1
      postprocessingCancelRequested := unmarked.postprocessingCancelRequested ||
        transition.2.shouldCommitRawText || transition.2.shouldDiscardText},
      if shared.startRecordingInProgress then .stopCapture none false else .returned success)

/-- Steps of `CancelOperation`. -/
def nextCancel (shared : Shared) (ime commitRawText : Bool) : CancelPoint → Shared×Pc
  | .enter =>
    let outcome := cancelLocked ime commitRawText shared
    (outcome.1,match outcome.2 with
      | .returned result => returns result
      | .stopCapture session applyPendingReload =>
        .cancel ime commitRawText (.capture session applyPendingReload))
  | .capture session applyPendingReload =>
    (setRecording false shared,.cancel ime commitRawText (.drain session applyPendingReload))
  | .drain session applyPendingReload =>
    (drainQueue shared,.cancel ime commitRawText (.retire session applyPendingReload))
  | .retire session applyPendingReload =>
    (retireSession session shared,finishMethod applyPendingReload success)

/-- The region that queues an injected text. The phase stays idle. -/
def injectLocked (ime : Bool) (text sceneId : String) (shared : Shared) : Shared×Pc :=
  if shared.phase≠.idle then (shared,returns (failure busyText))
  else
    ({shared with
      sessionIme := ime
      currentOrder := .queued
        {postprocessRequest := {text := text,sceneId := sceneId},ime := ime}},returns success)

/-- The region of `FailActiveSession` for the active session. -/
def failActiveLocked (shared : Shared) : Shared :=
  {resetRecordingStateLocked shared with
    acceptingChunks := false
    active := none
    machine := (onAudioError shared.machine).1}

/-- Where a flush goes on after a failed session. -/
def AfterFailure.point : AfterFailure → FlushPoint
  | .draining => .drainLoop
  | .polling => .exchange

/-- Pop the next streaming chunk of a session, or look for the next
captured chunk. -/
def popNext (resume : Resume) (id : ℕ) (shared : Shared) : Shared×Pc :=
  let popped := RecordingBuffer.popStreamingChunk streamingChunkSamples shared.audioBuffer
  match popped.2 with
  | none => ({shared with audioBuffer := popped.1},.flush resume .drainLoop)
  | some chunk => ({shared with audioBuffer := popped.1},.flush resume (.audioPush id chunk))

/-- A teardown would hit a newer recording or an order under way. -/
def skipTeardown (shared : Shared) : Bool :=
  shared.startRecordingInProgress || shared.capture.recording ||
    shared.phase=.recording || shared.phase=.inferring || shared.phase=.postprocessing

/-- Steps of `FlushDeferredActions`. -/
def nextFlush (oracle : Oracle) (shared : Shared) (resume : Resume) : FlushPoint → Shared×Pc
  | .enter => ({shared with deferred := []},.flush resume .drainEnter)
  | .drainEnter =>
    if shared.acceptingChunks then (shared,.flush resume .drainLoop)
    else (shared,.flush resume .pollEnter)
  | .drainLoop =>
    match shared.capture.queue with
    | [] => (shared,.flush resume .pollEnter)
    | chunk::rest =>
      ({shared with capture := {shared.capture with queue := rest}},
        if chunk.samples=[] then .flush resume .drainLoop
        else .flush resume (.audioCheck chunk.samples))
  | .audioCheck pcm =>
    if shared.acceptingChunks then (shared,.flush resume (.audioStartup pcm))
    else (shared,.flush resume .drainLoop)
  | .audioStartup pcm =>
    if shared.startRecordingInProgress && shared.active.isNone then
      ({shared with audioBuffer := RecordingBuffer.appendStartup pcm shared.audioBuffer},
        .flush resume .drainLoop)
    else (shared,.flush resume (.audioAppend pcm))
  | .audioAppend pcm =>
    match shared.active with
    | none => (shared,.flush resume .drainLoop)
    | some id =>
      let appended := {shared with
        audioBuffer := RecordingBuffer.append pcm shared.audioBuffer}
      if usesBufferedDelivery shared.activeBackend then (appended,.flush resume .drainLoop)
      else popNext resume id appended
  | .audioPush id chunk =>
    (pushAudio oracle.pushed id chunk shared,
      if !oracle.pushed || oracle.pushError≠"" then .flush resume (.failActive id .draining)
      else .flush resume (.audioNext id))
  | .audioNext id =>
    if shared.active≠some id then (shared,.flush resume (.audioRetire id))
    else popNext resume id shared
  | .audioRetire id => (retireSession (some id) shared,.flush resume .drainLoop)
  | .failActive id after =>
    if shared.active≠some id then (shared,.flush resume after.point)
    else (failActiveLocked shared,.flush resume (.failRetire id after))
  | .failRetire id after => (retireSession (some id) shared,.flush resume (.failEnd after))
  | .failEnd after => (setRecording false shared,.flush resume (.failSchedule after))
  | .failSchedule after =>
    ({shared with pendingCaptureStop := true},.flush resume after.point)
  | .pollEnter =>
    match shared.active with
    | none => (shared,.flush resume .exchange)
    | some id =>
      if shared.phase≠.recording || usesBufferedDelivery shared.activeBackend then
        (shared,.flush resume .exchange)
      else
        ({shared with
          latestFinalText := applyRecognitionEvents shared.latestFinalText
            (pollEvents oracle.events oracle.asyncFailure)},
          match pollFailure oracle.events oracle.asyncFailure with
          | some _ => .flush resume (.failActive id .polling)
          | none => .flush resume .exchange)
  | .exchange =>
    if shared.pendingCaptureStop then
      ({shared with pendingCaptureStop := false},.flush resume .decide)
    else (shared,resume.pc)
  | .decide =>
    if skipTeardown shared then (shared,resume.pc)
    else if oracle.reuse then (shared,.resetToIdle resume)
    else (shared,.flush resume .stop)
  | .stop => (setRecording false shared,.flush resume .drain)
  | .drain => (drainQueue shared,.resetToIdle resume)

/-- The region of `ResetToIdle`. -/
def resetToIdleLocked (shared : Shared) : Shared :=
  {resetRecordingStateLocked shared with
    startRecordingInProgress := false
    postprocessingCancelRequested := false
    machine := (onResetToIdle shared.machine).1
    currentOrder := .empty
    sessionIme := true}

/-- What a cancel during post-processing makes of the result. -/
def redirectResult (state : PostprocessingState) (order : RecognitionOrder)
    (result : PipelineResult) : PipelineResult :=
  match state with
  | .commitRaw => {payload := rawPayload order.postprocessRequest.text,errors := []}
  | .discard => {payload := {},errors := []}
  | _ => result

/-- The order after its session has been finished. -/
def finishedOrder (result : RecognitionRunResult) (order : RecognitionOrder) : RecognitionOrder :=
  {order with
    pcm := []
    session := none
    postprocessRequest := if result.text="" then order.postprocessRequest
      else {order.postprocessRequest with text := result.text}}

/-- The worker takes an order: the slot stays engaged without it. -/
def takeOrderLocked (shared : Shared) : Shared := {shared with currentOrder := .movedFrom}

/-- Steps of `WorkerMain`. -/
def nextWorker (oracle : Oracle) (shared : Shared) : WorkerPoint → Shared×Pc
  | .loop =>
    if shared.workerRunning then (shared,.worker .wait)
    else ({shared with workerExited := true},.worker .done)
  | .wait =>
    match shared.currentOrder with
    | .queued order => (takeOrderLocked shared,.worker (.push order))
    | .movedFrom => (takeOrderLocked shared,.worker (.push {}))
    | .empty =>
      if shared.workerRunning then (shared,.worker .wait)
      else ({shared with workerExited := true},.worker .done)
  | .push order =>
    if oracle.throws then (shared,.worker .caught)
    else
      match order.session with
      | none => (shared,.worker (.arm order))
      | some id =>
        if order.pcm=[] then (shared,.worker (.finish order))
        else
          (pushAudio oracle.pushed id order.pcm shared,
            if oracle.pushed then .worker (.finish {order with pcm := []}) else .worker .caught)
  | .finish order =>
    let result := finishSessionAndCollectResult oracle.finished oracle.finishError oracle.events
    (shared,
      if oracle.throws then .worker .caught
      else if !result.ok || result.error≠"" then .resetToIdle .worker
      else .worker (.arm (finishedOrder result order)))
  | .arm order => ({shared with postprocessingCancelRequested := false},.worker (.pipeline order))
  | .pipeline order =>
    (shared,
      if oracle.throws then .worker .caught
      else if oracle.entersPostprocessing && order.postprocessRequest.text≠"" then
        .worker (.enter order)
      else .worker (.take order oracle.pipeline))
  | .enter order =>
    ({shared with machine := (onInferenceComplete shared.machine true).1},.worker (.process order))
  | .process order =>
    (shared,if oracle.throws then .worker .caught else .worker (.take order oracle.pipeline))
  | .take order result =>
    let taken := takePostprocessingState shared.machine
    ({shared with machine := taken.1},.worker (.publish order (redirectResult taken.2 order result)))
  | .publish order result =>
    (publish order.ime result.payload shared,.resetToIdle .worker)
  | .caught =>
    ({shared with machine := (takePostprocessingState shared.machine).1},.resetToIdle .worker)
  | .done => (shared,.worker .done)

/-- Steps of `Shutdown`. -/
def nextShutdown (shared : Shared) : ShutdownPoint → Shared×Pc
  | .enter => ({shared with acceptingChunks := false},.shutdown .pending)
  | .pending => ({shared with pendingCaptureStop := false},.shutdown .stop)
  | .stop => (setRecording false shared,.shutdown .drain)
  | .drain => (drainQueue shared,.shutdown .locked)
  | .locked =>
    ({shared with
      startRecordingInProgress := false
      workerRunning := false
      machine := RuntimePhases.clear shared.machine},.shutdown .retire)
  | .retire => ({retireSession shared.active shared with active := none},.shutdown .join)
  | .join => if shared.workerExited then (shared,.shutdown .clear) else (shared,.shutdown .join)
  | .clear => ({shared with active := none,deferred := []},.ready none)

/-- A thread outside any call begins one. Texts that need no worker are
sent out at once, and the capture device enqueues while it records. -/
def begin (shared : Shared) : Call → Shared×Pc
  | .startRecording call => (shared,.start call .enter)
  | .stopRecording ime sceneId => (shared,.stop ime sceneId .enter)
  | .cancelOperation ime commitRawText => (shared,.cancel ime commitRawText .enter)
  | .injectText ime stage text sceneId =>
    match stage with
    | .partialText => (shared,returns success)
    | .finalText =>
      if sceneId="" then
        (publish ime (rawPayload text) shared,returns success)
      else (shared,.inject ime text sceneId)
  | .reloadAsrBackend => (shared,.reload)
  | .flushDeferredActions => (shared,.flush .mainLoop .enter)
  | .maybeDestroyExpiredStream =>
    if shared.capture.recording then (shared,.ready none) else (shared,.expire)
  | .processCallback chunks =>
    (if shared.capture.recording then
      {shared with capture := {shared.capture with queue := shared.capture.queue++chunks}}
     else shared,.ready none)
  | .shutdown => (shared,.shutdown .enter)

/-- One step of one thread. -/
def next (oracle : Oracle) (shared : Shared) : Pc → Shared×Pc
  | .ready _ => begin shared oracle.call
  | .start call point => nextStart oracle shared call point
  | .stop ime sceneId point => nextStop shared ime sceneId point
  | .cancel ime commitRawText point => nextCancel shared ime commitRawText point
  | .inject ime text sceneId => injectLocked ime text sceneId shared
  | .reload =>
    if busyForStart shared then
      ({shared with pendingAsrBackendReload := true},returns success)
    else (shared,.synchronize (.method success))
  | .expire => (setRecording false shared,.ready none)
  | .flush resume point => nextFlush oracle shared resume point
  | .resetToIdle resume => (resetToIdleLocked shared,.maybeApply resume)
  | .maybeApply resume =>
    if !shared.pendingAsrBackendReload || shared.phase≠.idle then (shared,resume.pc)
    else ({shared with pendingAsrBackendReload := false},.synchronize resume)
  | .synchronize resume => (shared,resume.pc)
  | .worker point => nextWorker oracle shared point
  | .shutdown point => nextShutdown shared point

/-- All threads of the controller over one memory. -/
abbrev System := Pool Shared Pc

/-- One step of the whole controller. -/
abbrev machine : System → ℕ×Oracle → System := Pool.step next

/-- The controller after its worker has been started: thread zero is the
worker, every other thread takes calls. -/
def startup : System :=
  ⟨{},fun thread => if thread=0 then .worker .loop else .ready none⟩

/-- Threads other than the worker start outside any call. -/
theorem startup_pcs {thread : ℕ} (h : thread≠0) : startup.pcs thread=.ready none := if_neg h

/-- A call arrives at a thread. -/
def arrives (thread : ℕ) (call : Call) : ℕ×Oracle := (thread,{call := call})

/-- A thread takes its next steps with nothing unusual in the environment. -/
def goesOn (thread steps : ℕ) : List (ℕ×Oracle) := List.replicate steps (thread,{})

/-- A recording started by a client. -/
def startCall : Call := .startRecording {}

/-- A final text injected for a scene. -/
def injectCall : Call := .injectText true .finalText "text" "scene"

end Vinput.RuntimeController
