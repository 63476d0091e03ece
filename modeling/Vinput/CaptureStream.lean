import Vinput.InterleavedRuns
import Vinput.RecordingBuffer
import Vinput.VersionConstraint

/-!
# The capture stream and its reuse

A stream is kept inactive for a while after a recording, so that the next one
need not connect again. A recording arms the capture flag, and the callback of
the stream queues audio while the flag is set.
-/

namespace Vinput.CaptureStream

open RecordingBuffer

/-- A text of the environment. -/
abbrev Text := List Char

section Policy

/-- A value that switches on. -/
def envTruthy : Option Text → Bool
  | some (c::_) => decide (c∈"1tTyY".toList)
  | _ => false

/-- A value that switches off. -/
def envFalsey : Option Text → Bool
  | some (c::_) => decide (c∈"0fFnN".toList)
  | _ => false

/-- Whether streams are reused, by the text of VINPUT_CAPTURE_REUSE. -/
def streamReuseEnabled (value : Option Text) : Bool :=
  if value=none then true
  else if envFalsey value=true then false
  else if envTruthy value=true then true
  else true

/-- A blank or a tab. -/
def isBlank (c : Char) : Bool := decide (c= ' ' ∨ c= '\t')

/-- A number without white space and one plus sign around it. -/
def stripNumber (text : Text) : Text :=
  let front := match text.dropWhile isBlank with
    | '+' :: rest => rest
    | rest => rest
  (front.reverse.dropWhile isBlank).reverse

/-- A 64-bit integer that takes the whole text. -/
def fromChars64 : Text → Option ℤ
  | '-' :: digits =>
    if VersionConstraint.isNumber digits=true ∧ VersionConstraint.numberValue digits ≤ 2^63 then
      some (-VersionConstraint.numberValue digits)
    else none
  | digits =>
    if VersionConstraint.isNumber digits=true ∧ VersionConstraint.numberValue digits<2^63 then
      some (VersionConstraint.numberValue digits)
    else none

/-- How long a stream is kept. -/
def kDefaultIdleDestroyMs : ℤ := 15000

/-- How long it is kept at most. -/
def kMaxIdleDestroyMs : ℤ := 600000

/-- How long an inactive stream is kept, by the text of
VINPUT_CAPTURE_IDLE_DESTROY_MS. -/
def idleDestroyMs (value : Option Text) : ℤ :=
  match value with
  | none => kDefaultIdleDestroyMs
  | some text =>
    match fromChars64 (stripNumber text) with
    | none => kDefaultIdleDestroyMs
    | some parsed => if parsed<0 then kDefaultIdleDestroyMs else min parsed kMaxIdleDestroyMs

/-- The two variables of the environment. -/
structure Policy where
  reuse : Option Text := none
  idleDestroy : Option Text := none

/-- Streams are reused. -/
def Policy.reuses (policy : Policy) : Bool := streamReuseEnabled policy.reuse

/-- How long they are kept. -/
def Policy.graceMs (policy : Policy) : ℤ := idleDestroyMs policy.idleDestroy

end Policy

section Capture

/-- A connected stream as the audio server has it. -/
structure Stream where
  target : Text
  active : Bool
deriving DecidableEq

/-- The members of the capture object. Recordings are numbered, and a chunk
carries the number of the recording it was captured for. -/
structure Capture where
  loop : Bool := false
  stream : Option Stream := none
  streamActive : Bool := false
  connectedTargetObject : Text := []
  targetObject : Text := []
  recording : Bool := false
  idleDestroyDeadline : Option ℤ := none
  queue : List (ℕ×AudioPcmChunk) := []
  /-- The number of the last recording. -/
  number : ℕ := 0
  /-- The target object when it began. -/
  wanted : Text := []
  /-- When a recording was ended last. -/
  endedAt : ℤ := 0

/-- The spelling of a target object under which a connection is remembered. -/
def remembered (target : Text) : Text :=
  if target=[] ∨ target="default".toList then [] else target

/-- The stream that is there will do. -/
def canReuseStreamLocked (c : Capture) : Bool :=
  if c.stream=none then false
  else if c.targetObject=[] ∨ c.targetObject="default".toList then
    decide (c.connectedTargetObject=[] ∨ c.connectedTargetObject="default".toList)
  else decide (c.connectedTargetObject=c.targetObject)

/-- The stream is not to be destroyed any more. -/
def cancelIdleDestroy (c : Capture) : Capture := {c with idleDestroyDeadline := none}

/-- The stream is to be destroyed when its time is over. -/
def scheduleIdleDestroy (policy : Policy) (now : ℤ) (c : Capture) : Capture :=
  if policy.graceMs ≤ 0 then {c with idleDestroyDeadline := some now}
  else {c with idleDestroyDeadline := some (now+policy.graceMs)}

/-- The stream is destroyed. -/
def destroyStream (c : Capture) : Capture :=
  let c := {c with recording := false}
  if c.loop=false ∨ c.stream=none then
    {c with streamActive := false, connectedTargetObject := [], idleDestroyDeadline := none}
  else
    {c with
      stream := none
      streamActive := false
      connectedTargetObject := []
      idleDestroyDeadline := none}

/-- How a stream is made by the audio server. -/
inductive Creation where
  | noProperties
  | noStream
  /-- With the text of the error number. -/
  | notConnected (reason : String)
  | connected
deriving DecidableEq

/-- A stream is made, or an error text tells why not. -/
def createStream (startInactive : Bool) (answer : Creation) (c : Capture) :
    Capture×Option String :=
  if c.loop=false then (c,some "audio capture loop is not initialized")
  else if c.stream≠none then (c,none)
  else
    match answer with
    | .noProperties => (c,some "failed to allocate PipeWire properties")
    | .noStream => (c,some "failed to create PipeWire stream")
    | .notConnected reason =>
      ({c with streamActive := false},some ("failed to connect PipeWire stream: "++reason))
    | .connected => ({c with
        stream := some ⟨c.targetObject,!startInactive⟩
        streamActive := !startInactive
        connectedTargetObject := remembered c.targetObject},none)

/-- How the audio server answers a change of activity; after a refusal the
stream may be in either state. -/
inductive Activation where
  | done
  | refused (active : Bool) (reason : String)
deriving DecidableEq

/-- The stream changes its activity, or an error text tells why not. -/
def setStreamActive (active : Bool) (answer : Activation) (c : Capture) : Capture×Option String :=
  match c.stream with
  | none => (c,some "audio capture stream is not initialized")
  | some stream =>
    if c.loop=false then (c,some "audio capture stream is not initialized")
    else if c.streamActive=active then (c,none)
    else
      match answer with
      | .done => ({c with stream := some {stream with active := active}, streamActive := active},
          none)
      | .refused left reason =>
        ({c with stream := some {stream with active := left}},
          some ("failed to set PipeWire stream active="++(if active then "true" else "false")++
            ": "++reason))

/-- The answers one BeginRecording may meet. -/
structure Answers where
  create : Creation
  activate : Activation
  recreate : Creation
  reactivate : Activation

/-- A stream is made and activated. -/
def connectAndActivate (inactive : Bool) (create : Creation) (activate : Activation)
    (c : Capture) : Capture×Option String :=
  match createStream inactive create c with
  | (c,some error) => ({c with recording := false},some error)
  | (c,none) =>
    if inactive=true then
      match setStreamActive true activate c with
      | (c,some error) => (destroyStream {c with recording := false},some error)
      | (c,none) => (c,none)
    else (c,none)

/-- The queue is emptied for the next recording. -/
def openRecording (c : Capture) : Capture :=
  {cancelIdleDestroy c with queue := [], number := c.number+1, wanted := c.targetObject}

/-- What BeginRecording reports. -/
structure Begun where
  ok : Bool
  /-- The text left for the caller. -/
  error : String
  /-- The stream is one that was kept. -/
  streamReused : Bool

/-- A recording begins with the stream that is there or a new one. -/
def beginRecording (policy : Policy) (answers : Answers) (c : Capture) : Capture×Begun :=
  let c := openRecording c
  if (policy.reuses && canReuseStreamLocked c)=true then
    match setStreamActive true answers.activate {c with recording := true} with
    | (c,none) => (c,⟨true,"",true⟩)
    -- a stream that cannot be activated is made again, once; the flag stays clear
    | (c,some refusal) =>
      let made := connectAndActivate true answers.recreate answers.reactivate (destroyStream c)
      (made.1,⟨made.2.isNone,made.2.getD refusal,false⟩)
  else
    let made := connectAndActivate policy.reuses answers.create answers.activate
      {destroyStream c with recording := true}
    (made.1,⟨made.2.isNone,made.2.getD "",false⟩)

/-- The flag is cleared and the end is noted. -/
def closeRecording (now : ℤ) (c : Capture) : Capture := {c with recording := false, endedAt := now}

/-- A stream that is kept becomes inactive and gets a deadline. -/
def deactivateOrDestroy (policy : Policy) (now : ℤ) (answer : Activation) (c : Capture) : Capture :=
  match setStreamActive false answer c with
  | (c,some _) => destroyStream c
  | (c,none) => if policy.graceMs ≤ 0 then destroyStream c else scheduleIdleDestroy policy now c

/-- A recording ends; the stream is kept for a while. -/
def endRecording (policy : Policy) (now : ℤ) (answer : Activation) (c : Capture) : Capture :=
  let c := closeRecording now c
  if policy.reuses=true ∧ c.stream≠none then deactivateOrDestroy policy now answer c else c

/-- A recording ends and hands its audio over. -/
def stopAndGetBuffer (policy : Policy) (now : ℤ) (answer : Activation) (c : Capture) :
    Capture×List Int16 :=
  let c := closeRecording now c
  let c := if policy.reuses=true ∧ c.stream≠none then deactivateOrDestroy policy now answer c
    else destroyStream c
  ({c with queue := []},c.queue.flatMap fun chunk => chunk.2.samples)

/-- The capture ends. -/
def stop (c : Capture) : Capture :=
  let c := destroyStream (cancelIdleDestroy {c with recording := false})
  {c with queue := []}

/-- Another device is to be recorded. -/
def setTargetObject (target : Text) (c : Capture) : Capture :=
  if c.targetObject=target then c
  else
    let c := {c with targetObject := target}
    if c.recording=false ∧ c.stream≠none then destroyStream c else c

/-- A stream whose time is over is destroyed. -/
def maybeDestroyExpiredStream (now : ℤ) (c : Capture) : Capture×Bool :=
  if c.recording=true then (c,false)
  else if c.stream=none then (c,false)
  else
    match c.idleDestroyDeadline with
    | none => (c,false)
    | some deadline => if now<deadline then (c,false) else (destroyStream c,true)

/-- The next chunk of audio. -/
def tryDequeue (c : Capture) : Capture×Option AudioPcmChunk :=
  match c.queue with
  | [] => (c,none)
  | chunk::rest => ({c with queue := rest},some chunk.2)

/-- The callback of the stream with one chunk, which the queue may refuse. -/
def processCallback (chunk : AudioPcmChunk) (fits : Bool) (c : Capture) : Capture :=
  if c.stream≠none ∧ c.recording=true ∧ fits=true then
    {c with queue := c.queue++[(c.number,chunk)]}
  else c

/-- The thread of the streams starts. -/
def startLoop (created : Bool) (c : Capture) : Capture :=
  if c.loop=true then c else {c with loop := created}

end Capture

section Runs

/-- A call of the daemon, or the callback, with what it meets. -/
inductive Call where
  | start (created : Bool)
  | begin (answers : Answers)
  | endRecording (now : ℤ) (answer : Activation)
  | stopAndGetBuffer (now : ℤ) (answer : Activation)
  | stop
  | setTargetObject (target : Text)
  | maybeDestroyExpiredStream (now : ℤ)
  | tryDequeue
  | process (chunk : AudioPcmChunk) (fits : Bool)

/-- One call. -/
def perform (policy : Policy) (c : Capture) : Call → Capture
  | .start created => startLoop created c
  | .begin answers => (beginRecording policy answers c).1
  | .endRecording now answer => endRecording policy now answer c
  | .stopAndGetBuffer now answer => (stopAndGetBuffer policy now answer c).1
  | .stop => stop c
  | .setTargetObject target => setTargetObject target c
  | .maybeDestroyExpiredStream now => (maybeDestroyExpiredStream now c).1
  | .tryDequeue => (tryDequeue c).1
  | .process chunk fits => processCallback chunk fits c

/-- A stream is reused and then refuses to become active. -/
def fallsBack (policy : Policy) (answers : Answers) (c : Capture) : Bool :=
  policy.reuses && canReuseStreamLocked c && !c.streamActive && c.loop &&
    decide (answers.activate≠.done)

end Runs

end Vinput.CaptureStream
