import Vinput.InterleavedRuns
import Vinput.JsonTree
import Vinput.LineDraining
import Vinput.ProcessSession
import Vinput.VersionConstraint

/-!
# A streaming recognition session over a command

A session runs a command, sends it audio and control messages and reads lines
of JSON from it. Its owner calls it from one thread; another thread may
interrupt it and events may be polled between any two steps. Every access to
the child and to the flag that both threads share is one step, and so is every
look at the clock.
-/

namespace Vinput.StreamingSession

open InterleavedRuns JsonTree ProcessLines
open ProcessSession (ChildEvent)

section Session

/-- What a session reports. -/
inductive RecognitionEvent where
  | partialText (text : String)
  | finalText (text : String)
  | error (text : String)
  | completed
deriving DecidableEq

/-- The process of a session, as far as its events have been read. -/
structure Child where
  /-- It has reported that it was cancelled. -/
  cancelReported : Bool := false
  /-- It has reported its exit, the last event. -/
  ended : Bool := false

/-- A session. -/
structure Session where
  started : Bool := false
  finished : Bool := false
  cancelled : Bool := false
  interrupted : Bool := false
  terminated : Bool := false
  completed : Bool := false
  completedEmitted : Bool := false
  sawError : Bool := false
  sawFinalText : Bool := false
  childExited : Bool := false
  killedByUs : Bool := false
  exitCode : ℤ := -1
  /-- The running process. -/
  child : Option Child := none
  stdoutBuffer : Bytes := []
  lastPartialText : String := ""
  /-- Events that have not been polled. -/
  events : List RecognitionEvent := []
  /-- All events since construction. -/
  emitted : List RecognitionEvent := []
  /-- The process has said that it was killed by the session. -/
  wasKilled : Bool := false
  /-- What the calls of `Finish` have returned, in their order. -/
  finishReturns : List Bool := []

/-- What a session relies on. -/
structure Environment where
  /-- Reads a line as JSON, or says why it cannot. -/
  readJson : Bytes → Except String Json
  /-- The command is configured. -/
  hasCommand : Bool

/-- A text without the white space around it. -/
def trimText (text : String) : String := String.ofList (VersionConstraint.trim text.toList)

/-- An event is reported. -/
def emit (event : RecognitionEvent) (session : Session) : Session :=
  {session with events := session.events++[event],emitted := session.emitted++[event]}

def queueError (text : String) (session : Session) : Session :=
  let trimmed := trimText text
  emit (.error (if trimmed="" then "failed." else trimmed)) {session with sawError := true}

def queueCompleted (session : Session) : Session :=
  if session.completedEmitted then session
  else emit .completed {session with completedEmitted := true,completed := true}

/-- The process is cancelled and let go. -/
def terminate (session : Session) : Session :=
  if session.terminated then session else {session with terminated := true,child := none}

/-- An error text, unless the caller gave no place for it. -/
def note (text : String) (error : Option String) : Option String := error.map fun _ => text

/-- An error text to report. -/
def textOr (fallback : String) : Option String → String
  | some text => if text="" then fallback else text
  | none => fallback

variable (env : Environment)

/-- One line of the process. -/
def handleOutputLine (state : Session×Option String) (line : Bytes) :
    (Session×Option String)×Bool :=
  match env.readJson line with
  | .error reason => ((state.1,note ("invalid streaming provider JSON: "++reason) state.2),false)
  | .ok payload =>
    let type := textMember "type" payload
    let text := trimText (textMember "text" payload)
    if type="session_started" ∨ type="" then (state,true)
    else if type="partial" then
      if text≠"" ∧ text≠state.1.lastPartialText then
        ((emit (.partialText text) {state.1 with lastPartialText := text},state.2),true)
      else (state,true)
    else if type="final" ∨ type="final_timestamps" then
      if text≠"" then
        ((emit (.finalText text) {state.1 with sawFinalText := true,lastPartialText := ""},
          state.2),true)
      else (state,true)
    else if type="closed" then (({state.1 with completed := true},state.2),true)
    else (state,true)

/-- A line that is not blank is handled. -/
def onLine (state : Session×Option String) (rawLine : Bytes) : (Session×Option String)×Bool :=
  let line := trim rawLine
  if line=[] then (state,true) else handleOutputLine env state line

/-- Complete lines are handled until one of them fails. -/
def consumeStdoutLines (session : Session) (error : Option String) : Session×Option String :=
  let drained := drainLinesFromBuffer (onLine env) false (session,error) session.stdoutBuffer
  ({drained.1.1 with stdoutBuffer := drained.2},drained.1.2)

/-- The exit of the process. -/
def handleExit (exitCode : ℤ) (killed : Bool) (session : Session) : Session :=
  let exited := {session with
    childExited := true,exitCode := exitCode,killedByUs := killed
    wasKilled := session.wasKilled || killed}
  if !killed && decide (exitCode≠0) && !exited.sawError && !exited.sawFinalText then
    queueError "Streaming ASR provider exited abnormally." exited
  else exited

/-- One event of the process; its error output goes to the notifications. -/
def handleChildEvent (session : Session) (error : Option String) :
    ChildEvent → Session×Option String
  | .chunk .stdout data =>
    consumeStdoutLines env {session with stdoutBuffer := session.stdoutBuffer++data} error
  | .chunk .stderr _ => (session,error)
  | .cancelled => ({session with killedByUs := true,wasKilled := true},error)
  | .exited exitCode killed => (handleExit exitCode killed session,error)

/-- Output that leaves an error behind ends a drain. -/
def outputFailed (error : Option String) : ChildEvent → Bool
  | .chunk .stdout _ => decide (error≠none ∧ error≠some "")
  | _ => false

/-- The next event of a process, of those it has to offer. A process that has
reported its cancel reports that it was killed, and its exit comes last. -/
def nextEvent (child : Child) (offered : Option ChildEvent) : Option (ChildEvent×Child) :=
  if child.ended then none
  else
    match offered with
    | none => none
    | some (.exited exitCode killed) =>
      some (.exited exitCode (killed || child.cancelReported),{child with ended := true})
    | some .cancelled => some (.cancelled,{child with cancelReported := true})
    | some event => some (event,child)

end Session

section Calls

/-- Calls that need the process. -/
inductive Starter where
  | audio (pcm : List Int16)
  | finish

/-- What is sent to the process. -/
inductive Purpose where
  | starter (starter : Starter)
  | cancel

/-- Where events of the process are drained. -/
inductive Drain where
  /-- A message could not be sent; the call has its own error. -/
  | sendFailed (purpose : Purpose) (error : Option String)
  /-- Audio was sent. -/
  | audio
  /-- `Finish` waits for a final text. -/
  | await
  /-- `Finish` waits for more after a final text. -/
  | grace
  /-- `Finish` takes what is left; the call has its own error. -/
  | last (graceFailed : Bool) (error : Option String)

/-- What a call returns, with its error. -/
structure Returned where
  value : Bool
  error : Option String

/-- Program counter of the owner. -/
inductive Pc where
  /-- Outside any call. -/
  | ready (last : Option Returned)
  /-- Before the first look at the interrupt flag. -/
  | ensureStarted (starter : Starter) (error : Option String)
  /-- Before the process is spawned. -/
  | spawn (starter : Starter) (error : Option String)
  /-- Before the locked region that keeps the process. -/
  | place (starter : Starter) (error : Option String)
  /-- Before a message is sent. -/
  | send (purpose : Purpose) (error : Option String)
  /-- Before the next event of the process is asked for. -/
  | drainEvents (drain : Drain) (error : Option String)
  /-- Before `Finish` evaluates its result. -/
  | evaluate (graceFailed : Bool) (error : Option String)

/-- Calls of the owner; an absent error is a null pointer. -/
inductive Call where
  | pushAudio (pcm : List Int16) (error : Option String)
  | finish (error : Option String)
  | cancel

/-- What the environment decides in one step. -/
structure Oracle where
  /-- Next call of the owner. -/
  call : Call := .cancel
  /-- Why the process cannot be started. -/
  startError : Option String := none
  /-- The message cannot be handed to the process. -/
  pushFails : Bool := false
  /-- What the process has to offer. -/
  offered : Option ChildEvent := none
  /-- The deadline of the wait has passed. -/
  timedOut : Bool := false
  /-- The deadline of the further wait has passed. -/
  graceOver : Bool := false

/-- A call other than `Finish` returns. -/
def returns (value : Bool) (error : Option String) (session : Session) : Session×Pc :=
  (session,.ready (some ⟨value,error⟩))

/-- `Finish` returns. -/
def returnsFinish (value : Bool) (error : Option String) (session : Session) : Session×Pc :=
  ({session with finishReturns := session.finishReturns++[value]},.ready (some ⟨value,error⟩))

/-- A call that needs the process fails without it. -/
def startFails (error : Option String) (session : Session) : Starter → Session×Pc
  | .audio _ => returns false error session
  | .finish => returnsFinish false error session

/-- A call that needs the process goes on with it. -/
def startSucceeds (error : Option String) (session : Session) : Starter → Session×Pc
  | .audio pcm =>
    if pcm=[] then (session,.drainEvents .audio error)
    else (session,.send (.starter (.audio pcm)) error)
  | .finish => ({session with finished := true},.send (.starter .finish) error)

/-- `Finish` gives up. -/
def finishFails (text : String) (error : Option String) (session : Session) : Session×Pc :=
  returnsFinish false error (terminate (queueCompleted (queueError text session)))

/-- The end of `Cancel`. -/
def cancelled (session : Session) : Session×Pc :=
  returns true none (terminate (queueCompleted session))

/-- A message was not sent. -/
def sendFails (error : Option String) (session : Session) : Purpose → Session×Pc
  | .starter (.audio _) => returns false error session
  | .starter .finish =>
    finishFails (textOr "failed to send finish event." error) error session
  | .cancel => cancelled session

/-- `Finish` waits for more after a final text, or takes what is left. -/
def waitGrace (oracle : Oracle) (error : Option String) (session : Session) : Session×Pc :=
  if session.sawFinalText && !oracle.graceOver && !session.completed && !session.childExited then
    (session,.drainEvents .grace error)
  else (session,.drainEvents (.last false error) none)

/-- `Finish` waits for a final text. -/
def waitFinal (oracle : Oracle) (error : Option String) (session : Session) : Session×Pc :=
  if !session.sawFinalText && !session.completed && !session.childExited then
    (session,.drainEvents .await error)
  else waitGrace oracle error session

/-- A message was sent. -/
def sendSucceeds (oracle : Oracle) (error : Option String) (session : Session) :
    Purpose → Session×Pc
  | .starter (.audio _) => (session,.drainEvents .audio error)
  | .starter .finish => waitFinal oracle error session
  | .cancel => cancelled session

/-- The error of an event, if it has one. -/
def RecognitionEvent.errorText : RecognitionEvent → Option String
  | .error text => some text
  | _ => none

/-- `Finish` ends its waiting. -/
def concludes (graceFailed : Bool) (error : Option String) (session : Session) : Session×Pc :=
  let told :=
    if !session.sawFinalText && !session.sawError && !session.cancelled && !session.killedByUs then
      queueError "Streaming ASR provider returned no text." session
    else session
  (terminate (queueCompleted told),.evaluate graceFailed error)

/-- `Finish` runs out of time. -/
def timesOut (error : Option String) (session : Session) : Session×Pc :=
  let ended := terminate (queueCompleted (queueError "Streaming ASR provider timed out." session))
  returnsFinish false
    (note ((ended.events.getLast?.bind RecognitionEvent.errorText).getD "") error) ended

/-- What follows a drain, from whether it went well. -/
def afterDrain (oracle : Oracle) (ok : Bool) (error : Option String) (session : Session) :
    Drain → Session×Pc
  | .sendFailed purpose own =>
    sendFails (note "Provider closed stdin or input buffer is full." own) session purpose
  | .audio => if ok then returns true (note "" error) session else returns false error session
  | .await =>
    if !ok then finishFails (textOr "failed to poll provider." error) error session
    else if oracle.timedOut then timesOut error session
    else waitFinal oracle error session
  | .grace =>
    if !ok then (session,.drainEvents (.last true error) none)
    else waitGrace oracle error session
  | .last graceFailed own => concludes graceFailed own session

variable (env : Environment)

/-- One event of the process, or the end of the drain. -/
def drainStep (oracle : Oracle) (drain : Drain) (error : Option String) (session : Session) :
    Session×Pc :=
  match session.child with
  | none => afterDrain oracle true (note "" error) session drain
  | some child =>
    match nextEvent child oracle.offered with
    | none => afterDrain oracle true (note "" error) session drain
    | some (event,left) =>
      let handled := handleChildEvent env {session with child := some left} error event
      if outputFailed handled.2 event then afterDrain oracle false handled.2 handled.1 drain
      else (handled.1,.drainEvents drain handled.2)

/-- `Finish` evaluates its result. -/
def evaluate (graceFailed : Bool) (error : Option String) (session : Session) : Session×Pc :=
  if session.cancelled || session.killedByUs || session.interrupted then
    returnsFinish false (note "Recognition session was interrupted or cancelled." error) session
  else
    let reported := if session.sawError then
      session.events.findSome? RecognitionEvent.errorText else none
    match error,reported with
    | some _,some text => returnsFinish false (some text) session
    | some text,none =>
      if graceFailed then returnsFinish false (some text) session
      else returnsFinish (!session.sawError && !graceFailed) (some "") session
    | none,_ => returnsFinish (!session.sawError && !graceFailed) none session

/-- A call begins. -/
def begin (session : Session) : Call → Session×Pc
  | .pushAudio pcm error =>
    if session.finished then
      returns false (note "Recognition session already finished." error) session
    else (session,.ensureStarted (.audio pcm) error)
  | .finish error =>
    if session.finished then returnsFinish true (note "" error) session
    else (session,.ensureStarted .finish error)
  | .cancel =>
    if session.cancelled then cancelled session
    else if session.started then ({session with cancelled := true},.send .cancel none)
    else cancelled {session with cancelled := true}

/-- One step of the owner. -/
def next (oracle : Oracle) (session : Session) : Pc → Session×Pc
  | .ready _ => begin session oracle.call
  | .ensureStarted starter error =>
    if session.cancelled || session.interrupted then
      startFails (note "Recognition session already cancelled." error) session starter
    else if session.started then startSucceeds error session starter
    else if !env.hasCommand then
      startFails (note "Command ASR provider has empty command." error) session starter
    else (session,.spawn starter error)
  | .spawn starter error =>
    match oracle.startError with
    | some text =>
      startFails (note text error)
        (queueCompleted (queueError ((note text error).getD "failed to start.") session)) starter
    | none => (session,.place starter error)
  | .place starter error =>
    if session.interrupted then startFails error session starter
    else startSucceeds error {session with child := some {},started := true} starter
  | .send purpose error =>
    if session.child.isNone then
      sendFails (note "provider session is not started." error) session purpose
    else if oracle.pushFails then (session,.drainEvents (.sendFailed purpose error) none)
    else sendSucceeds oracle (note "" error) session purpose
  | .drainEvents drain error => drainStep env oracle drain error session
  | .evaluate graceFailed error => evaluate graceFailed error session

/-- A session with its owner. -/
structure System where
  session : Session := {}
  pc : Pc := .ready none

/-- What happens: the owner goes on, another thread interrupts, the events
are polled. -/
inductive Label where
  | owner (oracle : Oracle)
  | interrupt
  | pollEvents

/-- One step. -/
def machine (system : System) : Label → System
  | .owner oracle =>
    ⟨(next env oracle system.session system.pc).1,(next env oracle system.session system.pc).2⟩
  | .interrupt => {system with session := {system.session with interrupted := true}}
  | .pollEvents => {system with session := {system.session with events := []}}

end Calls

end Vinput.StreamingSession
