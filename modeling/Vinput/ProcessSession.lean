import Mathlib.Algebra.Group.Nat.Defs
import Vinput.InterleavedRuns

/-!
# A child process and its pump

A session owns a child process through three pipes. The pump thread feeds
the child's input, reads its output and reaps it; the owner hands over
bytes and pops events; anybody may cancel. Every access to a queue, to an
atomic or to a descriptor is one step, with the pump's own bookkeeping in
the step before it. What the system answers, such as the outcome of a poll,
how much a write takes, what a read returns, the clock and the exit of the
child, is an oracle of each step.
-/

namespace Vinput.ProcessSession

open InterleavedRuns

/-- Output channels of the child. -/
inductive Channel where
  | stdout
  | stderr
deriving DecidableEq

/-- What a session reports while its child runs. -/
inductive ChildEvent where
  /-- Bytes the child printed. -/
  | chunk (channel : Channel) (data : List UInt8)
  /-- The session was asked to stop. -/
  | cancelled
  /-- The child is gone. -/
  | exited (exitCode : Int) (killedByUs : Bool)
deriving DecidableEq

/-- What the pump does to the outside, in its order. -/
inductive PumpAction where
  | wrote (bytes : List UInt8)
  | closedStdin
  | read (channel : Channel) (bytes : List UInt8)
  | sank (channel : Channel) (bytes : List UInt8)
  | queued (event : ChildEvent)
  | killed (force : Bool)
deriving DecidableEq

/-- Read budget of a channel in one round. -/
def readBudgetBytes : ℕ := 64*1024

/-- Size of the read buffer. -/
def readBufferBytes : ℕ := 4096

/-- Bound of the queued output. -/
def maxQueuedOutputBytes : ℕ := 1024*1024

/-- Number of values of a size. -/
def sizeValues : ℕ := 2^64

/-- Memory of the session. The fields after the atomics belong to the pump
thread. -/
structure Shared where
  /-- Blocks on their way to the child. -/
  stdinQueue : List (List UInt8) := []
  /-- Events on their way to the owner. -/
  eventQueue : List ChildEvent := []
  /-- Counter of queued output bytes. -/
  queuedOutputBytes : ℕ := 0
  /-- Nothing more is handed over. -/
  stdinClosed : Bool := false
  /-- The pump has reported its last event. -/
  pumpFinished : Bool := false
  /-- The cancel descriptor is readable. -/
  cancelEvent : Bool := false
  /-- The stdin descriptor is readable. -/
  stdinEvent : Bool := false
  /-- The wake descriptor is readable. -/
  wakeEvent : Bool := false
  /-- Standard output goes to a sink. -/
  stdoutSink : Bool := false
  /-- Standard error goes to a sink. -/
  stderrSink : Bool := false
  /-- Block being written. -/
  pending : List UInt8 := []
  /-- Bytes of the block already written. -/
  pendingOffset : ℕ := 0
  /-- The child's input is open. -/
  stdinOpen : Bool := true
  /-- The child's output is open. -/
  stdoutOpen : Bool := true
  /-- The child's error output is open. -/
  stderrOpen : Bool := true
  /-- Status of the reaped child. -/
  exitCode : Int := -1
  /-- The child is reaped. -/
  reaped : Bool := false
  /-- The session asked the child to die. -/
  killedByUs : Bool := false
  /-- A cancel has been seen. -/
  cancelSeen : Bool := false
  /-- The forced kill has been sent. -/
  forceKillSent : Bool := false
  /-- The termination deadline is set. -/
  terminating : Bool := false
  /-- Actions of the pump, oldest first. -/
  trace : List PumpAction := []

/-- Outcome of a poll. -/
inductive PollOutcome where
  | failed
  | interrupted
  | timeout
  | ready
deriving DecidableEq

/-- What a poll reports for the child's input. -/
inductive InputReady where
  | quiet
  | writable
  | broken
deriving DecidableEq

/-- Outcome of a write. -/
inductive WriteOutcome where
  | wrote (count : ℕ)
  | retry
  | failed
deriving DecidableEq

/-- Outcome of a read; no bytes are the end of the channel. -/
inductive ReadOutcome where
  | data (bytes : List UInt8)
  | retry
  | failed
deriving DecidableEq

/-- Calls of the owner. -/
inductive Call where
  | pushStdin (bytes : List UInt8)
  | closeStdin
  | nextEvent (waits : Bool)
  | hasExited
  | waitForExit (waits : Bool)
  | cancel
deriving DecidableEq

/-- What the environment decides in one step. -/
structure Oracle where
  /-- Next call of the owner. -/
  call : Call := .hasExited
  /-- Status of a child that can be reaped. -/
  reaped : Option ℕ := none
  /-- The deadline in question has passed. -/
  expired : Bool := false
  /-- Outcome of a poll. -/
  poll : PollOutcome := .ready
  /-- What a poll reports for the input. -/
  input : InputReady := .writable
  /-- A poll reports standard output. -/
  stdout : Bool := false
  /-- A poll reports standard error. -/
  stderr : Bool := false
  /-- Outcome of a write. -/
  write : WriteOutcome := .retry
  /-- Outcome of a read. -/
  read : ReadOutcome := .retry
  /-- The bounded queue refuses a block. -/
  full : Bool := false

/-- Why no event was returned. -/
inductive NoEvent where
  /-- The queue was empty and the owner does not wait. -/
  | empty
  /-- The pump has finished. -/
  | finished
  /-- The deadline expired. -/
  | expired
  /-- The poll failed. -/
  | pollFailed
deriving DecidableEq

/-- What a call returns. -/
inductive Reply where
  | pushed (ok : Bool)
  | event (event : ChildEvent)
  | noEvent (reason : NoEvent)
  | exited (exitCode : Option Int)
  | nothing
deriving DecidableEq

/-- What a poll of the main loop found. -/
structure Ready where
  /-- The stdin descriptor. -/
  stdin : Bool
  /-- The child's input. -/
  input : InputReady
  /-- Standard output. -/
  stdout : Bool
  /-- Standard error. -/
  stderr : Bool
  /-- The cancel descriptor. -/
  cancel : Bool
deriving DecidableEq

/-- Where a channel is being read: in the main loop, or after the exit with
the bytes drained so far. -/
inductive Site where
  | loop (ready : Ready)
  | drain (drained : ℕ)
deriving DecidableEq

/-- Where the pump goes on after it has queued an event. -/
inductive Return where
  | reading (site : Site) (channel : Channel) (count : ℕ)
  | killing
  | finishing
deriving DecidableEq

/-- Points of `Pump`. -/
inductive PumpPoint where
  /-- Before the child is probed. -/
  | reap
  /-- Before the termination deadline is checked. -/
  | deadline
  /-- Before the next block is taken. -/
  | stdin
  /-- The queue was empty, before the closed flag is read. -/
  | readClosed
  /-- Before the output counter is read. -/
  | pressure
  /-- Before the poll of the main loop. -/
  | poll (pressure : Bool)
  /-- Before the stdin descriptor is drained. -/
  | drainStdin (ready : Ready)
  /-- Before the child's input is served. -/
  | write (ready : Ready)
  /-- Before the output counter is read for a channel. -/
  | service (site : Site) (channel : Channel)
  /-- Before a channel is read, with the bytes read in this round. -/
  | read (site : Site) (channel : Channel) (count : ℕ)
  /-- Before an event is queued. -/
  | queue (event : ChildEvent) (back : Return)
  /-- Before the bytes of a queued event are counted. -/
  | count (size : ℕ) (back : Return)
  /-- Before the owner is woken for an event. -/
  | signal (back : Return)
  /-- Before the cancel descriptor is drained. -/
  | cancel (ready : Ready)
  /-- A cancel was seen, before the input is closed. -/
  | cancelStore
  /-- Before the group is terminated. -/
  | kill
  /-- Before the drain deadline is checked. -/
  | drainCheck
  /-- Before the poll of the drain. -/
  | drainPoll
  /-- Before the last probe. -/
  | lastProbe
  /-- Before the channels are closed. -/
  | closeAll
  /-- Before the finished flag is set. -/
  | finish
  /-- Before the last wake. -/
  | finishSignal
  /-- The thread has ended. -/
  | done
deriving DecidableEq

/-- Points of the owner. -/
inductive OwnerPoint where
  /-- Outside any call, with the reply of the last one. -/
  | ready (last : Option Reply)
  /-- Before the finished flag is read for a push. -/
  | pushFinished (bytes : List UInt8)
  /-- Before the closed flag is read for a push. -/
  | pushClosed (bytes : List UInt8)
  /-- Before a block is queued. -/
  | pushEnqueue (bytes : List UInt8)
  /-- A block is queued, before the pump is woken. -/
  | pushSignal (bytes : List UInt8)
  /-- Before the closed flag is set. -/
  | closeStore
  /-- Before the pump is woken for the close. -/
  | closeSignal
  /-- Before an event is popped. -/
  | pop (waits : Bool)
  /-- An event was popped, before its bytes are discounted. -/
  | popCount (event : ChildEvent)
  /-- The queue was empty, before the finished flag is read. -/
  | readFinished
  /-- Before the deadline is checked. -/
  | remaining
  /-- Before the poll of the wake descriptor. -/
  | pollWake
  /-- Before the wake descriptor is drained. -/
  | drainWake
  /-- Before the finished flag is read for an exit; a last look returns. -/
  | exited (waits last : Bool)
  /-- Before the deadline of a wait for the exit is checked. -/
  | exitRemaining
  /-- Before the poll of a wait for the exit. -/
  | exitPoll
  /-- Before the cancel descriptor is signalled. -/
  | cancelSignal
deriving DecidableEq

/-- Program counter of one thread. -/
inductive Pc where
  | pump (point : PumpPoint)
  | owner (point : OwnerPoint)
  /-- A thread that may only cancel. -/
  | bystander
deriving DecidableEq

/-- The pump does something to the outside. -/
def record (action : PumpAction) (shared : Shared) : Shared :=
  {shared with trace := shared.trace++[action]}

/-- Close the child's input and drop the block being written. -/
def closeStdinChannel (shared : Shared) : Shared :=
  {shared with
    stdinOpen := false
    pending := []
    pendingOffset := 0
    trace := if shared.stdinOpen then shared.trace++[.closedStdin] else shared.trace}

/-- A channel is open. -/
def isOpen (shared : Shared) : Channel → Bool
  | .stdout => shared.stdoutOpen
  | .stderr => shared.stderrOpen

/-- A channel goes to a sink. -/
def hasSink (shared : Shared) : Channel → Bool
  | .stdout => shared.stdoutSink
  | .stderr => shared.stderrSink

/-- Close an output channel. -/
def closeOutputChannel (shared : Shared) : Channel → Shared
  | .stdout => {shared with stdoutOpen := false}
  | .stderr => {shared with stderrOpen := false}

/-- The queued output has reached its bound. -/
def underPressure (shared : Shared) : Bool :=
  decide (maxQueuedOutputBytes ≤ shared.queuedOutputBytes)

/-- Where the pump goes on after a channel has been read. -/
def afterService (shared : Shared) (site : Site) (channel : Channel) (count : ℕ) : PumpPoint :=
  match site,channel with
  | .loop ready,.stdout =>
    if ready.stderr then .service (.loop ready) .stderr else .cancel ready
  | .loop ready,.stderr => .cancel ready
  | .drain drained,.stdout =>
    if shared.stderrOpen then .service (.drain (drained+count)) .stderr
    else if !shared.stdoutOpen then .lastProbe
    else if 0<drained+count then .drainCheck
    else .drainPoll
  | .drain drained,.stderr =>
    if !shared.stdoutOpen && !shared.stderrOpen then .lastProbe
    else if 0<drained+count then .drainCheck
    else .drainPoll

/-- Where the pump goes on after it has queued an event. -/
def Return.point : Return → PumpPoint
  | .reading site channel count => .read site channel count
  | .killing => .kill
  | .finishing => .finish

/-- Bytes of an event that count as queued output. -/
def ChildEvent.size : ChildEvent → ℕ
  | .chunk _ data => data.length
  | _ => 0

/-- Probe the child: a cancelled session kills what is left of the group. -/
def reapStep (oracle : Oracle) (shared : Shared) : Shared×PumpPoint :=
  match oracle.reaped with
  | none => (shared,.deadline)
  | some code =>
    ({shared with
      reaped := true
      exitCode := code
      trace := if shared.cancelSeen then shared.trace++[.killed true] else shared.trace},.drainCheck)

/-- Escalate when the termination deadline has passed. -/
def deadlineStep (oracle : Oracle) (shared : Shared) : Shared×PumpPoint :=
  if shared.terminating && oracle.expired then
    if !shared.forceKillSent then ({record (.killed true) shared with forceKillSent := true},.stdin)
    else (shared,.drainCheck)
  else (shared,.stdin)

/-- Take the next block once the previous one is written. -/
def stdinStep (shared : Shared) : Shared×PumpPoint :=
  if shared.stdinOpen && decide (shared.pending.length ≤ shared.pendingOffset) then
    match shared.stdinQueue with
    | block::rest =>
      ({shared with pending := block,pendingOffset := 0,stdinQueue := rest},.pressure)
    | [] => ({shared with pending := [],pendingOffset := 0},.readClosed)
  else (shared,.pressure)

/-- What a poll of the main loop finds on the descriptors it watches. -/
def polled (oracle : Oracle) (shared : Shared) (pressure : Bool) : Ready :=
  {stdin := shared.stdinEvent
   input := if shared.stdinOpen && decide (shared.pendingOffset<shared.pending.length) then
      oracle.input else .quiet
   stdout := shared.stdoutOpen && !pressure && oracle.stdout
   stderr := shared.stderrOpen && !pressure && oracle.stderr
   cancel := shared.cancelEvent}

/-- Bytes of the block that a write takes. -/
def writtenBytes (count : ℕ) (shared : Shared) : List UInt8 :=
  (shared.pending.drop shared.pendingOffset).take count

/-- Bookkeeping of a write that took some bytes. -/
def advance (count : ℕ) (shared : Shared) : Shared :=
  let bytes := writtenBytes count shared
  let offset := shared.pendingOffset+bytes.length
  if bytes=[] then shared
  else if shared.pending.length ≤ offset then
    {record (.wrote bytes) shared with pending := [],pendingOffset := 0}
  else {record (.wrote bytes) shared with pendingOffset := offset}

/-- Serve the child's input. -/
def writeStep (oracle : Oracle) (ready : Ready) (shared : Shared) : Shared :=
  match ready.input with
  | .quiet => shared
  | .broken => closeStdinChannel shared
  | .writable =>
    match oracle.write with
    | .wrote count => advance count shared
    | .retry => shared
    | .failed => closeStdinChannel shared

/-- Where the pump goes on after it has served the input. -/
def afterWrite (ready : Ready) : PumpPoint :=
  if ready.stdout then .service (.loop ready) .stdout
  else if ready.stderr then .service (.loop ready) .stderr
  else .cancel ready

/-- Read a channel once: into its sink, or on to the event queue. -/
def readStep (oracle : Oracle) (site : Site) (channel : Channel) (count : ℕ) (shared : Shared) :
    Shared×PumpPoint :=
  if readBudgetBytes ≤ count then (shared,afterService shared site channel count)
  else
    match oracle.read with
    | .retry => (shared,afterService shared site channel count)
    | .failed =>
      (closeOutputChannel shared channel,
        afterService (closeOutputChannel shared channel) site channel count)
    | .data bytes =>
      let chunk := bytes.take (min readBufferBytes (readBudgetBytes-count))
      if chunk=[] then
        (closeOutputChannel shared channel,
          afterService (closeOutputChannel shared channel) site channel count)
      else if hasSink shared channel then
        (record (.sank channel chunk) (record (.read channel chunk) shared),
          .read site channel (count+chunk.length))
      else
        (record (.read channel chunk) shared,
          .queue (.chunk channel chunk) (.reading site channel (count+chunk.length)))

/-- A cancel closes the input before it is announced. -/
def cancelStep (shared : Shared) : Shared :=
  {closeStdinChannel shared with cancelSeen := true,killedByUs := true,stdinClosed := true}

/-- The first channel to drain after the exit. -/
def drainStep (oracle : Oracle) (shared : Shared) : PumpPoint :=
  if !shared.stdoutOpen && !shared.stderrOpen then .lastProbe
  else if oracle.expired then .lastProbe
  else if shared.stdoutOpen then .service (.drain 0) .stdout
  else .service (.drain 0) .stderr

/-- The last probe for the child. -/
def lastProbeStep (oracle : Oracle) (shared : Shared) : Shared :=
  match shared.reaped,oracle.reaped with
  | false,some code => {shared with reaped := true,exitCode := code}
  | _,_ => shared

/-- Close every channel that is still open. -/
def closeAll (shared : Shared) : Shared :=
  {closeStdinChannel shared with stdoutOpen := false,stderrOpen := false}

/-- The last event. -/
def exitedEvent (shared : Shared) : ChildEvent :=
  .exited (if shared.reaped then shared.exitCode else -1) shared.killedByUs

/-- Steps of `Pump`. -/
def nextPump (oracle : Oracle) (shared : Shared) : PumpPoint → Shared×PumpPoint
  | .reap => reapStep oracle shared
  | .deadline => deadlineStep oracle shared
  | .stdin => stdinStep shared
  | .readClosed => (if shared.stdinClosed then closeStdinChannel shared else shared,.pressure)
  | .pressure => (shared,.poll (underPressure shared))
  | .poll pressure =>
    match oracle.poll with
    | .failed => (shared,.drainCheck)
    | .interrupted => (shared,.reap)
    | .timeout => (shared,.reap)
    | .ready => (shared,.drainStdin (polled oracle shared pressure))
  | .drainStdin ready =>
    (if ready.stdin then {shared with stdinEvent := false} else shared,.write ready)
  | .write ready => (writeStep oracle ready shared,afterWrite ready)
  | .service site channel =>
    if !hasSink shared channel && underPressure shared then
      (shared,afterService shared site channel 0)
    else (shared,.read site channel 0)
  | .read site channel count => readStep oracle site channel count shared
  | .queue event back =>
    ({record (.queued event) shared with eventQueue := shared.eventQueue++[event]},
      .count event.size back)
  | .count size back =>
    ({shared with queuedOutputBytes := (shared.queuedOutputBytes+size)%sizeValues},.signal back)
  | .signal back => ({shared with wakeEvent := true},back.point)
  | .cancel ready =>
    if ready.cancel then
      ({shared with cancelEvent := false},if shared.cancelSeen then .reap else .cancelStore)
    else (shared,.reap)
  | .cancelStore => (cancelStep shared,.queue .cancelled .killing)
  | .kill => ({record (.killed false) shared with terminating := true},.reap)
  | .drainCheck => (shared,drainStep oracle shared)
  | .drainPoll => (shared,if oracle.poll=.failed then .lastProbe else .drainCheck)
  | .lastProbe => (lastProbeStep oracle shared,.closeAll)
  | .closeAll => (closeAll shared,.queue (exitedEvent (closeAll shared)) .finishing)
  | .finish => ({shared with pumpFinished := true},.finishSignal)
  | .finishSignal => ({shared with wakeEvent := true},.done)
  | .done => (shared,.done)

/-- A call returns. -/
def returns (reply : Reply) : OwnerPoint := .ready (some reply)

/-- The owner outside any call begins one. -/
def begin : Call → OwnerPoint
  | .pushStdin bytes => if bytes=[] then returns (.pushed true) else .pushFinished bytes
  | .closeStdin => .closeStore
  | .nextEvent waits => .pop waits
  | .hasExited => .exited false false
  | .waitForExit waits => .exited waits false
  | .cancel => .cancelSignal

/-- Where a look at the finished flag for an exit leads to. -/
def exitedNext (shared : Shared) (waits last : Bool) : OwnerPoint :=
  if shared.pumpFinished then returns (.exited (some shared.exitCode))
  else if waits && !last then .exitRemaining
  else returns (.exited none)

/-- Steps of the owner. -/
def nextOwner (oracle : Oracle) (shared : Shared) : OwnerPoint → Shared×OwnerPoint
  | .ready _ => (shared,begin oracle.call)
  | .pushFinished bytes =>
    (shared,if shared.pumpFinished then returns (.pushed false) else .pushClosed bytes)
  | .pushClosed bytes =>
    (shared,if shared.stdinClosed then returns (.pushed false) else .pushEnqueue bytes)
  | .pushEnqueue bytes =>
    if oracle.full then (shared,returns (.pushed false))
    else ({shared with stdinQueue := shared.stdinQueue++[bytes]},.pushSignal bytes)
  | .pushSignal _ => ({shared with stdinEvent := true},returns (.pushed true))
  | .closeStore => ({shared with stdinClosed := true},.closeSignal)
  | .closeSignal => ({shared with stdinEvent := true},returns .nothing)
  | .pop waits =>
    match shared.eventQueue with
    | event::rest => ({shared with eventQueue := rest},.popCount event)
    | [] => (shared,if waits then .readFinished else returns (.noEvent .empty))
  | .popCount event =>
    ({shared with
      queuedOutputBytes := (shared.queuedOutputBytes+sizeValues-event.size)%sizeValues},
      returns (.event event))
  | .readFinished =>
    (shared,if shared.pumpFinished then returns (.noEvent .finished) else .remaining)
  | .remaining => (shared,if oracle.expired then returns (.noEvent .expired) else .pollWake)
  | .pollWake =>
    (shared,match oracle.poll with
      | .failed => returns (.noEvent .pollFailed)
      | .interrupted => .pop true
      | .timeout => .pop true
      | .ready => .drainWake)
  | .drainWake => ({shared with wakeEvent := false},.pop true)
  | .exited waits last => (shared,exitedNext shared waits last)
  | .exitRemaining => (shared,if oracle.expired then .exited true true else .exitPoll)
  | .exitPoll =>
    (if oracle.poll=.ready then {shared with wakeEvent := false} else shared,
      .exited true (decide (oracle.poll=.failed)))
  | .cancelSignal => ({shared with cancelEvent := true},returns .nothing)

/-- One step of one thread. -/
def next (oracle : Oracle) (shared : Shared) : Pc → Shared×Pc
  | .pump point => ((nextPump oracle shared point).1,.pump (nextPump oracle shared point).2)
  | .owner point => ((nextOwner oracle shared point).1,.owner (nextOwner oracle shared point).2)
  | .bystander =>
    (if oracle.call=.cancel then {shared with cancelEvent := true} else shared,.bystander)

/-- All threads of the session over one memory. -/
abbrev System := Pool Shared Pc

/-- One step of the whole session. -/
abbrev machine : System → ℕ×Oracle → System := Pool.step next

/-- Which output channels go to a sink. -/
structure Sinks where
  /-- Standard output does. -/
  stdout : Bool := false
  /-- Standard error does. -/
  stderr : Bool := false

/-- The session after its pump has been started: thread zero is the pump,
thread one the owner, and every other thread may cancel. -/
def startup (sinks : Sinks) : System :=
  ⟨{stdoutSink := sinks.stdout,stderrSink := sinks.stderr},
    fun thread => match thread with
      | 0 => .pump .reap
      | 1 => .owner (.ready none)
      | _ => .bystander⟩

end Vinput.ProcessSession
