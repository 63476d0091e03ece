import Vinput.AsrSettings
import Vinput.ProcessSession

/-!
# Running a command to its end

A one-shot run starts a command with three pipes, writes its input, collects
what it prints until it exits or a deadline passes, and says how it ended.
Every call of the system and every look at the clock is one step; between
any two of them the child and its helpers may print and close their ends.
What the system answers is an oracle of each step. All three pipes exist,
because the command is always started with three.
-/

namespace Vinput.OneShotProcess

open AsrSettings (bytesOf)
open InterleavedRuns
open ProcessSession (Channel PollOutcome InputReady WriteOutcome readBudgetBytes readBufferBytes)

section Types

/-- An output pipe of the child. -/
structure Pipe where
  /-- Bytes that were read from it. -/
  taken : List UInt8 := []
  /-- Bytes that wait in it. -/
  pending : List UInt8 := []
  /-- Nobody can write any more. -/
  closed : Bool := false

/-- All that was ever written to a pipe. -/
def Pipe.written (pipe : Pipe) : List UInt8 := pipe.taken++pipe.pending

/-- What the run does to the outside or learns from it, in its order. -/
inductive Action where
  | wrote (bytes : List UInt8)
  | closedStdin
  | sawEnd (channel : Channel)
  /-- A kill of the group of the child, which was reaped before or not. -/
  | killed (reaped : Bool)
deriving DecidableEq

/-- A command with its time limit in milliseconds and its input. -/
structure Command where
  /-- Program to run. -/
  command : String
  /-- Time limit; none unless positive. -/
  timeoutMs : Int32
  /-- Bytes for its standard input. -/
  input : List UInt8

/-- What a run returns. -/
structure CommandResult where
  /-- Status of the child. -/
  exitCode : ℤ := -1
  /-- The deadline passed. -/
  timedOut : Bool := false
  /-- There is no result of a child. -/
  launchFailed : Bool := false
  /-- What the child printed. -/
  stdoutText : List UInt8 := []
  /-- What the child printed as errors, or the text of a failure. -/
  stderrText : List UInt8 := []
deriving DecidableEq

/-- Outcome of starting the command. -/
inductive Spawn where
  | started
  | nothing
  | threw (what : String)
deriving DecidableEq

/-- Outcome of asking for the exit of the child. -/
inductive Exit where
  | running
  | exited (code : ℤ)
  | threw (what : String)
deriving DecidableEq

/-- What the system allows in a read: some bytes if there are any, none this
time, or an error. -/
inductive ReadAnswer where
  | upTo (count : ℕ)
  | retry
  | failed
deriving DecidableEq

/-- What the environment decides in one step. -/
structure Oracle where
  /-- Outcome of starting the command. -/
  spawn : Spawn := .started
  /-- The input can be switched to non-blocking mode. -/
  inUsable : Bool := true
  /-- So can an output channel. -/
  usable : Channel → Bool := fun _ => true
  /-- Outcome of asking for the exit. -/
  exit : Exit := .running
  /-- Reading of the steady clock in milliseconds. -/
  now : ℤ := 0
  /-- Outcome of a poll. -/
  poll : PollOutcome := .ready
  /-- What a poll reports for the input. -/
  input : InputReady := .quiet
  /-- What a poll reports for an output channel. -/
  readable : Channel → Bool := fun _ => false
  /-- Outcome of a write. -/
  write : WriteOutcome := .retry
  /-- Outcome of a read. -/
  read : ReadAnswer := .retry

/-- Pipes of the child and local variables of the run. -/
structure Shared where
  /-- Output pipes. -/
  pipes : Channel → Pipe := fun _ => {}
  /-- The child has been reaped. -/
  reaped : Bool := false
  /-- Actions of the run. -/
  trace : List Action := []
  /-- When the run gives up. -/
  deadline : Option ℤ := none
  /-- Bytes of the input that were written. -/
  inputOffset : ℕ := 0
  /-- More input is to be written. -/
  inOpen : Bool := false
  /-- An output channel is to be read. -/
  isOpen : Channel → Bool := fun _ => false
  /-- The input handle was released. -/
  inputClosed : Bool := false
  /-- The deadline passed. -/
  timedOut : Bool := false
  /-- Not all input was written. -/
  inputIncomplete : Bool := false
  /-- The exit of the child was observed. -/
  childExited : Bool := false
  /-- Its status. -/
  childExitCode : ℤ := -1
  /-- When the loop observed it. -/
  childExitedAt : Option ℤ := none
  /-- Collected output. -/
  text : Channel → List UInt8 := fun _ => []

/-- What a poll found. -/
structure Ready where
  /-- The child's input. -/
  input : InputReady
  /-- Standard output. -/
  stdout : Bool
  /-- Standard error. -/
  stderr : Bool
deriving DecidableEq

/-- Points of `Run` and of `PumpProcess` inside it. -/
inductive Pc where
  /-- Before the command is started. -/
  | launch
  /-- Before the descriptors are prepared. -/
  | setup
  /-- Before the loop condition and the probe for the exit. -/
  | probe
  /-- Before the clock is read. -/
  | deadline
  /-- Before the descriptors are polled. -/
  | poll
  /-- Before the input is served. -/
  | input (ready : Ready)
  /-- Before a channel is read, with the bytes read in this round. -/
  | drain (channel : Channel) (count : ℕ) (stderrReady : Bool)
  /-- The loop has ended, before the last probe. -/
  | lastProbe
  /-- The pump has returned. -/
  | conclude
  /-- Before the child is killed. -/
  | kill
  /-- Before the child is waited for. -/
  | wait
  /-- The run has returned. -/
  | done (result : CommandResult)
deriving DecidableEq

end Types

section Steps

variable (command : Command) (oracle : Oracle)

def kPostExitGrace : ℤ := 200

/-- A failure to run the command; the timeout is known once the pump has
returned. -/
def failed (shared : Shared) (timedOut : Bool) (what : String) : CommandResult :=
  {timedOut := timedOut
   launchFailed := true
   stdoutText := shared.text .stdout
   stderrText := bytesOf what}

/-- A run that has a child to report. -/
def finished (shared : Shared) (exitCode : ℤ) : CommandResult :=
  {exitCode := exitCode
   timedOut := shared.timedOut
   stdoutText := shared.text .stdout
   stderrText := shared.text .stderr}

/-- Release the input handle, once. -/
def finishInput (shared : Shared) : Shared :=
  {shared with
    inOpen := false
    inputClosed := true
    trace := if shared.inputClosed then shared.trace else shared.trace++[.closedStdin]}

/-- Start the command and set the deadline. -/
def launchStep (shared : Shared) : Shared×Pc :=
  if command.command="" then (shared,.done (failed shared false "Command is empty."))
  else
    match oracle.spawn with
    | .threw what => (shared,.done (failed shared false what))
    | .nothing => (shared,.done (failed shared false "Failed to spawn child process."))
    | .started =>
      ({shared with
        deadline :=
          if 0<command.timeoutMs then some (oracle.now+command.timeoutMs.toInt) else none},
        .setup)

/-- Prepare the descriptors; without input the handle is released at once. -/
def setupStep (shared : Shared) : Shared×Pc :=
  let prepared := {shared with
    inOpen := oracle.inUsable && decide (command.input≠[])
    isOpen := oracle.usable
    inputIncomplete := !oracle.inUsable}
  (if command.input=[] then finishInput prepared else prepared,.probe)

/-- The exit of the child is noted. -/
def noteExit (code : ℤ) (shared : Shared) : Shared :=
  {shared with childExited := true,childExitCode := code,reaped := true}

/-- After the exit the rest of the input can never be read. -/
def abandonInput (shared : Shared) : Shared :=
  if shared.inOpen then finishInput {shared with inputIncomplete := true} else shared

/-- Some channel is open. -/
def anyOpen (shared : Shared) : Bool :=
  shared.inOpen || shared.isOpen .stdout || shared.isOpen .stderr

/-- The loop condition, and the probe for the exit. -/
def probeStep (shared : Shared) : Shared×Pc :=
  if !anyOpen shared && shared.childExited then (shared,.lastProbe)
  else if shared.childExited then (shared,.deadline)
  else
    match oracle.exit with
    | .running => (shared,.deadline)
    | .exited code =>
      (abandonInput {noteExit code shared with childExitedAt := some oracle.now},.deadline)
    | .threw what => (shared,.done (failed shared false what))

/-- The deadline has passed. -/
def expired (shared : Shared) : Bool :=
  match shared.deadline with
  | some deadline => decide (deadline≤oracle.now)
  | none => false

/-- The time for what is left of the output is over. -/
def graceOver (shared : Shared) : Bool :=
  match shared.childExitedAt with
  | some exitedAt => shared.childExited && decide (kPostExitGrace≤oracle.now-exitedAt)
  | none => false

/-- The deadline comes before the grace. -/
def deadlineStep (shared : Shared) : Shared×Pc :=
  if expired oracle shared then
    ({shared with
      timedOut := true
      inputIncomplete := shared.inputIncomplete || shared.inOpen
      inOpen := false},.lastProbe)
  else if graceOver oracle shared then (shared,.lastProbe)
  else (shared,.poll)

/-- Poll the open channels, or sleep if there are none. -/
def pollStep (shared : Shared) : Pc :=
  if !anyOpen shared then .probe
  else
    match oracle.poll with
    | .failed => .lastProbe
    | .interrupted => .probe
    | .timeout => .probe
    | .ready =>
      .input
        {input := if shared.inOpen then oracle.input else .quiet
         stdout := shared.isOpen .stdout && oracle.readable .stdout
         stderr := shared.isOpen .stderr && oracle.readable .stderr}

/-- The input cannot be written to its end. -/
def loseInput (shared : Shared) : Shared :=
  finishInput {shared with inputIncomplete := true}

/-- Bookkeeping of a write that took some bytes. -/
def advanceInput (count : ℕ) (shared : Shared) : Shared :=
  let bytes := (command.input.drop shared.inputOffset).take count
  let written := {shared with
    inputOffset := shared.inputOffset+bytes.length
    trace := shared.trace++[.wrote bytes]}
  if bytes=[] then shared
  else if command.input.length≤written.inputOffset then finishInput written
  else written

/-- Serve the child's input. -/
def inputStep (ready : InputReady) (shared : Shared) : Shared :=
  match ready with
  | .quiet => shared
  | .broken => loseInput shared
  | .writable =>
    match oracle.write with
    | .wrote count => advanceInput command count shared
    | .retry => shared
    | .failed => loseInput shared

/-- Where the pump goes on after the input. -/
def afterInput (ready : Ready) : Pc :=
  if ready.stdout then .drain .stdout 0 ready.stderr
  else if ready.stderr then .drain .stderr 0 false
  else .probe

/-- Where the pump goes on after a channel. -/
def afterDrain (channel : Channel) (stderrReady : Bool) : Pc :=
  if channel=.stdout ∧ stderrReady=true then .drain .stderr 0 false else .probe

/-- Outcome of a read. -/
inductive ReadOutcome where
  | data (bytes : List UInt8)
  | ended
  | retry
  | failed
deriving DecidableEq

/-- A read takes bytes that wait, and reports the end when none wait and
nobody can write. -/
def readPipe (pipe : Pipe) (want : ℕ) : ReadAnswer → ReadOutcome
  | .retry => .retry
  | .failed => .failed
  | .upTo count =>
    if pipe.pending=[] then if pipe.closed then .ended else .retry
    else .data (pipe.pending.take (min want (count+1)))

/-- Bytes leave the pipe for the collected text. -/
def takeBytes (channel : Channel) (bytes : List UInt8) (shared : Shared) : Shared :=
  {shared with
    pipes := Function.update shared.pipes channel
      {shared.pipes channel with
        taken := (shared.pipes channel).taken++bytes
        pending := (shared.pipes channel).pending.drop bytes.length}
    text := Function.update shared.text channel (shared.text channel++bytes)}

/-- A channel is not read any more. -/
def closeChannel (channel : Channel) (shared : Shared) : Shared :=
  {shared with isOpen := Function.update shared.isOpen channel false}

/-- Read a channel once, within its budget. -/
def drainStep (channel : Channel) (count : ℕ) (stderrReady : Bool) (shared : Shared) :
    Shared×Pc :=
  if readBudgetBytes≤count then (shared,afterDrain channel stderrReady)
  else
    match readPipe (shared.pipes channel) (min readBufferBytes (readBudgetBytes-count))
        oracle.read with
    | .data bytes =>
      (takeBytes channel bytes shared,.drain channel (count+bytes.length) stderrReady)
    | .ended =>
      (closeChannel channel {shared with trace := shared.trace++[.sawEnd channel]},
        afterDrain channel stderrReady)
    | .failed => (closeChannel channel shared,afterDrain channel stderrReady)
    | .retry => (shared,afterDrain channel stderrReady)

/-- The last probe for the exit; the input handle is released in any case. -/
def lastProbeStep (shared : Shared) : Shared×Pc :=
  if shared.childExited then (finishInput shared,.conclude)
  else
    match oracle.exit with
    | .running => (finishInput shared,.conclude)
    | .exited code => (finishInput (noteExit code shared),.conclude)
    | .threw what => (shared,.done (failed shared false what))

/-- What `Run` makes of the outcome of the pump. -/
def concludeStep (shared : Shared) : Pc :=
  if shared.timedOut then .kill
  else if shared.childExited then .done (finished shared shared.childExitCode)
  else .wait

/-- Wait for the child; one that was reaped has no status any more. -/
def waitStep (shared : Shared) : Shared×Pc :=
  let code := if shared.reaped then .exited 0 else oracle.exit
  match code with
  | .running => (shared,.wait)
  | .exited code =>
    ({shared with reaped := true},
      .done (finished shared (if shared.timedOut then -1 else code)))
  | .threw what => (shared,.done (failed shared shared.timedOut what))

/-- One step of the run. -/
def next (shared : Shared) : Pc → Shared×Pc
  | .launch => launchStep command oracle shared
  | .setup => setupStep command oracle shared
  | .probe => probeStep oracle shared
  | .deadline => deadlineStep oracle shared
  | .poll => (shared,pollStep oracle shared)
  | .input ready => (inputStep command oracle ready.input shared,afterInput ready)
  | .drain channel count stderrReady => drainStep oracle channel count stderrReady shared
  | .lastProbe => lastProbeStep oracle shared
  | .conclude => (shared,concludeStep shared)
  | .kill => ({shared with trace := shared.trace++[.killed shared.reaped]},.wait)
  | .wait => waitStep oracle shared
  | .done result => (shared,.done result)

end Steps

section Machine

/-- Memory and program counter of a run. -/
structure State where
  /-- Pipes and local variables. -/
  shared : Shared
  /-- Where the run stands. -/
  pc : Pc

/-- A step of the child's side of a pipe, or of the run. -/
inductive Label where
  | prints (channel : Channel) (bytes : List UInt8)
  | closes (channel : Channel)
  | step (oracle : Oracle)

/-- Bytes are written to a pipe that can still be written. -/
def Pipe.print (pipe : Pipe) (bytes : List UInt8) : Pipe :=
  if pipe.closed then pipe else {pipe with pending := pipe.pending++bytes}

/-- A run with the child on the other side. -/
def machine (command : Command) (state : State) : Label → State
  | .prints channel bytes =>
    {state with shared := {state.shared with
      pipes := Function.update state.shared.pipes channel
        ((state.shared.pipes channel).print bytes)}}
  | .closes channel =>
    {state with shared := {state.shared with
      pipes := Function.update state.shared.pipes channel
        {state.shared.pipes channel with closed := true}}}
  | .step oracle =>
    ⟨(next command oracle state.shared state.pc).1,(next command oracle state.shared state.pc).2⟩

/-- Before the run. -/
def initial : State := ⟨{},.launch⟩

/-- The deadline and the exit are not both noticed: when the deadline is
found to have passed no exit was observed, and after that the last probe
reports none. -/
def NotBoth (state : State) : Label → Prop
  | .step oracle =>
    (state.pc=.deadline → expired oracle state.shared=true → state.shared.childExited=false) ∧
      (state.pc=.lastProbe → state.shared.timedOut=true → state.shared.childExited=false →
        ∀ code, oracle.exit≠.exited code)
  | _ => True

end Machine

end Vinput.OneShotProcess
