import Mathlib.Algebra.Order.Ring.Int
import Vinput.InterleavedRuns
import Vinput.ProcessTable

/-!
# Stopping a process by its record

A record holds the number and the start time of a process that the daemon
did not spawn. `TerminateGracefully` pins the process with a descriptor if
the kernel has one, checks the identity, and signals. Every call of the
system and every look at the clock is one step, and between any two of them
processes may exit, be reaped and start. The system answers truthfully or
refuses; a read of the process file system that fails looks like a process
that is gone.
-/

namespace Vinput.PinnedProcess

open InterleavedRuns

/-- The processes of the system. -/
abbrev Table := ProcessTable.Table Int32 UInt64

/-- What can happen to them. -/
abbrev Event := ProcessTable.Event Int32 UInt64

section System

/-- There is no such process. -/
def esrch : Int32 := 3

/-- The call was interrupted. -/
def eintr : Int32 := 4

/-- A failure of a system call that says nothing about the process: the
answer that there is none is only given when it is true. -/
structure Refusal where
  /-- Error number of the failure. -/
  errno : Int32
  /-- Any error but the one for missing processes. -/
  notGone : errno≠esrch := by decide

/-- What the system decides in one step of the call. -/
structure Answer where
  /-- The system call fails for a reason of its own. -/
  refusal : Option Refusal := none
  /-- The process file system cannot be read. -/
  readFails : Bool := false
  /-- A poll reports something else than the exit. -/
  strayEvents : Bool := false
  /-- Reading of the steady clock in milliseconds. -/
  now : ℤ := 0

/-- The process that holds the number, unless the system refuses. -/
def holder (table : Table) (pid : Int32) (answer : Answer) : Except Int32 UInt64 :=
  match answer.refusal with
  | some refusal => .error refusal.errno
  | none =>
    match table.occupant pid with
    | some (start,_) => .ok start
    | none => .error esrch

/-- A descriptor for the process that holds the number. -/
def openPidFd (table : Table) (pid : Int32) (answer : Answer) : Except Int32 UInt64 :=
  holder table pid answer

/-- The pinned process is signalled as long as it is not reaped. -/
def sendSignalViaPidFd (table : Table) (pid : Int32) (pinned : UInt64) (answer : Answer) :
    Except Int32 UInt64 :=
  match answer.refusal with
  | some refusal => .error refusal.errno
  | none => if table.Owns pid pinned then .ok pinned else .error esrch

/-- Whatever holds the number is signalled. -/
def sendSignalByPid (table : Table) (pid : Int32) (answer : Answer) : Except Int32 UInt64 :=
  holder table pid answer

/-- Start time of the process that holds the number, 0 when there is none or
it cannot be read. -/
def processStartTime (table : Table) (pid : Int32) (answer : Answer) : UInt64 :=
  if pid≤0 then 0
  else if answer.readFails then 0
  else
    match table.occupant pid with
    | some (start,_) => start
    | none => 0

/-- The process that holds the number is the recorded one. -/
def processIdentityMatches (table : Table) (pid : Int32) (startTime : UInt64) (answer : Answer) :
    Bool :=
  if pid≤0 ∨ startTime=0 then false
  else decide (processStartTime table pid answer=startTime)

/-- Answer of one poll of a descriptor. -/
inductive Poll where
  | failed (errno : Int32)
  | quiet
  | events (pollin : Bool)
deriving DecidableEq

/-- A descriptor becomes readable when its process has exited. -/
def pollPidFd (table : Table) (pid : Int32) (pinned : UInt64) (answer : Answer) : Poll :=
  match answer.refusal with
  | some refusal => .failed refusal.errno
  | none =>
    if answer.strayEvents then .events false
    else if table.Running pid pinned then .quiet
    else .events true

end System

section Call

/-- How a pinned process was observed. -/
inductive ProcessState where
  | running
  | exited
  | unknown
deriving DecidableEq

/-- Outcome of waiting for a process to exit. -/
inductive ExitWait where
  | exited
  | stillRunning
  | inconclusive
deriving DecidableEq

/-- Result of delivering a signal. -/
inductive SignalOutcome where
  | delivered
  | processGone
  | failed
deriving DecidableEq

/-- How a termination attempt ended. -/
inductive TerminateOutcome where
  | exited
  | notFound
  | stillRunning
  | unconfirmed
  | failed
deriving DecidableEq

/-- What the call returns. -/
structure TerminateResult where
  /-- How the attempt ended. -/
  outcome : TerminateOutcome := .failed
  /-- The signal that could not be delivered. -/
  failedSignal : Int32 := 0
  /-- Text of the failure. -/
  error : String := ""
deriving DecidableEq

/-- Arguments of the call; times are in milliseconds. -/
structure Call where
  /-- Recorded number. -/
  pid : Int32
  /-- Recorded start time. -/
  startTime : UInt64
  /-- Time for a graceful exit. -/
  gracefulTimeout : ℤ
  /-- Time for a forced exit. -/
  forceTimeout : ℤ

/-- A process instance, pinned or not. -/
structure Pinned where
  /-- Start time of the process behind the descriptor. -/
  pidfd : Option UInt64
  /-- Why there is no descriptor. -/
  pinErrno : Int32 := 0
deriving DecidableEq

/-- No process held the number when the descriptor was asked for. -/
def Pinned.pinObservedNoSuchProcess (process : Pinned) : Bool :=
  process.pidfd.isNone && decide (process.pinErrno=esrch)

/-- The two signals of a call. -/
inductive Phase where
  | graceful
  | forced
deriving DecidableEq

/-- The signal to end. -/
def sigterm : Int32 := 15

/-- The signal that ends. -/
def sigkill : Int32 := 9

/-- The signal of a phase. -/
def Phase.signal : Phase → Int32
  | .graceful => sigterm
  | .forced => sigkill

/-- The time limit of a phase. -/
def Phase.timeout (call : Call) : Phase → ℤ
  | .graceful => call.gracefulTimeout
  | .forced => call.forceTimeout

/-- Instructions of the call, with its local variables. -/
inductive Pc where
  | enter
  | openPin
  | identify (process : Pinned)
  | signal (process : Pinned) (phase : Phase)
  | kill (process : Pinned) (phase : Phase)
  | beginWait (process : Pinned) (phase : Phase)
  | probe (process : Pinned) (phase : Phase) (deadline : ℤ) (observedRunning : Bool)
      (attempt : ℕ)
  | clock (process : Pinned) (phase : Phase) (deadline : ℤ) (observedRunning : Bool)
  | done (result : TerminateResult)
deriving DecidableEq

variable (strerror : Int32 → String)

/-- A signal was delivered or not. -/
def signalOutcome {α : Type} : Except Int32 α → SignalOutcome×Int32
  | .ok _ => (.delivered,0)
  | .error errno => (if errno=esrch then .processGone else .failed,errno)

/-- What the call does with the outcome of a signal. -/
def afterSignal (process : Pinned) : Phase → SignalOutcome×Int32 → Pc
  | .graceful,(.processGone,_) => .done {outcome := .notFound}
  | .forced,(.processGone,_) => .done {outcome := .exited}
  | phase,(.failed,errno) => .done {failedSignal := phase.signal,error := strerror errno}
  | phase,(.delivered,_) => .beginWait process phase

/-- What the call does with the outcome of a wait. -/
def afterWait (process : Pinned) : Phase → ExitWait → Pc
  | _,.exited => .done {outcome := .exited}
  | .graceful,_ => .signal process .forced
  | .forced,.stillRunning => .done {outcome := .stillRunning}
  | .forced,.inconclusive => .done {outcome := .unconfirmed}

/-- How often an identity is probed. -/
def kIdentityProbeAttempts : ℕ := 3

/-- What one poll says about the process; an interrupted one is repeated. -/
def pollState (attempt : ℕ) : Poll → Option ProcessState
  | .events pollin => some (if pollin then .exited else .unknown)
  | .quiet => some .running
  | .failed errno =>
    if errno=eintr ∧ attempt+1<kIdentityProbeAttempts then none else some .unknown

/-- What the wait does with an observation. -/
def afterProbe (process : Pinned) (phase : Phase) (deadline : ℤ) (observedRunning : Bool) :
    ProcessState → Pc
  | .exited => afterWait process phase .exited
  | .running => .clock process phase deadline true
  | .unknown => .clock process phase deadline observedRunning

/-- One step of the call. -/
def next (call : Call) (answer : Answer) (table : Table) : Pc → Pc
  | .enter =>
    if call.pid≤0 ∨ call.startTime=0 then .done {outcome := .notFound} else .openPin
  | .openPin =>
    match openPidFd table call.pid answer with
    | .ok pinned => .identify {pidfd := some pinned}
    | .error errno => .identify {pidfd := none,pinErrno := errno}
  | .identify process =>
    if process.pinObservedNoSuchProcess ||
        !processIdentityMatches table call.pid call.startTime answer then
      .done {outcome := .notFound}
    else .signal process .graceful
  | .signal process phase =>
    match process.pidfd with
    | some pinned =>
      let sent := sendSignalViaPidFd table call.pid pinned answer
      if sent=.error eintr then .signal process phase
      else afterSignal strerror process phase (signalOutcome sent)
    | none =>
      if processIdentityMatches table call.pid call.startTime answer then .kill process phase
      else afterSignal strerror process phase (.processGone,0)
  | .kill process phase =>
    afterSignal strerror process phase (signalOutcome (sendSignalByPid table call.pid answer))
  | .beginWait process phase =>
    .probe process phase (answer.now+phase.timeout call) false 0
  | .probe process phase deadline observedRunning attempt =>
    match process.pidfd with
    | some pinned =>
      match pollState attempt (pollPidFd table call.pid pinned answer) with
      | some state => afterProbe process phase deadline observedRunning state
      | none => .probe process phase deadline observedRunning (attempt+1)
    | none =>
      afterProbe process phase deadline observedRunning
        (if processIdentityMatches table call.pid call.startTime answer then .running
          else .exited)
  | .clock process phase deadline observedRunning =>
    if deadline≤answer.now then
      afterWait process phase (if observedRunning then .stillRunning else .inconclusive)
    else .probe process phase deadline observedRunning 0
  | .done result => .done result

end Call

section Machine

/-- The processes of the system and the call. -/
structure State where
  /-- All processes. -/
  table : Table
  /-- Where the call stands. -/
  pc : Pc

/-- A step of the world or of the call. -/
inductive Label where
  | world (event : Event)
  | call (answer : Answer)

variable (strerror : Int32 → String) (call : Call)

/-- Processes come and go between any two steps of the call. -/
def machine (state : State) : Label → State
  | .world event => {state with table := state.table.apply event}
  | .call answer => {state with pc := next strerror call answer state.table state.pc}

/-- A delivered signal. -/
structure Sent where
  /-- Which signal. -/
  signal : Int32
  /-- Start time of the process it reached. -/
  target : UInt64
  /-- The recorded process held the number at the last identity check. -/
  ownedAtCheck : Bool
deriving DecidableEq

/-- What an observer notes. -/
structure History where
  /-- The call obtained a descriptor. -/
  pinned : Bool := false
  /-- The recorded process held the number at the last identity check. -/
  owned : Bool := false
  /-- All delivered signals. -/
  sent : List Sent := []
deriving DecidableEq

/-- A signal is noted when it is delivered. -/
def History.deliver (history : History) (phase : Phase) : Except Int32 UInt64 → History
  | .ok target =>
    {history with sent := history.sent++[⟨phase.signal,target,history.owned⟩]}
  | .error _ => history

/-- An identity check is noted with what was true at it. -/
def History.check (history : History) (table : Table) : History :=
  {history with owned := decide (table.Owns call.pid call.startTime)}

/-- What is noted of a step of the call. -/
def observeCall (history : History) (answer : Answer) (table : Table) : Pc → History
  | .openPin =>
    match openPidFd table call.pid answer with
    | .ok _ => {history with pinned := true}
    | .error _ => history
  | .identify process =>
    if process.pinObservedNoSuchProcess then history else history.check call table
  | .signal process phase =>
    match process.pidfd with
    | some pinned => history.deliver phase (sendSignalViaPidFd table call.pid pinned answer)
    | none => history.check call table
  | .kill _ phase => history.deliver phase (sendSignalByPid table call.pid answer)
  | .probe process _ _ _ _ =>
    if process.pidfd.isNone then history.check call table else history
  | _ => history

/-- The history of a run. -/
def observe (history : History) (state : State) : Label → History
  | .world _ => history
  | .call answer => observeCall call history answer state.table state.pc

/-- The call reads the process file system in this step. -/
def readsIdentity : Pc → Bool
  | .identify process => !process.pinObservedNoSuchProcess
  | .signal process _ => process.pidfd.isNone
  | .probe process _ _ _ _ => process.pidfd.isNone
  | _ => false

/-- No read fails while the recorded process runs. -/
def ReadsWhileRunning (state : State) : Label → Prop
  | .world _ => True
  | .call answer =>
    readsIdentity state.pc=true → answer.readFails=true →
      ¬state.table.Running call.pid call.startTime

end Machine

end Vinput.PinnedProcess
