import Vinput.InterleavedRuns

/-!
# Ducking the output volume

While a recording runs the volume of the default sink is lowered. Callers
queue tasks under a lock and return; a worker takes them out one by one and
asks the sink outside the lock. Each region under the lock is one step, and
so is each call of the sink, whose outcome is an oracle. A wait may end
whenever its condition holds.
-/

namespace Vinput.OutputDucker

/-- Kind of a task. -/
inductive DuckerAction where
  | duck
  | restore
deriving DecidableEq

/-- A task for the worker. -/
structure DuckerTask (V : Type*) where
  action : DuckerAction := .duck
  scale : V
deriving DecidableEq

/-- Numbers of a volume. -/
structure Arithmetic (V : Type*) where
  zero : V
  one : V
  less : V → V → Bool
  times : V → V → V

/-- What the sink is asked, with its answer. -/
inductive SinkCall (V : Type*) where
  /-- `ProcessDuck` reads the volume. -/
  | read (volume : Option V)
  /-- `ProcessDuck` writes a volume. -/
  | lowered (target : V) (ok : Bool)
  /-- `ProcessRestore` writes a volume. -/
  | restored (volume : V) (ok : Bool)
deriving DecidableEq

/-- Members of the ducker, with what it did. -/
structure Shared (V : Type*) where
  queue : List (DuckerTask V) := []
  stop : Bool := false
  logicalDucked : Bool := false
  workerDucked : Bool := false
  savedVolume : V
  /-- Every task ever queued, oldest first. -/
  tasks : List (DuckerTask V) := []
  /-- The tasks whose processing has returned, oldest first. -/
  finished : List (DuckerTask V) := []
  /-- Calls of the sink, oldest first. -/
  calls : List (SinkCall V) := []

/-- Points of `WorkerLoop`. -/
inductive WorkerPoint (V : Type*) where
  /-- Before the wait for a task. -/
  | wait
  /-- A task was popped. -/
  | process (task : DuckerTask V)
  /-- Before the volume is read. -/
  | read (task : DuckerTask V)
  /-- Before the lower volume is written. -/
  | lower (task : DuckerTask V) (current : V)
  /-- Before the saved volume is written. -/
  | raise (task : DuckerTask V) (volume : V)
  /-- The task is processed, before the waiting callers are told. -/
  | notify
  /-- The thread has ended. -/
  | done
deriving DecidableEq

/-- Points of a caller. -/
inductive CallerPoint where
  /-- Outside any call. -/
  | ready
  /-- In `Flush`, with the number of tasks that had been queued before. -/
  | flushing (count : ℕ)
deriving DecidableEq

/-- Points of the thread that destroys the ducker. -/
inductive OwnerPoint (V : Type*) where
  /-- Before the destructor. -/
  | calls (point : CallerPoint)
  /-- Before the worker is joined. -/
  | join
  /-- The worker is joined. -/
  | joined
  /-- Before the saved volume is written. -/
  | raise (volume : V)
  /-- The destructor has run. -/
  | destroyed
deriving DecidableEq

/-- Calls of the ducker. -/
inductive Call (V : Type*) where
  | duck (scale : V)
  | restore
  | flush
  | isDucked
  | destroy
deriving DecidableEq

/-- What the environment decides in one step. -/
structure Oracle (V : Type*) where
  /-- Next call of a caller. -/
  call : Call V := .isDucked
  /-- Volume read from the sink. -/
  volume : Option V := none
  /-- A volume was written. -/
  ok : Bool := true

/-- A ducker, its worker and everybody who calls it. -/
structure System (V : Type*) where
  shared : Shared V
  worker : WorkerPoint V := .wait
  owner : OwnerPoint V := .calls .ready
  callers : ℕ → CallerPoint := fun _ => .ready

/-- Whose step it is. -/
inductive Label (V : Type*) where
  | worker (oracle : Oracle V)
  | owner (oracle : Oracle V)
  | caller (thread : ℕ) (oracle : Oracle V)

section Steps

variable {V : Type*} (arithmetic : Arithmetic V)

/-- A task is queued. -/
def push (task : DuckerTask V) (shared : Shared V) : Shared V :=
  {shared with queue := shared.queue++[task],tasks := shared.tasks++[task]}

/-- The region of `Duck` under the lock. -/
def duck (scale : V) (shared : Shared V) : Shared V :=
  if shared.logicalDucked then shared
  else push {action := .duck,scale := scale} {shared with logicalDucked := true}

/-- The region of `Restore` under the lock. -/
def restore (shared : Shared V) : Shared V :=
  if !shared.logicalDucked then shared
  else push {action := .restore,scale := arithmetic.one} {shared with logicalDucked := false}

/-- `std::clamp` with zero and one. -/
def clampScale (scale : V) : V :=
  if arithmetic.less scale arithmetic.zero then arithmetic.zero
  else if arithmetic.less arithmetic.one scale then arithmetic.one
  else scale

/-- The sink is asked. -/
def ask (call : SinkCall V) (shared : Shared V) : Shared V :=
  {shared with calls := shared.calls++[call]}

/-- The processing of a task returns. -/
def finish (task : DuckerTask V) (shared : Shared V) : Shared V :=
  {shared with finished := shared.finished++[task]}

/-- `ProcessRestore` up to its write. -/
def takeSaved (shared : Shared V) : Shared V :=
  {shared with workerDucked := false,savedVolume := arithmetic.zero}

/-- Start of `ProcessDuck` or `ProcessRestore`. -/
def processStep (task : DuckerTask V) (shared : Shared V) : Shared V×WorkerPoint V :=
  match task.action with
  | .duck => if shared.workerDucked then (finish task shared,.notify) else (shared,.read task)
  | .restore =>
    if !shared.workerDucked then (finish task shared,.notify)
    else (takeSaved arithmetic shared,.raise task shared.savedVolume)

/-- Steps of `WorkerLoop`. -/
def nextWorker (oracle : Oracle V) (shared : Shared V) : WorkerPoint V → Shared V×WorkerPoint V
  | .wait =>
    match shared.queue with
    | [] => (shared,if shared.stop then .done else .wait)
    | task::rest => ({shared with queue := rest},.process task)
  | .process task => processStep arithmetic task shared
  | .read task =>
    match oracle.volume with
    | none => (finish task (ask (.read none) shared),.notify)
    | some current => (ask (.read (some current)) shared,.lower task current)
  | .lower task current =>
    let target := arithmetic.times current (clampScale arithmetic task.scale)
    (finish task {ask (.lowered target oracle.ok) shared with
      savedVolume := current,workerDucked := true},.notify)
  | .raise task volume => (finish task (ask (.restored volume oracle.ok) shared),.notify)
  | .notify => (shared,.wait)
  | .done => (shared,.done)

/-- Steps of a caller. -/
def nextCaller (oracle : Oracle V) (shared : Shared V) : CallerPoint → Shared V×CallerPoint
  | .ready =>
    match oracle.call with
    | .duck scale => (duck scale shared,.ready)
    | .restore => (restore arithmetic shared,.ready)
    | .flush => (shared,.flushing shared.tasks.length)
    | _ => (shared,.ready)
  | .flushing count => (shared,if shared.queue.isEmpty then .ready else .flushing count)

/-- The thread that destroys the ducker begins to. -/
def destroys (oracle : Oracle V) : CallerPoint → Bool
  | .ready => match oracle.call with
    | .destroy => true
    | _ => false
  | .flushing _ => false

/-- Steps of the thread that destroys the ducker. -/
def nextOwner (oracle : Oracle V) (shared : Shared V) (worker : WorkerPoint V) :
    OwnerPoint V → Shared V×OwnerPoint V
  | .calls point =>
    if destroys oracle point then ({shared with stop := true},.join)
    else ((nextCaller arithmetic oracle shared point).1,
      .calls (nextCaller arithmetic oracle shared point).2)
  | .join => (shared,match worker with
    | .done => .joined
    | _ => .join)
  | .joined =>
    if shared.workerDucked then (takeSaved arithmetic shared,.raise shared.savedVolume)
    else (shared,.destroyed)
  | .raise volume => (ask (.restored volume oracle.ok) shared,.destroyed)
  | .destroyed => (shared,.destroyed)

/-- One step of one thread. -/
def step (system : System V) : Label V → System V
  | .worker oracle =>
    {system with
      shared := (nextWorker arithmetic oracle system.shared system.worker).1
      worker := (nextWorker arithmetic oracle system.shared system.worker).2}
  | .owner oracle =>
    {system with
      shared := (nextOwner arithmetic oracle system.shared system.worker system.owner).1
      owner := (nextOwner arithmetic oracle system.shared system.worker system.owner).2}
  | .caller thread oracle =>
    {system with
      shared := (nextCaller arithmetic oracle system.shared (system.callers thread)).1
      callers := Function.update system.callers thread
        (nextCaller arithmetic oracle system.shared (system.callers thread)).2}

/-- A new ducker. -/
def startup : System V := {shared := {savedVolume := arithmetic.zero}}

end Steps

end Vinput.OutputDucker
