import Mathlib.Data.List.AList
import Mathlib.Data.Finset.Basic
import Vinput.InterleavedRuns

/-!
# The managers of clients and adapters

Two managers start, query and stop child processes by an id. Each keeps its
sessions in a map behind a mutex and writes the pid of a running child to a
file. Every region of the mutex, every access to a pid file and every step
of a child process is one step. Children are numbered as they are started;
a number stands for a pid together with its start time. The manager of the
clients also reserves an id while a start is in flight.
-/

namespace Vinput.TrackedProcesses

open InterleavedRuns

section Memory

/-- What differs between the managers. -/
structure Manager where
  /-- What its errors call a process. -/
  noun : String
  /-- Ids are checked to be plain file names. -/
  checksId : Bool
  /-- A start reserves its id. -/
  reserves : Bool
  /-- A query removes the file of an exited child inside its region. -/
  removesLocked : Bool

/-- The manager of triggers and receivers. -/
def clientManager : Manager := ⟨"client",true,true,false⟩

/-- The manager of the language model adapters. -/
def adapterManager : Manager := ⟨"adapter",false,false,true⟩

/-- The process a pid file names: a child, or one that an earlier daemon left
behind. -/
inductive PidRecord where
  | child (number : ℕ)
  | other
deriving DecidableEq

/-- Memory shared by all threads, the files and the processes. -/
structure Shared where
  /-- Ids with a start in flight. -/
  pending : Finset String := ∅
  /-- Tracked sessions, each with its child. -/
  sessions : AList (fun _ : String => ℕ) := ∅
  /-- Pid files. -/
  pidFiles : String → Option PidRecord := fun _ => none
  /-- Children started so far. -/
  spawned : ℕ := 0
  /-- The id each child was started for. -/
  owner : ℕ → String := fun _ => ""
  /-- Children that have exited. -/
  exited : ℕ → Bool := fun _ => false
  /-- Lines offered to the children. -/
  offered : List (ℕ×String) := []

/-- Write or remove a pid file. -/
def setPidFile (id : String) (record : Option PidRecord) (shared : Shared) : Shared :=
  {shared with pidFiles := Function.update shared.pidFiles id record}

/-- A session ends with its child: destroying a session kills the child. -/
def destroy (child : ℕ) (shared : Shared) : Shared :=
  {shared with exited := Function.update shared.exited child true}

/-- Take a session out of the map. -/
def untrack (id : String) (shared : Shared) : Shared :=
  {shared with sessions := shared.sessions.erase id}

end Memory

section Calls

/-- What the configuration says about an id. -/
inductive Configured where
  | missing
  | noCommand
  | command
deriving DecidableEq

/-- Outcome of spawning. -/
inductive SpawnOutcome where
  | started
  | failed (error : String)
  /-- An exception leaves the call. -/
  | thrown
deriving DecidableEq

/-- Outcome of `TerminateGracefully`. -/
inductive TerminateOutcome where
  | exited
  | notFound
  | stillRunning
  | unconfirmed
  /-- The signal could not be sent, by force or not. -/
  | failed (forced : Bool) (error : String)
deriving DecidableEq

/-- Calls that arrive, and what happens to the children. -/
inductive Call where
  | start (id : String)
  | stop (id : String)
  | getPid (id : String)
  | broadcast (line : String)
  | shutdown
  /-- A child exits by itself. -/
  | childExits (child : ℕ)

/-- What the environment decides in one step. -/
structure Oracle where
  /-- Next call of a thread outside any call. -/
  call : Call := .shutdown
  /-- What the configuration says. -/
  configured : Configured := .command
  /-- Outcome of spawning. -/
  spawn : SpawnOutcome := .started
  /-- Exit code of a child that exits at once. -/
  exitCode : ℤ := 0
  /-- Why the pid file cannot be written. -/
  writeError : Option String := none
  /-- A process left behind by an earlier daemon runs. -/
  otherRuns : Bool := false
  /-- Outcome of terminating a recorded process. -/
  terminate : TerminateOutcome := .exited

/-- How a call ends. -/
inductive Result where
  | ok
  | error (text : String)
  | pid (record : Option PidRecord)
  | thrown
deriving DecidableEq

/-- Who asks for a pid. -/
inductive Asker where
  | caller
  | start
deriving DecidableEq

/-- Points of `GetPid`. -/
inductive QueryPoint where
  /-- Before its region. -/
  | enter
  /-- The session has exited, before its file is removed. -/
  | remove
  /-- Before the file is read. -/
  | read
  /-- Before the recorded process is looked at. -/
  | identify (record : Option PidRecord)
deriving DecidableEq

/-- Points of `Start` after the running check. -/
inductive StartPoint where
  /-- Before the region that reserves the id. -/
  | reserve
  /-- Before the child is spawned. -/
  | spawn
  /-- Before the child has been watched for a moment. -/
  | probe (child : ℕ)
  /-- Before the pid file is written. -/
  | write (child : ℕ)
  /-- The file was not written, before the session is destroyed. -/
  | unwritten (child : ℕ) (error : String)
  /-- Before the region that tracks the session. -/
  | insert (child : ℕ)
  /-- Before the reservation is released. -/
  | release (result : Result)
deriving DecidableEq

/-- Points of `Stop`. -/
inductive StopPoint where
  /-- Before its region. -/
  | enter
  /-- Before the file of the stopped child is removed. -/
  | remove (child : ℕ)
  /-- Before the session is destroyed. -/
  | destroy (child : ℕ)
  /-- Nothing tracked, before the file is read. -/
  | read
  /-- Before the recorded process is terminated. -/
  | terminate (record : Option PidRecord)
  /-- Terminated, before the file is removed. -/
  | removeRecord (result : Result)
deriving DecidableEq

/-- Points of `Shutdown`. -/
inductive ShutdownPoint where
  /-- Before its region. -/
  | enter
  /-- Before the next file is removed. -/
  | remove (rest all : List (String×ℕ))
  /-- Before the sessions are destroyed. -/
  | destroy (all : List (String×ℕ))
deriving DecidableEq

/-- Program counter of one thread. -/
inductive Pc where
  /-- Outside any call, with the result of the last one. -/
  | ready (last : Option Result)
  | query (asker : Asker) (id : String) (point : QueryPoint)
  | start (id : String) (point : StartPoint)
  | stop (id : String) (point : StopPoint)
  /-- Before the region of `Broadcast`. -/
  | broadcast (line : String)
  | shutdown (point : ShutdownPoint)
deriving DecidableEq

/-- A call returns. -/
def returns (result : Result) : Pc := .ready (some result)

/-- An id that is no plain file name has no pid file. -/
def pidPathEmpty (id : String) : Bool := id="" || '/'∈id.toList

variable (manager : Manager)

/-- What a start refuses before it looks at anything running. -/
def refusal (configured : Configured) (id : String) : Option String :=
  match configured with
  | .missing => some (manager.noun++" not found")
  | configured =>
    if manager.checksId && pidPathEmpty id then
      some (manager.noun++" id must not contain path separators")
    else
      match configured with
      | .noCommand => some (manager.noun++" command is not configured")
      | _ => none

/-- Text of a start that finds its process running. -/
def alreadyRunning : Result := .error (manager.noun++" is already running")

/-- A start ends, after it has given its reservation back. -/
def leaveStart (id : String) (result : Result) : Pc :=
  if manager.reserves then .start id (.release result) else returns result

/-- Where a query goes on with its answer. -/
def answer (id : String) (found : Option PidRecord) : Asker → Pc
  | .caller => returns (.pid found)
  | .start =>
    if found.isSome then returns (alreadyRunning manager)
    else if manager.reserves then .start id .reserve
    else .start id .spawn

/-- A recorded process is still the one that was recorded. -/
def processIdentityMatches (oracle : Oracle) (shared : Shared) : Option PidRecord → Bool
  | none => false
  | some (.child child) => !shared.exited child
  | some .other => oracle.otherRuns

/-- Steps of `GetPid`. -/
def nextQuery (oracle : Oracle) (shared : Shared) (asker : Asker) (id : String) :
    QueryPoint → Shared×Pc
  | .enter =>
    match shared.sessions.lookup id with
    | some child =>
      if shared.exited child then
        if manager.removesLocked then
          (untrack id (setPidFile id none shared),answer manager id none asker)
        else (untrack id shared,.query asker id .remove)
      else (shared,answer manager id (some (.child child)) asker)
    | none => (shared,.query asker id .read)
  | .remove => (setPidFile id none shared,answer manager id none asker)
  | .read => (shared,.query asker id (.identify (shared.pidFiles id)))
  | .identify record =>
    (shared,answer manager id
      (if processIdentityMatches oracle shared record then record else none) asker)

/-- The region that tracks a session. A session it replaces is destroyed. -/
def trackLocked (id : String) (child : ℕ) (shared : Shared) : Shared :=
  let kept := match shared.sessions.lookup id with
    | some old => destroy old shared
    | none => shared
  {kept with
    sessions := kept.sessions.insert id child
    pending := kept.pending.erase id}

/-- Steps of `Start` after the running check. -/
def nextStart (oracle : Oracle) (shared : Shared) (id : String) : StartPoint → Shared×Pc
  | .reserve =>
    if (shared.sessions.lookup id).isSome || decide (id∈shared.pending) then
      (shared,returns (alreadyRunning manager))
    else ({shared with pending := insert id shared.pending},.start id .spawn)
  | .spawn =>
    match oracle.spawn with
    | .started =>
      ({shared with
        spawned := shared.spawned+1
        owner := Function.update shared.owner shared.spawned id},
        .start id (.probe shared.spawned))
    | .failed error =>
      (shared,leaveStart manager id
        (.error (if error="" then "failed to start "++manager.noun else error)))
    | .thrown => (shared,leaveStart manager id .thrown)
  | .probe child =>
    if shared.exited child then
      (shared,leaveStart manager id
        (.error (manager.noun++" exited immediately (code "++toString oracle.exitCode++")")))
    else (shared,.start id (.write child))
  | .write child =>
    match oracle.writeError with
    | some error => (shared,.start id (.unwritten child error))
    | none => (setPidFile id (some (.child child)) shared,.start id (.insert child))
  | .unwritten child error => (destroy child shared,leaveStart manager id (.error error))
  | .insert child => (trackLocked id child shared,returns .ok)
  | .release result => ({shared with pending := shared.pending.erase id},returns result)

/-- What terminating a recorded process comes to. A child that is not there
any more cannot be signalled. -/
def terminateGracefully (oracle : Oracle) (shared : Shared) :
    Option PidRecord → Shared×TerminateOutcome
  | none => (shared,.notFound)
  | some (.child child) =>
    if shared.exited child then (shared,.notFound)
    else
      match oracle.terminate with
      | .exited => (destroy child shared,.exited)
      | .notFound => (destroy child shared,.notFound)
      | outcome => (shared,outcome)
  | some .other => (shared,oracle.terminate)

/-- How a stop of a recorded process ends. -/
def stopOutcome (id : String) : TerminateOutcome → Pc
  | .exited => .stop id (.removeRecord .ok)
  | .notFound => .stop id (.removeRecord (.error (manager.noun++" is not running: "++id)))
  | .stillRunning => returns (.error (manager.noun++" did not exit after SIGKILL: "++id))
  | .unconfirmed =>
    returns (.error ("could not confirm that "++manager.noun++" stopped: "++id))
  | .failed forced error =>
    returns (.error ((if forced then "failed to force-kill " else "failed to signal ")++
      manager.noun++" "++id++": "++error))

/-- Steps of `Stop`. -/
def nextStop (oracle : Oracle) (shared : Shared) (id : String) : StopPoint → Shared×Pc
  | .enter =>
    match shared.sessions.lookup id with
    | some child => (untrack id shared,.stop id (.remove child))
    | none => (shared,.stop id .read)
  | .remove child => (setPidFile id none shared,.stop id (.destroy child))
  | .destroy child => (destroy child shared,returns .ok)
  | .read => (shared,.stop id (.terminate (shared.pidFiles id)))
  | .terminate record =>
    let outcome := terminateGracefully oracle shared record
    (outcome.1,stopOutcome manager id outcome.2)
  | .removeRecord result => (setPidFile id none shared,returns result)

/-- Steps of `Shutdown`. -/
def nextShutdown (shared : Shared) : ShutdownPoint → Shared×Pc
  | .enter =>
    let all := shared.sessions.entries.map fun entry => (entry.1,entry.2)
    ({shared with sessions := ∅},.shutdown (.remove all all))
  | .remove [] all => (shared,.shutdown (.destroy all))
  | .remove (entry::rest) all => (setPidFile entry.1 none shared,.shutdown (.remove rest all))
  | .destroy all => (all.foldl (fun shared entry => destroy entry.2 shared) shared,.ready none)

/-- A thread outside any call begins one. -/
def begin (oracle : Oracle) (shared : Shared) : Call → Shared×Pc
  | .start id =>
    match refusal manager oracle.configured id with
    | some error => (shared,returns (.error error))
    | none => (shared,.query .start id .enter)
  | .stop id => (shared,.stop id .enter)
  | .getPid id => (shared,.query .caller id .enter)
  | .broadcast line => (shared,.broadcast line)
  | .shutdown => (shared,.shutdown .enter)
  | .childExits child => (if child<shared.spawned then destroy child shared else shared,.ready none)

/-- One step of one thread. -/
def next (oracle : Oracle) (shared : Shared) : Pc → Shared×Pc
  | .ready _ => begin manager oracle shared oracle.call
  | .query asker id point => nextQuery manager oracle shared asker id point
  | .start id point => nextStart manager oracle shared id point
  | .stop id point => nextStop manager oracle shared id point
  | .broadcast line =>
    ({shared with offered := shared.offered++
      shared.sessions.entries.map fun entry => (entry.2,line++"\n")},.ready none)
  | .shutdown point => nextShutdown shared point

/-- All threads of a manager over one memory. -/
abbrev System := Pool Shared Pc

/-- One step of the whole manager. -/
abbrev machine : System → ℕ×Oracle → System := Pool.step (next manager)

/-- A daemon that has just come up, with the pid files it finds. -/
def startup (files : String → Option PidRecord) : System :=
  ⟨{pidFiles := files},fun _ => .ready none⟩

/-- A call arrives at a thread. -/
def arrives (thread : ℕ) (call : Call) : ℕ×Oracle := (thread,{call := call})

/-- A thread takes its next steps with nothing unusual in the environment. -/
def goesOn (thread steps : ℕ) : List (ℕ×Oracle) := List.replicate steps (thread,{})

end Calls

section Steps

variable {manager : Manager} {oracle : Oracle} {shared : Shared} {pc : Pc} {id other : String}
  {child : ℕ}

/-- Destroying sessions changes nothing but their children. -/
theorem destroyAll_frame (all : List (String×ℕ)) (shared : Shared) :
    ∃ exited, all.foldl (fun shared entry => destroy entry.2 shared) shared=
      {shared with exited := exited} := by
  induction all generalizing shared with
  | nil => exact ⟨shared.exited,rfl⟩
  | cons entry rest ih =>
    obtain ⟨exited,hexited⟩ := ih (destroy entry.2 shared)
    exact ⟨exited,hexited⟩

/-- A termination changes what has exited only. -/
theorem terminateGracefully_frame (oracle : Oracle) (shared : Shared) (record : Option PidRecord) :
    ∃ exited, (terminateGracefully oracle shared record).1={shared with exited := exited} := by
  unfold terminateGracefully
  (repeat' split) <;> exact ⟨_,rfl⟩

/-- Tracking a child changes its entry, and what it replaces has exited. -/
theorem trackLocked_frame (id : String) (child : ℕ) (shared : Shared) :
    ∃ exited, trackLocked id child shared=
      {shared with
        sessions := shared.sessions.insert id child
        pending := shared.pending.erase id
        exited := exited} := by
  unfold trackLocked
  dsimp only
  split <;> exact ⟨_,rfl⟩

/-- What is found after untracking was there before. -/
theorem lookup_untrack (h : (untrack id shared).sessions.lookup other=some child) :
    shared.sessions.lookup other=some child := by
  by_cases hother : other=id
  · subst hother
    rw [show (untrack other shared).sessions=shared.sessions.erase other from rfl,
      AList.lookup_erase] at h
    cases h
  · rw [show (untrack id shared).sessions=shared.sessions.erase id from rfl,
      AList.lookup_erase_ne hother] at h
    exact h

/-- A session is tracked because it was, or because a start has just put it
there. -/
theorem tracked_next (h : (next manager oracle shared pc).1.sessions.lookup id=some child) :
    shared.sessions.lookup id=some child ∨ pc=.start id (.insert child) := by
  cases pc with
  | ready last =>
    left
    dsimp only [next] at h
    cases hcall : oracle.call <;> rw [hcall] at h <;> dsimp only [begin] at h <;>
      (repeat' split at h) <;> exact h
  | query asker other point =>
    left
    cases point with
    | enter =>
      dsimp only [next,nextQuery] at h
      (repeat' split at h) <;> first | exact h | exact lookup_untrack h
    | _ => exact h
  | start other point =>
    cases point with
    | insert inserted =>
      dsimp only [next,nextStart] at h
      obtain ⟨exited,hframe⟩ := trackLocked_frame other inserted shared
      rw [hframe] at h
      dsimp only at h
      by_cases hid : id=other
      · subst hid
        rw [AList.lookup_insert] at h
        obtain rfl := Option.some.inj h
        exact .inr rfl
      · rw [AList.lookup_insert_ne hid] at h
        exact .inl h
    | _ =>
      left
      dsimp only [next,nextStart] at h
      (repeat' split at h) <;> exact h
  | stop other point =>
    left
    cases point with
    | enter =>
      dsimp only [next,nextStop] at h
      split at h
      · exact lookup_untrack h
      · exact h
    | terminate record =>
      dsimp only [next,nextStop] at h
      obtain ⟨exited,hframe⟩ := terminateGracefully_frame oracle shared record
      rw [hframe] at h
      exact h
    | _ => exact h
  | broadcast line => exact .inl h
  | shutdown point =>
    left
    cases point with
    | enter => cases h
    | remove rest all => cases rest <;> exact h
    | destroy all =>
      dsimp only [next,nextShutdown] at h
      obtain ⟨exited,hframe⟩ := destroyAll_frame all shared
      rw [hframe] at h
      exact h

/-- The id whose pid file a step removes. -/
def removes (manager : Manager) (shared : Shared) : Pc → Option String
  | .query _ id .enter =>
    match shared.sessions.lookup id with
    | some child => if shared.exited child && manager.removesLocked then some id else none
    | none => none
  | .query _ id .remove => some id
  | .stop id (.remove _) => some id
  | .stop id (.removeRecord _) => some id
  | .shutdown (.remove (entry::_) _) => some entry.1
  | _ => none

theorem setPidFile_cases (other : String) (record : Option PidRecord) (shared : Shared)
    (id : String) : (setPidFile other record shared).pidFiles id=shared.pidFiles id ∨ other=id := by
  by_cases hid : id=other
  · exact .inr hid.symm
  · exact .inl (Function.update_of_ne hid _ _)

/-- A pid file changes because it is removed or because a start writes it. -/
theorem file_next (manager : Manager) (oracle : Oracle) (shared : Shared) (pc : Pc) (id : String) :
    (next manager oracle shared pc).1.pidFiles id=shared.pidFiles id ∨
      removes manager shared pc=some id ∨ ∃ child, pc=.start id (.write child) := by
  have hremoved : ∀ other, (setPidFile other none shared).pidFiles id=shared.pidFiles id ∨
      some other=some id := fun other =>
    (setPidFile_cases other none shared id).imp_right (congrArg some)
  cases pc with
  | ready last =>
    left
    dsimp only [next]
    cases oracle.call <;> dsimp only [begin] <;> (repeat' split) <;> rfl
  | query asker other point =>
    cases point with
    | enter =>
      dsimp only [next,nextQuery,removes]
      cases shared.sessions.lookup other with
      | none => exact .inl rfl
      | some child =>
        dsimp only
        split
        · rename_i hexited
          split
          · rename_i hlocked
            rw [hexited,hlocked]
            exact (hremoved other).imp_right .inl
          · exact .inl rfl
        · exact .inl rfl
    | remove => exact (hremoved other).imp_right .inl
    | _ => exact .inl rfl
  | start other point =>
    cases point with
    | write child =>
      by_cases hid : other=id
      · subst hid
        exact .inr (.inr ⟨child,rfl⟩)
      · left
        dsimp only [next,nextStart]
        split
        · rfl
        · exact (setPidFile_cases other _ shared id).resolve_right hid
    | insert child =>
      obtain ⟨exited,hframe⟩ := trackLocked_frame other child shared
      left
      dsimp only [next,nextStart]
      rw [hframe]
    | unwritten child error => exact .inl rfl
    | release result => exact .inl rfl
    | _ =>
      left
      dsimp only [next,nextStart]
      (repeat' split) <;> rfl
  | stop other point =>
    cases point with
    | enter =>
      left
      dsimp only [next,nextStop]
      split <;> rfl
    | remove child => exact (hremoved other).imp_right .inl
    | removeRecord result => exact (hremoved other).imp_right .inl
    | terminate record =>
      obtain ⟨exited,hframe⟩ := terminateGracefully_frame oracle shared record
      left
      show (terminateGracefully oracle shared record).1.pidFiles id=_
      rw [hframe]
    | _ => exact .inl rfl
  | broadcast line => exact .inl rfl
  | shutdown point =>
    cases point with
    | enter => exact .inl rfl
    | remove rest all =>
      cases rest with
      | nil => exact .inl rfl
      | cons entry rest => exact (hremoved entry.1).imp_right .inl
    | destroy all =>
      obtain ⟨exited,hframe⟩ := destroyAll_frame all shared
      left
      dsimp only [next,nextShutdown]
      rw [hframe]

/-- A child that is destroyed has exited. -/
theorem destroy_self (child : ℕ) (shared : Shared) : (destroy child shared).exited child=true :=
  Function.update_self _ _ _

/-- A child that has exited stays so. -/
theorem exited_destroy {other : ℕ} (h : shared.exited child=true) :
    (destroy other shared).exited child=true := by
  by_cases hchild : child=other
  · rw [hchild]
    exact Function.update_self other true shared.exited
  · exact (Function.update_of_ne hchild true shared.exited).trans h

/-- A child that has exited stays so. -/
theorem exited_destroyAll (all : List (String×ℕ)) (h : shared.exited child=true) :
    (all.foldl (fun shared entry => destroy entry.2 shared) shared).exited child=true := by
  induction all generalizing shared with
  | nil => exact h
  | cons entry rest ih => exact ih (exited_destroy h)

theorem exited_next (manager : Manager) (oracle : Oracle) (pc : Pc)
    (h : shared.exited child=true) : (next manager oracle shared pc).1.exited child=true := by
  cases pc with
  | ready last =>
    dsimp only [next]
    cases oracle.call <;> dsimp only [begin] <;> (repeat' split) <;>
      first | exact h | exact exited_destroy h
  | query asker other point =>
    cases point <;> dsimp only [next,nextQuery] <;> (repeat' split) <;> exact h
  | start other point =>
    cases point with
    | insert inserted =>
      dsimp only [next,nextStart,trackLocked]
      split
      · exact exited_destroy h
      · exact h
    | unwritten unwritten error => exact exited_destroy h
    | _ =>
      dsimp only [next,nextStart]
      (repeat' split) <;> exact h
  | stop other point =>
    cases point with
    | enter =>
      dsimp only [next,nextStop]
      split <;> exact h
    | destroy stopped => exact exited_destroy h
    | terminate record =>
      dsimp only [next,nextStop,terminateGracefully]
      (repeat' split) <;> first | exact h | exact exited_destroy h
    | _ => exact h
  | broadcast line => exact h
  | shutdown point =>
    cases point with
    | enter => exact h
    | remove rest all => cases rest <;> exact h
    | destroy all => exact exited_destroyAll all h

/-- A query does not end at the region that tracks. -/
theorem answer_ne_insert (manager : Manager) (id : String) (found : Option PidRecord)
    (asker : Asker) {other : String} {child : ℕ} :
    answer manager id found asker≠.start other (.insert child) := by
  cases asker with
  | caller => exact fun h => by cases h
  | start =>
    unfold answer
    (repeat' split) <;> exact fun h => by cases h

/-- Leaving a start inserts no child. -/
theorem leaveStart_ne_insert (manager : Manager) (id : String) (result : Result)
    {other : String} {child : ℕ} :
    leaveStart manager id result≠.start other (.insert child) := by
  unfold leaveStart
  split <;> exact fun h => by cases h

/-- A start is about to track its session because it has just written the
pid file. -/
theorem insert_next (h : (next manager oracle shared pc).2=.start id (.insert child)) :
    pc=.start id (.write child) ∧
      (next manager oracle shared pc).1.pidFiles id=some (.child child) := by
  cases pc with
  | ready last =>
    dsimp only [next] at h
    cases hcall : oracle.call <;> rw [hcall] at h <;> dsimp only [begin] at h <;>
      (repeat' split at h) <;> cases h
  | query asker other point =>
    cases point <;> dsimp only [next,nextQuery] at h <;> (repeat' split at h) <;>
      first | cases h | exact absurd h (answer_ne_insert _ _ _ _)
  | start other point =>
    cases point with
    | write written =>
      dsimp only [next,nextStart] at h ⊢
      cases hwrite : oracle.writeError with
      | some error =>
        rw [hwrite] at h
        cases h
      | none =>
        rw [hwrite] at h
        cases h
        exact ⟨rfl,Function.update_self _ _ _⟩
    | insert inserted => cases h
    | release result => cases h
    | unwritten unwritten error => exact absurd h (leaveStart_ne_insert _ _ _)
    | _ =>
      dsimp only [next,nextStart] at h
      (repeat' split at h) <;> first | cases h | exact absurd h (leaveStart_ne_insert _ _ _)
  | stop other point =>
    cases point with
    | terminate record =>
      dsimp only [next,nextStop] at h
      cases houtcome : (terminateGracefully oracle shared record).2 <;> rw [houtcome] at h <;>
        cases h
    | enter =>
      dsimp only [next,nextStop] at h
      split at h <;> cases h
    | _ => cases h
  | broadcast line => cases h
  | shutdown point =>
    cases point with
    | remove rest all => cases rest <;> cases h
    | _ => cases h

end Steps

section Files

/-- A running child of the id is tracked or about to be. -/
def Due (pool : System) (id : String) (child : ℕ) : Prop :=
  pool.shared.exited child=false ∧
    (pool.shared.sessions.lookup id=some child ∨ ∃ t, pool.pcs t=.start id (.insert child))

/-- The pid file of an id names the running child that is tracked or about to
be. -/
def FileInv (pool : System) : Prop :=
  ∀ id child, Due pool id child → pool.shared.pidFiles id=some (.child child)

/-- No pid file is removed that names a running child. -/
def keepsFile (manager : Manager) (pool : System) (label : ℕ×Oracle) : Prop :=
  ∀ id, removes manager pool.shared (pool.pcs label.1)=some id → ∀ child, ¬Due pool id child

/-- A file that is written belongs to nobody else. -/
def WritesAlone (pool : System) (thread : ℕ) : Prop :=
  ∀ id child, pool.pcs thread=.start id (.write child) →
    pool.shared.sessions.lookup id=none ∧
      ∀ t, t≠thread → ∀ other, pool.pcs t≠.start id (.insert other)

variable {manager : Manager} {pool : System} {thread : ℕ} {oracle : Oracle}

/-- A running child is due because it was, or because its file has just been
written. -/
theorem due_next {id : String} {child : ℕ}
    (h : Due (machine manager pool (thread,oracle)) id child) :
    Due pool id child ∨ (machine manager pool (thread,oracle)).shared.pidFiles id=
      some (.child child) := by
  obtain ⟨hrunning,hplace⟩ := h
  have hbefore : pool.shared.exited child=false := by
    refine Bool.eq_false_of_not_eq_true fun hexited => ?_
    have hafter := exited_next manager oracle (pool.pcs thread) hexited
    cases hafter.symm.trans hrunning
  rcases hplace with htracked | ⟨t,ht⟩
  · rcases tracked_next htracked with hearlier | hinsert
    · exact .inl ⟨hbefore,.inl hearlier⟩
    · exact .inl ⟨hbefore,.inr ⟨thread,hinsert⟩⟩
  · by_cases hself : t=thread
    · subst hself
      rw [Pool.step_pcs_self] at ht
      exact .inr (insert_next ht).2
    · rw [Pool.step_pcs_of_ne hself] at ht
      exact .inl ⟨hbefore,.inr ⟨t,ht⟩⟩

/-- A guarded step keeps the invariant of the pid files. -/
theorem file_step (inv : FileInv pool) (alone : WritesAlone pool thread)
    (guarded : keepsFile manager pool (thread,oracle)) :
    FileInv (machine manager pool (thread,oracle)) := by
  intro id child hdue
  rcases due_next hdue with hbefore | hwritten
  · rcases file_next manager oracle pool.shared (pool.pcs thread) id with
      hsame | hremoved | ⟨other,hwrite⟩
    · exact hsame.trans (inv id child hbefore)
    · exact absurd hbefore (guarded id hremoved child)
    · obtain ⟨hnone,hinserting⟩ := alone id other hwrite
      rcases hbefore.2 with htracked | ⟨t,ht⟩
      · cases hnone.symm.trans htracked
      · by_cases hself : t=thread
        · subst hself
          cases hwrite.symm.trans ht
        · exact absurd ht (hinserting t hself child)
  · exact hwritten

theorem startup_file (files : String → Option PidRecord) : FileInv (startup files) := by
  rintro id child ⟨_,hplace | ⟨t,ht⟩⟩
  · cases hplace
  · cases ht

/-- A call on the id is in progress. -/
def concerns (id : String) : Pc → Bool
  | .query _ other _ => decide (other=id)
  | .start other _ => decide (other=id)
  | .stop other _ => decide (other=id)
  | .shutdown _ => true
  | _ => false

end Files

end Vinput.TrackedProcesses
