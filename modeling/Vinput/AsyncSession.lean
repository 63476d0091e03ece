import Mathlib.Algebra.Group.Nat.Defs
import Vinput.InterleavedRuns
import Vinput.RuntimeController

/-!
# The asynchronous recognition session

A wrapper that takes audio from the capture side into a bounded queue and
calls the wrapped backend session on one worker thread. Every region of the
mutex and every call of the backend is one step. What the backend answers
is an oracle of each step, so every backend call may fail. The counter of
the queue stays within its bound.
-/

namespace Vinput.AsyncSession

open InterleavedRuns
open RuntimeController (RecognitionEvent)

/-- Largest value of a size. -/
def maxSize : ℕ := 2^64-1

/-- Calls of the wrapped backend session that change it. -/
inductive BackendCall where
  | pushAudio (pcm : List Int16)
  | finish
  | cancel
  | interrupt
deriving DecidableEq

/-- Memory shared by the owners and the worker. -/
structure Shared where
  /-- Bound of the queue in samples. -/
  maxQueuedSamples : ℕ
  /-- Accepted chunks, oldest first. -/
  queue : List (List Int16) := []
  /-- Events to be polled. -/
  events : List RecognitionEvent := []
  /-- Samples in the queue. -/
  queuedSamples : ℕ := 0
  /-- Chunks refused by the bound. -/
  droppedChunks : ℕ := 0
  /-- Samples refused by the bound. -/
  droppedSamples : ℕ := 0
  /-- An owner has asked to finish. -/
  finishRequested : Bool := false
  /-- The session is to be cancelled. -/
  cancelRequested : Bool := false
  /-- The worker has reached its result. -/
  complete : Bool := false
  /-- The result of the worker. -/
  success : Bool := false
  /-- The backend has refused a push. -/
  backendFailed : Bool := false
  /-- Text of the failure. -/
  error : String := ""
  /-- A wake callback is installed. -/
  wakeCallback : Bool := false
  /-- Calls of the wake callback. -/
  wakes : ℕ := 0
  /-- Calls of the backend, oldest first. -/
  calls : List BackendCall := []
deriving DecidableEq

/-- Calls of the owners. -/
inductive Call where
  | pushAudio (pcm : List Int16)
  | finish
  | cancel
  | interrupt
  | pollEvents
  | setWakeCallback (installed : Bool)
  | failureError
  | droppedChunks
  | droppedSamples
  | destroy
deriving DecidableEq

/-- What a call returns. -/
inductive Reply where
  | pushed (ok : Bool) (error : String)
  | finished (ok : Bool) (error : String)
  | events (events : List RecognitionEvent)
  | failure (error : Option String)
  | size (count : ℕ)
  | nothing
deriving DecidableEq

/-- What the environment decides in one step. -/
structure Oracle where
  /-- Next call of an owner. -/
  call : Call := .pollEvents
  /-- The backend call succeeds. -/
  ok : Bool := true
  /-- Error text of the backend call. -/
  error : String := ""
  /-- Events the backend reports. -/
  events : List RecognitionEvent := []

/-- Where the worker goes on after it has passed on events. -/
inductive After where
  /-- To the next chunk. -/
  | loop
  /-- To the second wake of a failure. -/
  | failing
  /-- Out of the loop. -/
  | broke
  /-- To the result of the finished backend. -/
  | finished (ok : Bool) (error : String)
  /-- To the result of the cancelled backend. -/
  | cancelled
deriving DecidableEq

/-- Points of `Run` and of the functions it calls. -/
inductive WorkerPoint where
  /-- Before the region that waits for work. -/
  | wait
  /-- Before a chunk is pushed to the backend. -/
  | push (chunk : List Int16)
  /-- Before the events of the backend are polled. -/
  | poll (after : After)
  /-- The backend refused a chunk, before its events are polled. -/
  | rejected (error : String)
  /-- Before the region that publishes the failure. -/
  | fail (error : String) (events : List RecognitionEvent)
  /-- Before the region of `AppendEvents`. -/
  | append (events : List RecognitionEvent) (after : After)
  /-- Before `InvokeWakeCallback`. -/
  | wake (after : After)
  /-- Before the backend is finished. -/
  | finish
  /-- Before the backend is cancelled. -/
  | cancel
  /-- Before the error text is read. -/
  | readError
  /-- Before the region of `Complete`. -/
  | complete (success : Bool) (error : String)
  /-- The thread has ended. -/
  | done
deriving DecidableEq

/-- Program counter of one thread. -/
inductive Pc where
  /-- An owner outside any call, with the reply of the last one. -/
  | ready (last : Option Reply)
  /-- Inside `Finish`, waiting for the result. -/
  | finishing
  /-- Before the backend is interrupted; the destructor joins afterwards. -/
  | interrupting (destroys : Bool)
  /-- Waiting for the worker to end. -/
  | joining
  | worker (point : WorkerPoint)
deriving DecidableEq

/-- The point after the events. -/
def After.point : After → WorkerPoint
  | .loop => .wait
  | .failing => .wake .broke
  | .broke => .cancel
  | .finished ok error => .complete ok error
  | .cancelled => .readError

/-- A call of the backend. -/
def calls (call : BackendCall) (shared : Shared) : Shared :=
  {shared with calls := shared.calls++[call]}

/-- Text of a push after the recording. -/
def notRecordingText : String := "Streaming session is no longer recording."

/-- Text of a push that the bound refuses. -/
def overflowText : String :=
  "Streaming recognition queue overflowed; audio chunk was dropped."

/-- The bound leaves no room for the samples. -/
def overflows (pcm : List Int16) (shared : Shared) : Bool :=
  pcm≠[] && (decide (shared.maxQueuedSamples ≤ shared.queuedSamples) ||
    decide (shared.maxQueuedSamples-shared.queuedSamples<pcm.length))

/-- Everything queued is dropped and the worker is to cancel. -/
def cancelLocked (shared : Shared) : Shared :=
  {shared with cancelRequested := true,queue := [],queuedSamples := 0}

/-- The region of `PushAudio`. -/
def pushAudioLocked (pcm : List Int16) (shared : Shared) : Shared×Reply :=
  if shared.cancelRequested || shared.finishRequested || shared.complete then
    (shared,.pushed false (if shared.error="" then notRecordingText else shared.error))
  else if overflows pcm shared then
    ({cancelLocked shared with
      droppedChunks := if shared.droppedChunks < maxSize then shared.droppedChunks+1
        else shared.droppedChunks
      droppedSamples := if maxSize-shared.droppedSamples<pcm.length then maxSize
        else shared.droppedSamples+pcm.length
      error := overflowText},.pushed false overflowText)
  else if pcm=[] then (shared,.pushed true "")
  else
    ({shared with
      queue := shared.queue++[pcm]
      queuedSamples := shared.queuedSamples+pcm.length},.pushed true "")

/-- The result of the worker as `Finish` returns it. -/
def finishReply (shared : Shared) : Reply := .finished shared.success shared.error

/-- The region with which `Finish` begins. -/
def finishLocked (shared : Shared) : Shared×Pc :=
  if !shared.complete && !shared.cancelRequested then
    ({shared with finishRequested := true},.finishing)
  else if shared.complete then (shared,.ready (some (finishReply shared)))
  else (shared,.finishing)

/-- The end of a cancel: the destructor goes on to join the worker. -/
def cancelEnds (destroys : Bool) : Pc := if destroys then .joining else .ready (some .nothing)

/-- The region of `Cancel`; nothing happens to a session that is complete
or cancelled. -/
def cancelBegins (destroys : Bool) (shared : Shared) : Shared×Pc :=
  if shared.complete || shared.cancelRequested then (shared,cancelEnds destroys)
  else (cancelLocked shared,.interrupting destroys)

/-- An owner outside any call begins one. -/
def begin (shared : Shared) : Call → Shared×Pc
  | .pushAudio pcm =>
    ((pushAudioLocked pcm shared).1,.ready (some (pushAudioLocked pcm shared).2))
  | .finish => finishLocked shared
  | .cancel => cancelBegins false shared
  | .interrupt => (shared,.interrupting false)
  | .pollEvents => ({shared with events := []},.ready (some (.events shared.events)))
  | .setWakeCallback installed =>
    ({shared with wakeCallback := installed},.ready (some .nothing))
  | .failureError =>
    (shared,.ready (some (.failure (if shared.backendFailed then some shared.error else none))))
  | .droppedChunks => (shared,.ready (some (.size shared.droppedChunks)))
  | .droppedSamples => (shared,.ready (some (.size shared.droppedSamples)))
  | .destroy => cancelBegins true shared

/-- The region in which the worker waits for work. -/
def waitLocked (shared : Shared) : Shared×WorkerPoint :=
  if shared.cancelRequested then (shared,.cancel)
  else
    match shared.queue with
    | chunk::rest =>
      ({shared with queue := rest,queuedSamples := shared.queuedSamples-chunk.length},.push chunk)
    | [] => if shared.finishRequested then (shared,.finish) else (shared,.wait)

/-- The region that publishes a refused push. -/
def failLocked (error : String) (shared : Shared) : Shared :=
  {cancelLocked shared with
    error := if error="" then "Streaming backend rejected audio." else error
    backendFailed := true}

/-- Steps of `Run`. -/
def nextWorker (oracle : Oracle) (shared : Shared) : WorkerPoint → Shared×WorkerPoint
  | .wait => waitLocked shared
  | .push chunk =>
    (calls (.pushAudio chunk) shared,if oracle.ok then .poll .loop else .rejected oracle.error)
  | .poll after => (shared,.append oracle.events after)
  | .rejected error => (shared,.fail error oracle.events)
  | .fail error events => (failLocked error shared,.append events .failing)
  | .append events after =>
    if events=[] then (shared,after.point)
    else ({shared with events := shared.events++events},.wake after)
  | .wake after =>
    (if shared.wakeCallback then {shared with wakes := shared.wakes+1} else shared,after.point)
  | .finish => (calls .finish shared,.poll (.finished oracle.ok oracle.error))
  | .cancel => (calls .cancel shared,.poll .cancelled)
  | .readError => (shared,.complete false shared.error)
  | .complete success error =>
    ({shared with complete := true,success := success,error := error},.done)
  | .done => (shared,.done)

/-- One step of one thread. -/
def next (oracle : Oracle) (shared : Shared) : Pc → Shared×Pc
  | .ready _ => begin shared oracle.call
  | .finishing =>
    if shared.complete then (shared,.ready (some (finishReply shared))) else (shared,.finishing)
  | .interrupting destroys => (calls .interrupt shared,cancelEnds destroys)
  | .joining => if shared.complete then (shared,.ready (some .nothing)) else (shared,.joining)
  | .worker point => ((nextWorker oracle shared point).1,.worker (nextWorker oracle shared point).2)

/-- All threads of the session over one memory. -/
abbrev System := Pool Shared Pc

/-- One step of the whole session. -/
abbrev machine : System → ℕ×Oracle → System := Pool.step next

/-- The session after its worker has been started: thread zero is the
worker, every other thread is an owner. -/
def startup (maxQueuedSamples : ℕ) : System :=
  ⟨{maxQueuedSamples := maxQueuedSamples},
    fun thread => if thread=0 then .worker .wait else .ready none⟩

/-- A thread takes its next steps with a backend that answers every call. -/
def goesOn (thread steps : ℕ) : List (ℕ×Oracle) := List.replicate steps (thread,{})

/-- A thread makes a call. -/
def does (thread : ℕ) (call : Call) : ℕ×Oracle := (thread,{call := call})

section Queue

/-- The counter counts the queue and keeps to its bound, so it never wraps. -/
structure Counted (shared : Shared) : Prop where
  /-- The counter is the number of queued samples. -/
  counts : shared.queuedSamples=shared.queue.flatten.length
  /-- The bound is kept. -/
  bounded : shared.queuedSamples ≤ shared.maxQueuedSamples

/-- After a cancel the counts are right. -/
theorem counted_cancel (shared : Shared) : Counted (cancelLocked shared) :=
  ⟨rfl,Nat.zero_le _⟩

theorem counted_push {shared : Shared} (h : Counted shared) (pcm : List Int16) :
    Counted (pushAudioLocked pcm shared).1 := by
  unfold pushAudioLocked
  split
  · exact h
  · split
    · exact ⟨rfl,Nat.zero_le _⟩
    · rename_i hfits
      split
      · exact h
      · rename_i hsome
        have hroom : shared.queuedSamples+pcm.length ≤ shared.maxQueuedSamples := by
          simp only [overflows,Bool.and_eq_true,Bool.or_eq_true,decide_eq_true_eq,not_and,not_or]
            at hfits
          have hbound := hfits hsome
          omega
        refine ⟨?_,hroom⟩
        dsimp only
        rw [List.flatten_append,List.length_append,h.counts,List.flatten_cons,List.flatten_nil,
          List.append_nil]

theorem counted_wait {shared : Shared} (h : Counted shared) : Counted (waitLocked shared).1 := by
  unfold waitLocked
  split
  · exact h
  · split
    · rename_i chunk rest hqueue
      have hcounts := h.counts
      have hbounded := h.bounded
      rw [hqueue,List.flatten_cons,List.length_append] at hcounts
      refine ⟨?_,?_⟩
      · dsimp only
        omega
      · dsimp only
        omega
    · split <;> exact h

/-- Every step keeps the count. -/
theorem counted_next {shared : Shared} (h : Counted shared) (oracle : Oracle) (pc : Pc) :
    Counted (next oracle shared pc).1 := by
  cases pc with
  | ready last =>
    dsimp only [next]
    cases oracle.call with
    | pushAudio pcm => exact counted_push h pcm
    | finish =>
      dsimp only [begin,finishLocked]
      (repeat' split) <;> exact ⟨h.counts,h.bounded⟩
    | cancel =>
      dsimp only [begin,cancelBegins]
      split
      · exact h
      · exact counted_cancel shared
    | destroy =>
      dsimp only [begin,cancelBegins]
      split
      · exact h
      · exact counted_cancel shared
    | _ => exact ⟨h.counts,h.bounded⟩
  | finishing =>
    dsimp only [next]
    split <;> exact h
  | interrupting destroys => exact ⟨h.counts,h.bounded⟩
  | joining =>
    dsimp only [next]
    split <;> exact h
  | worker point =>
    cases point with
    | wait => exact counted_wait h
    | fail error events => exact ⟨rfl,Nat.zero_le _⟩
    | append events after =>
      dsimp only [next,nextWorker]
      split
      · exact h
      · exact ⟨h.counts,h.bounded⟩
    | wake after =>
      dsimp only [next,nextWorker]
      split
      · exact ⟨h.counts,h.bounded⟩
      · exact h
    | _ => exact ⟨h.counts,h.bounded⟩

/-- In every run the queue counter counts the queue and keeps its bound. -/
theorem queue_counted (maxQueuedSamples : ℕ) (schedule : List (ℕ×Oracle)) :
    Counted (run machine (startup maxQueuedSamples) schedule).shared := by
  have hpool : ∀ (pool : System) (label : ℕ×Oracle), Counted pool.shared →
      Counted (machine pool label).shared :=
    fun pool label h => counted_next h label.2 (pool.pcs label.1)
  exact run_invariant hpool schedule ⟨rfl,Nat.zero_le _⟩

end Queue

end Vinput.AsyncSession
