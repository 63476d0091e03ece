import Vinput.AsyncThreads

/-!
# Overflow of the asynchronous session

A push that the bound refuses empties the queue and cancels the session. From
then on the backend receives at most the chunk that the worker already holds,
the worker ends after a bounded number of its steps, and `Finish` returns the
overflow or a later failure as an error.
-/

namespace Vinput.AsyncOverflow

open InterleavedRuns AsyncSession AsyncDelivery AsyncThreads

section Points

/-- The worker goes on to the next chunk. -/
def openAfter : After → Bool
  | .loop => true
  | _ => false

/-- Points at which neither a cancel nor a finish has been seen. -/
def isOpen : WorkerPoint → Bool
  | .wait => true
  | .push _ => true
  | .rejected _ => true
  | .fail _ _ => true
  | .poll after => openAfter after
  | .append _ after => openAfter after
  | .wake after => openAfter after
  | _ => false

/-- The backend has not been finished. -/
def UnfinishedAfter : After → Prop
  | .finished _ _ => False
  | _ => True

/-- Points that lead to a failure with a text. -/
def Failing : WorkerPoint → Prop
  | .finish => False
  | .poll after => UnfinishedAfter after
  | .append _ after => UnfinishedAfter after
  | .wake after => UnfinishedAfter after
  | .complete success error => success=false ∧ error≠""
  | _ => True

/-- Steps that are left when the events have been passed on. -/
def leftAfter : After → ℕ
  | .loop => 7
  | .failing => 7
  | .broke => 6
  | .finished _ _ => 1
  | .cancelled => 2

/-- Steps that are left to the end of a session that is cancelled. -/
def left : WorkerPoint → ℕ
  | .wait => 7
  | .push _ => 12
  | .poll after => leftAfter after+3
  | .rejected _ => 11
  | .fail _ _ => 10
  | .append _ after => leftAfter after+2
  | .wake after => leftAfter after+1
  | .finish => 5
  | .cancel => 6
  | .readError => 2
  | .complete _ _ => 1
  | .done => 0

/-- The chunk in the worker's hands. -/
def held : WorkerPoint → List (List Int16)
  | .push chunk => [chunk]
  | _ => []

/-- The chunk of a push. -/
def chunkOf : BackendCall → Option (List Int16)
  | .pushAudio pcm => some pcm
  | _ => none

/-- Chunks the backend has received. -/
def pushes (calls : List BackendCall) : List (List Int16) := calls.filterMap chunkOf

/-- Behind an event the worker holds nothing. -/
theorem held_point (after : After) : held after.point=[] := by
  cases after <;> rfl

/-- Behind an event no more is left to do than was counted. -/
theorem left_point (after : After) : left after.point ≤ leftAfter after := by
  cases after <;> simp [After.point,left,leftAfter]

/-- A worker in front of its finish can still fail. -/
theorem failing_of_isOpen {point : WorkerPoint} (h : isOpen point=true) : Failing point := by
  have hafter : ∀ after, openAfter after=true → UnfinishedAfter after := by
    intro after hopen
    cases after <;> simp_all [openAfter,UnfinishedAfter]
  cases point with
  | poll after => exact hafter after h
  | append events after => exact hafter after h
  | wake after => exact hafter after h
  | finish => cases h
  | complete success error => cases h
  | _ => trivial

theorem failing_point {after : After} (h : UnfinishedAfter after) : Failing after.point := by
  cases after with
  | finished ok error => cases h
  | _ => trivial

end Points

section Dropped

/-- What holds from the overflow on. -/
structure Dropped (shared : Shared) (point : WorkerPoint) : Prop where
  cancel : shared.cancelRequested=true
  finish : shared.finishRequested=false
  queue : shared.queue=[]
  error : shared.error≠""
  success : shared.success=false
  failing : Failing point

/-- The worker keeps what holds after an overflow. -/
theorem dropped_worker {shared : Shared} {point : WorkerPoint} (h : Dropped shared point)
    (oracle : Oracle) :
    Dropped (nextWorker oracle shared point).1 (nextWorker oracle shared point).2 := by
  cases point with
  | wait =>
    have hwait : waitLocked shared=(shared,.cancel) := by
      simp [waitLocked,h.cancel]
    simp only [nextWorker,hwait]
    exact ⟨h.cancel,h.finish,h.queue,h.error,h.success,trivial⟩
  | push chunk =>
    refine ⟨h.cancel,h.finish,h.queue,h.error,h.success,?_⟩
    simp only [nextWorker]
    split <;> trivial
  | poll after => exact ⟨h.cancel,h.finish,h.queue,h.error,h.success,h.failing⟩
  | rejected error => exact ⟨h.cancel,h.finish,h.queue,h.error,h.success,trivial⟩
  | fail error events =>
    refine ⟨rfl,h.finish,rfl,?_,h.success,trivial⟩
    simp only [nextWorker,failLocked]
    split
    · simp
    · assumption
  | append events after =>
    simp only [nextWorker]
    split
    · exact ⟨h.cancel,h.finish,h.queue,h.error,h.success,failing_point h.failing⟩
    · exact ⟨h.cancel,h.finish,h.queue,h.error,h.success,h.failing⟩
  | wake after =>
    have hpoint := failing_point h.failing
    simp only [nextWorker]
    split
    · exact ⟨h.cancel,h.finish,h.queue,h.error,h.success,hpoint⟩
    · exact ⟨h.cancel,h.finish,h.queue,h.error,h.success,hpoint⟩
  | finish => exact h.failing.elim
  | cancel => exact ⟨h.cancel,h.finish,h.queue,h.error,h.success,trivial⟩
  | readError => exact ⟨h.cancel,h.finish,h.queue,h.error,h.success,rfl,h.error⟩
  | complete success error =>
    exact ⟨h.cancel,h.finish,h.queue,h.failing.2,h.failing.1,trivial⟩
  | done => exact h

/-- An owner keeps what holds after an overflow. -/
theorem dropped_owner {shared : Shared} {point : WorkerPoint} (h : Dropped shared point)
    {pc : Pc} (howner : ofOwner pc=true) (oracle : Oracle) :
    Dropped (next oracle shared pc).1 point := by
  cases pc with
  | ready last =>
    simp only [next]
    cases oracle.call with
    | pushAudio pcm =>
      simp only [begin,pushAudioLocked,h.cancel,Bool.true_or,if_true]
      exact h
    | finish =>
      simp only [begin,finishLocked,h.cancel,Bool.not_true,Bool.and_false,Bool.false_eq_true,
        if_false]
      split <;> exact h
    | cancel =>
      simp only [begin,cancelBegins,h.cancel,Bool.or_true,if_true]
      exact h
    | destroy =>
      simp only [begin,cancelBegins,h.cancel,Bool.or_true,if_true]
      exact h
    | _ => exact ⟨h.cancel,h.finish,h.queue,h.error,h.success,h.failing⟩
  | finishing =>
    simp only [next]
    split <;> exact h
  | interrupting destroys => exact ⟨h.cancel,h.finish,h.queue,h.error,h.success,h.failing⟩
  | joining =>
    simp only [next]
    split <;> exact h
  | worker point => cases howner

end Dropped

section Settling

/-- The order of requests and result. -/
structure Ordered (shared : Shared) (point : WorkerPoint) : Prop where
  /-- A cancel or a finish has been seen. -/
  closed : isOpen point=false → shared.cancelRequested=true ∨ shared.finishRequested=true
  /-- The result comes with the end. -/
  complete : shared.complete=true ↔ point=.done
  success : shared.success=true → shared.complete=true

/-- What is known of the worker. -/
structure Settling (shared : Shared) (point : WorkerPoint) : Prop where
  ordered : Ordered shared point
  dropped : 0<shared.droppedChunks → Dropped shared point

/-- What `Finish` has returned. -/
def Returned (shared : Shared) (pc : Pc) : Prop :=
  ∀ ok error, pc=.ready (some (.finished ok error)) →
    shared.complete=true ∧ (0<shared.droppedChunks → ok=false ∧ error≠"")

/-- Behind an event the worker is not done. -/
theorem point_ne_done (after : After) : after.point≠.done := by
  intro h
  cases after <;> cases h

/-- A worker that is closed was closed before. -/
theorem closed_point {after : After} (h : isOpen after.point=false) : openAfter after=false := by
  cases after with
  | loop => cases h
  | _ => rfl

/-- The worker keeps the order. -/
theorem ordered_worker {shared : Shared} {point : WorkerPoint} (h : Ordered shared point)
    (oracle : Oracle) :
    Ordered (nextWorker oracle shared point).1 (nextWorker oracle shared point).2 := by
  have hopen : point≠.done → shared.complete=false := by
    intro hpoint
    exact Bool.eq_false_of_not_eq_true fun hcomplete => hpoint (h.complete.mp hcomplete)
  cases point with
  | wait =>
    have hincomplete := hopen (by simp)
    simp only [nextWorker,waitLocked]
    split
    · rename_i hcancel
      exact ⟨fun _ => .inl hcancel,by simp [hincomplete],h.success⟩
    · split
      · exact ⟨fun hclosed => absurd hclosed (by simp [isOpen]),by simp [hincomplete],h.success⟩
      · split
        · rename_i hfinish
          exact ⟨fun _ => .inr hfinish,by simp [hincomplete],h.success⟩
        · exact h
  | push chunk =>
    have hincomplete := hopen (by simp)
    simp only [nextWorker,calls]
    split
    · exact ⟨fun hclosed => absurd hclosed (by simp [isOpen,openAfter]),by simp [hincomplete],
        h.success⟩
    · exact ⟨fun hclosed => absurd hclosed (by simp [isOpen]),by simp [hincomplete],h.success⟩
  | poll after => exact ⟨h.closed,by simp [nextWorker,hopen],h.success⟩
  | rejected error => exact ⟨h.closed,by simp [nextWorker,hopen],h.success⟩
  | fail error events =>
    exact ⟨fun _ => .inl rfl,by simp [nextWorker,failLocked,cancelLocked,hopen],h.success⟩
  | append events after =>
    have hincomplete := hopen (by simp)
    simp only [nextWorker]
    split
    · exact ⟨fun hclosed => h.closed (closed_point hclosed),by simp [hincomplete,point_ne_done],
        h.success⟩
    · exact ⟨h.closed,by simp [hincomplete],h.success⟩
  | wake after =>
    have hincomplete := hopen (by simp)
    have hclosed : isOpen after.point=false →
        shared.cancelRequested=true ∨ shared.finishRequested=true :=
      fun hclosed => h.closed (closed_point hclosed)
    simp only [nextWorker]
    split <;> exact ⟨hclosed,by simp [hincomplete,point_ne_done],h.success⟩
  | finish => exact ⟨h.closed,by simp [nextWorker,calls,hopen],h.success⟩
  | cancel => exact ⟨h.closed,by simp [nextWorker,calls,hopen],h.success⟩
  | readError => exact ⟨h.closed,by simp [nextWorker,hopen],h.success⟩
  | complete success error => exact ⟨h.closed,by simp [nextWorker],fun _ => rfl⟩
  | done => exact h

/-- The worker drops nothing. -/
theorem droppedChunks_worker (oracle : Oracle) (shared : Shared) (point : WorkerPoint) :
    (nextWorker oracle shared point).1.droppedChunks=shared.droppedChunks := by
  cases point with
  | wait =>
    simp only [nextWorker,waitLocked]
    (repeat' split) <;> rfl
  | append events after =>
    simp only [nextWorker]
    split <;> rfl
  | wake after =>
    simp only [nextWorker]
    split <;> rfl
  | _ => rfl

/-- A result stays. -/
theorem complete_worker {shared : Shared} {point : WorkerPoint} (h : Ordered shared point)
    (oracle : Oracle) (hcomplete : shared.complete=true) :
    (nextWorker oracle shared point).1.complete=true := by
  rw [h.complete.mp hcomplete]
  exact hcomplete

/-- What a call of an owner does to the requests and the result. -/
structure Requests (before after : Shared) : Prop where
  cancel : before.cancelRequested=true → after.cancelRequested=true
  finish : before.finishRequested=true → after.finishRequested=true
  complete : after.complete=before.complete
  success : after.success=before.success
  /-- Nothing is dropped, or the session was open and the overflow has
  cancelled it. -/
  dropped : after.droppedChunks=before.droppedChunks ∨
    (before.cancelRequested=false ∧ before.finishRequested=false ∧ before.complete=false ∧
      after.cancelRequested=true ∧ after.finishRequested=false ∧ after.queue=[] ∧
      after.error=overflowText)

theorem requests_of_eq {before after : Shared}
    (hcancel : before.cancelRequested=true → after.cancelRequested=true)
    (hfinish : before.finishRequested=true → after.finishRequested=true)
    (hcomplete : after.complete=before.complete) (hsuccess : after.success=before.success)
    (hdropped : after.droppedChunks=before.droppedChunks) : Requests before after :=
  ⟨hcancel,hfinish,hcomplete,hsuccess,.inl hdropped⟩

/-- A push is refused, overflows or is queued. -/
theorem requests_push (pcm : List Int16) (shared : Shared) :
    Requests shared (pushAudioLocked pcm shared).1 := by
  simp only [pushAudioLocked]
  split
  · exact requests_of_eq id id rfl rfl rfl
  · rename_i hrecording
    simp only [Bool.or_eq_true,not_or,Bool.not_eq_true] at hrecording
    obtain ⟨⟨hcancel,hfinish⟩,hcomplete⟩ := hrecording
    split
    · exact ⟨fun _ => rfl,id,rfl,rfl,.inr ⟨hcancel,hfinish,hcomplete,rfl,hfinish,rfl,rfl⟩⟩
    · split <;> exact requests_of_eq id id rfl rfl rfl

theorem requests_cancel (destroys : Bool) (shared : Shared) :
    Requests shared (cancelBegins destroys shared).1 := by
  simp only [cancelBegins]
  split
  · exact requests_of_eq id id rfl rfl rfl
  · exact requests_of_eq (fun _ => rfl) id rfl rfl rfl

/-- Every step of an owner is such a call or a wait. -/
theorem requests_next {pc : Pc} (howner : ofOwner pc=true) (oracle : Oracle) (shared : Shared) :
    Requests shared (next oracle shared pc).1 := by
  cases pc with
  | ready last =>
    simp only [next]
    cases oracle.call with
    | pushAudio pcm => exact requests_push pcm shared
    | finish =>
      simp only [begin,finishLocked]
      split
      · exact requests_of_eq id (fun _ => rfl) rfl rfl rfl
      · split <;> exact requests_of_eq id id rfl rfl rfl
    | cancel => exact requests_cancel false shared
    | destroy => exact requests_cancel true shared
    | _ => exact requests_of_eq id id rfl rfl rfl
  | finishing =>
    simp only [next]
    split <;> exact requests_of_eq id id rfl rfl rfl
  | interrupting destroys => exact requests_of_eq id id rfl rfl rfl
  | joining =>
    simp only [next]
    split <;> exact requests_of_eq id id rfl rfl rfl
  | worker point => cases howner

/-- Requests keep the order of the worker. -/
theorem ordered_owner {before after : Shared} {point : WorkerPoint} (h : Ordered before point)
    (move : Requests before after) : Ordered after point := by
  refine ⟨?_,?_,?_⟩
  · intro hclosed
    rcases h.closed hclosed with hcancel | hfinish
    · exact .inl (move.cancel hcancel)
    · exact .inr (move.finish hfinish)
  · rw [move.complete]
    exact h.complete
  · rw [move.success,move.complete]
    exact h.success

/-- An overflow meets a session whose worker is before any end. -/
theorem settling_owner {shared : Shared} {point : WorkerPoint} (h : Settling shared point)
    {pc : Pc} (howner : ofOwner pc=true) (oracle : Oracle) :
    Settling (next oracle shared pc).1 point := by
  have move := requests_next howner oracle shared
  refine ⟨ordered_owner h.ordered move,?_⟩
  intro hsome
  rcases move.dropped with hsame |
    ⟨hcancel,hfinish,hcomplete,hcancelled,hunfinished,hqueue,herror⟩
  · rw [hsame] at hsome
    exact dropped_owner (h.dropped hsome) howner oracle
  · have hopen : isOpen point=true := by
      by_contra hclosed
      rcases h.ordered.closed (Bool.eq_false_of_not_eq_true hclosed) with hseen | hseen
      · rw [hcancel] at hseen
        cases hseen
      · rw [hfinish] at hseen
        cases hseen
    have hsuccess : (next oracle shared pc).1.success=false := by
      rw [move.success]
      refine Bool.eq_false_of_not_eq_true fun hyes => ?_
      rw [h.ordered.success hyes] at hcomplete
      cases hcomplete
    have htext : (next oracle shared pc).1.error≠"" := by
      rw [herror]
      decide
    exact ⟨hcancelled,hunfinished,hqueue,htext,hsuccess,failing_of_isOpen hopen⟩

/-- What has been returned stays true. -/
theorem returned_kept {before after : Shared} {pc : Pc} (h : Returned before pc)
    (hcomplete : before.complete=true → after.complete=true)
    (hdropped : 0<after.droppedChunks → before.complete=true → 0<before.droppedChunks) :
    Returned after pc := by
  intro ok error hpc
  obtain ⟨hdone,hfailed⟩ := h ok error hpc
  exact ⟨hcomplete hdone,fun hsome => hfailed (hdropped hsome hdone)⟩

/-- `Finish` returns the result of the worker. -/
theorem returned_next {shared : Shared} {point : WorkerPoint} (h : Settling shared point) {pc : Pc}
    (howner : ofOwner pc=true) (oracle : Oracle) :
    Returned (next oracle shared pc).1 (next oracle shared pc).2 := by
  have hresult : shared.complete=true → Returned shared (.ready (some (finishReply shared))) := by
    intro hcomplete ok error hreply
    simp only [finishReply,Pc.ready.injEq,Option.some.injEq,Reply.finished.injEq] at hreply
    obtain ⟨rfl,rfl⟩ := hreply
    exact ⟨hcomplete,fun hsome => ⟨(h.dropped hsome).success,(h.dropped hsome).error⟩⟩
  cases pc with
  | ready last =>
    simp only [next]
    cases oracle.call with
    | pushAudio pcm =>
      intro ok error hreply
      simp only [begin,pushAudioLocked] at hreply
      (repeat' split at hreply) <;> cases hreply
    | finish =>
      simp only [begin,finishLocked]
      split
      · intro ok error hreply
        cases hreply
      · split
        · rename_i hcomplete
          exact hresult hcomplete
        · intro ok error hreply
          cases hreply
    | cancel =>
      intro ok error hreply
      simp only [begin,cancelBegins,cancelEnds] at hreply
      (repeat' split at hreply) <;> cases hreply
    | destroy =>
      intro ok error hreply
      simp only [begin,cancelBegins,cancelEnds] at hreply
      (repeat' split at hreply) <;> cases hreply
    | _ =>
      intro ok error hreply
      cases hreply
  | finishing =>
    simp only [next]
    split
    · rename_i hcomplete
      exact hresult hcomplete
    · intro ok error hreply
      cases hreply
  | interrupting destroys =>
    intro ok error hreply
    cases destroys <;> cases hreply
  | joining =>
    intro ok error hreply
    simp only [next] at hreply
    split at hreply <;> cases hreply
  | worker point => cases howner

/-- No history is needed. -/
def noHistory (_ : Unit) (_ : Oracle) (_ : Shared) (_ : Pc) : Unit := ()

/-- Every step keeps the order of the session. -/
theorem keepsStaff_settling : KeepsStaff noHistory (fun shared _ point => Settling shared point)
    (fun shared _ pc => Returned shared pc) where
  worker := by
    intro oracle shared _ point h
    refine ⟨ordered_worker h.ordered oracle,?_⟩
    rw [droppedChunks_worker]
    exact fun hsome => dropped_worker (h.dropped hsome) oracle
  idle := by
    intro oracle shared _ point pc h _ hreturned
    refine returned_kept hreturned (complete_worker h.ordered oracle) ?_
    rw [droppedChunks_worker]
    exact fun hsome _ => hsome
  called := by
    intro oracle shared _ point pc h howner _
    exact settling_owner h howner oracle
  owner := by
    intro oracle shared _ point pc h howner _
    exact returned_next h howner oracle
  others := by
    intro oracle shared _ point pc other h howner _ _ hother
    have move := requests_next howner oracle shared
    refine returned_kept hother (fun hdone => move.complete.trans hdone) ?_
    intro hsome hdone
    rcases move.dropped with hsame | ⟨_,_,hopen,_⟩
    · rw [← hsame]
      exact hsome
    · rw [hdone] at hopen
      cases hopen

/-- The order of the session in every run. -/
theorem settling_of_run (maxQueuedSamples : ℕ) (schedule : List (ℕ×Oracle)) :
    Staffed (fun shared (_ : Unit) point => Settling shared point)
      (fun shared _ pc => Returned shared pc)
      (run machine (startup maxQueuedSamples) schedule,()) := by
  have hordered : Ordered {maxQueuedSamples := maxQueuedSamples} .wait :=
    ⟨fun hclosed => absurd hclosed (by simp [isOpen]),by simp,by simp⟩
  have hstart : Settling {maxQueuedSamples := maxQueuedSamples} .wait :=
    ⟨hordered,by simp⟩
  have hreturned : Returned {maxQueuedSamples := maxQueuedSamples} (.ready none) := by
    intro ok error hreply
    cases hreply
  have inv := keepsStaff_settling.run (startup_staffed () hstart hreturned) schedule
  rw [← run_observed_fst machine (noted noHistory) (startup maxQueuedSamples,()) schedule]
  exact inv

end Settling

section Afterwards

/-- The worker of a pool. -/
def workerOf (pool : System) : WorkerPoint :=
  match pool.pcs 0 with
  | .worker point => point
  | _ => .done

theorem workerOf_eq {pool : System} {point : WorkerPoint} (h : pool.pcs 0=.worker point) :
    workerOf pool=point := by
  simp only [workerOf,h]

/-- Chunks the backend has received and the one in the worker's hands. -/
def handed (pool : System) : List (List Int16) :=
  pushes pool.shared.calls++held (workerOf pool)

/-- Steps of the worker in a schedule. -/
def workerSteps (schedule : List (ℕ×Oracle)) : ℕ :=
  (schedule.filter fun label => decide (label.1=0)).length

/-- A call is counted when it pushes a chunk. -/
theorem pushes_calls (call : BackendCall) (shared : Shared) :
    pushes (calls call shared).calls=pushes shared.calls++(chunkOf call).toList := by
  simp only [pushes,calls,List.filterMap_append,List.filterMap_cons,List.filterMap_nil]
  cases chunkOf call <;> rfl

/-- The order of the session with an overflow behind it. -/
structure Overflowed (pool : System) : Prop where
  staffed : Staffed (fun shared (_ : Unit) point => Settling shared point)
    (fun shared _ pc => Returned shared pc) (pool,())
  some : 0<pool.shared.droppedChunks

/-- A step of the worker passes on what it holds and comes closer to the
end. -/
theorem handed_worker {shared : Shared} {point : WorkerPoint} (h : Dropped shared point)
    (oracle : Oracle) :
    pushes (nextWorker oracle shared point).1.calls++held (nextWorker oracle shared point).2=
      pushes shared.calls++held point ∧
    left (nextWorker oracle shared point).2 ≤ left point-1 := by
  cases point with
  | wait =>
    have hwait : waitLocked shared=(shared,.cancel) := by
      simp [waitLocked,h.cancel]
    simp [nextWorker,hwait,held,left]
  | push chunk =>
    cases hok : oracle.ok <;>
      simp [nextWorker,pushes_calls,chunkOf,held,left,leftAfter,hok]
  | poll after => simp [nextWorker,held,left]
  | rejected error => simp [nextWorker,held,left]
  | fail error events => simp [nextWorker,held,left,leftAfter,failLocked,cancelLocked]
  | append events after =>
    have hleft := left_point after
    simp only [nextWorker]
    split
    · have hhere : left (.append events after)=leftAfter after+2 := rfl
      rw [held_point,hhere]
      refine ⟨rfl,?_⟩
      dsimp only
      omega
    · simp [held,left]
  | wake after =>
    have hleft := left_point after
    simp only [nextWorker]
    rw [held_point]
    split
    · exact ⟨rfl,hleft⟩
    · exact ⟨rfl,hleft⟩
  | finish => exact h.failing.elim
  | cancel => simp [nextWorker,pushes_calls,chunkOf,held,left,leftAfter]
  | readError => simp [nextWorker,held,left]
  | complete success error => simp [nextWorker,held,left]
  | done => simp [nextWorker,left]

/-- An interrupt passes nothing on. -/
theorem pushes_received (calls : List BackendCall) : pushes (received calls)=pushes calls := by
  induction calls with
  | nil => rfl
  | cons call rest ih =>
    cases call <;> simpa [received,pushes,chunkOf,List.filterMap_cons] using ih

/-- A step of an owner passes nothing on. -/
theorem pushes_owner {pc : Pc} (howner : ofOwner pc=true) (oracle : Oracle) (shared : Shared) :
    pushes (next oracle shared pc).1.calls=pushes shared.calls := by
  have hreceived := (ownerMove_next howner oracle shared []).received
  rw [← pushes_received,hreceived,pushes_received]

/-- One step behind an overflow. -/
theorem overflowed_step {pool : System} (h : Overflowed pool) (label : ℕ×Oracle) :
    Overflowed (machine pool label) ∧ handed (machine pool label)=handed pool ∧
      left (workerOf (machine pool label)) ≤ left (workerOf pool)-workerSteps [label] := by
  obtain ⟨thread,oracle⟩ := label
  obtain ⟨point,hpoint,hsettling⟩ := h.staffed.worker
  have hpoint : pool.pcs 0=.worker point := hpoint
  have hdropped := hsettling.dropped h.some
  have hwhere := workerOf_eq hpoint
  have hstaffed := keepsStaff_settling.step (pool,()) (thread,oracle) h.staffed
  by_cases hthread : thread=0
  · subst hthread
    have hshared : (machine pool (0,oracle)).shared=(nextWorker oracle pool.shared point).1 := by
      rw [Pool.step_shared,hpoint]
      rfl
    have hself : (machine pool (0,oracle)).pcs 0=
        .worker (nextWorker oracle pool.shared point).2 := by
      rw [Pool.step_pcs_self,hpoint]
      rfl
    have hnext := workerOf_eq hself
    obtain ⟨hkept,hleft⟩ := handed_worker hdropped oracle
    have hsome : 0<(machine pool (0,oracle)).shared.droppedChunks := by
      rw [hshared,droppedChunks_worker]
      exact h.some
    refine ⟨⟨hstaffed,hsome⟩,?_,?_⟩
    · rw [handed,handed,hshared,hnext,hwhere]
      exact hkept
    · rw [hnext,hwhere]
      exact hleft
  · obtain ⟨howner,_⟩ := h.staffed.owners thread hthread
    have hzero : (machine pool (thread,oracle)).pcs 0=pool.pcs 0 :=
      Pool.step_pcs_of_ne (Ne.symm hthread)
    have hnext := workerOf_eq (hzero.trans hpoint)
    have hsome : 0<(machine pool (thread,oracle)).shared.droppedChunks := by
      rcases (requests_next howner oracle pool.shared).dropped with hsame | ⟨hopen,_⟩
      · exact hsame ▸ h.some
      · rw [hdropped.cancel] at hopen
        cases hopen
    have hpushes := pushes_owner howner oracle pool.shared
    refine ⟨⟨hstaffed,hsome⟩,?_,?_⟩
    · rw [handed,handed,hnext,hwhere,Pool.step_shared]
      exact congrArg (·++held point) hpushes
    · rw [hnext,hwhere]
      simp [workerSteps,hthread]

/-- What is left to do after a run behind an overflow. -/
theorem overflowed_run {pool : System} (h : Overflowed pool) (later : List (ℕ×Oracle)) :
    Overflowed (run machine pool later) ∧ handed (run machine pool later)=handed pool ∧
      left (workerOf (run machine pool later)) ≤ left (workerOf pool)-workerSteps later := by
  induction later generalizing pool with
  | nil => exact ⟨h,rfl,by simp [workerSteps]⟩
  | cons label rest ih =>
    obtain ⟨hnext,hhanded,hleft⟩ := overflowed_step h label
    obtain ⟨hlast,hsame,hrest⟩ := ih hnext
    have hsteps : workerSteps (label::rest)=workerSteps [label]+workerSteps rest := by
      simp only [workerSteps,← List.length_append,← List.filter_append,List.singleton_append]
    refine ⟨hlast,hsame.trans hhanded,?_⟩
    rw [run_cons,hsteps]
    omega

/-- The steps of a cancelled worker are bounded. -/
theorem left_bounded (point : WorkerPoint) : left point ≤ 12 := by
  have hafter : ∀ after, leftAfter after ≤ 7 := by
    intro after
    cases after <;> simp [leftAfter]
  cases point with
  | poll after => have := hafter after; simp only [left]; omega
  | append events after => have := hafter after; simp only [left]; omega
  | wake after => have := hafter after; simp only [left]; omega
  | _ => simp [left]

/-- With nothing left the worker is done. -/
theorem eq_done_of_left {point : WorkerPoint} (h : left point=0) : point=.done := by
  cases point with
  | done => rfl
  | _ => simp [left] at h

/-- A thread is in `Finish` or enters it. -/
def InFinish (pool : System) (thread : ℕ) (oracle : Oracle) : Prop :=
  pool.pcs thread=.finishing ∨ ∃ last, pool.pcs thread=.ready last ∧ oracle.call=.finish

/-- What an overflow leads to. -/
structure OverflowSettled (pool : System) : Prop where
  /-- Nothing is queued any more. -/
  queue : pool.shared.queue=[]
  /-- The backend receives at most the chunk in the worker's hands. -/
  undelivered : ∀ later, handed (run machine pool later)=handed pool
  /-- What `Finish` returns is a failure with a text. -/
  returned : ∀ thread ok error, pool.pcs thread=.ready (some (.finished ok error)) →
    ok=false ∧ error≠""
  /-- `Finish` returns once the worker has made twelve steps. -/
  ends : ∀ later thread oracle, 12 ≤ workerSteps later →
    InFinish (run machine pool later) thread oracle →
    ∃ error, error≠"" ∧ (machine (run machine pool later) (thread,oracle)).pcs thread=
      .ready (some (.finished false error))

/-- After an overflow every finish fails with a message. -/
theorem returned_of_overflowed {pool : System} (h : Overflowed pool) {thread : ℕ} {ok : Bool}
    {error : String} (hreply : pool.pcs thread=.ready (some (.finished ok error))) :
    ok=false ∧ error≠"" := by
  have hthread : thread≠0 := by
    rintro rfl
    obtain ⟨point,hpoint,_⟩ := h.staffed.worker
    rw [hreply] at hpoint
    cases hpoint
  exact ((h.staffed.owners thread hthread).2 ok error hreply).2 h.some

theorem overflowSettled_of_overflowed {pool : System} (h : Overflowed pool) :
    OverflowSettled pool where
  queue := by
    obtain ⟨point,_,hsettling⟩ := h.staffed.worker
    exact (hsettling.dropped h.some).queue
  undelivered := fun later => (overflowed_run h later).2.1
  returned := fun thread ok error hreply => returned_of_overflowed h hreply
  ends := by
    intro later thread oracle hsteps hfinish
    obtain ⟨hlast,_,hleft⟩ := overflowed_run h later
    have hbound := left_bounded (workerOf pool)
    obtain ⟨point,hpoint,hsettling⟩ := hlast.staffed.worker
    dsimp only at hpoint hsettling
    have hwhere := workerOf_eq hpoint
    have hdone : point=.done := eq_done_of_left (by rw [← hwhere]; omega)
    have hcomplete := hsettling.ordered.complete.mpr hdone
    have hdropped := hsettling.dropped hlast.some
    have hreply : finishReply (run machine pool later).shared=
        .finished false (run machine pool later).shared.error := by
      simp only [finishReply,hdropped.success]
    refine ⟨_,hdropped.error,?_⟩
    rw [Pool.step_pcs_self,← hreply]
    rcases hfinish with hwaiting | ⟨last,hready,hcall⟩
    · simp only [hwaiting,next,hcomplete,if_true]
    · simp only [hready,next,hcall,begin,finishLocked,hcomplete,Bool.not_true,Bool.false_and,
        Bool.false_eq_true,if_false,if_true]

/-- In every run the counter counts the queue and keeps its bound, and an
overflow fails the session. -/
theorem audio_queue_bounded (maxQueuedSamples : ℕ) (schedule : List (ℕ×Oracle)) :
    Counted (run machine (startup maxQueuedSamples) schedule).shared ∧
    (∀ chunk rest, (run machine (startup maxQueuedSamples) schedule).shared.queue=chunk::rest →
      chunk.length ≤ (run machine (startup maxQueuedSamples) schedule).shared.queuedSamples) ∧
    (0<(run machine (startup maxQueuedSamples) schedule).shared.droppedChunks →
      OverflowSettled (run machine (startup maxQueuedSamples) schedule)) := by
  have counted := queue_counted maxQueuedSamples schedule
  refine ⟨counted,?_,?_⟩
  · intro chunk rest hqueue
    rw [counted.counts,hqueue,List.flatten_cons,List.length_append]
    omega
  · intro hsome
    exact overflowSettled_of_overflowed ⟨settling_of_run maxQueuedSamples schedule,hsome⟩

end Afterwards

end Vinput.AsyncOverflow
