import Vinput.AsyncOverflow

/-!
# Events of the asynchronous session

Events that the backend reports are in the worker's hands until they are
appended. Those that have been polled, those that are queued and those in the
worker's hands are all that the backend has reported, in order. A refused push
is published before the events that came with it can be polled.
-/

namespace Vinput.AsyncEvents

open InterleavedRuns AsyncSession AsyncDelivery AsyncThreads AsyncOverflow
open RuntimeController (RecognitionEvent)

section Histories

/-- What has been reported and polled so far. -/
structure History where
  /-- Everything the backend's `PollEvents` has returned. -/
  reported : List RecognitionEvent := []
  /-- Everything `PollEvents` has returned. -/
  polled : List RecognitionEvent := []
  /-- Number of events reported before the first refused push. -/
  refusedAt : Option ℕ := none

/-- What a step adds to the history. -/
def note (history : History) (oracle : Oracle) (shared : Shared) : Pc → History
  | .worker (.poll _) => {history with reported := history.reported++oracle.events}
  | .worker (.rejected _) => {history with reported := history.reported++oracle.events}
  | .worker (.push _) =>
    if oracle.ok then history
    else {history with refusedAt := history.refusedAt.or (some history.reported.length)}
  | .ready _ =>
    if oracle.call=.pollEvents then {history with polled := history.polled++shared.events}
    else history
  | _ => history

/-- Events in the worker's hands. -/
def inHand : WorkerPoint → List RecognitionEvent
  | .fail _ events => events
  | .append events _ => events
  | _ => []

/-- The worker is about to publish a refused push. -/
def isRefused : WorkerPoint → Bool
  | .rejected _ => true
  | .fail _ _ => true
  | _ => false

/-- Where the reported events are, and when a refused push is published. -/
structure Conserved (shared : Shared) (history : History) (point : WorkerPoint) : Prop where
  events : history.polled++shared.events++inHand point=history.reported
  refused : ∀ count, history.refusedAt=some count → shared.backendFailed=true ∨
    ((history.polled++shared.events).length ≤ count ∧ isRefused point=true)

/-- Behind an event the worker has nothing in hand. -/
theorem inHand_point (after : After) : inHand after.point=[] := by
  cases after <;> rfl

/-- Only the events and the failure count. -/
theorem conserved_of_eq {before after : Shared} {history : History} {point next : WorkerPoint}
    (h : Conserved before history point) (hevents : after.events=before.events)
    (hfailed : after.backendFailed=before.backendFailed) (hhand : inHand next=inHand point)
    (hrefused : isRefused point=true → isRefused next=true) : Conserved after history next := by
  refine ⟨?_,?_⟩
  · rw [hevents,hhand]
    exact h.events
  · intro count hcount
    rw [hevents,hfailed]
    rcases h.refused count hcount with hyes | ⟨hlength,hpoint⟩
    · exact .inl hyes
    · exact .inr ⟨hlength,hrefused hpoint⟩

/-- Events that the backend reports are taken into the hands. -/
theorem conserved_poll {shared : Shared} {history : History} {point next : WorkerPoint}
    {events : List RecognitionEvent} (h : Conserved shared history point)
    (hempty : inHand point=[]) (hhand : inHand next=events)
    (hrefused : isRefused point=true → isRefused next=true) :
    Conserved shared {history with reported := history.reported++events} next := by
  have hevents := h.events
  rw [hempty,List.append_nil] at hevents
  refine ⟨?_,?_⟩
  · rw [hhand,hevents]
  · intro count hcount
    rcases h.refused count hcount with hyes | ⟨hlength,hpoint⟩
    · exact .inl hyes
    · exact .inr ⟨hlength,hrefused hpoint⟩

/-- Every step of the worker keeps the events. -/
theorem conserved_worker {shared : Shared} {history : History} {point : WorkerPoint}
    (h : Conserved shared history point) (oracle : Oracle) :
    Conserved (nextWorker oracle shared point).1 (note history oracle shared (.worker point))
      (nextWorker oracle shared point).2 := by
  cases point with
  | wait =>
    simp only [nextWorker,waitLocked,note]
    (repeat' split) <;> exact conserved_of_eq h rfl rfl rfl (by simp [isRefused])
  | push chunk =>
    simp only [nextWorker,note]
    split
    · exact conserved_of_eq h rfl rfl rfl (by simp [isRefused])
    · have hevents := h.events
      simp only [inHand,List.append_nil] at hevents
      refine ⟨?_,?_⟩
      · simp only [inHand,List.append_nil]
        exact hevents
      · intro count hcount
        simp only [Option.or_eq_some_iff,Option.some.injEq] at hcount
        rcases hcount with hearlier | ⟨_,hnow⟩
        · rcases h.refused count hearlier with hyes | ⟨_,hpoint⟩
          · exact .inl hyes
          · cases hpoint
        · refine .inr ⟨?_,rfl⟩
          simp only [calls]
          rw [hevents,hnow]
  | poll after => exact conserved_poll h rfl rfl (by simp [isRefused])
  | rejected error => exact conserved_poll h rfl rfl fun _ => rfl
  | fail error events => exact ⟨h.events,fun _ _ => .inl rfl⟩
  | append events after =>
    simp only [nextWorker,note]
    split
    · rename_i hempty
      refine conserved_of_eq h rfl rfl ?_ (by simp [isRefused])
      rw [inHand_point,inHand,hempty]
    · have hevents := h.events
      simp only [inHand] at hevents
      refine ⟨?_,?_⟩
      · simp only [inHand,List.append_nil]
        rw [← List.append_assoc]
        exact hevents
      · intro count hcount
        rcases h.refused count hcount with hyes | ⟨_,hpoint⟩
        · exact .inl hyes
        · cases hpoint
  | wake after =>
    have hhand := inHand_point after
    simp only [nextWorker,note]
    split <;> exact conserved_of_eq h rfl rfl hhand (by simp [isRefused])
  | finish => exact conserved_of_eq h rfl rfl rfl (by simp [isRefused])
  | cancel => exact conserved_of_eq h rfl rfl rfl (by simp [isRefused])
  | readError => exact conserved_of_eq h rfl rfl rfl (by simp [isRefused])
  | complete success error => exact conserved_of_eq h rfl rfl rfl (by simp [isRefused])
  | done => exact h

/-- Every step of an owner keeps the events. -/
theorem conserved_owner {shared : Shared} {history : History} {point : WorkerPoint}
    (h : Conserved shared history point) {pc : Pc} (howner : ofOwner pc=true) (oracle : Oracle) :
    Conserved (next oracle shared pc).1 (note history oracle shared pc) point := by
  have hkeeps : ∀ after : Shared, after.events=shared.events →
      after.backendFailed=shared.backendFailed → Conserved after history point :=
    fun after hevents hfailed => conserved_of_eq h hevents hfailed rfl id
  cases pc with
  | ready last =>
    simp only [next,note]
    cases oracle.call with
    | pushAudio pcm =>
      simp only [begin,pushAudioLocked,reduceCtorEq,if_false]
      (repeat' split) <;> exact hkeeps _ rfl rfl
    | pollEvents =>
      simp only [begin,if_true]
      refine ⟨?_,?_⟩
      · rw [List.append_nil]
        exact h.events
      · intro count hcount
        rw [List.append_nil]
        exact h.refused count hcount
    | finish =>
      simp only [begin,finishLocked,reduceCtorEq,if_false]
      (repeat' split) <;> exact hkeeps _ rfl rfl
    | cancel =>
      simp only [begin,cancelBegins,reduceCtorEq,if_false]
      split <;> exact hkeeps _ rfl rfl
    | destroy =>
      simp only [begin,cancelBegins,reduceCtorEq,if_false]
      split <;> exact hkeeps _ rfl rfl
    | _ =>
      simp only [begin,reduceCtorEq,if_false]
      exact hkeeps _ rfl rfl
  | finishing =>
    simp only [next,note]
    split <;> exact h
  | interrupting destroys => exact hkeeps _ rfl rfl
  | joining =>
    simp only [next,note]
    split <;> exact h
  | worker point => cases howner

/-- Every step keeps the events. -/
theorem keepsStaff_conserved : KeepsStaff note Conserved (fun _ _ _ => True) where
  worker := fun oracle _ _ _ h => conserved_worker h oracle
  idle := fun _ _ _ _ _ _ _ _ => trivial
  called := fun oracle _ _ _ _ h howner _ => conserved_owner h howner oracle
  owner := fun _ _ _ _ _ _ _ _ => trivial
  others := fun _ _ _ _ _ _ _ _ _ _ _ => trivial

end Histories

section Delivery

/-- A published failure stays. -/
theorem backendFailed_next {shared : Shared} (h : shared.backendFailed=true) (oracle : Oracle)
    (pc : Pc) : (next oracle shared pc).1.backendFailed=true := by
  cases pc with
  | ready last =>
    simp only [next]
    cases oracle.call with
    | pushAudio pcm =>
      simp only [begin,pushAudioLocked]
      (repeat' split) <;> exact h
    | finish =>
      simp only [begin,finishLocked]
      (repeat' split) <;> exact h
    | cancel =>
      simp only [begin,cancelBegins]
      split <;> exact h
    | destroy =>
      simp only [begin,cancelBegins]
      split <;> exact h
    | _ => exact h
  | finishing =>
    simp only [next]
    split <;> exact h
  | interrupting destroys => exact h
  | joining =>
    simp only [next]
    split <;> exact h
  | worker point =>
    cases point with
    | wait =>
      simp only [next,nextWorker,waitLocked]
      (repeat' split) <;> exact h
    | fail error events => rfl
    | append events after =>
      simp only [next,nextWorker]
      split <;> exact h
    | wake after =>
      simp only [next,nextWorker]
      split <;> exact h
    | _ => exact h

theorem backendFailed_run {pool : System} (h : pool.shared.backendFailed=true)
    (later : List (ℕ×Oracle)) : (run machine pool later).shared.backendFailed=true := by
  have hstep : ∀ (pool : System) (label : ℕ×Oracle), pool.shared.backendFailed=true →
      (machine pool label).shared.backendFailed=true :=
    fun pool label hfailed => backendFailed_next hfailed label.2 (pool.pcs label.1)
  exact run_invariant hstep later h

/-- Events are delivered once and in order, and a refused push is seen before
the events that came with it. -/
structure EventsDelivered (pair : System×History) : Prop where
  /-- What is polled, queued and in the worker's hands has been reported. -/
  conserved : pair.2.polled++pair.1.shared.events++inHand (workerOf pair.1)=pair.2.reported
  /-- Once an event from a refused push on has been polled, `FailureError`
  returns an error. -/
  visible : ∀ count, pair.2.refusedAt=some count → count<pair.2.polled.length →
    ∀ later thread last oracle, (run machine pair.1 later).pcs thread=.ready last →
      oracle.call=.failureError →
      ∃ error, (machine (run machine pair.1 later) (thread,oracle)).pcs thread=
        .ready (some (.failure (some error)))

/-- In every interleaving the events are delivered. -/
theorem events_delivered (maxQueuedSamples : ℕ) (schedule : List (ℕ×Oracle)) :
    EventsDelivered (run (observed machine (noted note)) (startup maxQueuedSamples,{})
      schedule) := by
  have hstart : Conserved {maxQueuedSamples := maxQueuedSamples} {} .wait :=
    ⟨rfl,by simp⟩
  have inv := keepsStaff_conserved.run (startup_staffed {} hstart trivial) schedule
  generalize run (observed machine (noted note)) (startup maxQueuedSamples,{}) schedule=pair at inv ⊢
  obtain ⟨point,hpoint,hconserved⟩ := inv.worker
  refine ⟨?_,?_⟩
  · rw [workerOf_eq hpoint]
    exact hconserved.events
  · intro count hcount hpolled later thread last oracle hready hcall
    have hfailed : pair.1.shared.backendFailed=true := by
      rcases hconserved.refused count hcount with hyes | ⟨hlength,_⟩
      · exact hyes
      · rw [List.length_append] at hlength
        omega
    have hlater := backendFailed_run hfailed later
    refine ⟨(run machine pair.1 later).shared.error,?_⟩
    rw [Pool.step_pcs_self,hready]
    simp only [next,hcall,begin,hlater,if_true]

/-- One chunk is passed on and the backend reports a text. -/
def reportsText : List (ℕ×Oracle) :=
  [does 1 (.pushAudio [1]),(0,{}),(0,{}),(0,{events := [⟨.partialText,"hello",""⟩]})]

/-- Between the backend's report and its append an event is in neither. -/
theorem event_in_hand :
    (run (observed machine (noted note)) (startup 4,{}) reportsText).2.polled++
      (run (observed machine (noted note)) (startup 4,{}) reportsText).1.shared.events≠
    (run (observed machine (noted note)) (startup 4,{}) reportsText).2.reported := by
  decide +kernel

end Delivery

end Vinput.AsyncEvents
