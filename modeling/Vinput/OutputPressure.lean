import Mathlib.Tactic.Ring
import Vinput.ProcessHandover

/-!
# The counter of queued output

The pump counts the bytes of an event behind its place in the queue, and the
owner discounts them behind the pop, modulo the number of values of a size.
Where the pump reads the counter it has counted all it has queued, so it
reads how far it is ahead of the owner.
-/

namespace Vinput.OutputPressure

open InterleavedRuns ProcessSession ProcessEvents ProcessHandover

/-- Bytes of a list of events. -/
def totalSize (events : List ChildEvent) : ℕ := (events.map ChildEvent.size).sum

/-- Bytes of a queued event that are not counted yet. -/
def uncounted : PumpPoint → ℕ
  | .count size _ => size
  | _ => 0

/-- What is left of the budget of a read. -/
def leftOver : Return → ℕ
  | .reading _ _ count => readBudgetBytes-count
  | .killing => 0
  | .finishing => 0

/-- Bytes the pump may queue before it reads the counter again. -/
def slack (shared : Shared) : PumpPoint → ℕ
  | .read _ channel count => if hasSink shared channel then 0 else readBudgetBytes-count
  | .queue event back => event.size+leftOver back
  | .count _ back => leftOver back
  | .signal back => leftOver back
  | _ => 0

theorem totalSize_append (first second : List ChildEvent) :
    totalSize (first++second)=totalSize first+totalSize second := by
  unfold totalSize
  rw [List.map_append,List.sum_append]

theorem totalSize_singleton (event : ChildEvent) : totalSize [event]=event.size :=
  List.sum_singleton

/-- Where the counter stands. -/
structure CounterInv (shared : Shared) (point : PumpPoint) (owner : OwnerPoint)
    (returned : List ChildEvent) : Prop where
  /-- A queued event was returned, is about to be, or waits in the queue. -/
  ledger : queuedEvents shared.trace=returned++popped owner++shared.eventQueue
  /-- The counter is a size. -/
  value : shared.queuedOutputBytes< sizeValues
  /-- What was counted is what was queued, without what was discounted. -/
  counted : (shared.queuedOutputBytes+totalSize returned+uncounted point)%sizeValues=
    totalSize (queuedEvents shared.trace)%sizeValues
  /-- The pump stays within its bound. -/
  room : totalSize (queuedEvents shared.trace)+slack shared point<
    totalSize returned+maxQueuedOutputBytes+readBudgetBytes

section Pump

/-- What a step of the pump does to the counter. -/
structure PumpCounts (before after : Shared) (point later : PumpPoint) : Prop where
  value : before.queuedOutputBytes< sizeValues → after.queuedOutputBytes< sizeValues
  counted : (after.queuedOutputBytes+uncounted later)%sizeValues=
    (before.queuedOutputBytes+uncounted point+totalSize (queuing point))%sizeValues
  slack_le : totalSize (queuing point)+slack after later≤ slack before point ∨
    uncounted point=0 ∧ queuing point=[] ∧ slack after later≤readBudgetBytes ∧
      before.queuedOutputBytes< maxQueuedOutputBytes

/-- A step that leaves the counter alone and has nothing left to queue. -/
theorem PumpCounts.idle {before after : Shared} {point later : PumpPoint}
    (hcounter : after.queuedOutputBytes=before.queuedOutputBytes) (hlater : uncounted later=0)
    (hslack : slack after later=0) (hpoint : uncounted point=0) (hqueuing : queuing point=[]) :
    PumpCounts before after point later := by
  refine ⟨?_,?_,Or.inl ?_⟩
  · intro hvalue
    rw [hcounter]
    exact hvalue
  · rw [hcounter,hlater,hpoint,hqueuing]
    rfl
  · rw [hslack,hqueuing]
    exact Nat.zero_le _

/-- Behind a service nothing is uncounted. -/
theorem afterService_idle (shared after : Shared) (site : Site) (channel : Channel) (count : ℕ) :
    uncounted (afterService shared site channel count)=0 ∧
      slack after (afterService shared site channel count)=0 := by
  cases site <;> cases channel <;> (dsimp only [afterService]; repeat' split) <;> exact ⟨rfl,rfl⟩

theorem readStep_counts (oracle : Oracle) (site : Site) (channel : Channel) (count : ℕ)
    (shared : Shared) :
    PumpCounts shared (readStep oracle site channel count shared).1 (.read site channel count)
      (readStep oracle site channel count shared).2 := by
  have hleaves : ∀ after : Shared, after.queuedOutputBytes=shared.queuedOutputBytes →
      PumpCounts shared after (.read site channel count)
        (afterService after site channel count) := by
    intro after hcounter
    obtain ⟨huncounted,hslack⟩ := afterService_idle after after site channel count
    exact .idle hcounter huncounted hslack rfl rfl
  have hclose : (closeOutputChannel shared channel).queuedOutputBytes=shared.queuedOutputBytes := by
    cases channel <;> rfl
  unfold readStep
  split
  · exact hleaves shared rfl
  · rename_i hbudget
    split
    · exact hleaves shared rfl
    · exact hleaves _ hclose
    · rename_i bytes _
      dsimp only
      have hlength : (bytes.take (min readBufferBytes (readBudgetBytes-count))).length≤
          readBudgetBytes-count := by
        rw [List.length_take]
        omega
      generalize bytes.take (min readBufferBytes (readBudgetBytes-count))=chunk at hlength
      split
      · exact hleaves _ hclose
      · split
        · rename_i hsink
          refine .idle rfl rfl ?_ rfl rfl
          exact if_pos hsink
        · rename_i hsink
          refine ⟨id,rfl,Or.inl ?_⟩
          have hbefore : slack shared (.read site channel count)=readBudgetBytes-count :=
            if_neg hsink
          rw [hbefore]
          dsimp only [slack,queuing,leftOver,ChildEvent.size,totalSize]
          rw [List.map_nil,List.sum_nil]
          omega

/-- A write leaves the counter alone. -/
theorem writeStep_counter (oracle : Oracle) (ready : Ready) (shared : Shared) :
    (writeStep oracle ready shared).queuedOutputBytes=shared.queuedOutputBytes := by
  unfold writeStep
  split
  · rfl
  · rfl
  · split
    · dsimp only [advance]
      (repeat' split) <;> rfl
    · rfl
    · rfl

/-- Back from a queued event, the pump may queue no more than before. -/
theorem signal_counts (shared after : Shared) (back : Return)
    (hcounter : after.queuedOutputBytes=shared.queuedOutputBytes) :
    PumpCounts shared after (.signal back) back.point := by
  have hvalue : shared.queuedOutputBytes< sizeValues → after.queuedOutputBytes< sizeValues :=
    fun h => hcounter ▸ h
  cases back with
  | reading site channel count =>
    refine ⟨hvalue,by rw [hcounter]; rfl,Or.inl ?_⟩
    change 0+(if hasSink after channel then 0 else readBudgetBytes-count)≤readBudgetBytes-count
    rw [Nat.zero_add]
    split
    · exact Nat.zero_le _
    · exact Nat.le_refl _
  | killing => exact .idle hcounter rfl rfl rfl rfl
  | finishing => exact .idle hcounter rfl rfl rfl rfl

/-- A channel is read when it has a sink or when the counter is below its
bound. -/
theorem service_counts (oracle : Oracle) (shared : Shared) (site : Site) (channel : Channel) :
    PumpCounts shared (nextPump oracle shared (.service site channel)).1 (.service site channel)
      (nextPump oracle shared (.service site channel)).2 := by
  obtain ⟨huncounted,hslack⟩ := afterService_idle shared shared site channel 0
  dsimp only [nextPump]
  split
  · exact .idle rfl huncounted hslack rfl rfl
  · rename_i hgoes
    by_cases hsink : hasSink shared channel=true
    · exact .idle rfl rfl (if_pos hsink) rfl rfl
    · rw [Bool.not_eq_true] at hsink
      rw [hsink,Bool.not_false,Bool.true_and,underPressure,decide_eq_true_eq,Nat.not_le] at hgoes
      refine ⟨id,rfl,Or.inr ⟨rfl,rfl,?_,hgoes⟩⟩
      dsimp only [slack]
      rw [hsink]
      exact Nat.le_refl _

/-- A step of the pump counts what it has queued, and goes on reading within
its budget. -/
theorem pump_counts (oracle : Oracle) (shared : Shared) (point : PumpPoint) :
    PumpCounts shared (nextPump oracle shared point).1 point (nextPump oracle shared point).2 := by
  cases point with
  | reap =>
    dsimp only [nextPump,reapStep]
    split <;> exact .idle rfl rfl rfl rfl rfl
  | deadline =>
    dsimp only [nextPump,deadlineStep]
    (repeat' split) <;> exact .idle rfl rfl rfl rfl rfl
  | stdin =>
    dsimp only [nextPump,stdinStep]
    (repeat' split) <;> exact .idle rfl rfl rfl rfl rfl
  | readClosed =>
    dsimp only [nextPump]
    split <;> exact .idle rfl rfl rfl rfl rfl
  | poll pressure =>
    dsimp only [nextPump]
    split <;> exact .idle rfl rfl rfl rfl rfl
  | drainStdin ready =>
    dsimp only [nextPump]
    split <;> exact .idle rfl rfl rfl rfl rfl
  | write ready =>
    have hcounter := writeStep_counter oracle ready shared
    dsimp only [nextPump,afterWrite]
    (repeat' split) <;> exact .idle hcounter rfl rfl rfl rfl
  | service site channel => exact service_counts oracle shared site channel
  | read site channel count => exact readStep_counts oracle site channel count shared
  | queue event back =>
    refine ⟨id,?_,Or.inl ?_⟩
    · dsimp only [nextPump,uncounted,queuing]
      rw [totalSize_singleton]
      rfl
    · dsimp only [nextPump,slack,queuing]
      exact Nat.add_le_add_right (Nat.le_of_eq (totalSize_singleton _)) _
  | count size back =>
    refine ⟨fun _ => Nat.mod_lt _ (by decide),?_,Or.inl ?_⟩
    · exact Nat.mod_mod _ _
    · exact Nat.le_of_eq (Nat.zero_add _)
  | signal back => exact signal_counts shared _ back rfl
  | cancel ready =>
    dsimp only [nextPump]
    (repeat' split) <;> exact .idle rfl rfl rfl rfl rfl
  | drainCheck =>
    dsimp only [nextPump,drainStep]
    (repeat' split) <;> exact .idle rfl rfl rfl rfl rfl
  | drainPoll =>
    dsimp only [nextPump]
    split <;> exact .idle rfl rfl rfl rfl rfl
  | lastProbe =>
    dsimp only [nextPump,lastProbeStep]
    split <;> exact .idle rfl rfl rfl rfl rfl
  | pressure => exact .idle rfl rfl rfl rfl rfl
  | cancelStore => exact .idle rfl rfl rfl rfl rfl
  | kill => exact .idle rfl rfl rfl rfl rfl
  | closeAll => exact .idle rfl rfl rfl rfl rfl
  | finish => exact .idle rfl rfl rfl rfl rfl
  | finishSignal => exact .idle rfl rfl rfl rfl rfl
  | done => exact .idle rfl rfl rfl rfl rfl

end Pump

section Invariant

variable {shared : Shared} {point : PumpPoint} {owner : OwnerPoint} {returned : List ChildEvent}

/-- What was returned was queued. -/
theorem CounterInv.returned_le (inv : CounterInv shared point owner returned) :
    totalSize returned+totalSize (popped owner)+totalSize shared.eventQueue=
      totalSize (queuedEvents shared.trace) := by
  rw [inv.ledger,totalSize_append,totalSize_append]

/-- A pump without an uncounted event reads how far it is ahead. -/
theorem CounterInv.exact (inv : CounterInv shared point owner returned)
    (hcounted : uncounted point=0) :
    shared.queuedOutputBytes+totalSize returned=totalSize (queuedEvents shared.trace) := by
  have hledger := inv.returned_le
  have hvalue := inv.value
  have hroom := inv.room
  have hmod := inv.counted
  rw [hcounted,Nat.add_zero] at hmod
  unfold sizeValues at hvalue hmod
  unfold maxQueuedOutputBytes readBudgetBytes at hroom
  omega

/-- A step of the pump keeps the counter right. -/
theorem pump_counter (oracle : Oracle) (inv : CounterInv shared point owner returned) :
    CounterInv (nextPump oracle shared point).1 (nextPump oracle shared point).2 owner returned := by
  have hqueues := pump_queues oracle shared point
  have hcounts := pump_counts oracle shared point
  have hqueued : totalSize (queuedEvents (nextPump oracle shared point).1.trace)=
      totalSize (queuedEvents shared.trace)+totalSize (queuing point) := by
    rw [hqueues.trace,totalSize_append]
  refine ⟨?_,hcounts.value inv.value,?_,?_⟩
  · rw [hqueues.trace,hqueues.queue,inv.ledger,List.append_assoc]
  · have hcounted := hcounts.counted
    have hbefore := inv.counted
    rw [hqueued]
    unfold sizeValues at hcounted hbefore ⊢
    omega
  · have hroom := inv.room
    rw [hqueued]
    rcases hcounts.slack_le with hslack | ⟨hpoint,hqueuing,hslack,hbelow⟩
    · omega
    · have hexact := inv.exact hpoint
      rw [hqueuing]
      change _+0+_<_
      omega

/-- A step of the owner touches no sink, and the counter only behind a
pop. -/
theorem owner_frame (oracle : Oracle) (shared : Shared) (owner : OwnerPoint) :
    (popped owner=[] →
      (nextOwner oracle shared owner).1.queuedOutputBytes=shared.queuedOutputBytes) ∧
      ∀ point, slack (nextOwner oracle shared owner).1 point=slack shared point := by
  have hslack : ∀ after : Shared, after.stdoutSink=shared.stdoutSink →
      after.stderrSink=shared.stderrSink → ∀ point, slack after point=slack shared point := by
    intro after hstdout hstderr point
    have hsink : ∀ channel, hasSink after channel=hasSink shared channel := by
      intro channel
      cases channel with
      | stdout => exact hstdout
      | stderr => exact hstderr
    cases point with
    | read site channel count =>
      dsimp only [slack]
      rw [hsink]
    | _ => rfl
  cases owner with
  | popCount event =>
    have hnext : (nextOwner oracle shared (.popCount event)).1={shared with
        queuedOutputBytes := (shared.queuedOutputBytes+sizeValues-event.size)%sizeValues} := rfl
    rw [hnext]
    exact ⟨fun h => absurd h (List.cons_ne_nil event []),hslack _ rfl rfl⟩
  | pushEnqueue bytes =>
    dsimp only [nextOwner]
    split <;> exact ⟨fun _ => rfl,hslack _ rfl rfl⟩
  | pop waits =>
    dsimp only [nextOwner]
    split <;> exact ⟨fun _ => rfl,hslack _ rfl rfl⟩
  | exitPoll =>
    dsimp only [nextOwner]
    split <;> exact ⟨fun _ => rfl,hslack _ rfl rfl⟩
  | _ => exact ⟨fun _ => rfl,hslack _ rfl rfl⟩

/-- A step of the owner keeps the counter right. -/
theorem owner_counter (oracle : Oracle) (inv : CounterInv shared point owner returned) :
    CounterInv (nextOwner oracle shared owner).1 point (nextOwner oracle shared owner).2
      (returned++popped owner) := by
  have hqueues := owner_queues oracle shared owner
  obtain ⟨hcounter,hslack⟩ := owner_frame oracle shared owner
  have hledger := inv.returned_le
  have hroom := inv.room
  have hcounted := inv.counted
  have hvalue := inv.value
  have hcounts : (nextOwner oracle shared owner).1.queuedOutputBytes< sizeValues ∧
      ((nextOwner oracle shared owner).1.queuedOutputBytes+totalSize (popped owner))%sizeValues=
        shared.queuedOutputBytes%sizeValues := by
    by_cases hpop : popped owner=[]
    · rw [hcounter hpop,hpop]
      exact ⟨hvalue,rfl⟩
    · cases owner with
      | popCount event =>
        dsimp only [nextOwner,popped] at hledger ⊢
        rw [totalSize_singleton] at hledger ⊢
        refine ⟨Nat.mod_lt _ (by decide),?_⟩
        unfold maxQueuedOutputBytes readBudgetBytes at hroom
        unfold sizeValues
        omega
      | _ => exact absurd rfl hpop
  refine ⟨?_,hcounts.1,?_,?_⟩
  · rw [hqueues.trace,inv.ledger,List.append_assoc (returned++popped owner),hqueues.queue]
  · have hsame := hcounts.2
    rw [hqueues.trace,totalSize_append]
    unfold sizeValues at hsame hcounted ⊢
    omega
  · rw [hqueues.trace,hslack,totalSize_append]
    omega

/-- Every step keeps the counter right. -/
theorem machine_counter (pair : System×List ChildEvent) (label : ℕ×Oracle)
    (inv : Holds CounterInv pair) : Holds CounterInv (observed machine observeReturned pair label) := by
  refine holds_step (fun _ _ => True) ?_ ?_ ?_ pair label inv trivial
  · intro pool returned point owner oracle roles hinv _
    rw [observeReturned_pump roles]
    exact pump_counter oracle hinv
  · intro pool returned point owner oracle roles hinv _
    rw [observeReturned_owner roles]
    exact owner_counter oracle hinv
  · intro pool returned point owner thread oracle roles hthread hinv _
    rw [observeReturned_rest roles returned hthread]
    obtain ⟨hledger,hvalue,hcounted,hroom⟩ := hinv
    dsimp only [bystanderStep]
    split
    · refine ⟨hledger,hvalue,hcounted,?_⟩
      cases point <;> exact hroom
    · exact ⟨hledger,hvalue,hcounted,hroom⟩

/-- The counter is right at the start. -/
theorem startup_counter (sinks : Sinks) : Holds CounterInv (startup sinks,[]) :=
  ⟨_,_,startup_roles sinks,rfl,Nat.two_pow_pos 64,rfl,show 0+0<0+maxQueuedOutputBytes+readBudgetBytes by decide⟩

end Invariant

section Runs

/-- The pump is about to read the counter. -/
def readsCounter : Pc → Bool
  | .pump .pressure => true
  | .pump (.service _ _) => true
  | _ => false

/-- A pump that reads the counter reads what it has queued without what was
popped and discounted. -/
def ReadsExact (pair : System×List ChildEvent) (label : ℕ×Oracle) : Prop :=
  readsCounter (pair.1.pcs label.1)=true →
    totalSize pair.2≤totalSize (queuedEvents pair.1.shared.trace) ∧
      pair.1.shared.queuedOutputBytes=
        totalSize (queuedEvents pair.1.shared.trace)-totalSize pair.2

/-- With the counter right a read is exact. -/
theorem readsExact_of_counter {pair : System×List ChildEvent} (inv : Holds CounterInv pair)
    (label : ℕ×Oracle) : ReadsExact pair label := by
  intro hreads
  obtain ⟨point,owner,roles,hinv⟩ := inv
  have hpoint : uncounted point=0 := by
    rcases thread_cases label.1 with hthread | hthread | hthread
    · rw [hthread,roles.pump] at hreads
      cases point with
      | count size back => cases hreads
      | _ => rfl
    · rw [hthread,roles.owner] at hreads
      cases hreads
    · rw [roles.rest label.1 hthread] at hreads
      cases hreads
  have hexact := hinv.exact hpoint
  omega

/-- The pump never reads a wrapped counter, and what is queued is bounded. -/
theorem counter_exact (sinks : Sinks) (schedule : List (ℕ×Oracle)) :
    Along (observed machine observeReturned) ReadsExact (startup sinks,[]) schedule ∧
      totalSize (run machine (startup sinks) schedule).shared.eventQueue≤
        maxQueuedOutputBytes+readBudgetBytes := by
  constructor
  · have hguard : Along (observed machine observeReturned) (fun _ _ => True) (startup sinks,[])
        schedule := along_of_labels (fun _ _ _ => trivial) _
    exact Along.everyStep (fun pair label inv _ => machine_counter pair label inv)
      (fun _ label inv _ => readsExact_of_counter inv label) hguard (startup_counter sinks)
  · obtain ⟨point,owner,roles,hinv⟩ := run_invariant machine_counter schedule (startup_counter sinks)
    rw [run_observed_fst] at hinv
    dsimp only at hinv
    have hledger := hinv.returned_le
    have hroom := hinv.room
    omega

end Runs

end Vinput.OutputPressure
