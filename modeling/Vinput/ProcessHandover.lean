import Vinput.ProcessEvents

/-!
# What a session hands over

Events go from the pump to the owner and blocks go from the owner to the
pump. Both receivers look at an empty queue first and at a closing flag
second, so a flag that is set between the two looks hides what was queued
before it. Runs in which this does not happen hand over everything.
-/

namespace Vinput.ProcessHandover

open InterleavedRuns ProcessSession ProcessEvents

section Roles

/-- Thread zero is the pump, thread one the owner, and the others may only
cancel. -/
structure Roles (pool : System) (point : PumpPoint) (owner : OwnerPoint) : Prop where
  pump : pool.pcs 0=.pump point
  owner : pool.pcs 1=.owner owner
  rest : ∀ t, 2 ≤ t → pool.pcs t=.bystander

/-- Memory after a step of a thread that may only cancel. -/
def bystanderStep (oracle : Oracle) (shared : Shared) : Shared :=
  if oracle.call=.cancel then {shared with cancelEvent := true} else shared

variable {pool : System} {point : PumpPoint} {owner : OwnerPoint}

theorem Roles.step_pump (roles : Roles pool point owner) (oracle : Oracle) :
    Roles (machine pool (0,oracle)) (nextPump oracle pool.shared point).2 owner ∧
      (machine pool (0,oracle)).shared=(nextPump oracle pool.shared point).1 := by
  refine ⟨⟨?_,?_,?_⟩,?_⟩
  · rw [Pool.step_pcs_self,roles.pump]
    rfl
  · rw [Pool.step_pcs_of_ne (by omega)]
    exact roles.owner
  · intro t ht
    rw [Pool.step_pcs_of_ne (by omega)]
    exact roles.rest t ht
  · rw [Pool.step_shared,roles.pump]
    rfl

theorem Roles.step_owner (roles : Roles pool point owner) (oracle : Oracle) :
    Roles (machine pool (1,oracle)) point (nextOwner oracle pool.shared owner).2 ∧
      (machine pool (1,oracle)).shared=(nextOwner oracle pool.shared owner).1 := by
  refine ⟨⟨?_,?_,?_⟩,?_⟩
  · rw [Pool.step_pcs_of_ne (by omega)]
    exact roles.pump
  · rw [Pool.step_pcs_self,roles.owner]
    rfl
  · intro t ht
    rw [Pool.step_pcs_of_ne (by omega)]
    exact roles.rest t ht
  · rw [Pool.step_shared,roles.owner]
    rfl

theorem Roles.step_rest (roles : Roles pool point owner) {thread : ℕ} (h : 2 ≤ thread)
    (oracle : Oracle) :
    Roles (machine pool (thread,oracle)) point owner ∧
      (machine pool (thread,oracle)).shared=bystanderStep oracle pool.shared := by
  refine ⟨⟨?_,?_,?_⟩,?_⟩
  · rw [Pool.step_pcs_of_ne (by omega)]
    exact roles.pump
  · rw [Pool.step_pcs_of_ne (by omega)]
    exact roles.owner
  · intro t ht
    by_cases hself : t=thread
    · subst hself
      rw [Pool.step_pcs_self,roles.rest t ht]
      rfl
    · rw [Pool.step_pcs_of_ne hself]
      exact roles.rest t ht
  · rw [Pool.step_shared,roles.rest thread h]
    rfl

/-- A thread is the pump, the owner or neither. -/
theorem thread_cases (thread : ℕ) : thread=0 ∨ thread=1 ∨ 2 ≤ thread := by omega

theorem startup_roles (sinks : Sinks) : Roles (startup sinks) .reap (.ready none) := by
  refine ⟨rfl,rfl,?_⟩
  intro t ht
  match t with
  | 0 => omega
  | 1 => omega
  | _+2 => rfl

/-- A fact about the memory, the two points and a history. -/
abbrev Fact (Ghost : Type*) := Shared → PumpPoint → OwnerPoint → Ghost → Prop

/-- A fact holds at the points where the threads are. -/
def Holds {Ghost : Type*} (fact : Fact Ghost) (pair : System×Ghost) : Prop :=
  ∃ point owner, Roles pair.1 point owner ∧ fact pair.1.shared point owner pair.2

/-- A fact is kept by every step when it is kept by a step of the pump, of
the owner and of a thread that may only cancel. -/
theorem holds_step {Ghost : Type*} {fact : Fact Ghost}
    {observe : Ghost → System → ℕ×Oracle → Ghost} (guard : System → ℕ×Oracle → Prop)
    (pump : ∀ pool ghost point owner oracle, Roles pool point owner →
      fact pool.shared point owner ghost → guard pool (0,oracle) →
      fact (nextPump oracle pool.shared point).1 (nextPump oracle pool.shared point).2 owner
        (observe ghost pool (0,oracle)))
    (own : ∀ pool ghost point owner oracle, Roles pool point owner →
      fact pool.shared point owner ghost → guard pool (1,oracle) →
      fact (nextOwner oracle pool.shared owner).1 point (nextOwner oracle pool.shared owner).2
        (observe ghost pool (1,oracle)))
    (rest : ∀ pool ghost point owner thread oracle, Roles pool point owner → 2 ≤ thread →
      fact pool.shared point owner ghost → guard pool (thread,oracle) →
      fact (bystanderStep oracle pool.shared) point owner (observe ghost pool (thread,oracle)))
    (pair : System×Ghost) (label : ℕ×Oracle) (inv : Holds fact pair)
    (hguard : guard pair.1 label) : Holds fact (observed machine observe pair label) := by
  obtain ⟨pool,ghost⟩ := pair
  obtain ⟨thread,oracle⟩ := label
  obtain ⟨point,owner,roles,hfact⟩ := inv
  rcases thread_cases thread with hthread | hthread | hthread
  · subst hthread
    obtain ⟨hroles,hshared⟩ := roles.step_pump oracle
    refine ⟨_,_,hroles,?_⟩
    dsimp only [observed]
    rw [hshared]
    exact pump pool ghost point owner oracle roles hfact hguard
  · subst hthread
    obtain ⟨hroles,hshared⟩ := roles.step_owner oracle
    refine ⟨_,_,hroles,?_⟩
    dsimp only [observed]
    rw [hshared]
    exact own pool ghost point owner oracle roles hfact hguard
  · obtain ⟨hroles,hshared⟩ := roles.step_rest hthread oracle
    refine ⟨_,_,hroles,?_⟩
    dsimp only [observed]
    rw [hshared]
    exact rest pool ghost point owner thread oracle roles hthread hfact hguard

end Roles

section Events

/-- Events the owner has been given, oldest first. -/
def observeReturned (returned : List ChildEvent) (pool : System) (label : ℕ×Oracle) :
    List ChildEvent :=
  match pool.pcs label.1 with
  | .owner (.popCount event) => returned++[event]
  | _ => returned

/-- The event a pop is about to return. -/
def popped : OwnerPoint → List ChildEvent
  | .popCount event => [event]
  | _ => []

/-- The event the pump is about to queue. -/
def queuing : PumpPoint → List ChildEvent
  | .queue event _ => [event]
  | _ => []

/-- An event that reports the end of the child. -/
def isExit : ChildEvent → Bool
  | .exited _ _ => true
  | _ => false

/-- A wait for an event that is told that the pump has finished has been
given every queued event, the exit among them. -/
def EndsLate (pair : System×List ChildEvent) (label : ℕ×Oracle) : Prop :=
  pair.1.pcs label.1=.owner .readFinished → pair.1.shared.pumpFinished=true →
    pair.2=queuedEvents pair.1.shared.trace ∧ pair.2.any isExit=true

instance (pair : System×List ChildEvent) (label : ℕ×Oracle) : Decidable (EndsLate pair label) :=
  inferInstanceAs (Decidable (_ → _ → _ ∧ _))

/-- The pump sets its finished flag while an event is queued. -/
def finishes (_ : Oracle) (shared : Shared) (pc : Pc) : Bool :=
  decide (pc=.pump .finish) && decide (shared.eventQueue≠[])

/-- A wait has found the queue empty and has not read the finished flag. -/
def betweenLooks (pc : Pc) : Bool := decide (pc=.owner .readFinished)

/-- Where every queued event is. -/
structure EventsInv (shared : Shared) (point : PumpPoint) (owner : OwnerPoint)
    (returned : List ChildEvent) : Prop where
  /-- It was returned, is about to be, or waits in the queue. -/
  ledger : queuedEvents shared.trace=returned++popped owner++shared.eventQueue
  /-- A pump that has finished queues nothing more. -/
  finished : shared.pumpFinished=true → point=.finishSignal ∨ point=.done
  /-- A wait that will be told so has left nothing behind. -/
  late : owner=.readFinished → shared.pumpFinished=true → shared.eventQueue=[]

/-- Events of two traces follow each other. -/
theorem queuedEvents_append (first second : List PumpAction) :
    queuedEvents (first++second)=queuedEvents first++queuedEvents second :=
  List.filterMap_append

/-- What a step of the pump does to the events. -/
structure PumpQueues (before after : Shared) (point : PumpPoint) : Prop where
  trace : queuedEvents after.trace=queuedEvents before.trace++queuing point
  queue : after.eventQueue=before.eventQueue++queuing point
  finished : after.pumpFinished=(before.pumpFinished || decide (point=.finish))

/-- A step that queues nothing and touches neither the queue nor the flag. -/
theorem PumpQueues.idle {before after : Shared} {point : PumpPoint} (added : List PumpAction)
    (htrace : after.trace=before.trace++added) (hadded : queuedEvents added=[])
    (hqueue : after.eventQueue=before.eventQueue)
    (hflag : after.pumpFinished=before.pumpFinished)
    (hqueuing : queuing point=[]) (hpoint : point≠.finish) : PumpQueues before after point := by
  refine ⟨?_,?_,?_⟩
  · rw [htrace,queuedEvents_append,hadded,hqueuing]
  · rw [hqueue,hqueuing,List.append_nil]
  · rw [hflag,decide_eq_false hpoint,Bool.or_false]

/-- A step that queues nothing leaves the queues alone. -/
theorem PumpQueues.same {shared : Shared} {point : PumpPoint} (hqueuing : queuing point=[])
    (hpoint : point≠.finish) : PumpQueues shared shared point :=
  .idle [] (List.append_nil _).symm rfl rfl rfl hqueuing hpoint

/-- The input is closed with at most one action. -/
theorem closeStdinChannel_trace (shared : Shared) :
    ∃ added, (closeStdinChannel shared).trace=shared.trace++added ∧ queuedEvents added=[] := by
  dsimp only [closeStdinChannel]
  split
  · exact ⟨[.closedStdin],rfl,rfl⟩
  · exact ⟨[],(List.append_nil _).symm,rfl⟩

/-- What a write leaves of the events. -/
theorem writeStep_queues (oracle : Oracle) (ready : Ready) (shared : Shared) :
    PumpQueues shared (writeStep oracle ready shared) (.write ready) := by
  obtain ⟨added,htrace,hadded⟩ := closeStdinChannel_trace shared
  have hclose : PumpQueues shared (closeStdinChannel shared) (.write ready) :=
    .idle added htrace hadded rfl rfl rfl nofun
  unfold writeStep
  split
  · exact .same rfl nofun
  · exact hclose
  · split
    · rename_i count _
      dsimp only [advance]
      split
      · exact .same rfl nofun
      · split <;> exact .idle [.wrote (writtenBytes count shared)] rfl rfl rfl rfl rfl nofun
    · exact .same rfl nofun
    · exact hclose

/-- What a read leaves of the events. -/
theorem readStep_queues (oracle : Oracle) (site : Site) (channel : Channel) (count : ℕ)
    (shared : Shared) :
    PumpQueues shared (readStep oracle site channel count shared).1 (.read site channel count) := by
  have hclose : PumpQueues shared (closeOutputChannel shared channel) (.read site channel count) := by
    cases channel <;> exact .idle [] (List.append_nil _).symm rfl rfl rfl rfl nofun
  unfold readStep
  split
  · exact .same rfl nofun
  · split
    · exact .same rfl nofun
    · exact hclose
    · rename_i bytes _
      dsimp only
      generalize bytes.take (min readBufferBytes (readBudgetBytes-count))=chunk
      split
      · exact hclose
      · split
        · refine .idle [.read channel chunk,.sank channel chunk] ?_ rfl rfl rfl rfl nofun
          exact List.append_assoc _ _ _
        · exact .idle [.read channel chunk] rfl rfl rfl rfl rfl nofun

/-- A step of the pump queues the event at its point and nothing else. -/
theorem pump_queues (oracle : Oracle) (shared : Shared) (point : PumpPoint) :
    PumpQueues shared (nextPump oracle shared point).1 point := by
  obtain ⟨added,htrace,hadded⟩ := closeStdinChannel_trace shared
  cases point with
  | reap =>
    dsimp only [nextPump,reapStep]
    split
    · exact .same rfl nofun
    · by_cases hseen : shared.cancelSeen=true
      · exact .idle [.killed true] (if_pos hseen) rfl rfl rfl rfl nofun
      · exact .idle [] ((if_neg hseen).trans (List.append_nil _).symm) rfl rfl rfl rfl nofun
  | deadline =>
    dsimp only [nextPump,deadlineStep]
    split
    · split
      · exact .idle [.killed true] rfl rfl rfl rfl rfl nofun
      · exact .same rfl nofun
    · exact .same rfl nofun
  | stdin =>
    dsimp only [nextPump,stdinStep]
    (repeat' split) <;> exact .idle [] (List.append_nil _).symm rfl rfl rfl rfl nofun
  | readClosed =>
    dsimp only [nextPump]
    split
    · exact .idle added htrace hadded rfl rfl rfl nofun
    · exact .same rfl nofun
  | poll pressure =>
    dsimp only [nextPump]
    split <;> exact .same rfl nofun
  | drainStdin ready =>
    dsimp only [nextPump]
    split <;> exact .idle [] (List.append_nil _).symm rfl rfl rfl rfl nofun
  | write ready => exact writeStep_queues oracle ready shared
  | service site channel =>
    dsimp only [nextPump]
    split <;> exact .same rfl nofun
  | read site channel count => exact readStep_queues oracle site channel count shared
  | queue event back =>
    refine ⟨?_,rfl,(Bool.or_false _).symm⟩
    exact queuedEvents_append shared.trace [.queued event]
  | count size back => exact .idle [] (List.append_nil _).symm rfl rfl rfl rfl nofun
  | signal back => exact .idle [] (List.append_nil _).symm rfl rfl rfl rfl nofun
  | cancel ready =>
    dsimp only [nextPump]
    split <;> exact .idle [] (List.append_nil _).symm rfl rfl rfl rfl nofun
  | cancelStore => exact .idle added htrace hadded rfl rfl rfl nofun
  | kill => exact .idle [.killed false] rfl rfl rfl rfl rfl nofun
  | lastProbe =>
    dsimp only [nextPump,lastProbeStep]
    split <;> exact .idle [] (List.append_nil _).symm rfl rfl rfl rfl nofun
  | closeAll => exact .idle added htrace hadded rfl rfl rfl nofun
  | finish => exact ⟨(List.append_nil _).symm,(List.append_nil _).symm,(Bool.or_true _).symm⟩
  | finishSignal => exact .idle [] (List.append_nil _).symm rfl rfl rfl rfl nofun
  | pressure => exact .same rfl nofun
  | drainCheck => exact .same rfl nofun
  | drainPoll => exact .same rfl nofun
  | done => exact .same rfl nofun

/-- What a step of the owner does to the events. -/
structure OwnerQueues (before after : Shared) (point later : OwnerPoint) : Prop where
  trace : after.trace=before.trace
  finished : after.pumpFinished=before.pumpFinished
  queue : popped later++after.eventQueue=before.eventQueue
  late : later=.readFinished → before.eventQueue=[]

/-- A step of the owner pops at most one event, and only an empty queue
leads to a look at the finished flag. -/
theorem owner_queues (oracle : Oracle) (shared : Shared) (owner : OwnerPoint) :
    OwnerQueues shared (nextOwner oracle shared owner).1 owner (nextOwner oracle shared owner).2 := by
  cases owner with
  | ready last =>
    dsimp only [nextOwner]
    cases oracle.call with
    | pushStdin bytes =>
      dsimp only [begin]
      split <;> exact ⟨rfl,rfl,rfl,nofun⟩
    | _ => exact ⟨rfl,rfl,rfl,nofun⟩
  | pushEnqueue bytes =>
    dsimp only [nextOwner]
    split <;> exact ⟨rfl,rfl,rfl,nofun⟩
  | pop waits =>
    dsimp only [nextOwner]
    split
    · rename_i event rest hqueue
      exact ⟨rfl,rfl,hqueue.symm,nofun⟩
    · rename_i hqueue
      cases waits with
      | true => exact ⟨rfl,rfl,rfl,fun _ => hqueue⟩
      | false => exact ⟨rfl,rfl,rfl,nofun⟩
  | pollWake =>
    dsimp only [nextOwner]
    split <;> exact ⟨rfl,rfl,rfl,nofun⟩
  | exited waits last =>
    dsimp only [nextOwner,exitedNext]
    (repeat' split) <;> exact ⟨rfl,rfl,rfl,nofun⟩
  | exitPoll =>
    dsimp only [nextOwner]
    split <;> exact ⟨rfl,rfl,rfl,nofun⟩
  | popCount event =>
    dsimp only [nextOwner]
    exact ⟨rfl,rfl,rfl,nofun⟩
  | pushFinished bytes =>
    dsimp only [nextOwner]
    split <;> exact ⟨rfl,rfl,rfl,nofun⟩
  | pushClosed bytes =>
    dsimp only [nextOwner]
    split <;> exact ⟨rfl,rfl,rfl,nofun⟩
  | readFinished =>
    dsimp only [nextOwner]
    split <;> exact ⟨rfl,rfl,rfl,nofun⟩
  | remaining =>
    dsimp only [nextOwner]
    split <;> exact ⟨rfl,rfl,rfl,nofun⟩
  | exitRemaining =>
    dsimp only [nextOwner]
    split <;> exact ⟨rfl,rfl,rfl,nofun⟩
  | _ => exact ⟨rfl,rfl,rfl,nofun⟩

/-- A step of the pump keeps account of the events. -/
theorem pump_events {shared : Shared} {point : PumpPoint} {owner : OwnerPoint}
    {returned : List ChildEvent} (oracle : Oracle) (inv : EventsInv shared point owner returned)
    (halone : point=.finish → owner=.readFinished → shared.eventQueue=[]) :
    EventsInv (nextPump oracle shared point).1 (nextPump oracle shared point).2 owner returned := by
  have hstep := pump_queues oracle shared point
  refine ⟨?_,?_,?_⟩
  · rw [hstep.trace,hstep.queue,inv.ledger,List.append_assoc]
  · intro hflag
    rw [hstep.finished,Bool.or_eq_true,decide_eq_true_eq] at hflag
    rcases hflag with hbefore | hnow
    · rcases inv.finished hbefore with hpoint | hpoint
      · rw [hpoint]
        exact .inr rfl
      · rw [hpoint]
        exact .inr rfl
    · rw [hnow]
      exact .inl rfl
  · intro howner hflag
    rw [hstep.finished,Bool.or_eq_true,decide_eq_true_eq] at hflag
    rw [hstep.queue]
    rcases hflag with hbefore | hnow
    · rw [inv.late howner hbefore]
      rcases inv.finished hbefore with hpoint | hpoint
      · rw [hpoint]
        rfl
      · rw [hpoint]
        rfl
    · rw [halone hnow howner,hnow]
      rfl

/-- A step of the owner keeps account of the events. -/
theorem owner_events {shared : Shared} {point : PumpPoint} {owner : OwnerPoint}
    {returned : List ChildEvent} (oracle : Oracle) (inv : EventsInv shared point owner returned) :
    EventsInv (nextOwner oracle shared owner).1 point (nextOwner oracle shared owner).2
      (returned++popped owner) := by
  have hstep := owner_queues oracle shared owner
  refine ⟨?_,?_,?_⟩
  · rw [hstep.trace,inv.ledger,List.append_assoc (returned++popped owner),hstep.queue]
  · intro hflag
    exact inv.finished (hstep.finished.symm.trans hflag)
  · intro howner _
    have hempty := hstep.late howner
    have hqueue := hstep.queue
    rw [hempty] at hqueue
    exact (List.append_eq_nil_iff.mp hqueue).2

/-- The owner returns what it popped. -/
theorem observeReturned_owner {pool : System} {point : PumpPoint} {owner : OwnerPoint}
    (roles : Roles pool point owner) (returned : List ChildEvent) (oracle : Oracle) :
    observeReturned returned pool (1,oracle)=returned++popped owner := by
  dsimp only [observeReturned]
  rw [roles.owner]
  cases owner with
  | popCount event => rfl
  | _ => exact (List.append_nil _).symm

theorem observeReturned_pump {pool : System} {point : PumpPoint} {owner : OwnerPoint}
    (roles : Roles pool point owner) (returned : List ChildEvent) (oracle : Oracle) :
    observeReturned returned pool (0,oracle)=returned := by
  dsimp only [observeReturned]
  rw [roles.pump]

theorem observeReturned_rest {pool : System} {point : PumpPoint} {owner : OwnerPoint}
    (roles : Roles pool point owner) (returned : List ChildEvent) {thread : ℕ} (h : 2 ≤ thread)
    (oracle : Oracle) : observeReturned returned pool (thread,oracle)=returned := by
  dsimp only [observeReturned]
  rw [roles.rest thread h]

/-- The flag is set only while no wait stands between its two looks over a
queued event. -/
abbrev FinishesApart : System → ℕ×Oracle → Prop := Pool.Alone finishes betweenLooks

/-- Every guarded step keeps account of the events. -/
theorem machine_handover (pair : System×List ChildEvent) (label : ℕ×Oracle)
    (inv : Holds EventsInv pair) (hguard : FinishesApart pair.1 label) :
    Holds EventsInv (observed machine observeReturned pair label) := by
  refine holds_step FinishesApart ?_ ?_ ?_ pair label inv hguard
  · intro pool returned point owner oracle roles hinv halone
    rw [observeReturned_pump roles]
    refine pump_events oracle hinv ?_
    intro hpoint howner
    by_contra hqueue
    refine halone ?_ ⟨1,Nat.one_ne_zero,?_⟩
    · rw [roles.pump,hpoint]
      exact Bool.and_eq_true_iff.mpr ⟨rfl,decide_eq_true hqueue⟩
    · rw [roles.owner,howner]
      rfl
  · intro pool returned point owner oracle roles hinv _
    rw [observeReturned_owner roles]
    exact owner_events oracle hinv
  · intro pool returned point owner thread oracle roles hthread hinv _
    rw [observeReturned_rest roles returned hthread]
    dsimp only [bystanderStep]
    split
    · exact ⟨hinv.ledger,hinv.finished,hinv.late⟩
    · exact hinv

/-- The invariant of the events holds at the start. -/
theorem startup_handover (sinks : Sinks) : Holds EventsInv (startup sinks,[]) :=
  ⟨_,_,startup_roles sinks,rfl,nofun,nofun⟩

/-- Only the owner waits for events. -/
theorem Roles.owner_of_pc {pool : System} {point : PumpPoint} {owner waits : OwnerPoint}
    (roles : Roles pool point owner) {thread : ℕ} (h : pool.pcs thread=.owner waits) :
    owner=waits := by
  rcases thread_cases thread with hthread | hthread | hthread
  · rw [hthread,roles.pump] at h
    cases h
  · rw [hthread,roles.owner] at h
    cases h
    rfl
  · rw [roles.rest thread hthread] at h
    cases h

/-- A pump that has finished has queued an exit. -/
theorem exit_queued {pool : System} {point : PumpPoint} {owner : OwnerPoint}
    (roles : Roles pool point owner) (inv : EventInv pool)
    (hpoint : point=.finishSignal ∨ point=.done) :
    (queuedEvents pool.shared.trace).any isExit=true := by
  obtain ⟨other,hother,hstream⟩ := inv.pump
  have hsame : other=point := by
    rw [roles.pump] at hother
    cases hother
    rfl
  have hover : admits .live pool.shared.trace=some .over := by
    have hadmitted := hstream.admitted
    rw [hsame] at hadmitted
    rcases hpoint with hpoint | hpoint <;> (rw [hpoint] at hadmitted; exact hadmitted)
  obtain ⟨code,killedByUs,hmem⟩ := exit_of_admits (by decide) hover
  exact List.any_eq_true.mpr ⟨_,mem_queuedEvents.mpr hmem,rfl⟩

/-- Account of the events beside the stream they belong to. -/
def Accounted (pair : System×List ChildEvent) : Prop :=
  Holds EventsInv pair ∧ EventInv pair.1

/-- Every guarded step keeps the account of the events. -/
theorem machine_accounted (pair : System×List ChildEvent) (label : ℕ×Oracle)
    (inv : Accounted pair) (hguard : FinishesApart pair.1 label) :
    Accounted (observed machine observeReturned pair label) :=
  ⟨machine_handover pair label inv.1 hguard,machine_events pair.1 label inv.2⟩

/-- Whoever is told that the pump has finished has everything. -/
theorem endsLate_of_accounted {pair : System×List ChildEvent} (inv : Accounted pair)
    (label : ℕ×Oracle) : EndsLate pair label := by
  intro hpc hflag
  obtain ⟨⟨point,owner,roles,hinv⟩,hevents⟩ := inv
  have howner := roles.owner_of_pc hpc
  have hall : pair.2=queuedEvents pair.1.shared.trace := by
    rw [hinv.ledger,hinv.late howner hflag,howner,List.append_nil]
    exact (List.append_nil _).symm
  refine ⟨hall,?_⟩
  rw [hall]
  exact exit_queued roles hevents (hinv.finished hflag)

/-- Along every run that sets the flag apart from the waits, a wait that is
told that the pump has finished has been given everything. -/
theorem end_reported_last_of_apart_run (sinks : Sinks) (schedule : List (ℕ×Oracle))
    (hapart : Along machine FinishesApart (startup sinks) schedule) :
    Along (observed machine observeReturned) EndsLate (startup sinks,[]) schedule := by
  have hguard : Along (observed machine observeReturned)
      (fun pair label => FinishesApart pair.1 label) (startup sinks,[]) schedule :=
    (along_observed FinishesApart).mpr hapart
  exact Along.everyStep machine_accounted (fun _ label inv _ => endsLate_of_accounted inv label)
    hguard ⟨startup_handover sinks,startup_events sinks⟩

/-- A thread goes on with nothing new from the environment. -/
def goesOn (thread : ℕ) : ℕ×Oracle := (thread,{})

/-- The owner begins a call. -/
def calls (call : Call) : ℕ×Oracle := (1,{call := call})

/-- The pump reaps its child and reports its end, up to the finished flag. -/
def pumpExits : List (ℕ×Oracle) :=
  [(0,{reaped := some 0}),(0,{expired := true}),goesOn 0,goesOn 0,goesOn 0,goesOn 0,goesOn 0,
    goesOn 0]

/-- A run whose owner takes the exit and is then told the end. -/
def exitTaken : List (ℕ×Oracle) :=
  pumpExits++[calls (.nextEvent true),goesOn 1,goesOn 1,calls (.nextEvent true),goesOn 1,
    goesOn 1]

/-- In such a run the end is reported after the exit. -/
theorem end_reported_after_exit :
    Along (observed machine observeReturned) EndsLate (startup {},[]) exitTaken ∧
      (run machine (startup {}) exitTaken).pcs 1=.owner (returns (.noEvent .finished)) := by
  refine ⟨end_reported_last_of_apart_run {} exitTaken ?_,by decide +kernel⟩
  refine Pool.along_alone 2 .bystander rfl (by decide) ?_ (by decide +kernel)
  exact (startup_roles {}).rest

/-- A wait looks at the empty queue, the pump queues the exit and finishes,
and the wait looks at the flag. -/
def exitMissed : List (ℕ×Oracle) :=
  [calls (.nextEvent true),goesOn 1]++pumpExits++[goesOn 1]

/-- The exit is left in the queue of an owner that is told the end. -/
theorem exit_left_behind :
    ¬Along (observed machine observeReturned) EndsLate (startup {},[]) exitMissed ∧
      (run machine (startup {}) exitMissed).pcs 1=.owner (returns (.noEvent .finished)) ∧
      (run machine (startup {}) exitMissed).shared.eventQueue=[.exited 0 false] := by
  refine ⟨by decide +kernel,by decide +kernel,by decide +kernel⟩

end Events

section Blocks

/-- Blocks for which a push has returned true, oldest first. -/
def observeAccepted (accepted : List (List UInt8)) (pool : System) (label : ℕ×Oracle) :
    List (List UInt8) :=
  match pool.pcs label.1 with
  | .owner (.pushSignal bytes) => accepted++[bytes]
  | .owner (.ready _) => if label.2.call=.pushStdin [] then accepted++[[]] else accepted
  | _ => accepted

/-- Bytes an action writes to the child. -/
def wroteOn : PumpAction → List UInt8
  | .wrote bytes => bytes
  | _ => []

/-- Bytes written to the child. -/
def wroteBytes (trace : List PumpAction) : List UInt8 := trace.flatMap wroteOn

/-- A closed input has been given every accepted block, in the order of the
pushes. -/
def Delivered (pair : System×List (List UInt8)) : Prop :=
  pair.1.shared.stdinOpen=false → wroteBytes pair.1.shared.trace=pair.2.flatten

instance (pair : System×List (List UInt8)) : Decidable (Delivered pair) :=
  inferInstanceAs (Decidable (_ → _))

/-- Nobody cancels, the child does not exit and no write fails. -/
def undisturbed (oracle : Oracle) : Pc → Bool
  | .pump .reap => decide (oracle.reaped=none)
  | .pump (.poll _) => decide (oracle.input≠.broken)
  | .pump (.write _) => decide (oracle.write≠.failed)
  | .owner (.ready _) => decide (oracle.call≠.cancel)
  | .bystander => decide (oracle.call≠.cancel)
  | _ => true

/-- A step that nothing disturbs. -/
abbrev Undisturbed (pool : System) (label : ℕ×Oracle) : Prop :=
  undisturbed label.2 (pool.pcs label.1)=true

/-- The poll of the pump does not fail, and the closed flag is not set while
the pump stands between its two looks over a queued block. -/
def closesApart (oracle : Oracle) (shared : Shared) (pump : Pc) : Pc → Bool
  | .pump (.poll _) => decide (oracle.poll≠.failed)
  | .owner .closeStore => decide (pump=.pump .readClosed → shared.stdinQueue=[])
  | _ => true

/-- A step that closes apart. -/
abbrev ClosesApart (pool : System) (label : ℕ×Oracle) : Prop :=
  closesApart label.2 pool.shared (pool.pcs 0) (pool.pcs label.1)=true

/-- A poll that found neither a cancel nor a broken input. -/
def calmReady (ready : Ready) : Bool := !ready.cancel && decide (ready.input≠.broken)

/-- A channel that is read in the main loop. -/
def calmSite : Site → Bool
  | .loop ready => calmReady ready
  | .drain _ => false

/-- An event that was read in the main loop. -/
def calmReturn : Return → Bool
  | .reading site _ _ => calmSite site
  | _ => false

/-- Points of the main loop that an undisturbed pump visits. -/
def calm : PumpPoint → Bool
  | .reap => true
  | .deadline => true
  | .stdin => true
  | .readClosed => true
  | .pressure => true
  | .poll _ => true
  | .drainStdin ready => calmReady ready
  | .write ready => calmReady ready
  | .service site _ => calmSite site
  | .read site _ _ => calmSite site
  | .queue _ back => calmReturn back
  | .count _ back => calmReturn back
  | .signal back => calmReturn back
  | .cancel ready => calmReady ready
  | _ => false

/-- A push that has seen the input open. -/
def pushing : OwnerPoint → Bool
  | .pushEnqueue _ => true
  | .pushSignal _ => true
  | _ => false

/-- Bytes that are queued by a push that has not returned. -/
def inFlight : OwnerPoint → List UInt8
  | .pushSignal bytes => bytes
  | _ => []

/-- Bytes of the current block that are still to be written. -/
def unwritten (shared : Shared) : List UInt8 := shared.pending.drop shared.pendingOffset

/-- Where every accepted byte is. -/
structure BlocksInv (shared : Shared) (point : PumpPoint) (owner : OwnerPoint)
    (accepted : List (List UInt8)) : Prop where
  /-- The pump is in its main loop. -/
  calm : calm point=true
  /-- Nobody has cancelled. -/
  quiet : shared.cancelEvent=false ∧ shared.terminating=false ∧ owner≠.cancelSignal
  /-- It was written, is being written, or waits in the queue. -/
  flow : shared.stdinOpen=true → wroteBytes shared.trace++unwritten shared++
    shared.stdinQueue.flatten=accepted.flatten++inFlight owner
  /-- A closed input has been given everything. -/
  closed : shared.stdinOpen=false →
    wroteBytes shared.trace=accepted.flatten ∧ shared.pending=[] ∧ shared.stdinClosed=true
  /-- The owner does not push after it has closed. -/
  closing : shared.stdinClosed=true → pushing owner=false
  /-- Between its two looks the pump has nothing to write, and nothing is
  hidden behind the flag. -/
  probed : point=.readClosed → shared.stdinOpen=true ∧ shared.pending=[] ∧
    (shared.stdinClosed=true → shared.stdinQueue=[])

/-- A step that leaves the way of the bytes alone. -/
structure Keeps (before after : Shared) : Prop where
  queue : after.stdinQueue=before.stdinQueue
  pending : after.pending=before.pending
  offset : after.pendingOffset=before.pendingOffset
  opened : after.stdinOpen=before.stdinOpen
  closed : after.stdinClosed=before.stdinClosed
  cancelled : after.cancelEvent=before.cancelEvent
  terminating : after.terminating=before.terminating
  wrote : wroteBytes after.trace=wroteBytes before.trace

theorem Keeps.refl (shared : Shared) : Keeps shared shared := ⟨rfl,rfl,rfl,rfl,rfl,rfl,rfl,rfl⟩

/-- Bytes of two traces follow each other. -/
theorem wroteBytes_append (first second : List PumpAction) :
    wroteBytes (first++second)=wroteBytes first++wroteBytes second :=
  List.flatMap_append

/-- An action that is not a write leaves the written bytes alone. -/
theorem wroteBytes_snoc {trace : List PumpAction} {action : PumpAction}
    (h : wroteOn action=[]) : wroteBytes (trace++[action])=wroteBytes trace := by
  have hone : wroteBytes [action]=[] := (List.flatMap_singleton _ _).trans h
  rw [wroteBytes_append,hone,List.append_nil]

/-- Recording an action that writes nothing keeps what was written. -/
theorem Keeps.record (shared : Shared) {action : PumpAction} (h : wroteOn action=[]) :
    Keeps shared (record action shared) :=
  ⟨rfl,rfl,rfl,rfl,rfl,rfl,rfl,wroteBytes_snoc h⟩

/-- A step that keeps the way of the bytes keeps the account of them. -/
theorem BlocksInv.keeps {before after : Shared} {point later : PumpPoint} {owner : OwnerPoint}
    {accepted : List (List UInt8)} (inv : BlocksInv before point owner accepted)
    (hkeeps : Keeps before after) (hcalm : ProcessHandover.calm later=true)
    (hlater : later≠.readClosed) : BlocksInv after later owner accepted := by
  refine ⟨hcalm,⟨?_,?_,inv.quiet.2.2⟩,?_,?_,?_,fun h => absurd h hlater⟩
  · rw [hkeeps.cancelled]
    exact inv.quiet.1
  · rw [hkeeps.terminating]
    exact inv.quiet.2.1
  · dsimp only [unwritten]
    rw [hkeeps.opened,hkeeps.wrote,hkeeps.pending,hkeeps.offset,hkeeps.queue]
    exact inv.flow
  · rw [hkeeps.opened,hkeeps.wrote,hkeeps.pending,hkeeps.closed]
    exact inv.closed
  · rw [hkeeps.closed]
    exact inv.closing

variable {shared : Shared} {point : PumpPoint} {owner : OwnerPoint}
  {accepted : List (List UInt8)} {oracle : Oracle}

/-- What is left of a list after a piece of its front. -/
theorem drop_length_take (count : ℕ) (bytes : List UInt8) :
    bytes.drop (bytes.take count).length=bytes.drop count := by
  rw [List.length_take]
  rcases Nat.le_total count bytes.length with hle | hle
  · rw [Nat.min_eq_left hle]
  · rw [Nat.min_eq_right hle,List.drop_length,List.drop_eq_nil_of_le hle]

/-- A write moves bytes from the current block to the child. -/
theorem advance_flow (count : ℕ) (shared : Shared) :
    wroteBytes (advance count shared).trace++unwritten (advance count shared)=
      wroteBytes shared.trace++unwritten shared := by
  have hsplit : writtenBytes count shared++(unwritten shared).drop count=unwritten shared :=
    List.take_append_drop count (unwritten shared)
  have hrest : shared.pending.drop (shared.pendingOffset+(writtenBytes count shared).length)=
      (unwritten shared).drop count := by
    rw [← List.drop_drop]
    exact drop_length_take count (unwritten shared)
  have hwrote : wroteBytes (shared.trace++[.wrote (writtenBytes count shared)])=
      wroteBytes shared.trace++writtenBytes count shared := by
    rw [wroteBytes_append]
    exact congrArg _ (List.flatMap_singleton _ _)
  dsimp only [advance]
  split
  · rfl
  · split
    · rename_i hfull
      have hnone : (unwritten shared).drop count=[] := by
        rw [← hrest]
        exact List.drop_eq_nil_of_le hfull
      rw [hnone,List.append_nil] at hsplit
      dsimp only [record,unwritten]
      rw [hwrote,List.drop_nil,List.append_nil,hsplit]
      rfl
    · dsimp only [record,unwritten]
      rw [hwrote,hrest,List.append_assoc,hsplit]
      rfl

/-- A write leaves everything else alone. -/
theorem advance_frame (count : ℕ) (shared : Shared) :
    (advance count shared).stdinQueue=shared.stdinQueue ∧
      (advance count shared).stdinOpen=shared.stdinOpen ∧
      (advance count shared).stdinClosed=shared.stdinClosed ∧
      (advance count shared).cancelEvent=shared.cancelEvent ∧
      (advance count shared).terminating=shared.terminating := by
  dsimp only [advance]
  split
  · exact ⟨rfl,rfl,rfl,rfl,rfl⟩
  · split <;> exact ⟨rfl,rfl,rfl,rfl,rfl⟩

/-- Without a block nothing is written. -/
theorem advance_of_nil (count : ℕ) (h : shared.pending=[]) : advance count shared=shared := by
  have hnone : writtenBytes count shared=[] := by
    unfold writtenBytes
    rw [h,List.drop_nil,List.take_nil]
  exact if_pos hnone

/-- A write keeps account of the bytes. -/
theorem advance_blocks (count : ℕ) {later : PumpPoint}
    (inv : BlocksInv shared point owner accepted) (hcalm : calm later=true)
    (hlater : later≠.readClosed) : BlocksInv (advance count shared) later owner accepted := by
  obtain ⟨hqueue,hopen,hclosed,hcancel,hterminating⟩ := advance_frame count shared
  cases hstdin : shared.stdinOpen with
  | false =>
    rw [advance_of_nil count (inv.closed hstdin).2.1]
    exact inv.keeps (.refl shared) hcalm hlater
  | true =>
    refine ⟨hcalm,⟨?_,?_,inv.quiet.2.2⟩,?_,?_,?_,fun h => absurd h hlater⟩
    · rw [hcancel]
      exact inv.quiet.1
    · rw [hterminating]
      exact inv.quiet.2.1
    · intro _
      rw [advance_flow,hqueue]
      exact inv.flow hstdin
    · intro hnot
      rw [hopen,hstdin] at hnot
      cases hnot
    · rw [hclosed]
      exact inv.closing

/-- The next block is taken once the last one is written. -/
theorem stdinStep_blocks (inv : BlocksInv shared .stdin owner accepted) :
    BlocksInv (stdinStep shared).1 (stdinStep shared).2 owner accepted := by
  unfold stdinStep
  split
  · rename_i hready
    rw [Bool.and_eq_true,decide_eq_true_eq] at hready
    obtain ⟨hopen,hwritten⟩ := hready
    have hnone : unwritten shared=[] := List.drop_eq_nil_of_le hwritten
    have hflow := inv.flow hopen
    rw [hnone,List.append_nil] at hflow
    split
    · rename_i block rest hqueue
      rw [hqueue,List.flatten_cons,← List.append_assoc] at hflow
      refine ⟨rfl,inv.quiet,fun _ => hflow,?_,inv.closing,nofun⟩
      intro hnot
      rw [hopen] at hnot
      cases hnot
    · rename_i hqueue
      rw [hqueue] at hflow
      refine ⟨rfl,inv.quiet,?_,?_,inv.closing,fun _ => ⟨hopen,rfl,fun _ => hqueue⟩⟩
      · intro _
        dsimp only [unwritten]
        rw [hqueue,List.drop_nil,List.append_nil]
        exact hflow
      · intro hnot
        rw [hopen] at hnot
        cases hnot
  · exact inv.keeps (.refl shared) rfl nofun

/-- The input is closed only when everything is written. -/
theorem readClosed_blocks (inv : BlocksInv shared .readClosed owner accepted) :
    BlocksInv (if shared.stdinClosed then closeStdinChannel shared else shared) .pressure owner
      accepted := by
  split
  · rename_i hclosed
    obtain ⟨hopen,hpending,hqueue⟩ := inv.probed rfl
    have hpush := inv.closing hclosed
    have hflight : inFlight owner=[] := by
      cases owner with
      | pushSignal bytes => cases hpush
      | _ => rfl
    have hflow := inv.flow hopen
    dsimp only [unwritten] at hflow
    rw [hpending,List.drop_nil,List.append_nil,hqueue hclosed,List.flatten_nil,List.append_nil,
      hflight,List.append_nil] at hflow
    refine ⟨rfl,inv.quiet,nofun,fun _ => ⟨?_,rfl,hclosed⟩,fun _ => hpush,nofun⟩
    dsimp only [closeStdinChannel]
    rw [if_pos hopen,wroteBytes_snoc rfl]
    exact hflow
  · exact inv.keeps (.refl shared) rfl nofun

/-- A calm poll finds neither a cancel nor a broken input. -/
theorem polled_calm (pressure : Bool) (hcancel : shared.cancelEvent=false)
    (hinput : oracle.input≠.broken) : calmReady (polled oracle shared pressure)=true := by
  dsimp only [polled,calmReady]
  rw [hcancel]
  refine Bool.and_eq_true_iff.mpr ⟨rfl,decide_eq_true ?_⟩
  split
  · exact hinput
  · nofun

/-- After a channel of the main loop the pump stays in the main loop. -/
theorem afterService_calm {site : Site} (hsite : calmSite site=true) (shared : Shared)
    (channel : Channel) (count : ℕ) :
    calm (afterService shared site channel count)=true ∧
      afterService shared site channel count≠.readClosed := by
  cases site with
  | drain drained => cases hsite
  | loop ready =>
    cases channel with
    | stderr => exact ⟨hsite,nofun⟩
    | stdout =>
      dsimp only [afterService]
      split <;> exact ⟨hsite,nofun⟩

/-- A read leaves the way of the bytes alone. -/
theorem readStep_blocks {site : Site} {channel : Channel} {count : ℕ} (hsite : calmSite site=true)
    (inv : BlocksInv shared point owner accepted) :
    BlocksInv (readStep oracle site channel count shared).1
      (readStep oracle site channel count shared).2 owner accepted := by
  have hservice : ∀ after, Keeps shared after →
      BlocksInv after (afterService after site channel count) owner accepted := by
    intro after hkeeps
    obtain ⟨hcalm,hne⟩ := afterService_calm hsite after channel count
    exact inv.keeps hkeeps hcalm hne
  have hclose : Keeps shared (closeOutputChannel shared channel) := by
    cases channel <;> exact ⟨rfl,rfl,rfl,rfl,rfl,rfl,rfl,rfl⟩
  unfold readStep
  split
  · exact hservice shared (.refl shared)
  · split
    · exact hservice shared (.refl shared)
    · exact hservice _ hclose
    · rename_i bytes _
      dsimp only
      generalize bytes.take (min readBufferBytes (readBudgetBytes-count))=chunk
      have hread : Keeps shared (record (.read channel chunk) shared) := .record shared rfl
      split
      · exact hservice _ hclose
      · split
        · refine inv.keeps ⟨rfl,rfl,rfl,rfl,rfl,rfl,rfl,?_⟩ hsite nofun
          exact (wroteBytes_snoc rfl).trans hread.wrote
        · exact inv.keeps hread hsite nofun

/-- Serving the input keeps account of the bytes. -/
theorem writeStep_blocks {ready : Ready} (hready : calmReady ready=true)
    (hwrite : oracle.write≠.failed) (inv : BlocksInv shared point owner accepted) :
    BlocksInv (writeStep oracle ready shared) (afterWrite ready) owner accepted := by
  have hcalm : calm (afterWrite ready)=true ∧ afterWrite ready≠.readClosed := by
    unfold afterWrite
    (repeat' split) <;> exact ⟨hready,nofun⟩
  have hinput := (Bool.and_eq_true_iff.mp hready).2
  unfold writeStep
  split
  · exact inv.keeps (.refl shared) hcalm.1 hcalm.2
  · rename_i hbroken
    exact absurd hbroken (of_decide_eq_true hinput)
  · split
    · exact advance_blocks _ inv hcalm.1 hcalm.2
    · exact inv.keeps (.refl shared) hcalm.1 hcalm.2
    · rename_i hfailed
      exact absurd hfailed hwrite

/-- Every step of an undisturbed pump keeps account of the bytes. -/
theorem pump_blocks (inv : BlocksInv shared point owner accepted)
    (hscope : undisturbed oracle (.pump point)=true)
    (hpoll : ∀ pressure, point=.poll pressure → oracle.poll≠.failed) :
    BlocksInv (nextPump oracle shared point).1 (nextPump oracle shared point).2 owner accepted := by
  have hcalm := inv.calm
  cases point with
  | reap =>
    have hreaped : oracle.reaped=none := of_decide_eq_true hscope
    dsimp only [nextPump,reapStep]
    rw [hreaped]
    exact inv.keeps (.refl shared) rfl nofun
  | deadline =>
    dsimp only [nextPump,deadlineStep]
    rw [inv.quiet.2.1]
    exact inv.keeps (.refl shared) rfl nofun
  | stdin => exact stdinStep_blocks inv
  | readClosed => exact readClosed_blocks inv
  | pressure => exact inv.keeps (.refl shared) rfl nofun
  | poll pressure =>
    have hinput : oracle.input≠.broken := of_decide_eq_true hscope
    dsimp only [nextPump]
    split
    · rename_i hfailed
      exact absurd hfailed (hpoll pressure rfl)
    · exact inv.keeps (.refl shared) rfl nofun
    · exact inv.keeps (.refl shared) rfl nofun
    · exact inv.keeps (.refl shared) (polled_calm pressure inv.quiet.1 hinput) nofun
  | drainStdin ready =>
    dsimp only [nextPump]
    split
    · exact inv.keeps ⟨rfl,rfl,rfl,rfl,rfl,rfl,rfl,rfl⟩ hcalm nofun
    · exact inv.keeps (.refl shared) hcalm nofun
  | write ready => exact writeStep_blocks hcalm (of_decide_eq_true hscope) inv
  | service site channel =>
    obtain ⟨hlater,hne⟩ := afterService_calm hcalm shared channel 0
    dsimp only [nextPump]
    split
    · exact inv.keeps (.refl shared) hlater hne
    · exact inv.keeps (.refl shared) hcalm nofun
  | read site channel count => exact readStep_blocks hcalm inv
  | queue event back => exact inv.keeps ⟨rfl,rfl,rfl,rfl,rfl,rfl,rfl,wroteBytes_snoc rfl⟩ hcalm nofun
  | count size back =>
    dsimp only [nextPump]
    exact inv.keeps ⟨rfl,rfl,rfl,rfl,rfl,rfl,rfl,rfl⟩ hcalm nofun
  | signal back =>
    cases back with
    | reading site channel count => exact inv.keeps ⟨rfl,rfl,rfl,rfl,rfl,rfl,rfl,rfl⟩ hcalm nofun
    | _ => cases hcalm
  | cancel ready =>
    have hready : ready.cancel=false :=
      (Bool.not_eq_true' _).mp (Bool.and_eq_true_iff.mp hcalm).1
    dsimp only [nextPump]
    rw [hready]
    exact inv.keeps (.refl shared) rfl nofun
  | _ => cases hcalm

/-- A block that is not accepted yet, or an empty one, adds no bytes. -/
theorem flatten_snoc_nil (blocks : List (List UInt8)) : (blocks++[[]]).flatten=blocks.flatten := by
  rw [List.flatten_append]
  exact List.append_nil _

/-- A step of the owner that pushes nothing and closes nothing. -/
theorem BlocksInv.idle {after : Shared} {later : OwnerPoint}
    (inv : BlocksInv shared point owner accepted) (hkeeps : Keeps shared after)
    (hflight : inFlight owner=[]) (hpush : pushing later=false) (hlater : later≠.cancelSignal) :
    BlocksInv after point later accepted := by
  have hnone : inFlight later=[] := by
    cases later with
    | pushSignal bytes => cases hpush
    | _ => rfl
  refine ⟨inv.calm,⟨?_,?_,hlater⟩,?_,?_,fun _ => hpush,?_⟩
  · rw [hkeeps.cancelled]
    exact inv.quiet.1
  · rw [hkeeps.terminating]
    exact inv.quiet.2.1
  · dsimp only [unwritten]
    rw [hkeeps.opened,hkeeps.wrote,hkeeps.pending,hkeeps.offset,hkeeps.queue,hnone,← hflight]
    exact inv.flow
  · rw [hkeeps.opened,hkeeps.wrote,hkeeps.pending,hkeeps.closed]
    exact inv.closed
  · rw [hkeeps.opened,hkeeps.pending,hkeeps.closed,hkeeps.queue]
    exact inv.probed

/-- While a push has seen the input open, it is open. -/
theorem BlocksInv.open_of_pushing (inv : BlocksInv shared point owner accepted)
    (h : pushing owner=true) : shared.stdinOpen=true ∧ shared.stdinClosed=false := by
  have hclosed : shared.stdinClosed=false := by
    by_contra hnot
    rw [inv.closing (Bool.eq_true_of_not_eq_false hnot)] at h
    cases h
  refine ⟨?_,hclosed⟩
  by_contra hnot
  have hset := (inv.closed (Bool.eq_false_of_not_eq_true hnot)).2.2
  rw [hclosed] at hset
  cases hset

/-- What the owner's step adds to the accepted blocks. -/
def acceptedBy (oracle : Oracle) : OwnerPoint → List (List UInt8)
  | .pushSignal bytes => [bytes]
  | .ready _ => if oracle.call=.pushStdin [] then [[]] else []
  | _ => []

/-- The owner begins a call. -/
theorem begin_blocks {last : Option Reply} (hcall : oracle.call≠.cancel)
    (inv : BlocksInv shared point (.ready last) accepted) :
    BlocksInv shared point (begin oracle.call) accepted := by
  cases hcase : oracle.call with
  | pushStdin bytes =>
    dsimp only [begin]
    split <;> exact inv.idle (.refl shared) rfl rfl nofun
  | cancel => exact absurd hcase hcall
  | _ => exact inv.idle (.refl shared) rfl rfl nofun

/-- Every step of an owner that does not cancel keeps account of the bytes. -/
theorem owner_blocks (inv : BlocksInv shared point owner accepted)
    (hscope : undisturbed oracle (.owner owner)=true)
    (hclose : owner=.closeStore → point=.readClosed → shared.stdinQueue=[]) :
    BlocksInv (nextOwner oracle shared owner).1 point (nextOwner oracle shared owner).2
      (accepted++acceptedBy oracle owner) := by
  have hkeep : acceptedBy oracle owner=[] → accepted++acceptedBy oracle owner=accepted := by
    intro hnone
    rw [hnone,List.append_nil]
  cases owner with
  | ready last =>
    have hbegin := begin_blocks (of_decide_eq_true hscope) inv
    dsimp only [nextOwner,acceptedBy]
    split
    · refine ⟨hbegin.calm,hbegin.quiet,?_,?_,hbegin.closing,hbegin.probed⟩
      · rw [flatten_snoc_nil]
        exact hbegin.flow
      · rw [flatten_snoc_nil]
        exact hbegin.closed
    · rw [List.append_nil]
      exact hbegin
  | pushClosed bytes =>
    rw [hkeep rfl]
    dsimp only [nextOwner]
    split
    · exact inv.idle (.refl shared) rfl rfl nofun
    · rename_i hopen
      refine ⟨inv.calm,⟨inv.quiet.1,inv.quiet.2.1,nofun⟩,inv.flow,inv.closed,?_,inv.probed⟩
      exact fun hclosed => absurd hclosed hopen
  | pushEnqueue bytes =>
    rw [hkeep rfl]
    obtain ⟨hopen,hclosed⟩ := inv.open_of_pushing rfl
    dsimp only [nextOwner]
    split
    · exact inv.idle (.refl shared) rfl rfl nofun
    · refine ⟨inv.calm,⟨inv.quiet.1,inv.quiet.2.1,nofun⟩,?_,?_,?_,?_⟩
      · intro _
        have hflow := inv.flow hopen
        dsimp only [unwritten,inFlight] at hflow ⊢
        rw [List.flatten_append,← List.append_assoc,hflow,List.append_nil]
        exact congrArg _ (List.append_nil _)
      · intro hnot
        rw [hopen] at hnot
        cases hnot
      · intro hset
        rw [hclosed] at hset
        cases hset
      · intro hpoint
        obtain ⟨hstdin,hpending,_⟩ := inv.probed hpoint
        refine ⟨hstdin,hpending,?_⟩
        intro hset
        rw [hclosed] at hset
        cases hset
  | pushSignal bytes =>
    obtain ⟨hopen,hclosed⟩ := inv.open_of_pushing rfl
    dsimp only [nextOwner,acceptedBy]
    refine ⟨inv.calm,⟨inv.quiet.1,inv.quiet.2.1,nofun⟩,?_,?_,fun _ => rfl,inv.probed⟩
    · intro _
      rw [List.flatten_append]
      refine (inv.flow hopen).trans ?_
      dsimp only [inFlight,returns]
      rw [List.append_nil]
      exact congrArg _ (List.append_nil _).symm
    · intro hnot
      rw [hopen] at hnot
      cases hnot
  | closeStore =>
    rw [hkeep rfl]
    refine ⟨inv.calm,⟨inv.quiet.1,inv.quiet.2.1,nofun⟩,inv.flow,?_,fun _ => rfl,?_⟩
    · intro hnot
      obtain ⟨hwrote,hpending,_⟩ := inv.closed hnot
      exact ⟨hwrote,hpending,rfl⟩
    · intro hpoint
      obtain ⟨hopen,hpending,_⟩ := inv.probed hpoint
      exact ⟨hopen,hpending,fun _ => hclose rfl hpoint⟩
  | pop waits =>
    rw [hkeep rfl]
    dsimp only [nextOwner]
    split
    · exact inv.idle ⟨rfl,rfl,rfl,rfl,rfl,rfl,rfl,rfl⟩ rfl rfl nofun
    · cases waits <;> exact inv.idle (.refl shared) rfl rfl nofun
  | popCount event =>
    rw [hkeep rfl]
    dsimp only [nextOwner]
    exact inv.idle ⟨rfl,rfl,rfl,rfl,rfl,rfl,rfl,rfl⟩ rfl rfl nofun
  | pollWake =>
    rw [hkeep rfl]
    dsimp only [nextOwner]
    split <;> exact inv.idle (.refl shared) rfl rfl nofun
  | exited waits last =>
    rw [hkeep rfl]
    dsimp only [nextOwner,exitedNext]
    (repeat' split) <;> exact inv.idle (.refl shared) rfl rfl nofun
  | exitPoll =>
    rw [hkeep rfl]
    dsimp only [nextOwner]
    split
    · exact inv.idle ⟨rfl,rfl,rfl,rfl,rfl,rfl,rfl,rfl⟩ rfl rfl nofun
    · exact inv.idle (.refl shared) rfl rfl nofun
  | cancelSignal => exact absurd rfl inv.quiet.2.2
  | closeSignal =>
    rw [hkeep rfl]
    exact inv.idle ⟨rfl,rfl,rfl,rfl,rfl,rfl,rfl,rfl⟩ rfl rfl nofun
  | drainWake =>
    rw [hkeep rfl]
    exact inv.idle ⟨rfl,rfl,rfl,rfl,rfl,rfl,rfl,rfl⟩ rfl rfl nofun
  | pushFinished bytes =>
    rw [hkeep rfl]
    dsimp only [nextOwner]
    split <;> exact inv.idle (.refl shared) rfl rfl nofun
  | readFinished =>
    rw [hkeep rfl]
    dsimp only [nextOwner]
    split <;> exact inv.idle (.refl shared) rfl rfl nofun
  | remaining =>
    rw [hkeep rfl]
    dsimp only [nextOwner]
    split <;> exact inv.idle (.refl shared) rfl rfl nofun
  | exitRemaining =>
    rw [hkeep rfl]
    dsimp only [nextOwner]
    split <;> exact inv.idle (.refl shared) rfl rfl nofun

/-- The owner has its block accepted. -/
theorem observeAccepted_owner {pool : System} (roles : Roles pool point owner) :
    observeAccepted accepted pool (1,oracle)=accepted++acceptedBy oracle owner := by
  dsimp only [observeAccepted]
  rw [roles.owner]
  cases owner with
  | pushSignal bytes => rfl
  | ready last =>
    dsimp only [acceptedBy]
    split
    · rfl
    · exact (List.append_nil _).symm
  | _ => exact (List.append_nil _).symm

theorem observeAccepted_pump {pool : System} (roles : Roles pool point owner) :
    observeAccepted accepted pool (0,oracle)=accepted := by
  dsimp only [observeAccepted]
  rw [roles.pump]

theorem observeAccepted_rest {pool : System} (roles : Roles pool point owner) {thread : ℕ}
    (h : 2 ≤ thread) : observeAccepted accepted pool (thread,oracle)=accepted := by
  dsimp only [observeAccepted]
  rw [roles.rest thread h]

/-- Every undisturbed step that closes apart keeps account of the bytes. -/
theorem machine_blocks (pair : System×List (List UInt8)) (label : ℕ×Oracle)
    (inv : Holds BlocksInv pair) (hguard : Undisturbed pair.1 label ∧ ClosesApart pair.1 label) :
    Holds BlocksInv (observed machine observeAccepted pair label) := by
  refine holds_step (fun pool label => Undisturbed pool label ∧ ClosesApart pool label) ?_ ?_ ?_
    pair label inv hguard
  · intro pool accepted point owner oracle roles hinv hboth
    obtain ⟨hscope,hapart⟩ := hboth
    dsimp only [Undisturbed,ClosesApart] at hscope hapart
    rw [roles.pump] at hscope hapart
    rw [observeAccepted_pump roles]
    refine pump_blocks hinv hscope ?_
    intro pressure hpoint
    rw [hpoint] at hapart
    exact of_decide_eq_true hapart
  · intro pool accepted point owner oracle roles hinv hboth
    obtain ⟨hscope,hapart⟩ := hboth
    dsimp only [Undisturbed,ClosesApart] at hscope hapart
    rw [roles.owner] at hscope hapart
    rw [observeAccepted_owner roles]
    refine owner_blocks hinv hscope ?_
    intro howner hpoint
    rw [howner,roles.pump,hpoint] at hapart
    exact of_decide_eq_true hapart rfl
  · intro pool accepted point owner thread oracle roles hthread hinv hboth
    have hscope := hboth.1
    dsimp only [Undisturbed] at hscope
    rw [roles.rest thread hthread] at hscope
    have hcall : oracle.call≠.cancel := of_decide_eq_true hscope
    rw [observeAccepted_rest roles hthread]
    dsimp only [bystanderStep]
    rw [if_neg hcall]
    exact hinv

/-- The invariant of the blocks holds at the start. -/
theorem startup_blocks (sinks : Sinks) : Holds BlocksInv (startup sinks,[]) :=
  ⟨_,_,startup_roles sinks,rfl,⟨rfl,rfl,nofun⟩,fun _ => rfl,nofun,nofun,nofun⟩

/-- In every undisturbed run that closes apart from the looks of the pump, a
closed input has been given every accepted block. -/
theorem input_closed_last_of_apart_run (sinks : Sinks) (schedule : List (ℕ×Oracle))
    (hscope : Along machine Undisturbed (startup sinks) schedule)
    (hapart : Along machine ClosesApart (startup sinks) schedule) :
    Delivered (run (observed machine observeAccepted) (startup sinks,[]) schedule) := by
  have hguard : Along (observed machine observeAccepted)
      (fun pair label => Undisturbed pair.1 label ∧ ClosesApart pair.1 label)
      (startup sinks,[]) schedule :=
    (along_observed fun pool label => Undisturbed pool label ∧ ClosesApart pool label).mpr
      (along_and.mpr ⟨hscope,hapart⟩)
  obtain ⟨point,owner,_,hinv⟩ := Along.invariant machine_blocks hguard (startup_blocks sinks)
  exact fun hopen => (hinv.closed hopen).1

/-- The owner pushes two bytes and closes the input. -/
def pushesAndCloses : List (ℕ×Oracle) :=
  [calls (.pushStdin [1,2]),goesOn 1,goesOn 1,goesOn 1,goesOn 1,calls .closeStdin,goesOn 1,goesOn 1]

/-- One round of the main loop whose write takes one byte. -/
def writesOne : List (ℕ×Oracle) :=
  [goesOn 0,goesOn 0,goesOn 0,goesOn 0,goesOn 0,goesOn 0,(0,{write := .wrote 1}),goesOn 0]

/-- The pump writes both bytes and then closes the input. -/
def inputWritten : List (ℕ×Oracle) :=
  pushesAndCloses++writesOne++writesOne++[goesOn 0,goesOn 0,goesOn 0,goesOn 0]

/-- The input is closed after both bytes. -/
theorem input_closed_after_bytes :
    Delivered (run (observed machine observeAccepted) (startup {},[]) inputWritten) ∧
      (run machine (startup {}) inputWritten).shared.trace=[.wrote [1],.wrote [2],.closedStdin] :=
  ⟨input_closed_last_of_apart_run {} inputWritten (by decide +kernel) (by decide +kernel),
    by decide +kernel⟩

/-- The pump looks at the empty queue, the owner pushes and closes, and the
pump looks at the flag. -/
def inputCut : List (ℕ×Oracle) :=
  [goesOn 0,goesOn 0,goesOn 0]++pushesAndCloses++[goesOn 0]

/-- The input is closed before an accepted block is written. -/
theorem accepted_block_lost :
    ¬Delivered (run (observed machine observeAccepted) (startup {},[]) inputCut) ∧
      Along machine Undisturbed (startup {}) inputCut ∧
      (run (observed machine observeAccepted) (startup {},[]) inputCut).2=[[1,2]] ∧
      (run machine (startup {}) inputCut).shared.trace=[.closedStdin] :=
  ⟨by decide +kernel,by decide +kernel,by decide +kernel,by decide +kernel⟩

end Blocks

end Vinput.ProcessHandover
