import Vinput.PinnedProcess

/-!
# Whom a termination reaches and what it reports

A descriptor is opened before the identity is checked. If the check finds
the recorded process, that process held the number all the time since the
record was made, so the descriptor pins it. An exit is reported when the
number was lost, the descriptor became readable or the identity is gone; the
last is mistaken when a read fails.
-/

namespace Vinput.TerminateOutcome

open InterleavedRuns PinnedProcess ProcessTable

section Answers

variable {table : PinnedProcess.Table} {pid : Int32} {start : UInt64} {answer : Answer}

/-- The holder that was found owns the identity. -/
theorem holder_ok (h : holder table pid answer=.ok start) : table.Owns pid start := by
  simp only [holder] at h
  split at h
  · cases h
  · split at h
    · next begin running hoccupant =>
      cases h
      exact ⟨running,hoccupant⟩
    · cases h

/-- That no process holds a number is only said when it is true. -/
theorem holder_gone (h : holder table pid answer=.error esrch) : ¬table.Owns pid start := by
  rintro ⟨running,hoccupant⟩
  simp only [holder,hoccupant] at h
  split at h
  · next refusal _ =>
    simp only [Except.error.injEq] at h
    exact refusal.notGone h
  · cases h

/-- A signal that was sent went to the pinned instance. -/
theorem sendSignalViaPidFd_ok {pinned : UInt64}
    (h : sendSignalViaPidFd table pid pinned answer=.ok start) : start=pinned := by
  simp only [sendSignalViaPidFd] at h
  split at h
  · cases h
  · split_ifs at h
    cases h
    rfl

/-- When nothing was there, the pinned instance is gone. -/
theorem sendSignalViaPidFd_gone {pinned : UInt64}
    (h : sendSignalViaPidFd table pid pinned answer=.error esrch) : ¬table.Owns pid pinned := by
  intro howns
  simp only [sendSignalViaPidFd,if_pos howns] at h
  split at h
  · next refusal _ =>
    simp only [Except.error.injEq] at h
    exact refusal.notGone h
  · cases h

/-- A check that finds the identity found the process. -/
theorem owns_of_matches (h : processIdentityMatches table pid start answer=true) :
    table.Owns pid start := by
  rw [processIdentityMatches] at h
  split_ifs at h with hrecord
  simp only [not_or] at hrecord
  obtain ⟨hpid,hstart⟩ := hrecord
  have htime : processStartTime table pid answer=start := of_decide_eq_true h
  rw [processStartTime,if_neg hpid] at htime
  split_ifs at htime with hfails
  · exact absurd htime.symm hstart
  · cases hoccupant : table.occupant pid with
    | none =>
      rw [hoccupant] at htime
      exact absurd htime.symm hstart
    | some holder =>
      obtain ⟨begin,running⟩ := holder
      rw [hoccupant] at htime
      dsimp only at htime
      subst htime
      exact ⟨running,hoccupant⟩

/-- A check that does not find it was not answered or found another one. -/
theorem not_owns_of_not_matches (hpid : 0<pid) (hstart : start≠0)
    (h : processIdentityMatches table pid start answer=false) :
    answer.readFails=true ∨ ¬table.Owns pid start := by
  by_cases hfails : answer.readFails=true
  · exact .inl hfails
  refine .inr ?_
  rintro ⟨running,hoccupant⟩
  have hpositive : ¬pid≤0 := by
    simpa using hpid
  rw [processIdentityMatches,if_neg (not_or.mpr ⟨hpositive,hstart⟩)] at h
  have htime : processStartTime table pid answer=start := by
    rw [processStartTime,if_neg hpositive,if_neg hfails,hoccupant]
  exact of_decide_eq_false h htime

/-- A poll that reports the exit is right. -/
theorem pollPidFd_exited {attempt : ℕ} {pinned : UInt64}
    (h : pollState attempt (pollPidFd table pid pinned answer)=some .exited) :
    ¬table.Running pid pinned := by
  intro hrunning
  simp only [pollPidFd,if_pos hrunning] at h
  split at h
  · simp only [pollState] at h
    split_ifs at h
    cases h
  · split_ifs at h
    · cases h
    · cases h

end Answers

section Signals

variable (strerror : Int32 → String) (call : Call)

/-- The observer knows of the descriptor, which pins the recorded process. -/
def Held (history : History) (process : Pinned) : Prop :=
  history.pinned=process.pidfd.isSome ∧ ∀ pinned∈process.pidfd, pinned=call.startTime

/-- What a step of the call relies on. Before the check the descriptor may
pin another process, but only if the recorded one has lost its number. -/
def PinInv (table : PinnedProcess.Table) (history : History) : Pc → Prop
  | .enter => history.pinned=false ∧ history.sent=[]
  | .openPin => history.pinned=false ∧ history.sent=[]
  | .identify process =>
    history.pinned=process.pidfd.isSome ∧ history.sent=[] ∧
      (∀ pinned∈process.pidfd, pinned=call.startTime ∨ table.Gone call.pid call.startTime) ∧
      (process.pinObservedNoSuchProcess=true → table.Gone call.pid call.startTime)
  | .signal process _ => Held call history process
  | .kill process _ => Held call history process ∧ process.pidfd=none ∧ history.owned=true
  | .beginWait process _ => Held call history process
  | .probe process _ _ _ _ => Held call history process
  | .clock process _ _ _ => Held call history process
  | .done _ => True

/-- With a descriptor the signals reached the recorded process; without one
it held the number at the check before each. -/
def SentInv (history : History) : Prop :=
  (history.pinned=true → ∀ sent∈history.sent, sent.target=call.startTime) ∧
    (history.pinned=false → ∀ sent∈history.sent, sent.ownedAtCheck=true)

variable {call} {table : PinnedProcess.Table} {history : History} {answer : Answer}
  {process : Pinned} {phase : Phase}

/-- Behind a signal the same instance is pinned. -/
theorem pinInv_afterSignal (held : Held call history process) (outcome : SignalOutcome×Int32) :
    PinInv call table history (afterSignal strerror process phase outcome) := by
  obtain ⟨outcome,errno⟩ := outcome
  cases outcome <;> cases phase <;> first | exact held | exact trivial

theorem pinInv_afterWait (held : Held call history process) (wait : ExitWait) :
    PinInv call table history (afterWait process phase wait) := by
  cases wait <;> cases phase <;> first | exact held | exact trivial

theorem pinInv_afterProbe {deadline : ℤ} {observedRunning : Bool}
    (held : Held call history process) (state : ProcessState) :
    PinInv call table history (afterProbe process phase deadline observedRunning state) := by
  cases state with
  | running => exact held
  | exited =>
    have hwait : PinInv call table history (afterWait process phase .exited) :=
      pinInv_afterWait held .exited
    exact hwait
  | unknown => exact held

/-- A signal that is noted pins nothing. -/
theorem deliver_pinned (history : History) (phase : Phase) (sent : Except Int32 UInt64) :
    (history.deliver phase sent).pinned=history.pinned := by
  cases sent <;> rfl

/-- A signal that is noted keeps the hold. -/
theorem held_deliver {sent : Except Int32 UInt64} (held : Held call history process) :
    Held call (history.deliver phase sent) process :=
  ⟨(deliver_pinned history phase sent).trans held.1,held.2⟩

theorem held_check (held : Held call history process) :
    Held call (history.check call table) process := held

theorem sentInv_check (h : SentInv call history) : SentInv call (history.check call table) := h

/-- A signal keeps the account if it reached the recorded process, or the
call has no descriptor and the last check found the process. -/
theorem sentInv_deliver {sent : Except Int32 UInt64} (h : SentInv call history)
    (hpinned : history.pinned=true → ∀ target, sent=.ok target → target=call.startTime)
    (howned : history.pinned=false → history.owned=true) :
    SentInv call (history.deliver phase sent) := by
  cases sent with
  | error errno => exact h
  | ok target =>
    refine ⟨fun hp sent hsent => ?_,fun hp sent hsent => ?_⟩
    · obtain hbefore | rfl := List.mem_append.mp hsent |>.imp_right List.mem_singleton.mp
      · exact h.1 hp sent hbefore
      · exact hpinned hp target rfl
    · obtain hbefore | rfl := List.mem_append.mp hsent |>.imp_right List.mem_singleton.mp
      · exact h.2 hp sent hbefore
      · exact howned hp

/-- A descriptor pins the recorded process, or that one has lost its number. -/
theorem openPidFd_recorded (hborn : (call.pid,call.startTime)∈table.born) {pinned : UInt64}
    (h : openPidFd table call.pid answer=.ok pinned) :
    pinned=call.startTime ∨ table.Gone call.pid call.startTime := by
  by_cases howns : table.Owns call.pid call.startTime
  · exact .inl ((holder_ok h).unique howns)
  · exact .inr ⟨hborn,howns⟩

/-- Once the identity is found behind an open descriptor, the number was
never lost, so the descriptor pins the recorded process. -/
theorem recorded_of_matches {pinned : UInt64}
    (h : pinned=call.startTime ∨ table.Gone call.pid call.startTime)
    (hmatches : processIdentityMatches table call.pid call.startTime answer=true) :
    pinned=call.startTime := by
  have howns : table.Owns call.pid call.startTime := owns_of_matches hmatches
  exact h.resolve_right fun hgone => hgone.2 howns

/-- One step of the call. -/
theorem next_kept (hborn : (call.pid,call.startTime)∈table.born) {pc : Pc}
    (hpin : PinInv call table history pc) (hsent : SentInv call history) :
    PinInv call table (observeCall call history answer table pc)
        (next strerror call answer table pc) ∧
      SentInv call (observeCall call history answer table pc) := by
  cases pc with
  | enter =>
    refine ⟨?_,hsent⟩
    rw [next]
    split_ifs
    · exact trivial
    · exact hpin
  | openPin =>
    obtain ⟨hpinned,hnone⟩ := hpin
    simp only [next,observeCall]
    cases hopen : openPidFd table call.pid answer with
    | error errno =>
      refine ⟨⟨hpinned,hnone,by simp,fun hseen => ?_⟩,hsent⟩
      obtain rfl : errno=esrch := by simpa [Pinned.pinObservedNoSuchProcess] using hseen
      exact ⟨hborn,holder_gone hopen⟩
    | ok pinned =>
      refine ⟨⟨rfl,hnone,fun other hother => ?_,fun hseen => ?_⟩,?_⟩
      · obtain rfl : pinned=other := by simpa using hother
        exact openPidFd_recorded hborn hopen
      · simp [Pinned.pinObservedNoSuchProcess] at hseen
      · rw [SentInv]
        simp [hnone]
  | identify process =>
    obtain ⟨hpinned,hnone,hholder,-⟩ := hpin
    have hempty : SentInv call (observeCall call history answer table (.identify process)) := by
      rw [observeCall]
      split_ifs
      · exact hsent
      · rw [SentInv,History.check]
        simp [hnone]
    refine ⟨?_,hempty⟩
    simp only [next]
    by_cases hstop : process.pinObservedNoSuchProcess=true ∨
        processIdentityMatches table call.pid call.startTime answer=false
    · rw [if_pos (by simpa using hstop)]
      exact trivial
    · obtain ⟨hseen,hmatches⟩ := not_or.mp hstop
      rw [if_neg (by simpa using hstop),observeCall,if_neg hseen]
      have hfound := Bool.eq_true_of_not_eq_false hmatches
      exact ⟨hpinned,fun pinned hmem => recorded_of_matches (hholder pinned hmem) hfound⟩
  | signal process phase =>
    simp only [next,observeCall]
    cases hfd : process.pidfd with
    | none =>
      have held : Held call (history.check call table) process := held_check hpin
      refine ⟨?_,sentInv_check hsent⟩
      dsimp only
      split_ifs with hmatches
      · exact ⟨held,hfd,decide_eq_true (owns_of_matches hmatches)⟩
      · exact pinInv_afterSignal strerror held _
    | some pinned =>
      have hpinned : history.pinned=true := by rw [hpin.1,hfd]; rfl
      have hrecorded : pinned=call.startTime := hpin.2 pinned hfd
      refine ⟨?_,sentInv_deliver hsent ?_ ?_⟩
      · dsimp only
        split_ifs
        · exact held_deliver hpin
        · exact pinInv_afterSignal strerror (held_deliver hpin) _
      · intro _ target htarget
        rw [sendSignalViaPidFd_ok htarget,hrecorded]
      · intro hnot
        rw [hpinned] at hnot
        cases hnot
  | kill process phase =>
    obtain ⟨held,hfd,howned⟩ := hpin
    have hpinned : history.pinned=false := by rw [held.1,hfd]; rfl
    refine ⟨?_,sentInv_deliver hsent ?_ fun _ => howned⟩
    · exact pinInv_afterSignal strerror (held_deliver held) _
    · intro hnot
      rw [hpinned] at hnot
      cases hnot
  | beginWait process phase => exact ⟨hpin,hsent⟩
  | probe process phase deadline observedRunning attempt =>
    simp only [next,observeCall]
    cases hfd : process.pidfd with
    | none =>
      exact ⟨pinInv_afterProbe (held_check hpin) _,sentInv_check hsent⟩
    | some pinned =>
      refine ⟨?_,hsent⟩
      simp only [Option.isNone_some,Bool.false_eq_true,if_false]
      cases pollState attempt (pollPidFd table call.pid pinned answer) with
      | some state => exact pinInv_afterProbe hpin state
      | none => exact hpin
  | clock process phase deadline observedRunning =>
    refine ⟨?_,hsent⟩
    rw [next]
    by_cases hlate : deadline≤answer.now
    · rw [if_pos hlate]
      exact pinInv_afterWait hpin _
    · rw [if_neg hlate]
      exact hpin
  | done result => exact ⟨trivial,hsent⟩

end Signals

section Outcomes

variable (strerror : Int32 → String) {call : Call} {table : PinnedProcess.Table}
  {history : History} {answer : Answer} {process : Pinned} {phase : Phase}

/-- An exit or a missing process is reported when the recorded process has
exited. -/
def Reported (call : Call) (table : PinnedProcess.Table) : Pc → Prop
  | .done result =>
    result.outcome=.exited ∨ result.outcome=.notFound → table.Ended call.pid call.startTime
  | _ => True

/-- What is reported behind a signal is true when a missing process has ended. -/
theorem reported_afterSignal {outcome : SignalOutcome×Int32}
    (h : outcome.1=.processGone → table.Ended call.pid call.startTime) :
    Reported call table (afterSignal strerror process phase outcome) := by
  obtain ⟨outcome,errno⟩ := outcome
  cases outcome with
  | delivered => cases phase <;> exact trivial
  | processGone => cases phase <;> exact fun _ => h rfl
  | failed => cases phase <;> exact fun hfailed => by simp at hfailed

/-- What is reported behind a wait is true when an exit that was seen is one. -/
theorem reported_afterWait {wait : ExitWait}
    (h : wait=.exited → table.Ended call.pid call.startTime) :
    Reported call table (afterWait process phase wait) := by
  cases wait with
  | exited => cases phase <;> exact fun _ => h rfl
  | stillRunning => cases phase <;> first | exact trivial | exact fun hstill => by simp at hstill
  | inconclusive => cases phase <;> first | exact trivial | exact fun hopen => by simp at hopen

theorem reported_afterProbe {deadline : ℤ} {observedRunning : Bool} {state : ProcessState}
    (h : state=.exited → table.Ended call.pid call.startTime) :
    Reported call table (afterProbe process phase deadline observedRunning state) := by
  cases state with
  | running => exact trivial
  | exited =>
    have hwait : Reported call table (afterWait process phase .exited) :=
      reported_afterWait fun _ => h rfl
    exact hwait
  | unknown => exact trivial

/-- Only one error means that the process is gone. -/
theorem signalOutcome_gone {α : Type} {sent : Except Int32 α}
    (h : (signalOutcome sent).1=.processGone) : sent=.error esrch := by
  cases sent with
  | ok target => cases h
  | error errno =>
    simp only [signalOutcome] at h
    split_ifs at h with hgone
    rw [hgone]

/-- Where reads fail only after the exit, a missing identity means that the
recorded process has exited. -/
theorem ended_of_not_matches (hborn : (call.pid,call.startTime)∈table.born)
    (hpid : 0<call.pid) (hstart : call.startTime≠0)
    (hreads : answer.readFails=true → ¬table.Running call.pid call.startTime)
    (h : processIdentityMatches table call.pid call.startTime answer=false) :
    table.Ended call.pid call.startTime := by
  refine ⟨hborn,?_⟩
  obtain hfails | howns := not_owns_of_not_matches hpid hstart h
  · exact hreads hfails
  · exact fun hrunning => howns hrunning.owns

/-- One step of the call in which no read fails while the process runs. -/
theorem next_reported (hborn : (call.pid,call.startTime)∈table.born) (hpid : 0<call.pid)
    (hstart : call.startTime≠0) {pc : Pc} (hpin : PinInv call table history pc)
    (hreads : readsIdentity pc=true → answer.readFails=true →
      ¬table.Running call.pid call.startTime) (h : Reported call table pc) :
    Reported call table (next strerror call answer table pc) := by
  cases pc with
  | enter =>
    have hrecord : ¬(call.pid≤0 ∨ call.startTime=0) := by
      refine not_or.mpr ⟨?_,hstart⟩
      simpa using hpid
    rw [next,if_neg hrecord]
    exact trivial
  | openPin =>
    rw [next]
    split <;> exact trivial
  | identify process =>
    rw [next]
    by_cases hseen : process.pinObservedNoSuchProcess=true
    · rw [if_pos (by simp [hseen])]
      exact fun _ => (hpin.2.2.2 hseen).ended
    · cases hmatches : processIdentityMatches table call.pid call.startTime answer with
      | true =>
        rw [if_neg (by simp [hseen])]
        exact trivial
      | false =>
        rw [if_pos (by simp)]
        exact fun _ => ended_of_not_matches hborn hpid hstart
          (hreads (by simp [readsIdentity,hseen])) hmatches
  | signal process phase =>
    simp only [next]
    cases hfd : process.pidfd with
    | none =>
      cases hmatches : processIdentityMatches table call.pid call.startTime answer with
      | true => exact trivial
      | false =>
        refine reported_afterSignal strerror fun _ => ?_
        exact ended_of_not_matches hborn hpid hstart (hreads (by simp [readsIdentity,hfd]))
          hmatches
    | some pinned =>
      dsimp only
      split_ifs
      · exact trivial
      · refine reported_afterSignal strerror fun hgone => ?_
        have hlost := sendSignalViaPidFd_gone (signalOutcome_gone hgone)
        rw [hpin.2 pinned hfd] at hlost
        exact Table.Gone.ended ⟨hborn,hlost⟩
  | kill process phase =>
    refine reported_afterSignal strerror fun hgone => ?_
    exact Table.Gone.ended ⟨hborn,holder_gone (signalOutcome_gone hgone)⟩
  | beginWait process phase => exact trivial
  | probe process phase deadline observedRunning attempt =>
    simp only [next]
    cases hfd : process.pidfd with
    | none =>
      cases hmatches : processIdentityMatches table call.pid call.startTime answer with
      | true => exact trivial
      | false =>
        refine reported_afterProbe fun _ => ?_
        exact ended_of_not_matches hborn hpid hstart (hreads (by simp [readsIdentity,hfd]))
          hmatches
    | some pinned =>
      dsimp only
      cases hpoll : pollState attempt (pollPidFd table call.pid pinned answer) with
      | none => exact trivial
      | some state =>
        refine reported_afterProbe fun hexited => ?_
        rw [hexited] at hpoll
        have hstopped := pollPidFd_exited hpoll
        rw [hpin.2 pinned hfd] at hstopped
        exact ⟨hborn,hstopped⟩
  | clock process phase deadline observedRunning =>
    rw [next]
    split_ifs
    · exact reported_afterWait fun hexited => by cases hexited
    · exact reported_afterWait fun hexited => by cases hexited
    · exact trivial
  | done result => exact h

end Outcomes

section Runs

variable (strerror : Int32 → String) (call : Call)

/-- What every step keeps. -/
def Inv (pair : State×History) : Prop :=
  (call.pid,call.startTime)∈pair.1.table.born ∧ PinInv call pair.1.table pair.2 pair.1.pc ∧
    SentInv call pair.2

/-- Events of the system leave the pin alone. -/
theorem pinInv_apply {table : PinnedProcess.Table} {history : History} {pc : Pc}
    (event : PinnedProcess.Event) (h : PinInv call table history pc) :
    PinInv call (table.apply event) history pc := by
  cases pc with
  | identify process =>
    obtain ⟨hpinned,hnone,hholder,hseen⟩ := h
    refine ⟨hpinned,hnone,fun pinned hmem => ?_,fun hnot => (hseen hnot).apply event⟩
    exact (hholder pinned hmem).imp_right fun hgone => hgone.apply event
  | _ => exact h

theorem inv_step (pair : State×History) (label : Label) (h : Inv call pair) :
    Inv call (observed (machine strerror call) (observe call) pair label) := by
  obtain ⟨hborn,hpin,hsent⟩ := h
  cases label with
  | world event => exact ⟨Table.born_apply hborn event,pinInv_apply call event hpin,hsent⟩
  | call answer => exact ⟨hborn,next_kept strerror hborn hpin hsent⟩

/-- A step that reads while the instance runs keeps the report true. -/
theorem reported_step (hpid : 0<call.pid) (hstart : call.startTime≠0) (pair : State×History)
    (label : Label) (h : Inv call pair ∧ Reported call pair.1.table pair.1.pc)
    (hreads : ReadsWhileRunning call pair.1 label) :
    Inv call (observed (machine strerror call) (observe call) pair label) ∧
      Reported call (machine strerror call pair.1 label).table
        (machine strerror call pair.1 label).pc := by
  obtain ⟨hinv,hreported⟩ := h
  refine ⟨inv_step strerror call pair label hinv,?_⟩
  cases label with
  | world event =>
    cases hpc : pair.1.pc with
    | done result =>
      rw [hpc] at hreported
      simp only [machine,hpc]
      exact fun houtcome => (hreported houtcome).apply event
    | _ =>
      simp only [machine,hpc]
      exact trivial
  | call answer => exact next_reported strerror hinv.1 hpid hstart hinv.2.1 hreads hreported

/-- A call about a process that was recorded before: with a descriptor its
signals reach that process alone; without one that process held the number
at the check before each signal. If no read fails while the process runs, an
exit or a missing process is reported only after the process exited. -/
theorem termination_of_run (hpid : 0<call.pid) (hstart : call.startTime≠0)
    (table : PinnedProcess.Table) (hborn : (call.pid,call.startTime)∈table.born)
    (schedule : List Label) :
    SentInv call (run (observed (machine strerror call) (observe call)) (⟨table,.enter⟩,{})
      schedule).2 ∧
    (Along (machine strerror call) (ReadsWhileRunning call) ⟨table,.enter⟩ schedule →
      ∀ result, (run (machine strerror call) ⟨table,.enter⟩ schedule).pc=.done result →
        result.outcome=.exited ∨ result.outcome=.notFound →
          (run (machine strerror call) ⟨table,.enter⟩ schedule).table.Ended call.pid
            call.startTime) := by
  have hinit : Inv call (⟨table,.enter⟩,{}) := by
    refine ⟨hborn,⟨rfl,rfl⟩,?_⟩
    rw [SentInv]
    simp
  refine ⟨(run_invariant (inv_step strerror call) schedule hinit).2.2,?_⟩
  intro hreads result hresult houtcome
  have hguard : Along (observed (machine strerror call) (observe call))
      (fun pair label => ReadsWhileRunning call pair.1 label) (⟨table,.enter⟩,{}) schedule :=
    (along_observed _).mpr hreads
  have hfinal := hguard.invariant (reported_step strerror call hpid hstart) ⟨hinit,trivial⟩
  have hmachine := run_observed_fst (machine strerror call) (observe call) (⟨table,.enter⟩,{})
    schedule
  rw [hmachine,hresult] at hfinal
  exact hfinal.2 houtcome

/-- Process 42, started at tick 7, is the only one. -/
def oneProcess : PinnedProcess.Table where
  occupant := Function.update (fun _ => none) 42 (some (7,true))
  born := [(42,7)]
  started := by
    intro pid start running h
    by_cases heq : pid=42
    · subst heq
      rw [Function.update_self] at h
      simp only [Option.some.injEq,Prod.mk.injEq] at h
      simp [h.1]
    · rw [Function.update_of_ne heq] at h
      cases h

/-- A call that stops it. -/
def stopIt : Call := ⟨42,7,2000,1000⟩

/-- The process exits on the first signal. -/
def gracefulExit : List Label :=
  [.call {},.call {},.call {},.call {},.call {},.world (.exits 42),.call {}]

/-- A process that ends after its signal is reported as ended. -/
theorem exit_reported :
    (run (machine (fun _ => "") stopIt) ⟨oneProcess,.enter⟩ gracefulExit).table.Ended 42 7 := by
  have h := termination_of_run (fun _ => "") stopIt (by decide) (by decide) oneProcess
    (by decide) gracefulExit
  refine h.2 ?_ {outcome := .exited} (by decide) (.inl rfl)
  refine along_of_labels (fun label hlabel state => ?_) _
  cases label with
  | world event => exact trivial
  | call answer =>
    intro _ hfails
    simp [gracefulExit] at hlabel
    rw [hlabel] at hfails
    cases hfails

/-- A read that fails is taken for a process that is gone, with a descriptor
before the first signal and without one in the wait. -/
theorem running_reported_gone :
    ((run (machine (fun _ => "") stopIt) ⟨oneProcess,.enter⟩
        [.call {},.call {},.call {readFails := true}]).pc=.done {outcome := .notFound} ∧
      (run (machine (fun _ => "") stopIt) ⟨oneProcess,.enter⟩
        [.call {},.call {},.call {readFails := true}]).table.Running 42 7) ∧
    (run (machine (fun _ => "") stopIt) ⟨oneProcess,.enter⟩
        [.call {},.call {refusal := some {errno := 38}},.call {},.call {},.call {},.call {},
          .call {readFails := true}]).pc=.done {outcome := .exited} ∧
      (run (machine (fun _ => "") stopIt) ⟨oneProcess,.enter⟩
        [.call {},.call {refusal := some {errno := 38}},.call {},.call {},.call {},.call {},
          .call {readFails := true}]).table.Running 42 7 := by
  decide

end Runs

end Vinput.TerminateOutcome
