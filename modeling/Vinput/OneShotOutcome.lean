import Vinput.OneShotProcess

/-!
# How a one-shot run ends

What was read and written is accounted for in every state, and the input
handle is released once, before the pump returns. The exit of the child and
the deadline are noticed by the pump independently of each other; the run
reports an exit that was noticed exactly when the deadline was not.
-/

namespace Vinput.OneShotOutcome

open InterleavedRuns OneShotProcess
open ProcessSession (Channel InputReady)

section Accounting

/-- Bytes that an action wrote to the child. -/
def Action.input : Action → List UInt8
  | .wrote bytes => bytes
  | _ => []

/-- Bytes that were written to the child. -/
def sentBytes (trace : List Action) : List UInt8 := trace.flatMap Action.input

/-- Collected output, written input and the input handle are accounted
for. -/
structure Accounted (input : List UInt8) (shared : Shared) : Prop where
  /-- Every byte that left a pipe was collected. -/
  collected : ∀ channel, shared.text channel=(shared.pipes channel).taken
  /-- After its end nothing comes out of a pipe. -/
  ended : ∀ channel, .sawEnd channel∈shared.trace →
    (shared.pipes channel).pending=[] ∧ (shared.pipes channel).closed=true
  /-- The written bytes are those before the offset. -/
  sent : sentBytes shared.trace=input.take shared.inputOffset
  /-- The offset is inside the input. -/
  bounded : shared.inputOffset≤ input.length
  /-- The input handle was released once if at all. -/
  released : shared.trace.count .closedStdin=if shared.inputClosed then 1 else 0

variable {input : List UInt8} {shared : Shared}

/-- A step that touches neither the pipes nor the input. -/
theorem Accounted.frame {other : Shared} (h : Accounted input shared)
    (htext : other.text=shared.text) (hpipes : other.pipes=shared.pipes)
    (htrace : other.trace=shared.trace) (hoffset : other.inputOffset=shared.inputOffset)
    (hclosed : other.inputClosed=shared.inputClosed) : Accounted input other where
  collected := by rw [htext,hpipes]; exact h.collected
  ended := by rw [htrace,hpipes]; exact h.ended
  sent := by rw [htrace,hoffset]; exact h.sent
  bounded := by rw [hoffset]; exact h.bounded
  released := by rw [htrace,hclosed]; exact h.released

/-- The bytes of two traces follow each other. -/
theorem sentBytes_append (front back : List Action) :
    sentBytes (front++back)=sentBytes front++sentBytes back := List.flatMap_append

/-- A kill changes nothing of the account. -/
theorem accounted_kill (h : Accounted input shared) (reaped : Bool) :
    Accounted input {shared with trace := shared.trace++[.killed reaped]} where
  collected := h.collected
  ended := fun channel hmem => h.ended channel (by simpa using hmem)
  sent := by
    rw [sentBytes_append,h.sent]
    simp [sentBytes,Action.input]
  bounded := h.bounded
  released := by
    rw [List.count_append,h.released]
    simp

/-- Closing the input keeps the account of its bytes. -/
theorem accounted_finishInput (h : Accounted input shared) :
    Accounted input (finishInput shared) := by
  cases hclosed : shared.inputClosed with
  | true =>
    exact h.frame rfl rfl (by simp [finishInput,hclosed]) rfl (by simp [finishInput,hclosed])
  | false =>
    have htrace : (finishInput shared).trace=shared.trace++[.closedStdin] := by
      simp [finishInput,hclosed]
    exact {
      collected := h.collected
      ended := by
        intro channel hmem
        rw [htrace] at hmem
        exact h.ended channel (by simpa using hmem)
      sent := by
        rw [htrace,sentBytes_append,h.sent]
        simp [sentBytes,Action.input,finishInput]
      bounded := h.bounded
      released := by
        rw [htrace,List.count_append,h.released,hclosed]
        simp [finishInput] }

theorem accounted_abandonInput (h : Accounted input shared) :
    Accounted input (abandonInput shared) := by
  rw [abandonInput]
  split_ifs
  · exact accounted_finishInput (h.frame rfl rfl rfl rfl rfl)
  · exact h

theorem accounted_loseInput (h : Accounted input shared) : Accounted input (loseInput shared) :=
  accounted_finishInput (h.frame rfl rfl rfl rfl rfl)

/-- A piece behind an offset extends what was taken up to it. -/
theorem take_take_drop {α : Type*} (values : List α) (offset count : ℕ) :
    values.take offset++(values.drop offset).take count=
      values.take (offset+((values.drop offset).take count).length) := by
  rw [List.take_add,List.length_take]
  congr 1
  rw [List.take_eq_take_iff]
  omega

/-- A write takes the next bytes of the input. -/
theorem accounted_advanceInput {command : Command} (count : ℕ)
    (h : Accounted command.input shared) :
    Accounted command.input (advanceInput command count shared) := by
  obtain ⟨bytes,hbytes⟩ : ∃ bytes, bytes=(command.input.drop shared.inputOffset).take count :=
    ⟨_,rfl⟩
  have hwritten : Accounted command.input {shared with
      inputOffset := shared.inputOffset+bytes.length
      trace := shared.trace++[.wrote bytes]} := {
    collected := h.collected
    ended := by
      intro channel hmem
      exact h.ended channel (by simpa using hmem)
    sent := by
      rw [sentBytes_append,h.sent,hbytes,← take_take_drop]
      simp [sentBytes,Action.input]
    bounded := by
      have hlength : bytes.length≤command.input.length-shared.inputOffset := by
        rw [hbytes,List.length_take,List.length_drop]
        omega
      have hbounded := h.bounded
      dsimp only
      omega
    released := by
      rw [List.count_append,h.released]
      simp }
  rw [advanceInput]
  dsimp only
  rw [← hbytes]
  split_ifs
  · exact h
  · exact accounted_finishInput hwritten
  · exact hwritten

/-- A write accounts for the bytes it sends. -/
theorem accounted_inputStep {command : Command} (oracle : Oracle) (ready : InputReady)
    (h : Accounted command.input shared) :
    Accounted command.input (inputStep command oracle ready shared) := by
  cases ready with
  | quiet => exact h
  | writable =>
    dsimp only [inputStep]
    cases oracle.write with
    | wrote count => exact accounted_advanceInput count h
    | retry => exact h
    | failed => exact accounted_loseInput h
  | broken => exact accounted_loseInput h

/-- What a read can find. -/
theorem readPipe_cases (pipe : Pipe) (want : ℕ) (answer : ReadAnswer) :
    (∃ count, pipe.pending≠[] ∧
      readPipe pipe want answer=.data (pipe.pending.take count)) ∨
    (pipe.pending=[] ∧ pipe.closed=true ∧ readPipe pipe want answer=.ended) ∨
    readPipe pipe want answer=.retry ∨ readPipe pipe want answer=.failed := by
  cases answer with
  | retry => exact .inr (.inr (.inl rfl))
  | failed => exact .inr (.inr (.inr rfl))
  | upTo count =>
    rw [readPipe]
    by_cases hempty : pipe.pending=[]
    · rw [if_pos hempty]
      by_cases hclosed : pipe.closed=true
      · rw [if_pos hclosed]
        exact .inr (.inl ⟨hempty,hclosed,rfl⟩)
      · rw [if_neg hclosed]
        exact .inr (.inr (.inl rfl))
    · rw [if_neg hempty]
      exact .inl ⟨_,hempty,rfl⟩

/-- Bytes that are read are collected. -/
theorem accounted_takeBytes {channel : Channel} {count : ℕ}
    (hpending : (shared.pipes channel).pending≠[]) (h : Accounted input shared) :
    Accounted input (takeBytes channel ((shared.pipes channel).pending.take count) shared) where
  collected := by
    intro other
    by_cases heq : other=channel
    · subst heq
      simp only [takeBytes,Function.update_self,h.collected]
    · simp only [takeBytes,Function.update_of_ne heq,h.collected]
  ended := by
    intro other hmem
    have hended := h.ended other hmem
    have hne : other≠channel := by
      intro heq
      exact hpending (heq ▸ hended.1)
    simp only [takeBytes,Function.update_of_ne hne]
    exact hended
  sent := h.sent
  bounded := h.bounded
  released := h.released

/-- Reading the output leaves the account of the input alone. -/
theorem accounted_drainStep {oracle : Oracle} {channel : Channel} {count : ℕ}
    {stderrReady : Bool} (h : Accounted input shared) :
    Accounted input (drainStep oracle channel count stderrReady shared).1 := by
  rw [drainStep]
  split_ifs
  · exact h
  obtain ⟨size,hpending,hread⟩ | ⟨hpending,hclosed,hread⟩ | hread | hread :=
    readPipe_cases (shared.pipes channel)
      (min ProcessSession.readBufferBytes (ProcessSession.readBudgetBytes-count)) oracle.read <;>
    rw [hread]
  · exact accounted_takeBytes hpending h
  · have hnoted : Accounted input {shared with trace := shared.trace++[.sawEnd channel]} := {
      collected := h.collected
      ended := by
        intro other hmem
        obtain hbefore | hlast := List.mem_append.mp hmem
        · exact h.ended other hbefore
        · obtain rfl : other=channel := by simpa using hlast
          exact ⟨hpending,hclosed⟩
      sent := by
        rw [sentBytes_append,h.sent]
        simp [sentBytes,Action.input]
      bounded := h.bounded
      released := by
        rw [List.count_append,h.released]
        simp }
    exact hnoted.frame rfl rfl rfl rfl rfl
  · exact h
  · exact h.frame rfl rfl rfl rfl rfl

/-- One step of the run. -/
theorem accounted_next {command : Command} (oracle : Oracle) (pc : Pc)
    (h : Accounted command.input shared) :
    Accounted command.input (next command oracle shared pc).1 := by
  have hsame : ∀ {other : Shared}, other.text=shared.text → other.pipes=shared.pipes →
      other.trace=shared.trace → other.inputOffset=shared.inputOffset →
      other.inputClosed=shared.inputClosed → Accounted command.input other := h.frame
  cases pc with
  | launch =>
    simp only [next,launchStep]
    by_cases hempty : command.command=""
    · rw [if_pos hempty]
      exact h
    · rw [if_neg hempty]
      cases oracle.spawn with
      | started => exact hsame rfl rfl rfl rfl rfl
      | nothing => exact h
      | threw what => exact h
  | setup =>
    simp only [next,setupStep]
    split_ifs
    · exact accounted_finishInput (hsame rfl rfl rfl rfl rfl)
    · exact hsame rfl rfl rfl rfl rfl
  | probe =>
    simp only [next,probeStep]
    split_ifs
    · exact h
    · exact h
    · cases oracle.exit with
      | running => exact h
      | exited code => exact accounted_abandonInput (hsame rfl rfl rfl rfl rfl)
      | threw what => exact h
  | deadline =>
    simp only [next,deadlineStep]
    split_ifs
    · exact hsame rfl rfl rfl rfl rfl
    · exact h
    · exact h
  | poll => exact h
  | input ready => exact accounted_inputStep oracle ready.input h
  | drain channel count stderrReady => exact accounted_drainStep h
  | lastProbe =>
    simp only [next,lastProbeStep]
    split_ifs
    · exact accounted_finishInput h
    · cases oracle.exit with
      | running => exact accounted_finishInput h
      | exited code => exact accounted_finishInput (hsame rfl rfl rfl rfl rfl)
      | threw what => exact h
  | conclude => exact h
  | kill => exact accounted_kill h shared.reaped
  | wait =>
    simp only [next,waitStep]
    split
    · exact h
    · exact hsame rfl rfl rfl rfl rfl
    · exact h
  | done result => exact h

/-- Printing adds to a pipe what was not seen to end. -/
theorem accounted_print {channel : Channel} (bytes : List UInt8) (h : Accounted input shared) :
    Accounted input {shared with
      pipes := Function.update shared.pipes channel ((shared.pipes channel).print bytes)} where
  collected := by
    intro other
    by_cases heq : other=channel
    · subst heq
      simp only [Function.update_self,h.collected,Pipe.print]
      split_ifs <;> rfl
    · simp only [Function.update_of_ne heq,h.collected]
  ended := by
    intro other hmem
    have hended := h.ended other hmem
    by_cases heq : other=channel
    · subst heq
      simp only [Function.update_self,Pipe.print,if_pos hended.2]
      exact hended
    · simp only [Function.update_of_ne heq]
      exact hended
  sent := h.sent
  bounded := h.bounded
  released := h.released

theorem accounted_close {channel : Channel} (h : Accounted input shared) :
    Accounted input {shared with
      pipes := Function.update shared.pipes channel
        {shared.pipes channel with closed := true}} where
  collected := by
    intro other
    by_cases heq : other=channel
    · subst heq
      simp only [Function.update_self,h.collected]
    · simp only [Function.update_of_ne heq,h.collected]
  ended := by
    intro other hmem
    have hended := h.ended other hmem
    by_cases heq : other=channel
    · subst heq
      simp only [Function.update_self]
      exact ⟨hended.1,trivial⟩
    · simp only [Function.update_of_ne heq]
      exact hended
  sent := h.sent
  bounded := h.bounded
  released := h.released

theorem accounted_machine {command : Command} (state : State) (label : Label)
    (h : Accounted command.input state.shared) :
    Accounted command.input (machine command state label).shared := by
  cases label with
  | prints channel bytes => exact accounted_print bytes h
  | closes channel => exact accounted_close h
  | step oracle => exact accounted_next oracle state.pc h

end Accounting

section Outcome

variable {shared : Shared}

/-- No kill was sent, and the child is reaped when its exit was observed. -/
def Calm (shared : Shared) : Prop :=
  shared.reaped=shared.childExited ∧ ∀ reaped, .killed reaped∉shared.trace

/-- What a returned result says of the pump: an exit without a deadline is
reported as such, a deadline is reported, and a result of a child has the
collected output. -/
structure Settled (shared : Shared) (result : CommandResult) : Prop where
  /-- An exit that was observed in time. -/
  exited : shared.childExited=true → shared.timedOut=false →
    result=finished shared shared.childExitCode ∧ ∀ reaped, .killed reaped∉shared.trace
  /-- A deadline that passed although the exit was observed. -/
  late : shared.childExited=true → shared.timedOut=true → result.timedOut=true
  /-- A child that was run. -/
  output : result.launchFailed=false → shared.inputClosed=true ∧
    result.stdoutText=shared.text .stdout ∧ result.stderrText=shared.text .stderr

/-- What holds at each point of the run. -/
def PcInv (shared : Shared) : Pc → Prop
  | .launch => Calm shared ∧ shared.timedOut=false ∧ shared.childExited=false
  | .lastProbe => Calm shared
  | .conclude => Calm shared ∧ shared.inputClosed=true
  | .kill => Calm shared ∧ shared.inputClosed=true ∧ shared.timedOut=true
  | .wait =>
    shared.inputClosed=true ∧ shared.reaped=shared.childExited ∧
      (shared.timedOut=true ∨ shared.childExited=false)
  | .done result => Settled shared result
  | _ => Calm shared ∧ shared.timedOut=false

/-- Closing the input leaves a calm state. -/
theorem calm_finishInput (h : Calm shared) : Calm (finishInput shared) := by
  refine ⟨h.1,fun reaped hmem => ?_⟩
  simp only [finishInput] at hmem
  split_ifs at hmem
  · exact h.2 reaped hmem
  · exact h.2 reaped (by simpa using hmem)

/-- An exit that is noted leaves a calm state. -/
theorem calm_noteExit (code : ℤ) (h : Calm shared) : Calm (noteExit code shared) := ⟨rfl,h.2⟩

/-- Giving the input up leaves a calm state. -/
theorem calm_abandonInput (h : Calm shared) : Calm (abandonInput shared) := by
  rw [abandonInput]
  split_ifs
  · exact calm_finishInput ⟨h.1,h.2⟩
  · exact h

theorem calm_loseInput (h : Calm shared) : Calm (loseInput shared) :=
  calm_finishInput ⟨h.1,h.2⟩

/-- Giving the input up changes neither flag. -/
theorem abandonInput_flags (shared : Shared) :
    (abandonInput shared).timedOut=shared.timedOut ∧
      (abandonInput shared).childExited=shared.childExited := by
  rw [abandonInput]
  split_ifs <;> exact ⟨rfl,rfl⟩

theorem inputStep_flags (command : Command) (oracle : Oracle) (ready : InputReady)
    (shared : Shared) :
    (inputStep command oracle ready shared).timedOut=shared.timedOut ∧
      (inputStep command oracle ready shared).childExited=shared.childExited := by
  cases ready with
  | quiet => exact ⟨rfl,rfl⟩
  | broken => exact ⟨rfl,rfl⟩
  | writable =>
    dsimp only [inputStep]
    cases oracle.write with
    | retry => exact ⟨rfl,rfl⟩
    | failed => exact ⟨rfl,rfl⟩
    | wrote count =>
      dsimp only [advanceInput]
      split_ifs <;> exact ⟨rfl,rfl⟩

theorem drainStep_flags (oracle : Oracle) (channel : Channel) (count : ℕ) (stderrReady : Bool)
    (shared : Shared) :
    (drainStep oracle channel count stderrReady shared).1.timedOut=shared.timedOut ∧
      (drainStep oracle channel count stderrReady shared).1.childExited=shared.childExited := by
  rw [drainStep]
  split_ifs
  · exact ⟨rfl,rfl⟩
  obtain ⟨size,-,hread⟩ | ⟨-,-,hread⟩ | hread | hread :=
    readPipe_cases (shared.pipes channel)
      (min ProcessSession.readBufferBytes (ProcessSession.readBudgetBytes-count)) oracle.read <;>
    rw [hread] <;> exact ⟨rfl,rfl⟩

/-- The input is served without a kill. -/
theorem calm_inputStep (command : Command) (oracle : Oracle) (ready : InputReady)
    (h : Calm shared) : Calm (inputStep command oracle ready shared) := by
  cases ready with
  | quiet => exact h
  | broken => exact calm_loseInput h
  | writable =>
    dsimp only [inputStep]
    cases oracle.write with
    | retry => exact h
    | failed => exact calm_loseInput h
    | wrote count =>
      have hwritten : ∀ bytes offset, Calm {shared with
          inputOffset := offset
          trace := shared.trace++[.wrote bytes]} :=
        fun bytes offset => ⟨h.1,fun reaped hmem => h.2 reaped (by simpa using hmem)⟩
      dsimp only [advanceInput]
      split_ifs
      · exact h
      · exact calm_finishInput (hwritten _ _)
      · exact hwritten _ _

/-- Reading leaves a calm state and goes on with the pipes or the probe. -/
theorem calm_drainStep (oracle : Oracle) (channel : Channel) (count : ℕ) (stderrReady : Bool)
    (h : Calm shared) :
    Calm (drainStep oracle channel count stderrReady shared).1 ∧
      ∃ after, (drainStep oracle channel count stderrReady shared).2=after ∧
        (after=.probe ∨ ∃ next size ready, after=.drain next size ready) := by
  have hafter : afterDrain channel stderrReady=.probe ∨
      ∃ next size ready, afterDrain channel stderrReady=.drain next size ready := by
    rw [afterDrain]
    split_ifs
    · exact .inr ⟨_,_,_,rfl⟩
    · exact .inl rfl
  rw [drainStep]
  split_ifs
  · exact ⟨h,_,rfl,hafter⟩
  obtain ⟨size,-,hread⟩ | ⟨-,-,hread⟩ | hread | hread :=
    readPipe_cases (shared.pipes channel)
      (min ProcessSession.readBufferBytes (ProcessSession.readBudgetBytes-count)) oracle.read <;>
    rw [hread]
  · exact ⟨⟨h.1,h.2⟩,_,rfl,.inr ⟨_,_,_,rfl⟩⟩
  · exact ⟨⟨h.1,fun reaped hmem => h.2 reaped (by simpa [closeChannel] using hmem)⟩,_,rfl,hafter⟩
  · exact ⟨h,_,rfl,hafter⟩
  · exact ⟨⟨h.1,h.2⟩,_,rfl,hafter⟩

/-- A failure while no exit was observed. -/
theorem settled_failed {timedOut : Bool} {what : String} (h : shared.childExited=false) :
    Settled shared (failed shared timedOut what) where
  exited := fun hexited => by rw [h] at hexited; cases hexited
  late := fun hexited => by rw [h] at hexited; cases hexited
  output := fun hlaunch => by cases hlaunch

variable (command : Command) (oracle : Oracle)

/-- The launch keeps the invariant of its place. -/
theorem pcInv_launchStep (h : PcInv shared .launch) :
    PcInv (launchStep command oracle shared).1 (launchStep command oracle shared).2 := by
  obtain ⟨hcalm,htime,hexited⟩ := h
  rw [launchStep]
  by_cases hempty : command.command=""
  · rw [if_pos hempty]
    exact settled_failed hexited
  · rw [if_neg hempty]
    cases oracle.spawn with
    | started => exact ⟨⟨hcalm.1,hcalm.2⟩,htime⟩
    | nothing => exact settled_failed hexited
    | threw what => exact settled_failed hexited

theorem pcInv_setupStep (h : PcInv shared .setup) :
    PcInv (setupStep command oracle shared).1 (setupStep command oracle shared).2 := by
  obtain ⟨hcalm,htime⟩ := h
  simp only [setupStep]
  split_ifs
  · exact ⟨calm_finishInput ⟨hcalm.1,hcalm.2⟩,htime⟩
  · exact ⟨⟨hcalm.1,hcalm.2⟩,htime⟩

/-- A probe that throws was made because no exit was known. -/
theorem pcInv_probeStep (h : PcInv shared .probe) :
    PcInv (probeStep oracle shared).1 (probeStep oracle shared).2 := by
  obtain ⟨hcalm,htime⟩ := h
  rw [probeStep]
  split_ifs with hopen hexited
  · exact hcalm
  · exact ⟨hcalm,htime⟩
  · have hrunning : shared.childExited=false := by simpa using hexited
    cases oracle.exit with
    | running => exact ⟨hcalm,htime⟩
    | exited code =>
      refine ⟨calm_abandonInput ⟨rfl,hcalm.2⟩,?_⟩
      exact (abandonInput_flags _).1.trans htime
    | threw what => exact settled_failed hrunning

theorem pcInv_deadlineStep (h : PcInv shared .deadline) :
    PcInv (deadlineStep oracle shared).1 (deadlineStep oracle shared).2 := by
  obtain ⟨hcalm,htime⟩ := h
  rw [deadlineStep]
  split_ifs
  · exact ⟨hcalm.1,hcalm.2⟩
  · exact hcalm
  · exact ⟨hcalm,htime⟩

theorem pcInv_pollStep (h : PcInv shared .poll) : PcInv shared (pollStep oracle shared) := by
  obtain ⟨hcalm,htime⟩ := h
  rw [pollStep]
  by_cases hnone : (!anyOpen shared)=true
  · rw [if_pos hnone]
    exact ⟨hcalm,htime⟩
  · rw [if_neg hnone]
    cases oracle.poll with
    | failed => exact hcalm
    | interrupted => exact ⟨hcalm,htime⟩
    | timeout => exact ⟨hcalm,htime⟩
    | ready => exact ⟨hcalm,htime⟩

theorem pcInv_inputStep {ready : Ready} (h : PcInv shared (.input ready)) :
    PcInv (inputStep command oracle ready.input shared) (afterInput ready) := by
  obtain ⟨hcalm,htime⟩ := h
  have hstep := And.intro (calm_inputStep command oracle ready.input hcalm)
    ((inputStep_flags command oracle ready.input shared).1.trans htime)
  rw [afterInput]
  split_ifs
  · exact hstep
  · exact hstep
  · exact hstep

theorem pcInv_drainStep {channel : Channel} {count : ℕ} {stderrReady : Bool}
    (h : PcInv shared (.drain channel count stderrReady)) :
    PcInv (drainStep oracle channel count stderrReady shared).1
      (drainStep oracle channel count stderrReady shared).2 := by
  obtain ⟨hcalm,htime⟩ := h
  obtain ⟨hdrained,after,hafter,hcases⟩ :=
    calm_drainStep oracle channel count stderrReady hcalm
  have hstep := And.intro hdrained
    ((drainStep_flags oracle channel count stderrReady shared).1.trans htime)
  rw [hafter]
  obtain hprobe | ⟨next,size,ready,hdrain⟩ := hcases
  · rw [hprobe]
    exact hstep
  · rw [hdrain]
    exact hstep

/-- The pump returns with the input handle released. -/
theorem pcInv_lastProbeStep (h : Calm shared) :
    PcInv (lastProbeStep oracle shared).1 (lastProbeStep oracle shared).2 := by
  rw [lastProbeStep]
  split_ifs with hexited
  · exact ⟨calm_finishInput h,rfl⟩
  · cases oracle.exit with
    | running => exact ⟨calm_finishInput h,rfl⟩
    | exited code => exact ⟨calm_finishInput (calm_noteExit code h),rfl⟩
    | threw what => exact settled_failed (by simpa using hexited)

/-- The child is waited for after a timeout or without an observed exit. -/
theorem pcInv_concludeStep (h : PcInv shared .conclude) :
    PcInv shared (concludeStep shared) := by
  obtain ⟨hcalm,hclosed⟩ := h
  rw [concludeStep]
  split_ifs with htime hexited
  · exact ⟨hcalm,hclosed,htime⟩
  · exact {
      exited := fun _ _ => ⟨rfl,hcalm.2⟩
      late := fun _ hlate => absurd hlate htime
      output := fun _ => ⟨hclosed,rfl,rfl⟩ }
  · exact ⟨hclosed,hcalm.1,.inr (by simpa using hexited)⟩

theorem pcInv_waitStep (h : PcInv shared .wait) :
    PcInv (waitStep oracle shared).1 (waitStep oracle shared).2 := by
  obtain ⟨hclosed,hreaped,hcase⟩ := h
  have hwaited : ∀ code, PcInv {shared with reaped := true}
      (.done (finished shared (if shared.timedOut then -1 else code))) := fun code => {
    exited := fun hexited htime => by
      obtain hlate | hrunning := hcase
      · exact absurd htime (by rw [hlate]; decide)
      · exact absurd hexited (by rw [hrunning]; decide)
    late := fun _ hlate => hlate
    output := fun _ => ⟨hclosed,rfl,rfl⟩ }
  simp only [waitStep]
  by_cases hgone : shared.reaped=true
  · rw [if_pos hgone]
    exact hwaited 0
  · rw [if_neg hgone]
    have hrunning : shared.childExited=false := by
      rw [← hreaped]
      simpa using hgone
    cases oracle.exit with
    | running => exact ⟨hclosed,hreaped,hcase⟩
    | exited code => exact hwaited code
    | threw what => exact settled_failed hrunning

/-- One step of the run. -/
theorem pcInv_next {pc : Pc} (h : PcInv shared pc) :
    PcInv (next command oracle shared pc).1 (next command oracle shared pc).2 := by
  cases pc with
  | launch => exact pcInv_launchStep command oracle h
  | setup => exact pcInv_setupStep command oracle h
  | probe => exact pcInv_probeStep oracle h
  | deadline => exact pcInv_deadlineStep oracle h
  | poll => exact pcInv_pollStep oracle h
  | input ready => exact pcInv_inputStep command oracle h
  | drain channel count stderrReady => exact pcInv_drainStep oracle h
  | lastProbe => exact pcInv_lastProbeStep oracle h
  | conclude => exact pcInv_concludeStep h
  | kill =>
    obtain ⟨hcalm,hclosed,htime⟩ := h
    exact ⟨hclosed,hcalm.1,.inl htime⟩
  | wait => exact pcInv_waitStep oracle h
  | done result => exact h

/-- The pump has noticed both the deadline and the exit. -/
def Both (state : State) : Prop :=
  state.shared.timedOut=true ∧ state.shared.childExited=true

/-- What one step does to the two flags: nothing, or it finds the deadline
passed, or one of the two probes finds the exit. -/
theorem flags_next (shared : Shared) (pc : Pc) :
    ((next command oracle shared pc).1.timedOut=shared.timedOut ∧
      (next command oracle shared pc).1.childExited=shared.childExited ∧
      (pc=.deadline → expired oracle shared=false) ∧
      (pc=.lastProbe → shared.childExited=false → ∀ code, oracle.exit≠.exited code)) ∨
    (pc=.deadline ∧ expired oracle shared=true ∧
      (next command oracle shared pc).1.timedOut=true ∧
      (next command oracle shared pc).1.childExited=shared.childExited) ∨
    (pc=.probe ∧ (next command oracle shared pc).1.timedOut=shared.timedOut ∧
      shared.childExited=false ∧ (next command oracle shared pc).1.childExited=true) ∨
    (pc=.lastProbe ∧ (next command oracle shared pc).1.timedOut=shared.timedOut ∧
      shared.childExited=false ∧ (∃ code, oracle.exit=.exited code) ∧
      (next command oracle shared pc).1.childExited=true) := by
  cases pc with
  | launch =>
    left
    simp only [next,launchStep]
    by_cases hempty : command.command=""
    · simp [hempty]
    · rw [if_neg hempty]
      cases oracle.spawn <;> simp
  | setup =>
    left
    simp only [next,setupStep]
    split_ifs <;> simp [finishInput]
  | probe =>
    simp only [next,probeStep]
    split_ifs with hopen hexited
    · simp
    · simp
    · have hrunning : shared.childExited=false := by simpa using hexited
      cases oracle.exit with
      | running => simp
      | exited code =>
        right
        right
        left
        exact ⟨trivial,(abandonInput_flags _).1,hrunning,(abandonInput_flags _).2⟩
      | threw what => simp
  | deadline =>
    simp only [next,deadlineStep]
    by_cases hexpired : expired oracle shared=true
    · right
      left
      rw [if_pos hexpired]
      exact ⟨trivial,hexpired,rfl,rfl⟩
    · left
      rw [if_neg hexpired]
      split_ifs <;> simpa using hexpired
  | poll => simp [next]
  | input ready =>
    obtain ⟨htime,hexited⟩ := inputStep_flags command oracle ready.input shared
    exact .inl ⟨htime,hexited,by simp,by simp⟩
  | drain channel count stderrReady =>
    obtain ⟨htime,hexited⟩ := drainStep_flags oracle channel count stderrReady shared
    exact .inl ⟨htime,hexited,by simp,by simp⟩
  | lastProbe =>
    simp only [next,lastProbeStep]
    split_ifs with hexited
    · simp [finishInput,hexited]
    · have hrunning : shared.childExited=false := by simpa using hexited
      cases hexit : oracle.exit with
      | running => simp [finishInput]
      | exited code => simp [finishInput,noteExit,hrunning]
      | threw what => simp
  | conclude => simp [next]
  | kill => simp [next]
  | wait =>
    left
    simp only [next,waitStep]
    split <;> simp
  | done result => simp [next]

end Outcome

section Runs

variable (command : Command)

/-- What every step keeps. -/
def Inv (state : State) : Prop :=
  Accounted command.input state.shared ∧ PcInv state.shared state.pc

/-- The invariant does not look at the pipes. -/
theorem pcInv_pipes {shared : Shared} {pc : Pc} (pipes : Channel → Pipe) (h : PcInv shared pc) :
    PcInv {shared with pipes := pipes} pc := by
  cases pc with
  | done result => exact ⟨h.exited,h.late,h.output⟩
  | _ => exact h

theorem inv_machine (state : State) (label : Label) (h : Inv command state) :
    Inv command (machine command state label) := by
  refine ⟨accounted_machine state label h.1,?_⟩
  cases label with
  | prints channel bytes => exact pcInv_pipes _ h.2
  | closes channel => exact pcInv_pipes _ h.2
  | step oracle => exact pcInv_next command oracle h.2

/-- A state with both flags never leaves them. -/
theorem both_stays (state : State) (label : Label) (h : Both state) :
    Both (machine command state label) := by
  obtain ⟨htime,hexited⟩ := h
  cases label with
  | prints channel bytes => exact ⟨htime,hexited⟩
  | closes channel => exact ⟨htime,hexited⟩
  | step oracle =>
    obtain ⟨hsame,hkept,-,-⟩ | ⟨-,-,hlate,hkept⟩ | ⟨-,hsame,-,hseen⟩ | ⟨-,hsame,-,-,hseen⟩ :=
      flags_next command oracle state.shared state.pc
    · exact ⟨hsame.trans htime,hkept.trans hexited⟩
    · exact ⟨hlate,hkept.trans hexited⟩
    · exact ⟨hsame.trans htime,hseen⟩
    · exact ⟨hsame.trans htime,hseen⟩

/-- The first step after which both were noticed is one that the condition
excludes, and every excluded step leads there. -/
theorem both_enters (state : State) (label : Label) (h : Inv command state)
    (hfree : ¬Both state) : NotBoth state label ↔ ¬Both (machine command state label) := by
  cases label with
  | prints channel bytes => exact ⟨fun _ => hfree,fun _ => trivial⟩
  | closes channel => exact ⟨fun _ => hfree,fun _ => trivial⟩
  | step oracle =>
    obtain ⟨hsame,hkept,hdeadline,hprobe⟩ | ⟨hpc,hexpired,hlate,hkept⟩ |
      ⟨hpc,hsame,hrunning,hseen⟩ | ⟨hpc,hsame,hrunning,hexit,hseen⟩ :=
      flags_next command oracle state.shared state.pc
    · have hstill : ¬Both (machine command state (.step oracle)) := by
        rintro ⟨htime,hexited⟩
        exact hfree ⟨hsame.symm.trans htime,hkept.symm.trans hexited⟩
      refine ⟨fun _ => hstill,fun _ => ⟨fun hpc hexpired => ?_,fun hpc _ => hprobe hpc⟩⟩
      rw [hdeadline hpc] at hexpired
      cases hexpired
    · constructor
      · rintro hguard ⟨-,hexited⟩
        have hrunning := hguard.1 hpc hexpired
        rw [← hkept] at hrunning
        exact absurd (hexited.symm.trans hrunning) (by decide)
      · intro hnot
        refine ⟨fun _ _ => ?_,fun hother => ?_⟩
        · by_contra hexited
          exact hnot ⟨hlate,hkept.trans (by simpa using hexited)⟩
        · rw [hpc] at hother
          cases hother
    · have htime : state.shared.timedOut=false := by
        have hinv := h.2
        rw [hpc] at hinv
        exact hinv.2
      have hstill : ¬Both (machine command state (.step oracle)) := by
        rintro ⟨hlate,-⟩
        exact absurd (hlate.symm.trans (hsame.trans htime)) (by decide)
      refine ⟨fun _ => hstill,fun _ => ⟨fun hother => ?_,fun hother => ?_⟩⟩ <;>
        rw [hpc] at hother <;> cases hother
    · obtain ⟨code,hexit⟩ := hexit
      constructor
      · rintro hguard ⟨hlate,-⟩
        exact hguard.2 hpc (hsame.symm.trans hlate) hrunning code hexit
      · intro hnot
        refine ⟨fun hother => ?_,fun _ hlate => ?_⟩
        · rw [hpc] at hother
          cases hother
        · exact absurd ⟨hsame.trans hlate,hseen⟩ hnot

/-- The pump has returned. -/
def Returned : Pc → Prop
  | .conclude => True
  | .kill => True
  | .wait => True
  | .done result => result.launchFailed=false
  | _ => False

/-- A call that returned has closed the input. -/
theorem inputClosed_of_returned {shared : Shared} {pc : Pc} (h : PcInv shared pc)
    (hreturned : Returned pc) : shared.inputClosed=true := by
  cases pc with
  | conclude => exact h.2
  | kill => exact h.2.1
  | wait => exact h.1
  | done result => exact (h.output hreturned).1
  | _ => exact hreturned.elim

/-- The collected output is a prefix of what the child printed, the whole of
it once the end was seen; what was written is a prefix of the input; the
input handle is released once, before the pump returns; a result of a child
has the collected output. -/
structure Faithful (state : State) : Prop where
  output : ∀ channel, state.shared.text channel<+:(state.shared.pipes channel).written
  whole : ∀ channel, .sawEnd channel∈state.shared.trace →
    state.shared.text channel=(state.shared.pipes channel).written
  input : sentBytes state.shared.trace<+:command.input
  once : state.shared.trace.count .closedStdin≤1
  released : Returned state.pc → state.shared.trace.count .closedStdin=1
  result : ∀ result, state.pc=.done result → result.launchFailed=false →
    result.stdoutText=state.shared.text .stdout ∧ result.stderrText=state.shared.text .stderr

/-- An exit that the pump observed is returned, without a timeout and without
a signal to the reaped child. -/
def ReportsExit (shared : Shared) (result : CommandResult) : Prop :=
  shared.childExited=true → result.exitCode=shared.childExitCode ∧ result.timedOut=false ∧
    .killed true∉shared.trace

/-- The invariant makes the outcome faithful. -/
theorem faithful_of_inv {state : State} (h : Inv command state) : Faithful command state where
  output := by
    intro channel
    rw [h.1.collected,Pipe.written]
    exact List.prefix_append _ _
  whole := by
    intro channel hended
    rw [h.1.collected,Pipe.written,(h.1.ended channel hended).1,List.append_nil]
  input := by
    rw [h.1.sent]
    exact List.take_prefix _ _
  once := by
    rw [h.1.released]
    split_ifs <;> omega
  released := by
    intro hreturned
    rw [h.1.released,if_pos (inputClosed_of_returned h.2 hreturned)]
  result := by
    intro result hdone hlaunch
    have hpc := h.2
    rw [hdone] at hpc
    exact (hpc.output hlaunch).2

/-- A returned result reports an exit that was noticed unless the deadline
was noticed too. -/
theorem reportsExit_iff {state : State} {result : CommandResult}
    (h : Settled state.shared result) : ReportsExit state.shared result ↔ ¬Both state := by
  constructor
  · rintro hreported ⟨htime,hexited⟩
    have hlate := h.late hexited htime
    rw [(hreported hexited).2.1] at hlate
    cases hlate
  · intro hfree hexited
    have htime : state.shared.timedOut=false := by
      by_contra hlate
      exact hfree ⟨by simpa using hlate,hexited⟩
    obtain ⟨hresult,hcalm⟩ := h.exited hexited htime
    rw [hresult]
    exact ⟨rfl,htime,hcalm true⟩

/-- The invariant holds at the start. -/
theorem inv_initial : Inv command initial := by
  have haccount : Accounted command.input initial.shared := {
    collected := fun _ => rfl
    ended := fun _ hmem => by simp [initial] at hmem
    sent := rfl
    bounded := Nat.zero_le _
    released := rfl }
  exact ⟨haccount,⟨rfl,fun _ hmem => by simp [initial] at hmem⟩,rfl,rfl⟩

/-- In every run of a command output, input and the input handle are treated
faithfully; and the result reports an exit that the pump observed exactly if
the deadline was not noticed as well. -/
theorem outcome_of_run (schedule : List Label) :
    Faithful command (run (machine command) initial schedule) ∧
      ∀ result, (run (machine command) initial schedule).pc=.done result →
        (ReportsExit (run (machine command) initial schedule).shared result ↔
          Along (machine command) NotBoth initial schedule) := by
  have hfinal := run_invariant (inv_machine command) schedule (inv_initial command)
  refine ⟨faithful_of_inv command hfinal,fun result hdone => ?_⟩
  rw [along_iff_of_trap (inv_machine command) (both_stays command) (both_enters command) schedule
    (inv_initial command) (by simp [Both,initial])]
  have hpc := hfinal.2
  rw [hdone] at hpc
  exact reportsExit_iff hpc

/-- A command with a second of time and no input. -/
def brief : Command := ⟨"true",1000,[]⟩

/-- The exit of the child is noticed when the deadline has passed. -/
def exitTooLate : List Label :=
  [.step {},.step {},.step {exit := .exited 0,now := 1000},.step {now := 1000},.step {},.step {},
    .step {},.step {}]

theorem reaped_child_killed :
    (run (machine brief) initial exitTooLate).shared.childExited=true ∧
      (run (machine brief) initial exitTooLate).shared.childExitCode=0 ∧
      (run (machine brief) initial exitTooLate).pc=.done {exitCode := -1,timedOut := true} ∧
      .killed true∈(run (machine brief) initial exitTooLate).shared.trace := by
  decide

end Runs

end Vinput.OneShotOutcome
