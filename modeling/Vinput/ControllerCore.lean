import Vinput.RuntimeController

/-!
# The core of the controller

Phase, active session, order slot and start mark are the part of the memory
that the regions of different calls fight over. Every step of every thread
has one effect on this core, most of them none. The step function refines
the effects, so an invariant of the core needs one case for each effect and
not one for each program point.
-/

namespace Vinput.ControllerCore

open InterleavedRuns RuntimePhases RuntimeController

/-- The contended part of the memory. -/
structure Core where
  /-- Phase of the state machine. -/
  phase : Status
  /-- Session of the recording. -/
  active : Option ℕ
  /-- Slot of the current order. -/
  slot : OrderSlot
  /-- A start is in progress. -/
  mark : Bool

/-- The core of a memory. -/
def core (shared : Shared) : Core :=
  ⟨shared.phase,shared.active,shared.currentOrder,shared.startRecordingInProgress⟩

/-- Effects of single steps on the core. -/
inductive Effect where
  /-- Nothing changes. -/
  | keep
  /-- A start sets its mark. -/
  | mark
  /-- The mark is cleared. -/
  | unmark
  /-- A start installs its session and records. -/
  | install (id : ℕ)
  /-- A stop finds no session and resets. -/
  | abandon
  /-- A stop drops a recording that is too short. -/
  | discard
  /-- A stop submits its order. -/
  | submit (order : RecognitionOrder)
  /-- A cancel ends a recording. -/
  | cancel
  /-- An injected text is queued. -/
  | inject (order : RecognitionOrder)
  /-- The active session fails. -/
  | fail
  /-- The controller is reset to idle. -/
  | reset
  /-- The worker takes what is in the slot. -/
  | take
  /-- The worker enters post-processing. -/
  | postprocess
  /-- Shutdown stops everything but the session. -/
  | halt
  /-- Shutdown drops the session. -/
  | release

/-- What an effect makes of the core. -/
def Effect.apply (before : Core) : Effect → Core
  | .keep => before
  | .mark => {before with mark := true}
  | .unmark => {before with mark := false}
  | .install id => ⟨.recording,some id,.empty,false⟩
  | .abandon => {before with phase := .idle,slot := .empty}
  | .discard => {before with phase := .idle,active := none,slot := .empty}
  | .submit order =>
    {before with
      phase := if before.phase=.recording then .inferring else before.phase
      active := none
      slot := .queued order}
  | .cancel => ⟨.idle,none,.empty,false⟩
  | .inject order => {before with slot := .queued order}
  | .fail =>
    {before with
      phase := if before.phase=.recording then .error else before.phase
      active := none}
  | .reset => {before with phase := .idle,slot := .empty,mark := false}
  | .take => {before with slot := .movedFrom}
  | .postprocess => {before with phase := .postprocessing}
  | .halt => {before with phase := .idle,mark := false}
  | .release => {before with active := none}

/-- The order of an injected text. -/
def injectedOrder (ime : Bool) (text sceneId : String) : RecognitionOrder :=
  {postprocessRequest := {text := text,sceneId := sceneId},ime := ime}

/-- Effect of the second region of a stop. -/
def submitEffect (sceneId : String) (pcm : List Int16) (shared : Shared) : Effect :=
  match shared.active with
  | none => .abandon
  | some id =>
    let buffer := RecordingBuffer.append pcm shared.audioBuffer
    let transition :=
      onStopRecording shared.machine buffer.totalSamples minSamplesForRecognition
    if transition.2.isTooShort then .discard
    else .submit (submittedOrder sceneId id transition.1 buffer shared)

/-- Effect of one step of a thread. -/
def effect (shared : Shared) : Pc → Effect
  | .start _ .accept => if busyForStart shared then .keep else .mark
  | .start _ (.failed _) => .unmark
  | .start _ (.noSessionLocked _) => .unmark
  | .start _ (.install id _) =>
    if !shared.startRecordingInProgress || shared.phase≠.idle then .unmark else .install id
  | .stop _ sceneId (.submit pcm) => submitEffect sceneId pcm shared
  | .cancel _ _ .enter => if shared.phase=.recording then .cancel else .unmark
  | .inject ime text sceneId =>
    if shared.phase≠.idle then .keep else .inject (injectedOrder ime text sceneId)
  | .flush _ (.failActive id _) => if shared.active≠some id then .keep else .fail
  | .resetToIdle _ => .reset
  | .worker .wait => if shared.currentOrder=.empty then .keep else .take
  | .worker (.enter _) => if shared.phase=.inferring then .postprocess else .keep
  | .shutdown .locked => .halt
  | .shutdown .retire => .release
  | .shutdown .clear => .release
  | _ => .keep

@[simp] theorem core_pushAudio (pushed : Bool) (id : ℕ) (pcm : List Int16) (shared : Shared) :
    core (pushAudio pushed id pcm shared)=core shared := by
  unfold pushAudio
  split
  · rfl
  · rfl

@[simp] theorem core_popNext (resume : Resume) (id : ℕ) (shared : Shared) :
    core (popNext resume id shared).1=core shared := by
  unfold popNext
  dsimp only
  split
  · rfl
  · rfl

/-- A start refines its effects. -/
theorem core_nextStart (oracle : Oracle) (shared : Shared) (call : StartCall)
    (point : StartPoint) :
    core (nextStart oracle shared call point).1=
      (effect shared (.start call point)).apply (core shared) := by
  cases point with
  | enter =>
    dsimp only [nextStart,effect]
    split
    · rfl
    · rfl
  | accept =>
    dsimp only [nextStart,effect]
    split
    · rfl
    · rfl
  | drain => rfl
  | arm =>
    dsimp only [nextStart,effect]
    split
    · rfl
    · rfl
  | armNew => rfl
  | armed reused =>
    dsimp only [nextStart,effect]
    split
    · rfl
    · split
      · rfl
      · rfl
    · rfl
  | failed error => rfl
  | session =>
    dsimp only [nextStart,effect]
    split
    · rfl
    · rfl
  | noSession error => rfl
  | noSessionLocked error => rfl
  | noSessionSchedule error => rfl
  | install id backend =>
    by_cases h : (!shared.startRecordingInProgress || shared.phase≠.idle)=true
    · simp only [nextStart,effect,if_pos h]
      rfl
    · simp only [nextStart,effect,if_neg h]
      have hidle : shared.machine.phase=.idle := by
        by_contra hne
        exact h (Bool.or_eq_true_iff.mpr (.inr (decide_eq_true hne)))
      dsimp only [installLocked,core,Shared.phase,Effect.apply]
      rw [onStartRecording_phase hidle]
  | abort => rfl
  | abortSchedule => rfl

/-- The second region of a stop refines its effects. -/
theorem core_submitLocked (sceneId : String) (pcm : List Int16) (shared : Shared) :
    core (submitLocked sceneId pcm shared).1=
      (submitEffect sceneId pcm shared).apply (core shared) := by
  unfold submitLocked submitEffect
  cases hactive : shared.active with
  | none =>
    dsimp only [core,Shared.phase,Effect.apply]
    rw [hactive]
    rfl
  | some id =>
    dsimp only
    by_cases hrec : shared.machine.phase=.recording
    · rcases onStopRecording_recording hrec
        (RecordingBuffer.append pcm shared.audioBuffer).totalSamples minSamplesForRecognition with
        ⟨hshort,hphase⟩ | ⟨hlong,hphase⟩
      · rw [if_pos hshort,if_pos hshort]
        dsimp only [core,Shared.phase,Effect.apply]
        rw [hphase]
        rfl
      · have hfalse := Bool.eq_false_iff.mp hlong
        rw [if_neg hfalse,if_neg hfalse]
        dsimp only [core,Shared.phase,Effect.apply]
        rw [hphase,if_pos hrec]
    · have hrejected := onStopRecording_rejected hrec
        (RecordingBuffer.append pcm shared.audioBuffer).totalSamples minSamplesForRecognition
      simp only [hrejected,reject,Bool.false_eq_true,if_false]
      dsimp only [core,Shared.phase,Effect.apply]
      rw [if_neg hrec]

/-- A stop refines its effects. -/
theorem core_nextStop (shared : Shared) (ime : Bool) (sceneId : String) (point : StopPoint) :
    core (nextStop shared ime sceneId point).1=
      (effect shared (.stop ime sceneId point)).apply (core shared) := by
  cases point with
  | enter =>
    dsimp only [nextStop,effect]
    split
    · rfl
    · rfl
  | capture => rfl
  | drain => rfl
  | submit pcm => exact core_submitLocked sceneId pcm shared
  | retire session applyPendingReload => rfl

/-- Cancelling a start keeps the state machine. -/
@[simp] theorem cancelStartLocked_machine (shared : Shared) :
    (cancelStartLocked shared).machine=shared.machine := by
  unfold cancelStartLocked
  split
  · rfl
  · rfl

/-- A cancel during a recording forgets the recording and goes on to stop
the capture. -/
theorem cancelLocked_recording {shared : Shared} (h : shared.phase=.recording)
    (ime commitRawText : Bool) :
    cancelLocked ime commitRawText shared=
      ({resetRecordingStateLocked (cancelStartLocked shared) with
        sessionIme := ime
        machine := (onCancel shared.machine commitRawText).1
        acceptingChunks := false
        active := none
        currentOrder := .empty},
        .stopCapture (cancelStartLocked shared).active
          (cancelStartLocked shared).pendingAsrBackendReload) := by
  unfold cancelLocked
  dsimp only
  rw [cancelStartLocked_machine]
  rcases onCancel_phase shared.machine commitRawText with ⟨_,_,hacc,hstop⟩ | ⟨hrec,_,_⟩
  · rw [if_neg (by rw [hacc]; exact Bool.false_ne_true),if_pos hstop]
  · exact absurd h hrec

/-- Outside a recording a cancel only takes a mark away and tells
post-processing. -/
theorem cancelLocked_other {shared : Shared} (h : shared.phase≠.recording)
    (ime commitRawText : Bool) :
    ∃ sessionIme machine requested, machine.phase=shared.phase ∧
      (cancelLocked ime commitRawText shared).1=
        {cancelStartLocked shared with
          sessionIme := sessionIme
          machine := machine
          postprocessingCancelRequested := requested} := by
  unfold cancelLocked
  dsimp only
  rw [cancelStartLocked_machine]
  rcases onCancel_phase shared.machine commitRawText with ⟨hrec,_⟩ | ⟨_,hsame,hstop⟩
  · exact absurd hrec h
  · split
    · exact ⟨_,_,_,congrArg RuntimeStateMachine.phase (cancelStartLocked_machine shared),rfl⟩
    · rw [if_neg (by rw [hstop]; exact Bool.false_ne_true)]
      exact ⟨_,_,_,hsame,rfl⟩

/-- A cancel clears the mark, and ends a recording. -/
theorem core_cancelLocked (ime commitRawText : Bool) (shared : Shared) :
    core (cancelLocked ime commitRawText shared).1=
      (if shared.phase=.recording then Effect.cancel else .unmark).apply (core shared) := by
  have hcore : core (cancelStartLocked shared)=(Effect.unmark).apply (core shared) := by
    unfold cancelStartLocked
    cases hmark : shared.startRecordingInProgress with
    | true => rfl
    | false =>
      dsimp only [core,Shared.phase,Effect.apply]
      rw [if_neg Bool.false_ne_true,hmark]
  by_cases hrec : shared.phase=.recording
  · have hidle : (onCancel shared.machine commitRawText).1.phase=.idle := by
      rcases onCancel_phase shared.machine commitRawText with ⟨_,hidle,_⟩ | ⟨hnot,_⟩
      · exact hidle
      · exact absurd hrec hnot
    rw [cancelLocked_recording hrec,if_pos hrec]
    dsimp only [core,Shared.phase,Effect.apply]
    rw [hidle]
    have hmark := congrArg Core.mark hcore
    dsimp only [core,Shared.phase,Effect.apply] at hmark
    rw [show (resetRecordingStateLocked (cancelStartLocked shared)).startRecordingInProgress=
      false from hmark]
  · obtain ⟨sessionIme,machine,requested,hphase,hafter⟩ :=
      cancelLocked_other hrec ime commitRawText
    rw [hafter,if_neg hrec,←hcore]
    dsimp only [core,Shared.phase]
    rw [hphase,cancelStartLocked_machine]

/-- The steps of a cancel refine its effects. -/
theorem core_nextCancel (shared : Shared) (ime commitRawText : Bool) (point : CancelPoint) :
    core (nextCancel shared ime commitRawText point).1=
      (effect shared (.cancel ime commitRawText point)).apply (core shared) := by
  cases point with
  | enter => exact core_cancelLocked ime commitRawText shared
  | capture session applyPendingReload => rfl
  | drain session applyPendingReload => rfl
  | retire session applyPendingReload => rfl

/-- A flush refines its effects. -/
theorem core_nextFlush (oracle : Oracle) (shared : Shared) (resume : Resume)
    (point : FlushPoint) :
    core (nextFlush oracle shared resume point).1=
      (effect shared (.flush resume point)).apply (core shared) := by
  cases point with
  | enter => rfl
  | drainEnter =>
    dsimp only [nextFlush,effect]
    split
    · rfl
    · rfl
  | drainLoop =>
    dsimp only [nextFlush,effect]
    split
    · rfl
    · rfl
  | audioCheck pcm =>
    dsimp only [nextFlush,effect]
    split
    · rfl
    · rfl
  | audioStartup pcm =>
    dsimp only [nextFlush,effect]
    split
    · rfl
    · rfl
  | audioAppend pcm =>
    dsimp only [nextFlush,effect]
    split
    · rfl
    · split
      · rfl
      · exact core_popNext resume _ _
  | audioPush id chunk => exact core_pushAudio oracle.pushed id chunk shared
  | audioNext id =>
    dsimp only [nextFlush,effect]
    split
    · rfl
    · exact core_popNext resume id shared
  | audioRetire id => rfl
  | failActive id after =>
    dsimp only [nextFlush,effect]
    split
    · rfl
    · rcases onAudioError_phase shared.machine with ⟨hrec,hphase⟩ | ⟨hrec,hphase⟩
      · dsimp only [failActiveLocked,resetRecordingStateLocked,core,Shared.phase,Effect.apply]
        rw [hphase,if_pos hrec]
      · dsimp only [failActiveLocked,resetRecordingStateLocked,core,Shared.phase,Effect.apply]
        rw [hphase,if_neg hrec]
  | failRetire id after => rfl
  | failEnd after => rfl
  | failSchedule after => rfl
  | pollEnter =>
    dsimp only [nextFlush,effect]
    split
    · rfl
    · split
      · rfl
      · rfl
  | exchange =>
    dsimp only [nextFlush,effect]
    split
    · rfl
    · rfl
  | decide =>
    dsimp only [nextFlush,effect]
    split
    · rfl
    · split
      · rfl
      · rfl
  | stop => rfl
  | drain => rfl

/-- The worker refines its effects. -/
theorem core_nextWorker (oracle : Oracle) (shared : Shared) (point : WorkerPoint) :
    core (nextWorker oracle shared point).1=
      (effect shared (.worker point)).apply (core shared) := by
  cases point with
  | loop =>
    dsimp only [nextWorker,effect]
    split
    · rfl
    · rfl
  | wait =>
    dsimp only [nextWorker,effect]
    cases hslot : shared.currentOrder with
    | queued order =>
      have hne : OrderSlot.queued order≠.empty := nofun
      rw [if_neg hne]
      rfl
    | movedFrom =>
      have hne : OrderSlot.movedFrom≠.empty := nofun
      rw [if_neg hne]
      rfl
    | empty =>
      rw [if_pos rfl]
      dsimp only
      split
      · rfl
      · dsimp only [core,Shared.phase,Effect.apply]
        rw [hslot]
  | push order =>
    dsimp only [nextWorker,effect]
    split
    · rfl
    · split
      · rfl
      · split
        · rfl
        · exact core_pushAudio oracle.pushed _ _ shared
  | finish order => rfl
  | arm order => rfl
  | pipeline order => rfl
  | enter order =>
    rcases onInferenceComplete_phase shared.machine with ⟨hinf,hphase⟩ | ⟨hinf,hphase⟩
    · dsimp only [nextWorker,effect]
      rw [if_pos hinf]
      dsimp only [core,Shared.phase,Effect.apply]
      rw [hphase]
    · dsimp only [nextWorker,effect]
      rw [if_neg hinf]
      dsimp only [core,Shared.phase,Effect.apply]
      rw [hphase]
  | process order => rfl
  | take order result => rfl
  | publish order result => rfl
  | caught => rfl
  | done => rfl

/-- Shutdown refines its effects. -/
theorem core_nextShutdown (shared : Shared) (point : ShutdownPoint) :
    core (nextShutdown shared point).1=
      (effect shared (.shutdown point)).apply (core shared) := by
  cases point with
  | enter => rfl
  | pending => rfl
  | stop => rfl
  | drain => rfl
  | locked => rfl
  | retire => rfl
  | join =>
    dsimp only [nextShutdown,effect]
    split
    · rfl
    · rfl
  | clear => rfl

/-- Beginning a call leaves the core alone. -/
theorem core_begin (shared : Shared) (call : Call) : core (begin shared call).1=core shared := by
  cases call with
  | startRecording call => rfl
  | stopRecording ime sceneId => rfl
  | cancelOperation ime commitRawText => rfl
  | injectText ime stage text sceneId =>
    cases stage with
    | partialText => rfl
    | finalText =>
      dsimp only [begin]
      split
      · rfl
      · rfl
  | reloadAsrBackend => rfl
  | flushDeferredActions => rfl
  | maybeDestroyExpiredStream =>
    dsimp only [begin]
    split
    · rfl
    · rfl
  | processCallback chunks =>
    dsimp only [begin]
    split
    · rfl
    · rfl
  | shutdown => rfl

/-- Every step of every thread refines its effect on the core. -/
theorem core_next (oracle : Oracle) (shared : Shared) (pc : Pc) :
    core (next oracle shared pc).1=(effect shared pc).apply (core shared) := by
  cases pc with
  | ready last => exact core_begin shared oracle.call
  | start call point => exact core_nextStart oracle shared call point
  | stop ime sceneId point => exact core_nextStop shared ime sceneId point
  | cancel ime commitRawText point => exact core_nextCancel shared ime commitRawText point
  | inject ime text sceneId =>
    dsimp only [next,effect,injectLocked]
    split
    · rfl
    · rfl
  | reload =>
    dsimp only [next,effect]
    split
    · rfl
    · rfl
  | expire => rfl
  | flush resume point => exact core_nextFlush oracle shared resume point
  | resetToIdle resume => rfl
  | maybeApply resume =>
    dsimp only [next,effect]
    split
    · rfl
    · rfl
  | synchronize resume => rfl
  | worker point => exact core_nextWorker oracle shared point
  | shutdown point => exact core_nextShutdown shared point

/-- The routine a thread is in. -/
inductive Routine where
  | outside
  | start
  | stop
  | cancel
  | region
  | flush
  | tail
  | worker
  | shutdown
deriving DecidableEq

/-- The routine of a program counter. -/
def routine : Pc → Routine
  | .ready _ => .outside
  | .start _ _ => .start
  | .stop _ _ _ => .stop
  | .cancel _ _ _ => .cancel
  | .inject _ _ _ => .region
  | .reload => .region
  | .expire => .region
  | .flush _ _ => .flush
  | .resetToIdle _ => .tail
  | .maybeApply _ => .tail
  | .synchronize _ => .tail
  | .worker _ => .worker
  | .shutdown _ => .shutdown

/-- Program counters through which a routine is entered from another one. -/
def entry : Pc → Bool
  | .start _ .enter => true
  | .start _ .accept => true
  | .start _ _ => false
  | .stop _ _ .enter => true
  | .stop _ _ _ => false
  | .cancel _ _ .enter => true
  | .cancel _ _ _ => false
  | .flush _ .enter => true
  | .flush _ _ => false
  | .worker .loop => true
  | .worker _ => false
  | .shutdown .enter => true
  | .shutdown _ => false
  | _ => true

@[simp] theorem entry_resume (resume : Resume) : entry resume.pc=true := by
  cases resume <;> rfl

@[simp] theorem entry_finishMethod (applyPendingReload : Bool) (result : MethodResult) :
    entry (finishMethod applyPendingReload result)=true := by
  cases applyPendingReload <;> rfl

/-- A step stays in its routine or enters another one. -/
theorem routine_next (oracle : Oracle) (shared : Shared) (pc : Pc) :
    routine (next oracle shared pc).2=routine pc ∨ entry (next oracle shared pc).2=true := by
  cases pc with
  | ready last =>
    right
    dsimp only [next]
    cases oracle.call <;> dsimp only [begin] <;> (repeat' split) <;> rfl
  | start call point =>
    cases point <;> dsimp only [next,nextStart] <;> (repeat' split) <;>
      first | exact .inl rfl | exact .inr rfl
  | stop ime sceneId point =>
    cases point <;> dsimp only [next,nextStop] <;> (repeat' split) <;>
      first | exact .inl rfl | exact .inr rfl | exact .inr (entry_finishMethod _ _)
  | cancel ime commitRawText point =>
    cases point <;> dsimp only [next,nextCancel] <;> (repeat' split) <;>
      first | exact .inl rfl | exact .inr rfl | exact .inr (entry_finishMethod _ _)
  | flush resume point =>
    cases point <;> dsimp only [next,nextFlush,popNext] <;> (repeat' split) <;>
      first | exact .inl rfl | exact .inr rfl | exact .inr (entry_resume _)
  | worker point =>
    cases point <;> dsimp only [next,nextWorker] <;> (repeat' split) <;>
      first | exact .inl rfl | exact .inr rfl
  | shutdown point =>
    cases point <;> dsimp only [next,nextShutdown] <;> (repeat' split) <;>
      first | exact .inl rfl | exact .inr rfl
  | maybeApply resume =>
    right
    dsimp only [next]
    split
    · exact entry_resume resume
    · rfl
  | synchronize resume => exact .inr (entry_resume resume)
  | _ =>
    right
    dsimp only [next,injectLocked]
    (repeat' split) <;> rfl

/-- A kind of program counters inside one routine is reached only from that
routine. -/
theorem routine_of_next (kind : Pc → Bool) {place : Routine}
    (hplace : ∀ pc, kind pc=true → routine pc=place) (hentry : ∀ pc, kind pc=true → entry pc=false)
    {oracle : Oracle} {shared : Shared} {pc : Pc} (h : kind (next oracle shared pc).2=true) :
    routine pc=place := by
  rcases routine_next oracle shared pc with hsame | hentered
  · exact hsame.symm.trans (hplace _ h)
  · exact absurd ((hentry _ h).symm.trans hentered) Bool.false_ne_true

/-- A stop has no other effect than ending a recording. -/
theorem submitEffect_cases (sceneId : String) (pcm : List Int16) (shared : Shared) :
    submitEffect sceneId pcm shared=.abandon ∨ submitEffect sceneId pcm shared=.discard ∨
      ∃ order, submitEffect sceneId pcm shared=.submit order := by
  unfold submitEffect
  cases shared.active with
  | none => exact .inl rfl
  | some id =>
    dsimp only
    split
    · exact .inr (.inl rfl)
    · exact .inr (.inr ⟨_,rfl⟩)

/-- Where an effect comes from: the region the thread is in and what it finds
there. -/
inductive Origin (shared : Shared) : Pc → Effect → Prop
  | keep {pc : Pc} : Origin shared pc .keep
  | mark {call : StartCall} (free : ¬busyForStart shared=true) :
    Origin shared (.start call .accept) .mark
  | failed {call : StartCall} {error : String} : Origin shared (.start call (.failed error)) .unmark
  | noSession {call : StartCall} {error : String} :
    Origin shared (.start call (.noSessionLocked error)) .unmark
  | refused {call : StartCall} {id : ℕ} {backend : AsrSettings.BackendDescriptor} :
    Origin shared (.start call (.install id backend)) .unmark
  | install {call : StartCall} {id : ℕ} {backend : AsrSettings.BackendDescriptor}
    (free : ¬(!shared.startRecordingInProgress || decide (shared.phase≠.idle))=true) :
    Origin shared (.start call (.install id backend)) (.install id)
  | abandon {ime : Bool} {sceneId : String} {pcm : List Int16}
    (h : submitEffect sceneId pcm shared=.abandon) :
    Origin shared (.stop ime sceneId (.submit pcm)) .abandon
  | discard {ime : Bool} {sceneId : String} {pcm : List Int16}
    (h : submitEffect sceneId pcm shared=.discard) :
    Origin shared (.stop ime sceneId (.submit pcm)) .discard
  | submit {ime : Bool} {sceneId : String} {pcm : List Int16} {order : RecognitionOrder}
    (h : submitEffect sceneId pcm shared=.submit order) :
    Origin shared (.stop ime sceneId (.submit pcm)) (.submit order)
  | cancel {ime commitRawText : Bool} (recording : shared.phase=.recording) :
    Origin shared (.cancel ime commitRawText .enter) .cancel
  | cancelStart {ime commitRawText : Bool} (quiet : shared.phase≠.recording) :
    Origin shared (.cancel ime commitRawText .enter) .unmark
  | inject {ime : Bool} {text sceneId : String} (idle : shared.phase=.idle) :
    Origin shared (.inject ime text sceneId) (.inject (injectedOrder ime text sceneId))
  | fail {resume : Resume} {id : ℕ} {after : AfterFailure} (active : shared.active=some id) :
    Origin shared (.flush resume (.failActive id after)) .fail
  | reset {resume : Resume} : Origin shared (.resetToIdle resume) .reset
  | take (waiting : shared.currentOrder≠.empty) : Origin shared (.worker .wait) .take
  | postprocess {order : RecognitionOrder} (inferring : shared.phase=.inferring) :
    Origin shared (.worker (.enter order)) .postprocess
  | halt : Origin shared (.shutdown .locked) .halt
  | retire : Origin shared (.shutdown .retire) .release
  | clear : Origin shared (.shutdown .clear) .release

/-- Every effect has its origin. -/
theorem origin_of_effect {shared : Shared} {pc : Pc} {change : Effect}
    (h : effect shared pc=change) : Origin shared pc change := by
  subst h
  unfold effect
  split
  · split
    · exact .keep
    · exact .mark ‹_›
  · exact .failed
  · exact .noSession
  · split
    · exact .refused
    · exact .install ‹_›
  · rename_i ime sceneId pcm
    rcases submitEffect_cases sceneId pcm shared with h | h | ⟨order,h⟩
    · rw [h]
      exact .abandon h
    · rw [h]
      exact .discard h
    · rw [h]
      exact .submit h
  · split
    · exact .cancel ‹_›
    · exact .cancelStart ‹_›
  · split
    · exact .keep
    · rename_i hidle
      exact .inject (not_not.mp hidle)
  · split
    · exact .keep
    · rename_i hactive
      exact .fail (not_not.mp hactive)
  · exact .reset
  · split
    · exact .keep
    · exact .take ‹_›
  · split
    · exact .postprocess ‹_›
    · exact .keep
  · exact .halt
  · exact .retire
  · exact .clear
  · exact .keep

/-- What the core must be for an effect to occur. -/
def Effect.Enabled (before : Core) : Effect → Prop
  | .mark => before.phase=.idle ∧ before.mark=false
  | .install _ => before.phase=.idle ∧ before.mark=true
  | .abandon => before.active=none
  | .discard => before.phase=.recording ∧ before.active≠none
  | .submit _ => before.active≠none
  | .cancel => before.phase=.recording
  | .inject _ => before.phase=.idle
  | .fail => before.active≠none
  | .take => before.slot≠.empty
  | .postprocess => before.phase=.inferring
  | _ => True

/-- The daemon is free for a start exactly when idle and unmarked. -/
theorem busyForStart_eq_false {shared : Shared} :
    busyForStart shared=false ↔
      shared.phase=.idle ∧ shared.startRecordingInProgress=false := by
  simp only [busyForStart,Bool.or_eq_false_iff,decide_eq_false_iff_not,not_not]

/-- A start installs exactly when marked and idle. -/
theorem install_condition {shared : Shared}
    (h : ¬(!shared.startRecordingInProgress || decide (shared.phase≠.idle))=true) :
    shared.phase=.idle ∧ shared.startRecordingInProgress=true := by
  rw [Bool.not_eq_true,Bool.or_eq_false_iff,decide_eq_false_iff_not,not_not,
    Bool.not_eq_false'] at h
  exact ⟨h.2,h.1⟩

/-- The second region of a stop is enabled for its effect. -/
theorem submitEffect_enabled (sceneId : String) (pcm : List Int16) (shared : Shared) :
    (submitEffect sceneId pcm shared).Enabled (core shared) := by
  unfold submitEffect
  cases hactive : shared.active with
  | none => exact hactive
  | some id =>
    have hsome : shared.active≠none := by
      rw [hactive]
      exact nofun
    dsimp only
    split
    · rename_i hshort
      refine ⟨?_,hsome⟩
      by_contra hrec
      rw [onStopRecording_rejected hrec] at hshort
      cases hshort
    · exact hsome

/-- Every step finds the core its effect needs. -/
theorem effect_enabled (shared : Shared) (pc : Pc) :
    (effect shared pc).Enabled (core shared) := by
  have hsubmit : ∀ {sceneId pcm change}, submitEffect sceneId pcm shared=change →
      change.Enabled (core shared) := by
    intro sceneId pcm change h
    rw [←h]
    exact submitEffect_enabled sceneId pcm shared
  generalize hchange : effect shared pc=change
  cases origin_of_effect hchange with
  | mark free => exact busyForStart_eq_false.mp (Bool.eq_false_of_not_eq_true free)
  | install free => exact install_condition free
  | abandon h => exact hsubmit h
  | discard h => exact hsubmit h
  | submit h => exact hsubmit h
  | cancel recording => exact recording
  | inject idle => exact idle
  | fail active =>
    dsimp only [Effect.Enabled,core]
    rw [active]
    exact Option.some_ne_none _
  | take waiting => exact waiting
  | postprocess inferring => exact inferring
  | _ => trivial

/-- Worker points between taking an order and its reset. -/
def processing : WorkerPoint → Bool
  | .loop => false
  | .wait => false
  | .done => false
  | _ => true

/-- A thread that will reset the controller to idle whatever happens: the
worker inside an order, or a flush that has decided on the teardown. -/
def owesReset : Pc → Bool
  | .worker point => processing point
  | .resetToIdle _ => true
  | .flush _ .stop => true
  | .flush _ .drain => true
  | _ => false

/-- A flush that decides on the teardown in this step. -/
def decidesTeardown (shared : Shared) : Pc → Bool
  | .flush _ .decide => !skipTeardown shared
  | _ => false

/-- A thread inside `Shutdown`. -/
def shuttingDown : Pc → Bool
  | .shutdown _ => true
  | _ => false

/-- The call is `Shutdown`. -/
def isShutdown : Call → Bool
  | .shutdown => true
  | _ => false

/-- Tails return to points that owe no reset. -/
@[simp] theorem owesReset_resume (resume : Resume) : owesReset resume.pc=false := by
  cases resume <;> rfl

/-- A method that ends owes no reset. -/
@[simp] theorem owesReset_finishMethod (applyPendingReload : Bool) (result : MethodResult) :
    owesReset (finishMethod applyPendingReload result)=false := by
  cases applyPendingReload <;> rfl

theorem owesReset_begin (shared : Shared) (call : Call) :
    owesReset (begin shared call).2=false := by
  cases call <;> dsimp only [begin] <;> (repeat' split) <;> rfl

theorem owesReset_nextStart (oracle : Oracle) (shared : Shared) (call : StartCall)
    (point : StartPoint) : owesReset (nextStart oracle shared call point).2=false := by
  cases point <;> dsimp only [nextStart] <;> (repeat' split) <;> rfl

theorem owesReset_nextStop (shared : Shared) (ime : Bool) (sceneId : String)
    (point : StopPoint) : owesReset (nextStop shared ime sceneId point).2=false := by
  cases point <;> dsimp only [nextStop] <;> (repeat' split) <;>
    first | rfl | exact owesReset_finishMethod _ _

theorem owesReset_nextCancel (shared : Shared) (ime commitRawText : Bool)
    (point : CancelPoint) : owesReset (nextCancel shared ime commitRawText point).2=false := by
  cases point <;> dsimp only [nextCancel] <;> (repeat' split) <;>
    first | rfl | exact owesReset_finishMethod _ _

theorem owesReset_popNext (resume : Resume) (id : ℕ) (shared : Shared) :
    owesReset (popNext resume id shared).2=false := by
  dsimp only [popNext]
  split
  · rfl
  · rfl

theorem owesReset_afterFailure (resume : Resume) (after : AfterFailure) :
    owesReset (.flush resume after.point)=false := by
  cases after <;> rfl

/-- A flush owes a reset when it did or decides on a teardown. -/
theorem owesReset_nextFlush {oracle : Oracle} {shared : Shared} {resume : Resume}
    {point : FlushPoint} (h : owesReset (nextFlush oracle shared resume point).2=true) :
    owesReset (.flush resume point)=true ∨
      decidesTeardown shared (.flush resume point)=true := by
  cases point with
  | stop => exact .inl rfl
  | drain => exact .inl rfl
  | decide =>
    right
    dsimp only [decidesTeardown]
    cases hskip : skipTeardown shared with
    | false => rfl
    | true =>
      simp only [nextFlush,hskip,if_true,owesReset_resume] at h
      cases h
  | _ =>
    exfalso
    dsimp only [nextFlush] at h
    (repeat' split at h) <;>
      first
        | cases h
        | simp only [owesReset_resume,owesReset_popNext,owesReset_afterFailure,
            Bool.false_eq_true] at h

theorem owesReset_nextShutdown (shared : Shared) (point : ShutdownPoint) :
    owesReset (nextShutdown shared point).2=false := by
  cases point <;> dsimp only [nextShutdown] <;> (repeat' split) <;> rfl

/-- A thread comes to owe a reset only by taking an order or by deciding on
a teardown. -/
theorem owesReset_next {oracle : Oracle} {shared : Shared} {pc : Pc}
    (h : owesReset (next oracle shared pc).2=true) :
    owesReset pc=true ∨ effect shared pc=.take ∨ decidesTeardown shared pc=true := by
  cases pc with
  | resetToIdle resume => exact .inl rfl
  | worker point =>
    cases point with
    | loop =>
      dsimp only [next,nextWorker] at h
      split at h
      · cases h
      · cases h
    | wait =>
      right
      left
      dsimp only [effect]
      split
      · rename_i hempty
        dsimp only [next,nextWorker] at h
        rw [hempty] at h
        dsimp only at h
        split at h
        · cases h
        · cases h
      · rfl
    | done => cases h
    | _ => exact .inl rfl
  | flush resume point =>
    rcases owesReset_nextFlush h with howes | hdecides
    · exact .inl howes
    · exact .inr (.inr hdecides)
  | ready last => exact absurd h (Bool.eq_false_iff.mp (owesReset_begin shared oracle.call))
  | start call point =>
    exact absurd h (Bool.eq_false_iff.mp (owesReset_nextStart oracle shared call point))
  | stop ime sceneId point =>
    exact absurd h (Bool.eq_false_iff.mp (owesReset_nextStop shared ime sceneId point))
  | cancel ime commitRawText point =>
    exact absurd h (Bool.eq_false_iff.mp (owesReset_nextCancel shared ime commitRawText point))
  | inject ime text sceneId =>
    dsimp only [next,injectLocked] at h
    split at h
    · cases h
    · cases h
  | reload =>
    dsimp only [next] at h
    split at h
    · cases h
    · cases h
  | expire => cases h
  | maybeApply resume =>
    dsimp only [next] at h
    split at h
    · rw [owesReset_resume] at h
      cases h
    · cases h
  | synchronize resume =>
    dsimp only [next] at h
    rw [owesReset_resume] at h
    cases h
  | shutdown point =>
    exact absurd h (Bool.eq_false_iff.mp (owesReset_nextShutdown shared point))

/-- `Shutdown` is entered only by its call. -/
theorem shuttingDown_next {oracle : Oracle} {shared : Shared} {pc : Pc}
    (h : shuttingDown (next oracle shared pc).2=true) :
    shuttingDown pc=true ∨ isShutdown oracle.call=true := by
  have hresume : ∀ resume : Resume, shuttingDown resume.pc=false := by
    intro resume
    cases resume <;> rfl
  have hfinish : ∀ (apply : Bool) (result : MethodResult),
      shuttingDown (finishMethod apply result)=false := by
    intro apply result
    cases apply <;> rfl
  cases pc with
  | shutdown point => exact .inl rfl
  | ready last =>
    right
    dsimp only [next] at h
    cases hcall : oracle.call with
    | shutdown => rfl
    | _ =>
      rw [hcall] at h
      dsimp only [begin] at h
      (repeat' split at h) <;> cases h
  | start call point =>
    cases point <;> dsimp only [next,nextStart] at h <;> (repeat' split at h) <;> cases h
  | stop ime sceneId point =>
    cases point <;> dsimp only [next,nextStop] at h <;> (repeat' split at h) <;>
      first | cases h | cases (hfinish _ _).symm.trans h
  | cancel ime commitRawText point =>
    cases point <;> dsimp only [next,nextCancel] at h <;> (repeat' split at h) <;>
      first | cases h | cases (hfinish _ _).symm.trans h
  | flush resume point =>
    cases point <;> dsimp only [next,nextFlush,popNext] at h <;> (repeat' split at h) <;>
      first | cases h | cases (hresume _).symm.trans h
  | worker point =>
    cases point <;> dsimp only [next,nextWorker] at h <;> (repeat' split at h) <;> cases h
  | maybeApply resume =>
    dsimp only [next] at h
    split at h
    · cases (hresume resume).symm.trans h
    · cases h
  | synchronize resume => cases (hresume resume).symm.trans h
  | _ =>
    dsimp only [next,injectLocked] at h
    (repeat' split at h) <;> cases h

/-- A reset is an effect of a thread that owes it. -/
theorem owesReset_of_effect {shared : Shared} {pc : Pc} (h : effect shared pc=.reset) :
    owesReset pc=true := by
  cases origin_of_effect h with
  | reset => rfl

/-- Only `Shutdown` halts. -/
theorem shuttingDown_of_halt {shared : Shared} {pc : Pc} (h : effect shared pc=.halt) :
    shuttingDown pc=true := by
  cases origin_of_effect h with
  | halt => rfl

/-- Only `Shutdown` drops the session without a stop or a cancel. -/
theorem shuttingDown_of_release {shared : Shared} {pc : Pc} (h : effect shared pc=.release) :
    shuttingDown pc=true := by
  cases origin_of_effect h with
  | retire => rfl
  | clear => rfl

/-- An injected order has no session. -/
theorem session_of_inject {shared : Shared} {pc : Pc} {order : RecognitionOrder}
    (h : effect shared pc=.inject order) : order.session=none := by
  cases origin_of_effect h with
  | inject => rfl

/-- A recording that goes on after an effect went on before it, or the
effect installed it. -/
theorem recording_apply {before : Core} {change : Effect}
    (h : (change.apply before).phase=.recording) :
    before.phase=.recording ∨ ∃ id, change=.install id := by
  cases change with
  | install id => exact .inr ⟨id,rfl⟩
  | abandon => cases h
  | discard => cases h
  | cancel => cases h
  | reset => cases h
  | postprocess => cases h
  | halt => cases h
  | submit order =>
    unfold Effect.apply at h
    dsimp only at h
    split at h
    · cases h
    · exact .inl h
  | fail =>
    unfold Effect.apply at h
    dsimp only at h
    split at h
    · cases h
    · exact .inl h
  | _ => exact .inl h

/-- During a recording the slot is empty. -/
theorem slot_apply {before : Core} {change : Effect} (enabled : change.Enabled before)
    (empty : before.phase=.recording → before.slot=.empty)
    (h : (change.apply before).phase=.recording) : (change.apply before).slot=.empty := by
  have hbefore := recording_apply h
  cases change with
  | install id => rfl
  | abandon => rfl
  | discard => rfl
  | cancel => rfl
  | reset => rfl
  | submit order =>
    unfold Effect.apply at h
    dsimp only at h
    split at h
    · cases h
    · rename_i hrec
      exact absurd h hrec
  | inject order =>
    have hrec : before.phase=.recording := h
    rw [enabled] at hrec
    cases hrec
  | take => exact absurd (empty h) enabled
  | fail =>
    rcases hbefore with hrec | ⟨id,hid⟩
    · exact empty hrec
    · cases hid
  | _ =>
    rcases hbefore with hrec | ⟨id,hid⟩
    · exact empty hrec
    · cases hid

/-- A start is about to install its session. -/
def installs (shared : Shared) : Pc → Bool
  | .start _ (.install _ _) =>
    shared.startRecordingInProgress && decide (shared.phase=.idle)
  | _ => false

/-- An installation is an effect of a thread about to install. -/
theorem installs_of_effect {shared : Shared} {pc : Pc} {id : ℕ}
    (h : effect shared pc=.install id) : installs shared pc=true := by
  cases origin_of_effect h with
  | install free =>
    obtain ⟨hidle,hmark⟩ := install_condition free
    simp only [installs,hmark,hidle,decide_true,Bool.and_self]

/-- A thread that installs owes no reset afterwards. -/
theorem owesReset_next_of_installs {oracle : Oracle} {shared : Shared} {pc : Pc}
    (h : installs shared pc=true) : owesReset (next oracle shared pc).2=false := by
  unfold installs at h
  split at h
  · exact owesReset_nextStart oracle shared _ _
  · cases h

/-- Nobody begins to shut down when no call asks for it. -/
theorem machine_serving {pool : System} {label : ℕ×Oracle}
    (hcall : isShutdown label.2.call=false) (h : ∀ t, shuttingDown (pool.pcs t)=false) :
    ∀ t, shuttingDown ((machine pool label).pcs t)=false := by
  obtain ⟨thread,oracle⟩ := label
  refine Pool.local_step (fun _ _ pc => shuttingDown pc=false) h ?_ (fun _ _ ht => ht)
  by_contra hself
  rcases shuttingDown_next (Bool.eq_true_of_not_eq_false hself) with hbefore | hnow
  · exact Bool.false_ne_true ((h thread).symm.trans hbefore)
  · exact Bool.false_ne_true (hcall.symm.trans hnow)

/-- A teardown is never decided during a recording. -/
theorem not_decidesTeardown {shared : Shared} (h : shared.phase=.recording) (pc : Pc) :
    decidesTeardown shared pc=false := by
  unfold decidesTeardown
  split
  · simp only [skipTeardown,h,decide_true,Bool.or_true,Bool.true_or,Bool.not_true]
  · rfl

end Vinput.ControllerCore
