import Vinput.FrontendSession

/-!
# A release ends the recording

A recording whose trigger was let go waits for the stop timer, and the
timer asks the daemon to stop. Both fail in the source: a status reply that
was sent before the stop puts a stopped session back to recording without a
timer, and the local phase moves on although the call was held back. Runs
without these two events keep the promise.
-/

namespace Vinput.FrontendRelease

open InterleavedRuns StatusPollGate FrontendSession

/-- The session records. -/
def isRecording (engine : Engine) : Bool :=
  engine.session.any fun session => decide (session.phase=.recording)

/-- A released recording has its stop timer armed. -/
def ReleaseArmed (engine : Engine) : Prop :=
  ∀ session∈engine.session, session.stopOnRelease=true → session.triggerReleased=true →
    session.phase=.recording → engine.pendingStop=true

instance (engine : Engine) : Decidable (ReleaseArmed engine) :=
  inferInstanceAs (Decidable (∀ session∈engine.session, session.stopOnRelease=true →
    session.triggerReleased=true → session.phase=.recording → engine.pendingStop=true))

/-- A stop timer that moves the session out of recording puts a stop call
on the bus. -/
def StopSent (rules : KeyRules) (engine : Engine) (label : Moment×Event) : Prop :=
  label.2=.stopTimer → isRecording engine=true →
    isRecording (handle rules engine label)=false →
    (handle rules engine label).sent=engine.sent++[.stopRecording label.1.scene.id]

instance (rules : KeyRules) (engine : Engine) (label : Moment×Event) :
    Decidable (StopSent rules engine label) :=
  inferInstanceAs (Decidable (label.2=.stopTimer → isRecording engine=true →
    isRecording (handle rules engine label)=false →
    (handle rules engine label).sent=engine.sent++[.stopRecording label.1.scene.id]))

/-- A released session that is past its recording. -/
def stoppedByRelease (engine : Engine) : Bool :=
  engine.session.any fun session => session.stopOnRelease && session.triggerReleased &&
    (decide (session.phase=.inferring) || decide (session.phase=.postprocessing))

/-- The event tells the frontend that the daemon records. -/
def bringsRecording (engine : Engine) : Event → Bool
  | .statusChanged status => decide (status=.recording)
  | .statusReply reply => decide (reply=some .recording) &&
      engine.pendingStatusCall.any (accepts engine.statusPollGate)
  | _ => false

/-- No word of a recording comes after its stop, and the stop timer fires
when a call can be placed. -/
def Timely (engine : Engine) (label : Moment×Event) : Prop :=
  (bringsRecording engine label.2=true → stoppedByRelease engine=true →
    engine.pendingStop=true) ∧
  (label.2=.stopTimer → engine.pendingStop=true → isRecording engine=true →
    canCall label.1 engine=true)

instance (engine : Engine) (label : Moment×Event) : Decidable (Timely engine label) :=
  inferInstanceAs (Decidable ((bringsRecording engine label.2=true →
    stoppedByRelease engine=true → engine.pendingStop=true) ∧
    (label.2=.stopTimer → engine.pendingStop=true → isRecording engine=true →
      canCall label.1 engine=true)))

section Outline

variable (engine : Engine) (moment : Moment)

/-- The part of the engine that the promise is about. -/
def outline (engine : Engine) : Option Session×Bool := (engine.session,engine.pendingStop)

/-- A cancel call leaves session and timer alone. -/
@[simp] theorem outline_callCancelOperation (commitRawText : Bool) :
    outline (callCancelOperation commitRawText engine)=outline engine := by
  unfold callCancelOperation
  split <;> rfl

/-- A stop call leaves session and timer alone. -/
@[simp] theorem outline_callStopRecording (sceneId : String) :
    outline (callStopRecording sceneId moment engine).1=outline engine := by
  unfold callStopRecording
  split
  · rfl
  · split <;> rfl

/-- Ending the polling leaves session and timer alone. -/
@[simp] theorem outline_stopStatusSyncIfIdle :
    outline (stopStatusSyncIfIdle engine)=outline engine := by
  unfold stopStatusSyncIfIdle
  split <;> rfl

/-- Starting the polling leaves session and timer alone. -/
@[simp] theorem outline_ensureStatusSync :
    outline (ensureStatusSync engine)=outline engine := by
  unfold ensureStatusSync
  split
  · rfl
  · exact outline_stopStatusSyncIfIdle engine

/-- Starting the polling keeps the session. -/
theorem session_ensureStatusSync : (ensureStatusSync engine).session=engine.session :=
  congrArg Prod.fst (outline_ensureStatusSync engine)

/-- Asking the daemon for its status leaves session and timer alone. -/
@[simp] theorem outline_syncFrontendWithDaemonStatus :
    outline (syncFrontendWithDaemonStatus moment engine)=outline engine := by
  unfold syncFrontendWithDaemonStatus
  split
  · rfl
  · split
    · rfl
    · split <;> rfl

/-- A status query leaves session and timer alone. -/
@[simp] theorem outline_queryDaemonStatus (reply : Option DaemonStatus) :
    outline (queryDaemonStatus reply moment engine)=outline engine := by
  unfold queryDaemonStatus
  split
  · rfl
  · cases reply <;> rfl

/-- A blocking call leaves session and timer alone. -/
@[simp] theorem outline_callSyncRpc (ok : Bool) :
    outline (callSyncRpc ok moment engine)=outline engine := by
  unfold callSyncRpc
  split <;> rfl

/-- An ended session leaves the stop timer as it is. -/
@[simp] theorem outline_finishFrontendSession (fallback : Option InputContext) :
    outline (finishFrontendSession fallback engine)=(none,engine.pendingStop) :=
  outline_stopStatusSyncIfIdle _

end Outline

section Armed

variable {engine other : Engine} {moment : Moment}

/-- The session is part of the outline. -/
theorem session_of_outline {face : Option Session×Bool} (h : outline engine=face) :
    engine.session=face.1 := congrArg Prod.fst h

theorem pendingStop_of_outline {face : Option Session×Bool} (h : outline engine=face) :
    engine.pendingStop=face.2 := congrArg Prod.snd h

/-- The invariant only looks at the outline. -/
theorem ReleaseArmed.congr (armed : ReleaseArmed engine) (h : outline other=outline engine) :
    ReleaseArmed other := by
  intro session hsession
  rw [session_of_outline h] at hsession
  rw [pendingStop_of_outline h]
  exact armed session hsession

/-- Nothing is promised without a recording. -/
theorem releaseArmed_of_quiet (h : isRecording engine=false) : ReleaseArmed engine := by
  intro session hsession _ _ hphase
  have hsome : engine.session=some session := hsession
  unfold isRecording at h
  rw [hsome,Option.any_some,hphase] at h
  cases h

/-- Without a session nothing is recorded. -/
theorem isRecording_of_session_none (h : engine.session=none) : isRecording engine=false := by
  unfold isRecording
  rw [h]
  rfl

/-- A session in another phase records nothing. -/
theorem isRecording_of_phase {session : Session} (h : engine.session=some session)
    (hphase : session.phase≠.recording) : isRecording engine=false := by
  unfold isRecording
  rw [h,Option.any_some]
  exact decide_eq_false hphase

/-- Recording is read off the outline. -/
theorem isRecording_congr (h : outline other=outline engine) :
    isRecording other=isRecording engine := by
  unfold isRecording
  rw [session_of_outline h]
  rfl

/-- A finished session records no more. -/
theorem finishFrontendSession_quiet (fallback : Option InputContext) (engine : Engine) :
    isRecording (finishFrontendSession fallback engine)=false :=
  isRecording_of_session_none (session_of_outline (outline_finishFrontendSession engine fallback))

/-- A dropped session records no more. -/
theorem dropSession_quiet (session : Session) (engine : Engine) :
    isRecording (dropSession session engine)=false :=
  finishFrontendSession_quiet (some session.ic) (callCancelOperation false engine)

/-- A busy session is past its recording. -/
theorem enterBusyState_quiet (ic : InputContext) (commandMode postprocessing : Bool)
    (rawPrev : Option Bool) (moment : Moment) (engine : Engine) :
    isRecording (enterBusyState ic commandMode postprocessing rawPrev moment engine)=false := by
  refine isRecording_of_phase (session_of_outline (outline_ensureStatusSync _)) ?_
  cases postprocessing <;> exact nofun

/-- The stop always leaves the recording phase. -/
theorem finishStopRecording_quiet (moment : Moment) (engine : Engine) :
    isRecording (finishStopRecording moment engine)=false := by
  unfold finishStopRecording
  cases hsession : engine.session with
  | none => exact isRecording_of_session_none hsession
  | some session =>
    dsimp only
    split
    · rw [isRecording_congr (outline_callStopRecording _ _ _)]
      exact enterBusyState_quiet _ _ _ _ _ _
    · rename_i hphase
      exact isRecording_of_phase hsession hphase

end Armed

section Handlers

variable {engine : Engine} {moment : Moment}

/-- The outline of a session that starts to record: a session that was pending keeps its
flags. -/
theorem outline_enterRecordingState (ic : InputContext) (trigger : Key) (commandMode : Bool)
    (moment : Moment) (engine : Engine) :
    outline (enterRecordingState ic trigger commandMode moment engine)=
      (some {sessionOrNew engine ic moment.now with
          phase := .recording
          ic := ic
          trigger := trigger
          commandMode := commandMode
          rawPrev := currentRawPrev engine},
        stopAfterStart engine || engine.pendingStop) := by
  dsimp only [enterRecordingState]
  split
  · rename_i hstop
    rw [hstop]
    exact Prod.ext (session_ensureStatusSync _) rfl
  · rename_i hkeeps
    rw [eq_false_of_ne_true hkeeps]
    exact outline_ensureStatusSync _

/-- A recording that is entered before its stop is armed: a pending start
arms the timer itself, and a recording had it armed. -/
theorem enterRecordingState_armed (ic : InputContext) (trigger : Key) (commandMode : Bool)
    (armed : ReleaseArmed engine)
    (timely : stoppedByRelease engine=true → engine.pendingStop=true) :
    ReleaseArmed (enterRecordingState ic trigger commandMode moment engine) := by
  have hface := outline_enterRecordingState ic trigger commandMode moment engine
  intro entered hentered hstop hreleased _
  rw [session_of_outline hface,Option.mem_some_iff] at hentered
  subst hentered
  rw [pendingStop_of_outline hface]
  cases hsession : engine.session with
  | none =>
    simp only [sessionOrNew,hsession,Option.getD_none,Bool.false_eq_true] at hstop
  | some session =>
    simp only [sessionOrNew,hsession,Option.getD_some] at hstop hreleased
    cases hphase : session.phase with
    | pendingStart => simp [stopAfterStart,hsession,hphase,hstop,hreleased]
    | recording => simp [armed session hsession hstop hreleased hphase]
    | inferring =>
      have hpending : engine.pendingStop=true :=
        timely (by simp [stoppedByRelease,hsession,hphase,hstop,hreleased])
      simp [hpending]
    | postprocessing =>
      have hpending : engine.pendingStop=true :=
        timely (by simp [stoppedByRelease,hsession,hphase,hstop,hreleased])
      simp [hpending]

/-- A status from the daemon keeps the invariant when a recording it brings back after the
release has its timer. -/
theorem applyDaemonStatusLocally_armed (status : DaemonStatus) (fallback : Option InputContext)
    (preferCommandMode : Bool) (armed : ReleaseArmed engine)
    (timely : status=.recording → stoppedByRelease engine=true → engine.pendingStop=true) :
    ReleaseArmed (applyDaemonStatusLocally status fallback preferCommandMode moment engine) := by
  unfold applyDaemonStatusLocally
  split
  · exact armed
  · cases resolveFrontendInputContext engine fallback with
    | none => exact armed
    | some ic =>
      cases status with
      | recording => exact enterRecordingState_armed ic _ _ armed (timely rfl)
      | inferring => exact releaseArmed_of_quiet (enterBusyState_quiet _ _ _ _ _ _)
      | postprocessing => exact releaseArmed_of_quiet (enterBusyState_quiet _ _ _ _ _ _)
      | empty => exact releaseArmed_of_quiet (finishFrontendSession_quiet _ _)
      | idle => exact releaseArmed_of_quiet (finishFrontendSession_quiet _ _)
      | other => exact releaseArmed_of_quiet (finishFrontendSession_quiet _ _)

/-- Flags that do not ask for a stop on release promise nothing. -/
theorem markSession_armed (pressTime : ℕ) {stopOnRelease triggerReleased : Bool}
    (h : (stopOnRelease && triggerReleased)=false) (engine : Engine) :
    ReleaseArmed (markSession pressTime stopOnRelease triggerReleased engine) := by
  intro marked hmarked hstop hreleased
  obtain ⟨session,_,rfl⟩ := Option.map_eq_some_iff.mp hmarked
  dsimp only at hstop hreleased
  rw [hstop,hreleased] at h
  cases h

/-- A recording that is to stop gets its timer. -/
theorem stopIfRecording_armed (engine : Engine) : ReleaseArmed (stopIfRecording engine) := by
  unfold stopIfRecording
  cases hsession : engine.session with
  | none => exact releaseArmed_of_quiet (isRecording_of_session_none hsession)
  | some session =>
    dsimp only
    split
    · exact fun _ _ _ _ _ => rfl
    · rename_i hphase
      exact releaseArmed_of_quiet (isRecording_of_phase hsession hphase)

/-- Keys that are no hotkeys keep the invariant. -/
theorem handleRegularKey_armed (isRelease : Bool) (armed : ReleaseArmed engine) :
    ReleaseArmed (handleRegularKey isRelease engine) := by
  unfold handleRegularKey
  split
  · exact armed
  · have hbroken : ReleaseArmed
        (cancelPendingStart {engine with chordInterrupted := true}) := armed.congr rfl
    dsimp only
    split
    · exact hbroken
    · split
      · exact releaseArmed_of_quiet (dropSession_quiet _ _)
      · exact hbroken

/-- A new press keeps the invariant: its session waits for a release that has not come. -/
theorem newPress_armed (ic : InputContext) (eventSym : ℕ) (role : HotkeyRole) (matchedKey : Key)
    (armed : ReleaseArmed engine) :
    ReleaseArmed (newPress ic eventSym role matchedKey moment engine) := by
  unfold newPress
  dsimp only
  split
  · exact armed.congr rfl
  · exact markSession_armed moment.now rfl _

/-- A press that meets a running recording stops it, drops it, or is the
repetition of a trigger that is still held. -/
theorem pressDuringRecording_armed (matchedKey : Key) {session : Session}
    (hsession : engine.session=some session) :
    ReleaseArmed (pressDuringRecording matchedKey session moment engine) := by
  unfold pressDuringRecording
  split
  · split
    · split
      · exact releaseArmed_of_quiet (dropSession_quiet _ _)
      · exact releaseArmed_of_quiet (finishStopRecording_quiet _ _)
    · rename_i hheld
      intro held hin _ hreleased
      rw [hsession,Option.mem_some_iff] at hin
      subst hin
      exact absurd hreleased hheld
  · exact releaseArmed_of_quiet (dropSession_quiet _ _)

/-- A press keeps the invariant, a second one of the held key included. -/
theorem handlePress_armed (ic : InputContext) (eventSym : ℕ) (role : HotkeyRole)
    (matchedKey : Key) (armed : ReleaseArmed engine) :
    ReleaseArmed (handlePress ic eventSym role matchedKey moment engine) := by
  unfold handlePress
  split
  · exact newPress_armed ic eventSym role matchedKey armed
  · dsimp only
    split
    · exact armed.congr rfl
    · -- The press disarms the timer, so the phase has to carry the promise.
      split
      · rename_i session hsession
        split
        · exact pressDuringRecording_armed matchedKey hsession
        · rename_i hphase
          refine newPress_armed ic eventSym role matchedKey (releaseArmed_of_quiet ?_)
          exact isRecording_of_phase hsession fun h => hphase (.inl h)
      · rename_i hsession
        refine newPress_armed ic eventSym role matchedKey (releaseArmed_of_quiet ?_)
        exact isRecording_of_session_none hsession

/-- The release of the held key keeps the invariant in every mode. -/
theorem releaseHeld_armed (ic : InputContext) (role : HotkeyRole) (matchedKey : Key)
    (armed : ReleaseArmed engine) :
    ReleaseArmed (releaseHeld ic role matchedKey moment engine) := by
  unfold releaseHeld
  split
  · exact armed
  · cases engine.triggerMode with
    | hold => exact stopIfRecording_armed engine
    | tap =>
      dsimp only
      split
      · exact markSession_armed moment.now rfl _
      · exact stopIfRecording_armed engine
    | both =>
      dsimp only
      split
      · intro tapped htapped hstop
        obtain ⟨session,_,rfl⟩ := Option.map_eq_some_iff.mp htapped
        cases hstop
      · exact stopIfRecording_armed engine

/-- The release of the session's own trigger arms the timer. -/
theorem releaseTrigger_armed (matchedKey : Key) (armed : ReleaseArmed engine) :
    ReleaseArmed (releaseTrigger matchedKey engine) := by
  unfold releaseTrigger
  cases hsession : engine.session with
  | none => exact armed
  | some session =>
    dsimp only
    split
    · split
      · exact stopIfRecording_armed _
      · rename_i hkeeps
        intro released hin hstop
        obtain rfl : {session with triggerReleased := true}=released := Option.some.inj hin
        exact absurd hstop hkeeps
    · exact armed

/-- A release keeps the invariant, an interrupted chord included. -/
theorem handleRelease_armed (ic : InputContext) (eventSym : ℕ) (role : HotkeyRole)
    (matchedKey : Key) (armed : ReleaseArmed engine) :
    ReleaseArmed (handleRelease ic eventSym role matchedKey moment engine) := by
  unfold handleRelease
  split
  · dsimp only
    split
    · exact armed.congr rfl
    · have hfreed : ReleaseArmed (cancelPendingStart engine) := armed.congr rfl
      exact releaseTrigger_armed matchedKey (releaseHeld_armed ic role matchedKey hfreed)
  · exact releaseTrigger_armed matchedKey armed

/-- Every key event keeps the invariant. -/
theorem handleKeyEvent_armed (rules : KeyRules) (event : KeyEvent) (armed : ReleaseArmed engine) :
    ReleaseArmed (handleKeyEvent rules event moment engine) := by
  have hremembered : ReleaseArmed (rememberInputContext event.ic engine) := armed.congr rfl
  unfold handleKeyEvent
  dsimp only
  split
  · exact armed.congr rfl
  · split
    · split
      · exact hremembered
      · exact armed.congr (outline_callCancelOperation _ _)
    · split
      · exact hremembered
      · split
        · exact handleRegularKey_armed event.isRelease hremembered
        · split
          · exact handleRelease_armed _ _ _ _ hremembered
          · exact handlePress_armed _ _ _ _ hremembered

end Handlers

section Events

variable {engine : Engine} {moment : Moment}

/-- The reply to a plain call keeps the invariant. -/
theorem onCallReply_armed (ok : Bool) (armed : ReleaseArmed engine) :
    ReleaseArmed (onCallReply ok moment engine) := by
  unfold onCallReply
  split
  · exact armed.congr rfl
  · exact releaseArmed_of_quiet (finishFrontendSession_quiet _ _)

/-- The reply to a start keeps the invariant; a failure ends the session. -/
theorem onStartReply_armed (ok : Bool) (armed : ReleaseArmed engine) :
    ReleaseArmed (onStartReply ok moment engine) := by
  unfold onStartReply
  split
  · exact onCallReply_armed ok (armed.congr rfl)
  · exact armed

/-- The reply to a stop keeps the invariant. -/
theorem onStopReply_armed (ok : Bool) (armed : ReleaseArmed engine) :
    ReleaseArmed (onStopReply ok moment engine) := by
  unfold onStopReply
  split
  · exact onCallReply_armed ok (armed.congr rfl)
  · exact armed

/-- The status timer only asks the daemon. -/
theorem onStatusTimer_armed (armed : ReleaseArmed engine) :
    ReleaseArmed (onStatusTimer moment engine) := by
  have hsynced : ReleaseArmed (syncFrontendWithDaemonStatus moment engine) :=
    armed.congr (outline_syncFrontendWithDaemonStatus engine moment)
  unfold onStatusTimer
  split
  · dsimp only
    split
    · exact hsynced.congr rfl
    · exact hsynced
  · exact armed

/-- A status that was polled keeps the invariant when it comes in time. -/
theorem applyPolledStatus_armed (status : DaemonStatus) (armed : ReleaseArmed engine)
    (timely : status=.recording → stoppedByRelease engine=true → engine.pendingStop=true) :
    ReleaseArmed (applyPolledStatus status moment engine) := by
  unfold applyPolledStatus
  dsimp only
  split
  · exact armed.congr rfl
  · split
    · exact armed.congr rfl
    · exact applyDaemonStatusLocally_armed status none false (armed.congr rfl) timely

/-- A reply puts the session to recording only when the gate accepts it. -/
theorem onStatusReply_armed (reply : Option DaemonStatus) (armed : ReleaseArmed engine)
    (timely : bringsRecording engine (.statusReply reply)=true → stoppedByRelease engine=true →
      engine.pendingStop=true) :
    ReleaseArmed (onStatusReply reply moment engine) := by
  unfold onStatusReply
  cases hcall : engine.pendingStatusCall with
  | none => exact armed
  | some ticket =>
    dsimp only
    split
    · split
      · rename_i haccepts
        rw [complete_snd] at haccepts
        cases reply with
        | none => exact armed.congr rfl
        | some status =>
          refine applyPolledStatus_armed status (armed.congr rfl) ?_
          intro hstatus
          refine timely ?_
          simp only [bringsRecording,hstatus,hcall,Option.any_some,haccepts,decide_true,
            Bool.and_self]
      · exact armed.congr rfl
    · exact armed

/-- A status signal keeps the invariant when it comes in time. -/
theorem onStatusChanged_armed (status : DaemonStatus) (armed : ReleaseArmed engine)
    (timely : bringsRecording engine (.statusChanged status)=true →
      stoppedByRelease engine=true → engine.pendingStop=true) :
    ReleaseArmed (onStatusChanged status moment engine) := by
  have hbrings : status=.recording → bringsRecording engine (.statusChanged status)=true :=
    decide_eq_true
  unfold onStatusChanged
  dsimp only
  split
  · exact applyDaemonStatusLocally_armed status none false (armed.congr rfl)
      fun h => timely (hbrings h)
  · exact applyDaemonStatusLocally_armed status none false (armed.congr rfl)
      fun h => timely (hbrings h)

/-- A result ends the session of its context. -/
theorem onRecognitionResult_armed (armed : ReleaseArmed engine) :
    ReleaseArmed (onRecognitionResult engine) := by
  unfold onRecognitionResult
  split
  · exact armed
  · exact releaseArmed_of_quiet (finishFrontendSession_quiet _ _)

/-- Partial texts leave the session alone. -/
theorem handleRecognitionPartial_armed (armed : ReleaseArmed engine) :
    ReleaseArmed (handleRecognitionPartial moment engine) := by
  unfold handleRecognitionPartial
  split
  · exact armed
  · dsimp only
    split
    · exact armed.congr rfl
    · split
      · exact releaseArmed_of_quiet (enterBusyState_quiet _ _ _ _ _ _)
      · exact armed.congr rfl

/-- The stop timer moves a recording on. -/
theorem onStopTimer_armed (armed : ReleaseArmed engine) :
    ReleaseArmed (onStopTimer moment engine) := by
  unfold onStopTimer
  split
  · exact releaseArmed_of_quiet (finishStopRecording_quiet _ _)
  · exact armed

/-- A context that goes away takes its session with it. -/
theorem onDestroyed_armed (ic : InputContext) (armed : ReleaseArmed engine) :
    ReleaseArmed (onDestroyed ic engine) := by
  have hforget : ∀ hidden : Engine, ReleaseArmed hidden →
      ReleaseArmed (if hidden.lastActiveIc=some ic then {hidden with lastActiveIc := none}
        else hidden) := by
    intro hidden h
    split
    · exact h.congr rfl
    · exact h
  have hhide : ∀ ended : Engine, ReleaseArmed ended →
      ReleaseArmed (if ended.statusIc=some ic then
        stopStatusSyncIfIdle {ended with statusIc := none} else ended) := by
    intro ended h
    split
    · exact h.congr (outline_stopStatusSyncIfIdle _)
    · exact h
  unfold onDestroyed
  refine hforget _ (hhide _ ?_)
  split
  · exact armed
  · split
    · exact releaseArmed_of_quiet rfl
    · exact armed

/-- A context that loses the focus keeps the invariant; a session that waits for its release
ends. -/
theorem onFocusOut_armed (ic : InputContext) (armed : ReleaseArmed engine) :
    ReleaseArmed (onFocusOut ic engine) := by
  unfold onFocusOut
  dsimp only
  split
  · exact armed.congr rfl
  · split
    · exact releaseArmed_of_quiet (finishFrontendSession_quiet _ _)
    · exact armed.congr rfl

/-- One timely event keeps the promise. -/
theorem releaseArmed_handle (rules : KeyRules) (engine : Engine) (label : Moment×Event)
    (armed : ReleaseArmed engine) (timely : Timely engine label) :
    ReleaseArmed (handle rules engine label) := by
  obtain ⟨moment,event⟩ := label
  cases event with
  | key event => exact handleKeyEvent_armed rules event armed
  | statusChanged status => exact onStatusChanged_armed status armed timely.1
  | statusReply reply => exact onStatusReply_armed reply armed timely.1
  | statusTimer => exact onStatusTimer_armed armed
  | stopTimer => exact onStopTimer_armed armed
  | startReply ok => exact onStartReply_armed ok armed
  | stopReply ok => exact onStopReply_armed ok armed
  | recognitionResult => exact onRecognitionResult_armed armed
  | recognitionPartial => exact handleRecognitionPartial_armed armed
  | created ic => exact armed.congr rfl
  | destroyed ic => exact onDestroyed_armed ic armed
  | focusOut ic => exact onFocusOut_armed ic armed
  | queried reply => exact armed.congr (outline_queryDaemonStatus engine moment reply)
  | calledSync ok => exact armed.congr (outline_callSyncRpc engine moment ok)
  | configured settings => exact armed.congr rfl

end Events

section StopCall

variable {engine : Engine} {moment : Moment}

/-- What is recorded has a session in the recording phase. -/
theorem session_of_isRecording (h : isRecording engine=true) :
    ∃ session, engine.session=some session ∧ session.phase=.recording := by
  unfold isRecording at h
  cases hsession : engine.session with
  | none =>
    rw [hsession] at h
    cases h
  | some session =>
    rw [hsession,Option.any_some] at h
    exact ⟨session,rfl,of_decide_eq_true h⟩

/-- A stop call that can be made is sent. -/
theorem callStopRecording_sent (sceneId : String) (h : canCall moment engine=true) :
    (callStopRecording sceneId moment engine).1.sent=engine.sent++[.stopRecording sceneId] := by
  simp only [canCall,Bool.and_eq_true] at h
  simp [callStopRecording,h]

/-- A stop that finds the bus ready is sent, after the local phase moved on. -/
theorem finishStopRecording_sent (hrecording : isRecording engine=true)
    (h : canCall moment engine=true) :
    (finishStopRecording moment engine).sent=
      engine.sent++[.stopRecording moment.scene.id] := by
  obtain ⟨session,hsession,hphase⟩ := session_of_isRecording hrecording
  unfold finishStopRecording
  rw [hsession]
  dsimp only
  rw [if_pos hphase]
  exact callStopRecording_sent moment.scene.id h

/-- At a stop timer that fires in time the call is sent. -/
theorem stopSent_handle (rules : KeyRules) (engine : Engine) (label : Moment×Event)
    (timely : Timely engine label) : StopSent rules engine label := by
  obtain ⟨moment,event⟩ := label
  intro hevent hbefore hafter
  dsimp only at hevent
  subst hevent
  dsimp only [handle,onStopTimer] at hafter ⊢
  cases hpending : engine.pendingStop with
  | false =>
    rw [hpending,if_neg Bool.false_ne_true,hbefore] at hafter
    cases hafter
  | true => exact finishStopRecording_sent hbefore (timely.2 rfl hpending hbefore)

end StopCall

section Runs

/-- An engine that was just loaded records nothing. -/
theorem loaded_armed (bus : Bool) (settings : Settings) (scene : Scene) :
    ReleaseArmed (loaded bus settings scene) := releaseArmed_of_quiet rfl

/-- In a run of timely events, whatever the modes and keys are, a released
recording always has its stop timer armed, and every stop timer that ends a
recording puts the stop call on the bus. -/
theorem release_ends_recording_of_timely_run (rules : KeyRules) (bus : Bool)
    (settings : Settings) (scene : Scene) (events : List (Moment×Event))
    (timely : Along (handle rules) Timely (loaded bus settings scene) events) :
    ReleaseArmed (run (handle rules) (loaded bus settings scene) events) ∧
      Along (handle rules) (StopSent rules) (loaded bus settings scene) events := by
  have hstart := loaded_armed bus settings scene
  refine ⟨timely.invariant (releaseArmed_handle rules) hstart,?_⟩
  exact timely.everyStep (releaseArmed_handle rules)
    (fun engine label _ h => stopSent_handle rules engine label h) hstart

/-- Keys that are compared as they are, as function keys without modifiers
are. -/
def plainRules : KeyRules where
  normalize := id
  check := fun event key => decide (event=key)
  isModifier := fun _ => false
  isReleaseOfModifier := fun _ _ => false

/-- The trigger of the sample runs, F9. -/
def sampleTrigger : Key := {sym := 0xffc6}

/-- One trigger in hold mode. -/
def holdSettings : Settings := ⟨.hold,[sampleTrigger],[],[]⟩

/-- The raw scene. -/
def sampleScene : Scene := ⟨"__raw__",true⟩

/-- An event at a millisecond of the sample runs. -/
def atTime (time : ℕ) (event : Event) : Moment×Event :=
  ({now := milliseconds time, scene := sampleScene},event)

/-- The trigger goes down. -/
def press : Event := .key ⟨1,sampleTrigger,sampleTrigger,false,false⟩

/-- The trigger goes up. -/
def release : Event := .key ⟨1,sampleTrigger,sampleTrigger,true,false⟩

/-- Hold the trigger, let it go and wait for the stop timer. -/
def heldRecording : List (Moment×Event) :=
  [atTime 1000 press,atTime 1020 (.startReply true),atTime 1030 (.statusChanged .recording),
    atTime 3000 release,atTime 3500 .stopTimer]

/-- A held recording ends with its release. -/
theorem release_ends_held_recording :
    Along (handle plainRules) Timely (loaded true holdSettings sampleScene) heldRecording ∧
      ReleaseArmed (run (handle plainRules) (loaded true holdSettings sampleScene)
        heldRecording) ∧
      Along (handle plainRules) (StopSent plainRules) (loaded true holdSettings sampleScene)
        heldRecording := by
  have timely : Along (handle plainRules) Timely (loaded true holdSettings sampleScene)
      heldRecording := by decide +kernel
  exact ⟨timely,release_ends_recording_of_timely_run plainRules true holdSettings sampleScene
    heldRecording timely⟩

/-- A status query is on its way when the stop timer fires; its reply still
tells of the recording. -/
def lateReply : List (Moment×Event) :=
  [atTime 1000 press,atTime 1020 (.startReply true),atTime 1030 (.statusChanged .recording),
    atTime 3000 release,atTime 3499 .statusTimer,atTime 3500 .stopTimer,
    atTime 3501 (.statusReply (some .recording))]

/-- A status query fails shortly before the stop timer fires. -/
def heldBackStop : List (Moment×Event) :=
  [atTime 1000 press,atTime 1020 (.startReply true),atTime 1030 (.statusChanged .recording),
    atTime 3000 release,atTime 3200 .statusTimer,atTime 3300 (.statusReply none),
    atTime 3500 .stopTimer]

/-- The late reply leaves a released recording without a timer, and after
the failed query the stop timer ends the local recording without a call. -/
theorem release_left_recording :
    ¬ReleaseArmed (run (handle plainRules) (loaded true holdSettings sampleScene) lateReply) ∧
      ¬Along (handle plainRules) (StopSent plainRules) (loaded true holdSettings sampleScene)
        heldBackStop := by
  decide +kernel

end Runs

end Vinput.FrontendRelease
