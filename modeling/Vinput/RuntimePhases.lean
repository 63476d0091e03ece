import Mathlib.Data.List.Basic

/-!
# Phases of the runtime state machine

The state machine of the daemon runtime: five phases, the post-processing
sub-state and the text of a command. Every operation returns the machine
after the call and the full transition report with its rejection text.
-/

namespace Vinput.RuntimePhases

/-- Phase reported to clients. -/
inductive Status where
  | idle
  | recording
  | inferring
  | postprocessing
  | error
deriving DecidableEq, Repr, Inhabited

/-- What post-processing is doing, or what a cancel has asked of it. -/
inductive PostprocessingState where
  | inactive
  | dictation
  | command
  | discard
  | commitRaw
deriving DecidableEq, Repr, Inhabited

/-- Report of one operation. -/
structure StateTransitionResult where
  /-- The operation was allowed in its phase. -/
  accepted : Bool := false
  /-- Phase before the operation. -/
  previousPhase : Status := .idle
  /-- Phase after the operation. -/
  newPhase : Status := .idle
  /-- Text for the caller of a rejected operation. -/
  rejectionReason : String := ""
  /-- The caller starts the capture. -/
  shouldStartCapture : Bool := false
  /-- The caller stops the capture. -/
  shouldStopCapture : Bool := false
  /-- The caller submits the recording. -/
  shouldSubmitInference : Bool := false
  /-- The caller cancels the session. -/
  shouldCancelSession : Bool := false
  /-- Post-processing begins. -/
  shouldEnterPostprocessing : Bool := false
  /-- The result is committed. -/
  shouldCommitResult : Bool := false
  /-- The raw text is committed instead. -/
  shouldCommitRawText : Bool := false
  /-- The text is dropped. -/
  shouldDiscardText : Bool := false
  /-- The recording had too few samples. -/
  isTooShort : Bool := false
deriving DecidableEq, Repr, Inhabited

/-- The machine itself. -/
structure RuntimeStateMachine where
  /-- Current phase. -/
  phase : Status := .idle
  /-- Current post-processing state. -/
  postprocessingState : PostprocessingState := .inactive
  /-- The recording is a command. -/
  isCommand : Bool := false
  /-- Text the command applies to. -/
  selectedText : String := ""
deriving DecidableEq, Repr, Inhabited

/-- Report of an operation that its phase does not allow. -/
def reject (phase : Status) (reason : String) : StateTransitionResult :=
  {accepted := false,previousPhase := phase,newPhase := phase,rejectionReason := reason}

/-- Text for callers that find the daemon busy. -/
def busyText : String :=
  "Voice input daemon is busy. Please wait for the current request to finish."

/-- Text for a stop without a recording. -/
def notRecordingText : String := "Recording is not active."

/-- Forget everything. -/
def clear (_ : RuntimeStateMachine) : RuntimeStateMachine := {}

/-- Leave a recording for the idle phase; the post-processing state is
left as it is. -/
def abortRecordingToIdle (machine : RuntimeStateMachine) (previous : Status) (isTooShort : Bool) :
    RuntimeStateMachine×StateTransitionResult :=
  ({machine with phase := .idle,isCommand := false,selectedText := ""},
    {accepted := true
     previousPhase := previous
     newPhase := .idle
     shouldStopCapture := true
     shouldCancelSession := true
     isTooShort := isTooShort})

/-- Finish an order and commit its result. -/
def completeToIdle (machine : RuntimeStateMachine) (previous : Status) :
    RuntimeStateMachine×StateTransitionResult :=
  (clear machine,
    {accepted := true,previousPhase := previous,newPhase := .idle,shouldCommitResult := true})

/-- A recording begins. -/
def onStartRecording (machine : RuntimeStateMachine) (isCommand : Bool) (selectedText : String) :
    RuntimeStateMachine×StateTransitionResult :=
  if machine.phase≠.idle then (machine,reject machine.phase busyText)
  else
    ({phase := .recording
      postprocessingState := .inactive
      isCommand := isCommand
      selectedText := selectedText},
      {accepted := true
       previousPhase := machine.phase
       newPhase := .recording
       shouldStartCapture := true})

/-- A recording ends: too short, or submitted. -/
def onStopRecording (machine : RuntimeStateMachine) (sampleCount minSamples : ℕ) :
    RuntimeStateMachine×StateTransitionResult :=
  if machine.phase≠.recording then (machine,reject machine.phase notRecordingText)
  else if sampleCount < minSamples then abortRecordingToIdle machine machine.phase true
  else
    ({machine with phase := .inferring},
      {accepted := true
       previousPhase := machine.phase
       newPhase := .inferring
       shouldStopCapture := true
       shouldSubmitInference := true})

/-- The post-processing state lets this cancel through: dictation always,
a command only when its text is dropped. -/
def cancellable (state : PostprocessingState) (commitRawText : Bool) : Bool :=
  state=.dictation || (!commitRawText && state=.command)

/-- A cancel: nothing to do when idle, aborts a recording, redirects the
result of post-processing. -/
def onCancel (machine : RuntimeStateMachine) (commitRawText : Bool) :
    RuntimeStateMachine×StateTransitionResult :=
  match machine.phase with
  | .idle => (machine,{accepted := true,previousPhase := .idle,newPhase := .idle})
  | .recording => abortRecordingToIdle machine .recording false
  | .postprocessing =>
    if cancellable machine.postprocessingState commitRawText then
      ({machine with
        postprocessingState := if commitRawText then .commitRaw else .discard},
        {accepted := true
         previousPhase := .postprocessing
         newPhase := .postprocessing
         shouldCommitRawText := commitRawText
         shouldDiscardText := !commitRawText})
    else
      (machine,reject .postprocessing "Requested post-processing action is not available.")
  | phase => (machine,reject phase "No cancellable operation in current phase.")

/-- The session of a recording failed. -/
def onAudioError (machine : RuntimeStateMachine) : RuntimeStateMachine×StateTransitionResult :=
  if machine.phase≠.recording then (machine,reject machine.phase "")
  else
    ({machine with phase := .error},
      {accepted := true
       previousPhase := machine.phase
       newPhase := .error
       shouldStopCapture := true
       shouldCancelSession := true})

/-- Recognition is done; a scene to post-process keeps the order going. -/
def onInferenceComplete (machine : RuntimeStateMachine) (hasSceneToPostprocess : Bool) :
    RuntimeStateMachine×StateTransitionResult :=
  if machine.phase≠.inferring then (machine,reject machine.phase "")
  else if hasSceneToPostprocess then
    ({machine with
      phase := .postprocessing
      postprocessingState := if machine.isCommand then .command else .dictation},
      {accepted := true
       previousPhase := machine.phase
       newPhase := .postprocessing
       shouldEnterPostprocessing := true})
  else completeToIdle machine machine.phase

/-- Recognition failed. -/
def onInferenceError (machine : RuntimeStateMachine) :
    RuntimeStateMachine×StateTransitionResult :=
  if machine.phase≠.inferring then (machine,reject machine.phase "")
  else
    ({machine with phase := .error},
      {accepted := true,previousPhase := machine.phase,newPhase := .error})

/-- Post-processing is done. -/
def onPostprocessingComplete (machine : RuntimeStateMachine) :
    RuntimeStateMachine×StateTransitionResult :=
  if machine.phase≠.postprocessing then (machine,reject machine.phase "")
  else completeToIdle machine machine.phase

/-- Unconditional return to the idle phase. -/
def onResetToIdle (machine : RuntimeStateMachine) : RuntimeStateMachine×StateTransitionResult :=
  (clear machine,{accepted := true,previousPhase := machine.phase,newPhase := .idle})

/-- Read and clear the post-processing state. -/
def takePostprocessingState (machine : RuntimeStateMachine) :
    RuntimeStateMachine×PostprocessingState :=
  ({machine with postprocessingState := .inactive},machine.postprocessingState)

/-- A start is accepted exactly when idle and then records. -/
theorem onStartRecording_phase {machine : RuntimeStateMachine} (h : machine.phase=.idle)
    (isCommand : Bool) (selectedText : String) :
    (onStartRecording machine isCommand selectedText).1.phase=.recording := by
  unfold onStartRecording
  rw [if_neg (not_not.mpr h)]

/-- A stop outside a recording leaves the machine alone and is never too
short. -/
theorem onStopRecording_rejected {machine : RuntimeStateMachine} (h : machine.phase≠.recording)
    (sampleCount minSamples : ℕ) :
    onStopRecording machine sampleCount minSamples=
      (machine,reject machine.phase notRecordingText) := by
  unfold onStopRecording
  rw [if_pos h]

/-- A stop ends every recording, back to idle when too short. -/
theorem onStopRecording_recording {machine : RuntimeStateMachine} (h : machine.phase=.recording)
    (sampleCount minSamples : ℕ) :
    ((onStopRecording machine sampleCount minSamples).2.isTooShort=true ∧
        (onStopRecording machine sampleCount minSamples).1.phase=.idle) ∨
      ((onStopRecording machine sampleCount minSamples).2.isTooShort=false ∧
        (onStopRecording machine sampleCount minSamples).1.phase=.inferring) := by
  unfold onStopRecording
  rw [if_neg (not_not.mpr h)]
  by_cases hshort : sampleCount < minSamples
  · rw [if_pos hshort]
    exact .inl ⟨rfl,rfl⟩
  · rw [if_neg hshort]
    exact .inr ⟨rfl,rfl⟩

/-- What a cancel does to the phase, and when it asks for the capture to
stop: only a recording is left, for the idle phase. -/
theorem onCancel_phase (machine : RuntimeStateMachine) (commitRawText : Bool) :
    (machine.phase=.recording ∧ (onCancel machine commitRawText).1.phase=.idle ∧
        (onCancel machine commitRawText).2.accepted=true ∧
        (onCancel machine commitRawText).2.shouldStopCapture=true) ∨
      (machine.phase≠.recording ∧ (onCancel machine commitRawText).1.phase=machine.phase ∧
        (onCancel machine commitRawText).2.shouldStopCapture=false) := by
  unfold onCancel
  cases h : machine.phase with
  | idle => exact .inr ⟨nofun,h,rfl⟩
  | recording => exact .inl ⟨rfl,rfl,rfl,rfl⟩
  | inferring => exact .inr ⟨nofun,h,rfl⟩
  | postprocessing =>
    dsimp only
    split
    · exact .inr ⟨nofun,rfl,rfl⟩
    · exact .inr ⟨nofun,h,rfl⟩
  | error => exact .inr ⟨nofun,h,rfl⟩

/-- A failed session drives a recording, and nothing else, into the error
phase. -/
theorem onAudioError_phase (machine : RuntimeStateMachine) :
    (machine.phase=.recording ∧ (onAudioError machine).1.phase=.error) ∨
      (machine.phase≠.recording ∧ (onAudioError machine).1.phase=machine.phase) := by
  unfold onAudioError
  by_cases h : machine.phase=.recording
  · rw [if_neg (not_not.mpr h)]
    exact .inl ⟨h,rfl⟩
  · rw [if_pos h]
    exact .inr ⟨h,rfl⟩

/-- The end of recognition moves on only from inference. -/
theorem onInferenceComplete_phase (machine : RuntimeStateMachine) :
    (machine.phase=.inferring ∧ (onInferenceComplete machine true).1.phase=.postprocessing) ∨
      (machine.phase≠.inferring ∧ (onInferenceComplete machine true).1.phase=machine.phase) := by
  unfold onInferenceComplete
  by_cases h : machine.phase=.inferring
  · rw [if_neg (not_not.mpr h),if_pos rfl]
    exact .inl ⟨h,rfl⟩
  · rw [if_pos h]
    exact .inr ⟨h,rfl⟩

end Vinput.RuntimePhases
