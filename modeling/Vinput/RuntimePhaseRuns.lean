import Vinput.InterleavedRuns
import Vinput.RuntimePhases

/-!
# Runs of the runtime state machine

The state machine is called from several places of the daemon in any order.
Every operation keeps the agreement of the phase with the post-processing
state and with the command, and a rejected operation changes nothing.
-/

namespace Vinput.RuntimePhaseRuns

open InterleavedRuns RuntimePhases

/-- The operations of the state machine with their arguments. -/
inductive Operation where
  | startRecording (isCommand : Bool) (selectedText : String)
  | stopRecording (sampleCount minSamples : ℕ)
  | cancel (commitRawText : Bool)
  | audioError
  | inferenceComplete (hasSceneToPostprocess : Bool)
  | inferenceError
  | postprocessingComplete
  | resetToIdle
  | takePostprocessingState
  | clear
deriving DecidableEq, Repr

/-- An operation that reports. -/
def reported (call : RuntimeStateMachine×StateTransitionResult) :
    RuntimeStateMachine×Option StateTransitionResult := (call.1,some call.2)

/-- The machine after an operation, and its report when it makes one. -/
def Operation.call (machine : RuntimeStateMachine) :
    Operation → RuntimeStateMachine×Option StateTransitionResult
  | .startRecording isCommand selectedText =>
    reported (onStartRecording machine isCommand selectedText)
  | .stopRecording sampleCount minSamples =>
    reported (onStopRecording machine sampleCount minSamples)
  | .cancel commitRawText => reported (onCancel machine commitRawText)
  | .audioError => reported (onAudioError machine)
  | .inferenceComplete hasScene => reported (onInferenceComplete machine hasScene)
  | .inferenceError => reported (onInferenceError machine)
  | .postprocessingComplete => reported (onPostprocessingComplete machine)
  | .resetToIdle => reported (onResetToIdle machine)
  | .takePostprocessingState => ((RuntimePhases.takePostprocessingState machine).1,none)
  | .clear => (RuntimePhases.clear machine,none)

/-- One operation. -/
def step (machine : RuntimeStateMachine) (operation : Operation) : RuntimeStateMachine :=
  (operation.call machine).1

/-- A machine whose fields agree. -/
structure Coherent (machine : RuntimeStateMachine) : Prop where
  /-- Outside post-processing its state is inactive. -/
  inactive : machine.phase≠.postprocessing → machine.postprocessingState=.inactive
  /-- The idle phase knows of no command. -/
  idle : machine.phase=.idle → machine.isCommand=false ∧ machine.selectedText=""
  /-- Dictation belongs to no command. -/
  dictation : machine.postprocessingState=.dictation → machine.isCommand=false
  /-- Nor does a raw commit. -/
  raw : machine.postprocessingState=.commitRaw → machine.isCommand=false

/-- What one operation can do to a machine. -/
inductive Moves (machine : RuntimeStateMachine) : RuntimeStateMachine → Prop where
  /-- Nothing changes. -/
  | stays : Moves machine machine
  /-- Everything is forgotten. -/
  | forgets : Moves machine {}
  /-- A recording is aborted. -/
  | aborts (h : machine.phase=.recording) :
    Moves machine {machine with phase := .idle,isCommand := false,selectedText := ""}
  /-- A recording begins. -/
  | begins (h : machine.phase=.idle) (isCommand : Bool) (selectedText : String) :
    Moves machine {phase := .recording,isCommand := isCommand,selectedText := selectedText}
  /-- A recording or its recognition goes on or fails. -/
  | goesOn (h : machine.phase=.recording ∨ machine.phase=.inferring) (phase : Status)
      (hphase : phase=.inferring ∨ phase=.error) : Moves machine {machine with phase := phase}
  /-- Post-processing begins. -/
  | enters (h : machine.phase=.inferring) : Moves machine
      {machine with
        phase := .postprocessing
        postprocessingState := if machine.isCommand then .command else .dictation}
  /-- A cancel decides on post-processing. -/
  | decides (h : machine.phase=.postprocessing) (commitRawText : Bool)
      (hcancels : cancellable machine.postprocessingState commitRawText=true) : Moves machine
      {machine with postprocessingState := if commitRawText then .commitRaw else .discard}
  /-- The post-processing state is taken. -/
  | takes : Moves machine {machine with postprocessingState := .inactive}

/-- Every operation is one of the moves. -/
theorem step_moves (machine : RuntimeStateMachine) (operation : Operation) :
    Moves machine (step machine operation) := by
  cases operation with
  | startRecording isCommand selectedText =>
    dsimp only [step,Operation.call,reported,onStartRecording]
    split
    · exact .stays
    · rename_i hidle
      exact .begins (not_not.mp hidle) isCommand selectedText
  | stopRecording sampleCount minSamples =>
    dsimp only [step,Operation.call,reported,onStopRecording]
    split
    · exact .stays
    · rename_i hrec
      split
      · exact .aborts (not_not.mp hrec)
      · exact .goesOn (.inl (not_not.mp hrec)) .inferring (.inl rfl)
  | cancel commitRawText =>
    dsimp only [step,Operation.call,reported,onCancel]
    split
    · exact .stays
    · rename_i hphase
      exact .aborts hphase
    · rename_i hphase
      split
      · rename_i hcancels
        exact .decides hphase commitRawText hcancels
      · exact .stays
    · exact .stays
  | audioError =>
    dsimp only [step,Operation.call,reported,onAudioError]
    split
    · exact .stays
    · rename_i hrec
      exact .goesOn (.inl (not_not.mp hrec)) .error (.inr rfl)
  | inferenceComplete hasScene =>
    dsimp only [step,Operation.call,reported,onInferenceComplete]
    split
    · exact .stays
    · rename_i hinf
      split
      · exact .enters (not_not.mp hinf)
      · exact .forgets
  | inferenceError =>
    dsimp only [step,Operation.call,reported,onInferenceError]
    split
    · exact .stays
    · rename_i hinf
      exact .goesOn (.inr (not_not.mp hinf)) .error (.inr rfl)
  | postprocessingComplete =>
    dsimp only [step,Operation.call,reported,onPostprocessingComplete]
    split
    · exact .stays
    · exact .forgets
  | resetToIdle => exact .forgets
  | takePostprocessingState => exact .takes
  | clear => exact .forgets

/-- Every operation keeps the fields in agreement. -/
theorem coherent_moves {machine after : RuntimeStateMachine} (h : Coherent machine)
    (hmoves : Moves machine after) : Coherent after := by
  cases hmoves with
  | stays => exact h
  | forgets => exact ⟨fun _ => rfl,fun _ => ⟨rfl,rfl⟩,fun _ => rfl,fun _ => rfl⟩
  | aborts hrec =>
    have hinactive : machine.postprocessingState=.inactive := by
      refine h.inactive ?_
      rw [hrec]
      decide
    exact ⟨fun _ => hinactive,fun _ => ⟨rfl,rfl⟩,fun _ => rfl,fun _ => rfl⟩
  | begins hidle isCommand selectedText => exact ⟨fun _ => rfl,nofun,nofun,nofun⟩
  | goesOn hphase phase hafter =>
    have hinactive : machine.postprocessingState=.inactive := by
      refine h.inactive ?_
      rcases hphase with hphase | hphase <;> rw [hphase] <;> decide
    refine ⟨fun _ => hinactive,?_,h.dictation,h.raw⟩
    intro hidle
    rcases hafter with hafter | hafter <;> cases hafter.symm.trans hidle
  | enters hinf =>
    refine ⟨fun hne => absurd rfl hne,nofun,?_,?_⟩
    · intro hstate
      dsimp only at hstate ⊢
      cases hcommand : machine.isCommand with
      | false => rfl
      | true =>
        rw [hcommand] at hstate
        cases hstate
    · intro hstate
      dsimp only at hstate
      split at hstate <;> cases hstate
  | decides hpost commitRawText hcancels =>
    refine ⟨fun hne => absurd hpost hne,h.idle,?_,?_⟩
    · intro hstate
      dsimp only at hstate
      split at hstate <;> cases hstate
    · intro hstate
      -- A raw commit was asked for, so the state was dictation.
      dsimp only at hstate
      split at hstate
      · rename_i hraw
        subst hraw
        unfold cancellable at hcancels
        rw [Bool.not_true,Bool.false_and,Bool.or_false] at hcancels
        exact h.dictation (of_decide_eq_true hcancels)
      · cases hstate
  | takes => exact ⟨fun _ => rfl,h.idle,nofun,nofun⟩

/-- The command of an operation under way is kept until the idle phase. -/
theorem command_kept {machine after : RuntimeStateMachine} (hmoves : Moves machine after)
    (hbusy : machine.phase≠.idle) (hstays : after.phase≠.idle) :
    after.isCommand=machine.isCommand ∧ after.selectedText=machine.selectedText := by
  cases hmoves with
  | forgets => exact absurd rfl hstays
  | aborts hrec => exact absurd rfl hstays
  | begins hidle isCommand selectedText => exact absurd hidle hbusy
  | _ => exact ⟨rfl,rfl⟩

/-- The error phase is left only on purpose. -/
theorem error_left {machine : RuntimeStateMachine} (herror : machine.phase=.error)
    {operation : Operation} (hleft : (step machine operation).phase≠.error) :
    operation=.resetToIdle ∨ operation=.clear := by
  cases operation with
  | resetToIdle => exact .inl rfl
  | clear => exact .inr rfl
  | takePostprocessingState => exact absurd herror hleft
  | _ =>
    refine absurd ?_ hleft
    simp only [step,Operation.call,onStartRecording,onStopRecording,onCancel,onAudioError,
      onInferenceComplete,onInferenceError,onPostprocessingComplete,herror,ne_eq,reduceCtorEq,
      not_false_eq_true,if_true,reported]

/-- A refused call leaves the machine alone and reports its phase twice. -/
def Refusal (machine : RuntimeStateMachine)
    (call : RuntimeStateMachine×StateTransitionResult) : Prop :=
  call.2.accepted=false → call.1=machine ∧ call.2.previousPhase=call.2.newPhase

theorem refusal_reject (machine : RuntimeStateMachine) (phase : Status) (reason : String) :
    Refusal machine (machine,reject phase reason) := fun _ => ⟨rfl,rfl⟩

theorem refusal_accepted {machine : RuntimeStateMachine}
    {call : RuntimeStateMachine×StateTransitionResult} (h : call.2.accepted=true) :
    Refusal machine call := fun hrefused => absurd (h.symm.trans hrefused) (by decide)

/-- A rejected operation changes nothing and reports no change. -/
theorem rejected_unchanged {machine : RuntimeStateMachine} {operation : Operation}
    {result : StateTransitionResult} (hresult : (operation.call machine).2=some result)
    (hrejected : result.accepted=false) :
    step machine operation=machine ∧ result.previousPhase=result.newPhase := by
  have hrefusal : ∀ {call : RuntimeStateMachine×StateTransitionResult},
      operation.call machine=reported call → Refusal machine call →
      step machine operation=machine ∧ result.previousPhase=result.newPhase := by
    intro call hcall hcalled
    rw [hcall] at hresult
    cases hresult
    unfold step
    rw [hcall]
    exact hcalled hrejected
  cases operation with
  | takePostprocessingState => cases hresult
  | clear => cases hresult
  | startRecording isCommand selectedText =>
    refine hrefusal rfl ?_
    unfold onStartRecording
    split
    · exact refusal_reject machine _ _
    · exact refusal_accepted rfl
  | stopRecording sampleCount minSamples =>
    refine hrefusal rfl ?_
    unfold onStopRecording
    split
    · exact refusal_reject machine _ _
    · split <;> exact refusal_accepted rfl
  | cancel commitRawText =>
    refine hrefusal rfl ?_
    unfold onCancel
    split
    · exact refusal_accepted rfl
    · exact refusal_accepted rfl
    · split
      · exact refusal_accepted rfl
      · exact refusal_reject machine _ _
    · exact refusal_reject machine _ _
  | audioError =>
    refine hrefusal rfl ?_
    unfold onAudioError
    split
    · exact refusal_reject machine _ _
    · exact refusal_accepted rfl
  | inferenceComplete hasScene =>
    refine hrefusal rfl ?_
    unfold onInferenceComplete
    split
    · exact refusal_reject machine _ _
    · split <;> exact refusal_accepted rfl
  | inferenceError =>
    refine hrefusal rfl ?_
    unfold onInferenceError
    split
    · exact refusal_reject machine _ _
    · exact refusal_accepted rfl
  | postprocessingComplete =>
    refine hrefusal rfl ?_
    unfold onPostprocessingComplete
    split
    · exact refusal_reject machine _ _
    · exact refusal_accepted rfl
  | resetToIdle => exact hrefusal rfl (refusal_accepted rfl)

/-- Post-processing under way whose outcome no cancel can change. -/
def Decided (machine : RuntimeStateMachine) : Prop :=
  machine.phase=.postprocessing ∧ machine.postprocessingState≠.dictation ∧
    machine.postprocessingState≠.command

/-- What was decided stays so while postprocessing goes on. -/
theorem decided_moves {machine after : RuntimeStateMachine} (hmoves : Moves machine after)
    (hstays : after.phase=.postprocessing) (h : Decided machine) : Decided after := by
  obtain ⟨hpost,hdictation,hcommand⟩ := h
  cases hmoves with
  | stays => exact ⟨hpost,hdictation,hcommand⟩
  | forgets => cases hstays
  | aborts hrec => cases hstays
  | begins hidle isCommand selectedText => cases hstays
  | goesOn hphase phase hafter =>
    rcases hafter with hafter | hafter <;> cases hafter.symm.trans hstays
  | enters hinf => cases hpost.symm.trans hinf
  | decides hphase commitRawText hcancels =>
    unfold cancellable at hcancels
    rw [decide_eq_false hdictation,decide_eq_false hcommand,Bool.and_false] at hcancels
    cases hcancels
  | takes => exact ⟨hpost,nofun,nofun⟩

/-- A decided outcome refuses every cancel. -/
theorem cancel_refused {machine : RuntimeStateMachine} (h : Decided machine)
    (commitRawText : Bool) : (onCancel machine commitRawText).2.accepted=false := by
  have hrefuses : cancellable machine.postprocessingState commitRawText=false := by
    unfold cancellable
    rw [decide_eq_false h.2.1,decide_eq_false h.2.2,Bool.and_false,Bool.or_false]
  unfold onCancel
  rw [h.1]
  dsimp only
  rw [hrefuses]
  rfl

/-- A coherent machine that holds a cancel's outcome is post-processing. -/
theorem decided_of_held {machine : RuntimeStateMachine} (h : Coherent machine)
    (hheld : machine.postprocessingState=.commitRaw ∨ machine.postprocessingState=.discard) :
    Decided machine := by
  have hpost : machine.phase=.postprocessing := by
    by_contra hne
    have hinactive := h.inactive hne
    rcases hheld with hstate | hstate <;> cases hinactive.symm.trans hstate
  rcases hheld with hstate | hstate <;> exact ⟨hpost,by rw [hstate]; decide,by rw [hstate]; decide⟩

/-- A busy machine with the command of another one. -/
def SameCommand (first later : RuntimeStateMachine) : Prop :=
  later.phase≠.idle ∧ later.isCommand=first.isCommand ∧ later.selectedText=first.selectedText

/-- The command stays the same until the machine is idle. -/
theorem sameCommand_moves {first machine after : RuntimeStateMachine}
    (h : SameCommand first machine) (hmoves : Moves machine after) (hstays : after.phase≠.idle) :
    SameCommand first after := by
  have hkept := command_kept hmoves h.1 hstays
  exact ⟨hstays,hkept.1.trans h.2.1,hkept.2.trans h.2.2⟩

/-- What every machine of every run satisfies. -/
structure Contract (machine : RuntimeStateMachine) : Prop where
  /-- Outside post-processing its state is inactive. -/
  inactive : machine.phase≠.postprocessing → machine.postprocessingState=.inactive
  /-- The idle phase has no command and no text. -/
  idle : machine.phase=.idle → machine.isCommand=false ∧ machine.selectedText=""
  /-- Only dictation commits its raw text. -/
  raw : machine.postprocessingState=.commitRaw → machine.isCommand=false
  /-- Once a cancel's outcome is held, every cancel is refused until
  post-processing ends. -/
  held : machine.postprocessingState=.commitRaw ∨ machine.postprocessingState=.discard →
    ∀ later, Along step (fun state operation => (step state operation).phase=.postprocessing)
      machine later →
    ∀ commitRawText, (onCancel (run step machine later) commitRawText).2.accepted=false
  /-- The command and its text stay until the phase returns to idle. -/
  command : machine.phase≠.idle →
    ∀ later, Along step (fun state operation => (step state operation).phase≠.idle)
      machine later →
    (run step machine later).isCommand=machine.isCommand ∧
      (run step machine later).selectedText=machine.selectedText
  /-- The error phase is left on purpose only. -/
  error : machine.phase=.error → ∀ operation, (step machine operation).phase≠.error →
    operation=.resetToIdle ∨ operation=.clear
  /-- What is not accepted changes nothing and reports no change. -/
  rejected : ∀ operation result, (Operation.call machine operation).2=some result →
    result.accepted=false →
    step machine operation=machine ∧ result.previousPhase=result.newPhase

/-- The contract holds after every sequence of operations. -/
theorem state_machine_contract (operations : List Operation) :
    Contract (run step {} operations) := by
  have hcoherent : Coherent (run step {} operations) := by
    refine run_invariant ?_ operations ?_
    · intro state operation h
      exact coherent_moves h (step_moves state operation)
    · exact ⟨fun _ => rfl,fun _ => ⟨rfl,rfl⟩,fun _ => rfl,fun _ => rfl⟩
  refine ⟨hcoherent.inactive,hcoherent.idle,hcoherent.raw,?_,?_,?_,?_⟩
  · intro hheld later hlasts
    have hdecided : Decided (run step (run step {} operations) later) := by
      refine hlasts.invariant ?_ (decided_of_held hcoherent hheld)
      intro state operation h hstays
      exact decided_moves (step_moves state operation) hstays h
    exact cancel_refused hdecided
  · intro hbusy later hlasts
    have hsame : SameCommand (run step {} operations)
        (run step (run step {} operations) later) := by
      refine hlasts.invariant ?_ ⟨hbusy,rfl,rfl⟩
      intro state operation h hstays
      exact sameCommand_moves h (step_moves state operation) hstays
    exact hsame.2
  · intro herror operation hleft
    exact error_left herror hleft
  · intro operation result hresult hrejected
    exact rejected_unchanged hresult hrejected

end Vinput.RuntimePhaseRuns
