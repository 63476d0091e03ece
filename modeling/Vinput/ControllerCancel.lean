import Vinput.RuntimePhaseRuns
import Vinput.ControllerOrders

/-!
# Cancels during post-processing

A cancel is recorded in the state machine while the worker is inside
post-processing without the mutex; the worker reads the decision later. The
first accepted cancel of an order decides what is published for it, as long
as the order was submitted in the recording phase and nothing but cancels
touches the state machine while the worker has it.
-/

namespace Vinput.ControllerCancel

open InterleavedRuns RuntimePhases RuntimePhaseRuns RuntimeController ControllerCore
open RecordingBuffer (AudioPcmChunk)
open ControllerOrders (ofWorker ofWorker_next)

section Requests

/-- The operation that the second region of a stop calls. -/
def submitRequest (pcm : List Int16) (shared : Shared) : Operation :=
  match shared.active with
  | none => .resetToIdle
  | some _ => .stopRecording (RecordingBuffer.append pcm shared.audioBuffer).totalSamples
    minSamplesForRecognition

/-- The operation of the state machine that a step of a thread calls. -/
def request (shared : Shared) : Pc → Option Operation
  | .start call (.install _ _) =>
    if !shared.startRecordingInProgress || shared.phase≠.idle then none
    else some (.startRecording call.isCommand call.selectedText)
  | .stop _ _ (.submit pcm) => some (submitRequest pcm shared)
  | .cancel _ commitRawText .enter => some (.cancel commitRawText)
  | .flush _ (.failActive id _) => if shared.active≠some id then none else some .audioError
  | .resetToIdle _ => some .resetToIdle
  | .worker (.enter _) => some (.inferenceComplete true)
  | .worker (.take _ _) => some .takePostprocessingState
  | .worker .caught => some .takePostprocessingState
  | .shutdown .locked => some .clear
  | _ => none

/-- The state machine after an operation, if there is one. -/
def requested (machine : RuntimeStateMachine) : Option Operation → RuntimeStateMachine
  | none => machine
  | some operation => step machine operation

@[simp] theorem machine_pushAudio (pushed : Bool) (id : ℕ) (pcm : List Int16) (shared : Shared) :
    (pushAudio pushed id pcm shared).machine=shared.machine := by
  unfold pushAudio
  split
  · rfl
  · rfl

/-- The region of a cancel calls the state machine and keeps its answer. -/
theorem machine_cancelLocked (ime commitRawText : Bool) (shared : Shared) :
    (cancelLocked ime commitRawText shared).1.machine=
      (onCancel shared.machine commitRawText).1 := by
  have hmachine : (cancelStartLocked shared).machine=shared.machine := by
    unfold cancelStartLocked
    split
    · rfl
    · rfl
  unfold cancelLocked
  dsimp only
  rw [hmachine]
  split
  · rename_i hrefused
    have hrefusal : (Operation.call shared.machine (.cancel commitRawText)).2=
        some (onCancel shared.machine commitRawText).2 := rfl
    have hsame := (rejected_unchanged hrefusal (by simpa using hrefused)).1
    exact hmachine.trans hsame.symm
  · split
    · rfl
    · rfl

/-- The second region of a stop resets or stops. -/
theorem machine_submitLocked (sceneId : String) (pcm : List Int16) (shared : Shared) :
    (submitLocked sceneId pcm shared).1.machine=
      step shared.machine (submitRequest pcm shared) := by
  unfold submitLocked submitRequest
  cases shared.active with
  | none => rfl
  | some id =>
    dsimp only
    split
    · rfl
    · rfl

/-- The state machine changes only by the operation a step calls. -/
theorem machine_next (oracle : Oracle) (shared : Shared) (pc : Pc) :
    (next oracle shared pc).1.machine=requested shared.machine (request shared pc) := by
  cases pc with
  | ready last =>
    dsimp only [next,request,requested]
    cases oracle.call <;> dsimp only [begin] <;> (repeat' split) <;> rfl
  | start call point =>
    cases point <;> dsimp only [next,nextStart,request] <;> (repeat' split) <;> rfl
  | stop ime sceneId point =>
    cases point with
    | submit pcm => exact machine_submitLocked sceneId pcm shared
    | _ =>
      dsimp only [next,nextStop,request]
      (repeat' split) <;> rfl
  | cancel ime commitRawText point =>
    cases point with
    | enter => exact machine_cancelLocked ime commitRawText shared
    | _ => rfl
  | flush resume point =>
    cases point <;> dsimp only [next,nextFlush,popNext,request] <;> (repeat' split) <;>
      first | rfl | exact machine_pushAudio _ _ _ _
  | worker point =>
    cases point <;> dsimp only [next,nextWorker,request] <;> (repeat' split) <;>
      first | rfl | exact machine_pushAudio _ _ _ _
  | shutdown point =>
    cases point <;> dsimp only [next,nextShutdown,request] <;> (repeat' split) <;> rfl
  | _ =>
    dsimp only [next,injectLocked,request]
    (repeat' split) <;> rfl

/-- Every state machine of the controller is coherent. -/
theorem coherent_next {shared : Shared} (h : Coherent shared.machine) (oracle : Oracle) (pc : Pc) :
    Coherent (next oracle shared pc).1.machine := by
  rw [machine_next]
  cases request shared pc with
  | none => exact h
  | some operation => exact coherent_moves h (step_moves shared.machine operation)

end Requests

section Cancels

/-- History of the order that the worker has: whether a stop produced it,
its mode, its recognized text, what post-processing made of it and the
cancels accepted since it was taken. -/
structure CancelHistory where
  /-- The order comes from a stop. -/
  ofStop : Bool := false
  /-- The order is a command. -/
  isCommand : Bool := false
  /-- Recognized text. -/
  text : String := ""
  /-- Payload of the post-processor. -/
  own : Payload := {}
  /-- Accepted cancels, oldest first: raw commit or not. -/
  accepted : List Bool := []
deriving DecidableEq

/-- A new order begins a new history. -/
def takenHistory : OrderSlot → CancelHistory
  | .queued order =>
    {ofStop := order.session.isSome,isCommand := order.postprocessRequest.isCommand}
  | _ => {}

/-- A cancel that the state machine accepts is recorded. -/
def CancelHistory.cancelled (history : CancelHistory) (machine : RuntimeStateMachine)
    (commitRawText : Bool) : CancelHistory :=
  if (onCancel machine commitRawText).2.accepted then
    {history with accepted := history.accepted++[commitRawText]}
  else history

/-- The history after a step of a thread. -/
def recorded (history : CancelHistory) (oracle : Oracle) (shared : Shared) : Pc → CancelHistory
  | .worker .wait => takenHistory shared.currentOrder
  | .worker (.finish order) =>
    {history with
      text := (finishedOrder (finishSessionAndCollectResult oracle.finished oracle.finishError
        oracle.events) order).postprocessRequest.text}
  | .worker (.pipeline _) => {history with own := oracle.pipeline.payload}
  | .worker (.process _) => {history with own := oracle.pipeline.payload}
  | .resetToIdle .worker => {}
  | .cancel _ commitRawText .enter => history.cancelled shared.machine commitRawText
  | _ => history

/-- The history reads every step. -/
def observeCancels (history : CancelHistory) (pool : System) (label : ℕ×Oracle) :
    CancelHistory :=
  recorded history label.2 pool.shared (pool.pcs label.1)

/-- What is to be published: the first accepted cancel decides. -/
def CancelHistory.expected (history : CancelHistory) : Payload :=
  match history.accepted with
  | [] => history.own
  | true::_ => rawPayload history.text
  | false::_ => {}

/-- A step honours the cancels of an order: its result is published as the
first accepted one asks, at most one is accepted, and none for the raw text
of a command. -/
def honours (history : CancelHistory) (before after : Shared) : Pc → Bool
  | .worker (.publish order _) =>
    decide (after.emitted=(publish order.ime history.expected before).emitted ∧
      after.broadcast=(publish order.ime history.expected before).broadcast)
  | .cancel _ commitRawText .enter =>
    decide ((onCancel before.machine commitRawText).2.accepted=true →
      history.accepted=[] ∧ (commitRawText=true → history.isCommand=false))
  | _ => true

/-- Cancels of an order of a stop are honoured. -/
def Honoured (pair : System×CancelHistory) (label : ℕ×Oracle) : Prop :=
  pair.2.ofStop=true →
    honours pair.2 pair.1.shared (machine pair.1 label).shared (pair.1.pcs label.1)=true

instance (pair : System×CancelHistory) (label : ℕ×Oracle) : Decidable (Honoured pair label) :=
  inferInstanceAs (Decidable (_ → _))

/-- The slot holds an order of a stop. -/
def holdsStop : OrderSlot → Bool
  | .queued order => order.session.isSome
  | _ => false

/-- Orders are submitted in the recording phase, and `Shutdown` leaves a
submitted order its phase. -/
def submitsRecording (shared : Shared) : Pc → Bool
  | .stop _ _ (.submit _) => shared.active=none || shared.phase=.recording
  | .shutdown .locked => !holdsStop shared.currentOrder
  | _ => true

/-- A region of another thread that drives the phase to idle: a teardown,
a stop without a session or `Shutdown`. -/
def drivesToIdle : Pc → Bool
  | .stop _ _ (.submit _) => true
  | .resetToIdle .worker => false
  | .resetToIdle _ => true
  | .shutdown .locked => true
  | _ => false

/-- The steps of a run in which orders are submitted in the recording phase
and no other thread drives the phase to idle while the worker has an order
of a stop. -/
def cancelsAlone (pair : System×CancelHistory) (label : ℕ×Oracle) : Prop :=
  submitsRecording pair.1.shared (pair.1.pcs label.1)=true ∧
    (pair.2.ofStop=true → drivesToIdle (pair.1.pcs label.1)=false)

instance (pair : System×CancelHistory) (label : ℕ×Oracle) :
    Decidable (cancelsAlone pair label) := inferInstanceAs (Decidable (_ ∧ _))

/-- What a cancel that arrives and runs looks like. -/
def cancelling (oracle : Oracle) : Pc → Bool
  | .ready _ =>
    match oracle.call with
    | .cancelOperation _ _ => true
    | _ => false
  | .cancel _ _ _ => true
  | _ => false

/-- Only cancels run beside the worker while it has an order of a stop. -/
def cancelsOnly (pair : System×CancelHistory) (label : ℕ×Oracle) : Prop :=
  pair.2.ofStop=true → label.1=0 ∨ cancelling label.2 (pair.1.pcs label.1)=true

instance (pair : System×CancelHistory) (label : ℕ×Oracle) :
    Decidable (cancelsOnly pair label) := inferInstanceAs (Decidable (_ → _))

end Cancels

section Decisions

/-- Recognition is under way and no cancel has been accepted. -/
structure Waiting (machine : RuntimeStateMachine) (history : CancelHistory) : Prop where
  /-- The phase is inference. -/
  phase : machine.phase=.inferring
  /-- The mode is that of the order. -/
  command : machine.isCommand=history.isCommand
  /-- Nothing is accepted. -/
  none : history.accepted=[]

/-- What the post-processing state says about the accepted cancels. -/
inductive Held (isCommand : Bool) : PostprocessingState → List Bool → Prop where
  /-- No cancel has been accepted. -/
  | undecided : Held isCommand (if isCommand then .command else .dictation) []
  /-- The raw text is to be committed. -/
  | raw (h : isCommand=false) : Held isCommand .commitRaw [true]
  /-- The text is to be dropped. -/
  | dropped : Held isCommand .discard [false]

/-- Post-processing is under way and its state is not yet taken. -/
structure Deciding (machine : RuntimeStateMachine) (history : CancelHistory) : Prop where
  /-- The phase is post-processing. -/
  phase : machine.phase=.postprocessing
  /-- The mode is that of the order. -/
  command : machine.isCommand=history.isCommand
  /-- The state remembers the accepted cancels. -/
  held : Held history.isCommand machine.postprocessingState history.accepted

/-- The post-processing state is taken, so no cancel is accepted. -/
def Settled (machine : RuntimeStateMachine) : Prop :=
  (machine.phase=.inferring ∨ machine.phase=.postprocessing) ∧
    machine.postprocessingState=.inactive

/-- A cancel during inference is refused. -/
theorem onCancel_inferring {machine : RuntimeStateMachine} (h : machine.phase=.inferring)
    (commitRawText : Bool) :
    onCancel machine commitRawText=
      (machine,reject .inferring "No cancellable operation in current phase.") := by
  unfold onCancel
  rw [h]

/-- A cancel that the post-processing state does not let through is refused. -/
theorem onCancel_refused {machine : RuntimeStateMachine} (h : machine.phase=.postprocessing)
    {commitRawText : Bool} (hstate : cancellable machine.postprocessingState commitRawText=false) :
    onCancel machine commitRawText=
      (machine,reject .postprocessing "Requested post-processing action is not available.") := by
  unfold onCancel
  rw [h]
  dsimp only
  rw [hstate]
  rfl

/-- A cancel that the post-processing state lets through is accepted. -/
theorem onCancel_accepted {machine : RuntimeStateMachine} (h : machine.phase=.postprocessing)
    {commitRawText : Bool} (hstate : cancellable machine.postprocessingState commitRawText=true) :
    (onCancel machine commitRawText).1=
        {machine with
          postprocessingState := if commitRawText then .commitRaw else .discard} ∧
      (onCancel machine commitRawText).2.accepted=true := by
  unfold onCancel
  rw [h]
  dsimp only
  rw [hstate]
  exact ⟨rfl,rfl⟩

/-- A refused cancel changes neither the machine nor the history. -/
theorem cancelled_refused (history : CancelHistory) {machine : RuntimeStateMachine}
    {commitRawText : Bool} {phase : Status} {reason : String}
    (h : onCancel machine commitRawText=(machine,reject phase reason)) :
    (onCancel machine commitRawText).1=machine ∧
      history.cancelled machine commitRawText=history := by
  unfold CancelHistory.cancelled
  rw [h]
  exact ⟨rfl,rfl⟩

/-- Only an undecided state lets a cancel through, a command only when its
text is dropped. -/
theorem held_cancellable {isCommand commitRawText : Bool} {state : PostprocessingState}
    {accepted : List Bool} (h : Held isCommand state accepted)
    (hstate : cancellable state commitRawText=true) :
    accepted=[] ∧ (commitRawText=true → isCommand=false) := by
  cases h with
  | undecided =>
    refine ⟨rfl,?_⟩
    intro hraw
    subst hraw
    cases isCommand with
    | false => rfl
    | true => cases hstate
  | raw hcommand => cases commitRawText <;> cases hstate
  | dropped => cases commitRawText <;> cases hstate

/-- A second cancel changes nothing while the first one waits. -/
theorem waiting_cancel {machine : RuntimeStateMachine} {history : CancelHistory}
    (h : Waiting machine history) (commitRawText : Bool) :
    (onCancel machine commitRawText).1=machine ∧
      history.cancelled machine commitRawText=history :=
  cancelled_refused history (onCancel_inferring h.phase commitRawText)

/-- A cancel of a settled machine changes nothing. -/
theorem settled_cancel (history : CancelHistory) {machine : RuntimeStateMachine}
    (h : Settled machine) (commitRawText : Bool) :
    (onCancel machine commitRawText).1=machine ∧
      history.cancelled machine commitRawText=history := by
  obtain ⟨hinf | hpost,hinactive⟩ := h
  · exact cancelled_refused history (onCancel_inferring hinf commitRawText)
  · refine cancelled_refused history (onCancel_refused hpost ?_)
    rw [hinactive]
    cases commitRawText <;> rfl

/-- A cancel during post-processing leaves a state that remembers it. -/
theorem deciding_cancel {machine : RuntimeStateMachine} {history : CancelHistory}
    (h : Deciding machine history) (commitRawText : Bool) :
    Deciding (onCancel machine commitRawText).1 (history.cancelled machine commitRawText) := by
  cases hstate : cancellable machine.postprocessingState commitRawText with
  | false =>
    obtain ⟨hmachine,hhistory⟩ := cancelled_refused history (onCancel_refused h.phase hstate)
    rw [hmachine,hhistory]
    exact h
  | true =>
    obtain ⟨hmachine,haccepted⟩ := onCancel_accepted h.phase hstate
    obtain ⟨hnone,hraw⟩ := held_cancellable h.held hstate
    unfold CancelHistory.cancelled
    rw [hmachine,if_pos haccepted,hnone]
    refine ⟨h.phase,h.command,?_⟩
    cases commitRawText with
    | false => exact .dropped
    | true => exact .raw (hraw rfl)

/-- An accepted cancel is the first one, and no raw text of a command. -/
theorem deciding_accepted {machine : RuntimeStateMachine} {history : CancelHistory}
    (h : Deciding machine history) {commitRawText : Bool}
    (haccepted : (onCancel machine commitRawText).2.accepted=true) :
    history.accepted=[] ∧ (commitRawText=true → history.isCommand=false) := by
  cases hstate : cancellable machine.postprocessingState commitRawText with
  | false =>
    rw [onCancel_refused h.phase hstate] at haccepted
    cases haccepted
  | true => exact held_cancellable h.held hstate

/-- What the state machine and the history say at each point of the worker
while it has an order of a stop. -/
def Carries (machine : RuntimeStateMachine) (history : CancelHistory) : Pc → Prop
  | .worker (.push order) => Waiting machine history ∧ order.session.isSome=true
  | .worker (.finish _) => Waiting machine history
  | .worker (.arm order) => Waiting machine history ∧ order.postprocessRequest.text=history.text
  | .worker (.pipeline order) =>
    Waiting machine history ∧ order.postprocessRequest.text=history.text
  | .worker (.enter order) => Waiting machine history ∧ order.postprocessRequest.text=history.text
  | .worker (.process order) =>
    Deciding machine history ∧ order.postprocessRequest.text=history.text
  | .worker (.take order result) =>
    (Waiting machine history ∨ Deciding machine history) ∧
      order.postprocessRequest.text=history.text ∧ result.payload=history.own
  | .worker (.publish _ result) => Settled machine ∧ result.payload=history.expected
  | .worker .caught => Waiting machine history ∨ Deciding machine history
  | .resetToIdle .worker => Settled machine
  | _ => False

/-- While the worker has an order, the phase is inference or
post-processing. -/
theorem Carries.phase {machine : RuntimeStateMachine} {history : CancelHistory} {pc : Pc}
    (h : Carries machine history pc) :
    machine.phase=.inferring ∨ machine.phase=.postprocessing := by
  unfold Carries at h
  split at h
  case h_6 => exact .inr h.1.phase
  case h_7 => exact h.1.imp Waiting.phase Deciding.phase
  case h_8 => exact h.1.1
  case h_9 => exact h.imp Waiting.phase Deciding.phase
  case h_10 => exact h.1
  case h_11 => exact h.elim
  case h_2 => exact .inl h.phase
  all_goals exact .inl h.1.phase

/-- A cancel keeps what is known at the worker's point. -/
theorem Carries.cancel {machine : RuntimeStateMachine} {history : CancelHistory} {pc : Pc}
    (h : Carries machine history pc) (commitRawText : Bool) :
    Carries (onCancel machine commitRawText).1 (history.cancelled machine commitRawText) pc := by
  have htext : (history.cancelled machine commitRawText).text=history.text ∧
      (history.cancelled machine commitRawText).own=history.own := by
    unfold CancelHistory.cancelled
    split <;> exact ⟨rfl,rfl⟩
  have hundecided : Waiting machine history ∨ Deciding machine history →
      Waiting (onCancel machine commitRawText).1 (history.cancelled machine commitRawText) ∨
        Deciding (onCancel machine commitRawText).1
          (history.cancelled machine commitRawText) := by
    rintro (hwaits | hdecides)
    · obtain ⟨hmachine,hhistory⟩ := waiting_cancel hwaits commitRawText
      rw [hmachine,hhistory]
      exact .inl hwaits
    · exact .inr (deciding_cancel hdecides commitRawText)
  have hwaiting : Waiting machine history →
      Waiting (onCancel machine commitRawText).1 (history.cancelled machine commitRawText) := by
    intro hwaits
    obtain ⟨hmachine,hhistory⟩ := waiting_cancel hwaits commitRawText
    rw [hmachine,hhistory]
    exact hwaits
  unfold Carries at h ⊢
  rw [htext.1,htext.2]
  split at h
  case h_1 => exact ⟨hwaiting h.1,h.2⟩
  case h_2 => exact hwaiting h
  case h_3 => exact ⟨hwaiting h.1,h.2⟩
  case h_4 => exact ⟨hwaiting h.1,h.2⟩
  case h_5 => exact ⟨hwaiting h.1,h.2⟩
  case h_6 => exact ⟨deciding_cancel h.1 commitRawText,h.2⟩
  case h_7 => exact ⟨hundecided h.1,h.2⟩
  case h_8 =>
    obtain ⟨hmachine,hhistory⟩ := settled_cancel history h.1 commitRawText
    rw [hmachine,hhistory]
    exact h
  case h_9 => exact hundecided h
  case h_10 =>
    rw [(settled_cancel history h commitRawText).1]
    exact h
  case h_11 => exact h.elim

/-- An accepted cancel is the first one of its order, and no raw text of a
command. -/
theorem Carries.accepted {machine : RuntimeStateMachine} {history : CancelHistory} {pc : Pc}
    (h : Carries machine history pc) {commitRawText : Bool}
    (haccepted : (onCancel machine commitRawText).2.accepted=true) :
    history.accepted=[] ∧ (commitRawText=true → history.isCommand=false) := by
  have hwaiting : Waiting machine history →
      history.accepted=[] ∧ (commitRawText=true → history.isCommand=false) := by
    intro hwaits
    rw [onCancel_inferring hwaits.phase] at haccepted
    cases haccepted
  have hsettled : Settled machine →
      history.accepted=[] ∧ (commitRawText=true → history.isCommand=false) := by
    intro hsettled
    have hhistory := (settled_cancel history hsettled commitRawText).2
    unfold CancelHistory.cancelled at hhistory
    rw [if_pos haccepted] at hhistory
    have hlength := congrArg (fun past => past.accepted.length) hhistory
    simp only [List.length_append,List.length_cons,List.length_nil] at hlength
    omega
  have hdeciding : Deciding machine history →
      history.accepted=[] ∧ (commitRawText=true → history.isCommand=false) :=
    fun hdecides => deciding_accepted hdecides haccepted
  unfold Carries at h
  split at h
  case h_2 => exact hwaiting h
  case h_6 => exact hdeciding h.1
  case h_7 => exact h.1.elim hwaiting hdeciding
  case h_8 => exact hsettled h.1
  case h_9 => exact h.elim hwaiting hdeciding
  case h_10 => exact hsettled h
  case h_11 => exact h.elim
  all_goals exact hwaiting h.1

end Decisions

section Steps

/-- A queued order of a stop keeps its phase and mode until it is taken. -/
def KeepsPhase (shared : Shared) : Prop :=
  ∀ order, shared.currentOrder=.queued order → order.session.isSome=true →
    shared.phase=.inferring ∧ shared.machine.isCommand=order.postprocessRequest.isCommand

/-- What taking the post-processing state publishes. -/
theorem redirect_expected {machine : RuntimeStateMachine} {history : CancelHistory}
    {order : RecognitionOrder} {result : PipelineResult} (coherent : Coherent machine)
    (h : Waiting machine history ∨ Deciding machine history)
    (htext : order.postprocessRequest.text=history.text) (hown : result.payload=history.own) :
    (redirectResult machine.postprocessingState order result).payload=history.expected := by
  rcases h with hwaits | hdecides
  · have hinactive : machine.postprocessingState=.inactive := by
      refine coherent.inactive ?_
      rw [hwaits.phase]
      decide
    unfold CancelHistory.expected
    rw [hinactive,hwaits.none]
    exact hown
  · unfold CancelHistory.expected
    have hheld := hdecides.held
    generalize machine.postprocessingState=state at hheld
    generalize history.accepted=accepted at hheld
    cases hheld with
    | undecided =>
      cases history.isCommand
      · exact hown
      · exact hown
    | raw hcommand => exact congrArg rawPayload htext
    | dropped => rfl

/-- Each step of the worker keeps what is known about its order. -/
theorem carries_worker {oracle : Oracle} {shared : Shared} {pc : Pc} {history : CancelHistory}
    (hworker : ofWorker pc=true) (coherent : Coherent shared.machine)
    (hqueued : owesReset pc=false → KeepsPhase shared)
    (h : history.ofStop=true → Carries shared.machine history pc)
    (hofStop : (recorded history oracle shared pc).ofStop=true) :
    Carries (next oracle shared pc).1.machine (recorded history oracle shared pc)
      (next oracle shared pc).2 := by
  cases pc with
  | worker point =>
    cases point with
    | loop => exact (h hofStop).elim
    | wait =>
      dsimp only [next,nextWorker,recorded,takenHistory] at hofStop ⊢
      cases hslot : shared.currentOrder with
      | empty =>
        rw [hslot] at hofStop
        cases hofStop
      | movedFrom =>
        rw [hslot] at hofStop
        cases hofStop
      | queued order =>
        rw [hslot] at hofStop
        obtain ⟨hphase,hcommand⟩ := hqueued rfl order hslot hofStop
        exact ⟨⟨hphase,hcommand,rfl⟩,hofStop⟩
    | push order =>
      obtain ⟨hwaits,hsession⟩ := h hofStop
      dsimp only [next,nextWorker,recorded]
      split
      · exact .inl hwaits
      · cases hid : order.session with
        | none =>
          rw [hid] at hsession
          cases hsession
        | some id =>
          dsimp only
          split
          · exact hwaits
          · rw [machine_pushAudio]
            split
            · exact hwaits
            · exact .inl hwaits
    | finish order =>
      have hwaits : Waiting shared.machine history := h hofStop
      have hsettled : Settled shared.machine := by
        refine ⟨.inl hwaits.phase,coherent.inactive ?_⟩
        rw [hwaits.phase]
        decide
      dsimp only [next,nextWorker,recorded]
      split
      · exact .inl ⟨hwaits.phase,hwaits.command,hwaits.none⟩
      · split
        · exact hsettled
        · exact ⟨⟨hwaits.phase,hwaits.command,hwaits.none⟩,rfl⟩
    | arm order => exact h hofStop
    | pipeline order =>
      obtain ⟨hwaits,htext⟩ := h hofStop
      have hsame : Waiting shared.machine {history with own := oracle.pipeline.payload} :=
        ⟨hwaits.phase,hwaits.command,hwaits.none⟩
      dsimp only [next,nextWorker,recorded]
      split
      · exact .inl hsame
      · split
        · exact ⟨hsame,htext⟩
        · exact ⟨.inl hsame,htext,rfl⟩
    | enter order =>
      obtain ⟨hwaits,htext⟩ := h hofStop
      dsimp only [next,nextWorker,recorded,onInferenceComplete]
      rw [if_neg (not_not.mpr hwaits.phase),if_pos rfl]
      refine ⟨⟨rfl,hwaits.command,?_⟩,htext⟩
      dsimp only
      rw [hwaits.command,hwaits.none]
      exact .undecided
    | process order =>
      obtain ⟨hdecides,htext⟩ := h hofStop
      have hsame : Deciding shared.machine {history with own := oracle.pipeline.payload} :=
        ⟨hdecides.phase,hdecides.command,hdecides.held⟩
      dsimp only [next,nextWorker,recorded]
      split
      · exact .inr hsame
      · exact ⟨.inr hsame,htext,rfl⟩
    | take order result =>
      obtain ⟨hundecided,htext,hown⟩ := h hofStop
      have hbusy := hundecided.imp Waiting.phase Deciding.phase
      exact ⟨⟨hbusy,rfl⟩,redirect_expected coherent hundecided htext hown⟩
    | publish order result => exact (h hofStop).1
    | caught =>
      have hundecided : Waiting shared.machine history ∨ Deciding shared.machine history :=
        h hofStop
      have hbusy := hundecided.imp Waiting.phase Deciding.phase
      exact ⟨hbusy,rfl⟩
    | done => exact (h hofStop).elim
  | resetToIdle resume =>
    cases resume with
    | worker => cases hofStop
    | _ => cases hworker
  | maybeApply resume =>
    cases resume with
    | worker => exact (h hofStop).elim
    | _ => cases hworker
  | synchronize resume =>
    cases resume with
    | worker => exact (h hofStop).elim
    | _ => cases hworker
  | _ => cases hworker

/-- A step outside the worker that leaves an order under way alone calls no
operation, or one that is refused, or a cancel. -/
theorem foreign_request {shared : Shared} {pc : Pc} (hforeign : ofWorker pc=false)
    (hbusy : shared.phase=.inferring ∨ shared.phase=.postprocessing)
    (halone : drivesToIdle pc=false) :
    requested shared.machine (request shared pc)=shared.machine ∨
      ∃ ime commitRawText, pc=.cancel ime commitRawText .enter := by
  have hidle : shared.phase≠.idle := by
    rcases hbusy with hphase | hphase <;> rw [hphase] <;> decide
  have hrec : shared.machine.phase≠.recording := by
    rcases hbusy with hphase | hphase <;> (change shared.machine.phase=_ at hphase) <;>
      rw [hphase] <;> decide
  unfold request
  split
  · rename_i call id backend
    left
    rw [if_pos (by simp only [decide_eq_true hidle,Bool.or_true])]
    rfl
  · cases halone
  · rename_i ime commitRawText
    exact .inr ⟨ime,commitRawText,rfl⟩
  · left
    split
    · rfl
    · dsimp only [requested,step,Operation.call,reported,onAudioError]
      rw [if_pos hrec]
  · rename_i resume
    cases resume with
    | worker => cases hforeign
    | _ => cases halone
  · cases hforeign
  · cases hforeign
  · cases hforeign
  · cases halone
  · exact .inl rfl

/-- Only cancels of other threads reach the history. -/
theorem recorded_foreign (history : CancelHistory) (oracle : Oracle) (shared : Shared) {pc : Pc}
    (hforeign : ofWorker pc=false) :
    recorded history oracle shared pc=history ∨
      ∃ ime commitRawText, pc=.cancel ime commitRawText .enter ∧
        recorded history oracle shared pc=history.cancelled shared.machine commitRawText := by
  unfold recorded
  split
  case h_6 ime commitRawText => exact .inr ⟨ime,commitRawText,rfl,rfl⟩
  case h_7 => exact .inl rfl
  all_goals cases hforeign

/-- Each step of another thread keeps what is known about the order of the
worker. -/
theorem carries_foreign (oracle : Oracle) {shared : Shared} {pc own : Pc}
    {history : CancelHistory} (hforeign : ofWorker pc=false) (halone : drivesToIdle pc=false)
    (h : Carries shared.machine history own) :
    Carries (next oracle shared pc).1.machine (recorded history oracle shared pc) own := by
  rw [machine_next]
  rcases foreign_request hforeign h.phase halone with hsame | ⟨ime,commitRawText,rfl⟩
  · rcases recorded_foreign history oracle shared hforeign with
      hhistory | ⟨ime,commitRawText,rfl,hhistory⟩
    · rw [hsame,hhistory]
      exact h
    · exact h.cancel commitRawText
  · exact h.cancel commitRawText

/-- A region that drives the phase to idle shows in its effect. -/
theorem effect_of_drivesToIdle (shared : Shared) {pc : Pc} (h : drivesToIdle pc=true) :
    effect shared pc=.abandon ∨ effect shared pc=.discard ∨
      (∃ order, effect shared pc=.submit order) ∨ effect shared pc=.reset ∨
      effect shared pc=.halt := by
  unfold drivesToIdle at h
  split at h
  · rename_i ime sceneId pcm
    rcases submitEffect_cases sceneId pcm shared with hs | hs | hs
    · exact .inl hs
    · exact .inr (.inl hs)
    · exact .inr (.inr (.inl hs))
  · cases h
  · exact .inr (.inr (.inr (.inl rfl)))
  · exact .inr (.inr (.inr (.inr rfl)))
  · cases h

/-- `Shutdown` halts in its region. -/
theorem pc_of_halt {shared : Shared} {pc : Pc} (h : effect shared pc=.halt) :
    pc=.shutdown .locked := by
  cases origin_of_effect h with
  | halt => rfl

/-- An order of a stop is submitted by the second region of a stop. -/
theorem pc_of_submit {shared : Shared} {pc : Pc} {order : RecognitionOrder}
    (h : effect shared pc=.submit order) :
    ∃ ime sceneId pcm, pc=.stop ime sceneId (.submit pcm) ∧
      submitEffect sceneId pcm shared=.submit order := by
  cases origin_of_effect h with
  | @submit ime sceneId pcm order hsubmit => exact ⟨ime,sceneId,pcm,rfl,hsubmit⟩

/-- An order submitted in the recording phase moves on to inference in its
own mode. -/
theorem submit_keepsPhase {shared : Shared} {sceneId : String} {pcm : List Int16}
    {order : RecognitionOrder} (h : submitEffect sceneId pcm shared=.submit order)
    (hrec : shared.active=none ∨ shared.phase=.recording) :
    (step shared.machine (submitRequest pcm shared)).phase=.inferring ∧
      (step shared.machine (submitRequest pcm shared)).isCommand=
        order.postprocessRequest.isCommand := by
  unfold submitEffect at h
  unfold submitRequest
  cases hactive : shared.active with
  | none =>
    rw [hactive] at h
    cases h
  | some id =>
    rw [hactive] at h hrec
    have hphase : shared.phase=.recording := hrec.resolve_left (Option.some_ne_none id)
    dsimp only at h ⊢
    split at h
    · cases h
    · rename_i hlong
      cases h
      refine ⟨?_,rfl⟩
      rcases onStopRecording_recording hphase
        (RecordingBuffer.append pcm shared.audioBuffer).totalSamples
        minSamplesForRecognition with ⟨hshort,_⟩ | ⟨_,hinf⟩
      · exact absurd hshort hlong
      · exact hinf

/-- A step of another thread keeps phase and mode of a queued order. -/
theorem keepsPhase_foreign {oracle : Oracle} {shared : Shared} {pc : Pc}
    (hforeign : ofWorker pc=false) (hsubmits : submitsRecording shared pc=true)
    (h : KeepsPhase shared) : KeepsPhase (next oracle shared pc).1 := by
  intro order hslot hsession
  have hcore := congrArg Core.slot (core_next oracle shared pc)
  change (next oracle shared pc).1.currentOrder=_ at hcore
  rw [hslot] at hcore
  change (next oracle shared pc).1.machine.phase=_ ∧ _
  rw [machine_next]
  -- Where the slot is kept, the state machine is kept as well.
  have hkept : shared.currentOrder=.queued order → drivesToIdle pc=false →
      (requested shared.machine (request shared pc)).phase=.inferring ∧
        (requested shared.machine (request shared pc)).isCommand=
          order.postprocessRequest.isCommand := by
    intro hbefore halone
    obtain ⟨hphase,hcommand⟩ := h order hbefore hsession
    have hsame : requested shared.machine (request shared pc)=shared.machine := by
      rcases foreign_request hforeign (.inl hphase) halone with hsame | ⟨ime,commitRawText,rfl⟩
      · exact hsame
      · exact congrArg Prod.fst (onCancel_inferring hphase commitRawText)
    rw [hsame]
    exact ⟨hphase,hcommand⟩
  cases heffect : effect shared pc with
  | submit submitted =>
    rw [heffect] at hcore
    cases hcore
    obtain ⟨ime,sceneId,pcm,rfl,hsubmit⟩ := pc_of_submit heffect
    refine submit_keepsPhase hsubmit ?_
    simpa only [submitsRecording,Bool.or_eq_true,decide_eq_true_eq] using hsubmits
  | inject injected =>
    rw [heffect] at hcore
    cases hcore
    rw [session_of_inject heffect] at hsession
    cases hsession
  | halt =>
    rw [heffect] at hcore
    have hbefore : shared.currentOrder=.queued order := hcore.symm
    rw [pc_of_halt heffect] at hsubmits
    simp only [submitsRecording,hbefore,holdsStop,hsession] at hsubmits
    cases hsubmits
  | _ =>
    rw [heffect] at hcore
    first
    | cases hcore
    | refine hkept hcore.symm ?_
      by_contra hdrives
      rcases effect_of_drivesToIdle shared (Bool.eq_true_of_not_eq_false hdrives) with
        hs | hs | ⟨submitted,hs⟩ | hs | hs <;> cases heffect.symm.trans hs

/-- A step of the worker that ends without a debt leaves phase and slot, or
empties the slot. -/
theorem keepsPhase_worker {oracle : Oracle} {shared : Shared} {pc : Pc}
    (hworker : ofWorker pc=true) (hfree : owesReset (next oracle shared pc).2=false)
    (h : owesReset pc=false → KeepsPhase shared) : KeepsPhase (next oracle shared pc).1 := by
  cases pc with
  | worker point =>
    cases point with
    | loop =>
      dsimp only [next,nextWorker]
      split
      · exact h rfl
      · exact h rfl
    | wait =>
      dsimp only [next,nextWorker] at hfree ⊢
      cases hslot : shared.currentOrder with
      | empty =>
        dsimp only
        split
        · exact h rfl
        · intro order hqueued
          cases hqueued
      | movedFrom =>
        rw [hslot] at hfree
        cases hfree
      | queued order =>
        rw [hslot] at hfree
        cases hfree
    | done => exact h rfl
    | _ =>
      dsimp only [next,nextWorker] at hfree
      (repeat' split at hfree) <;> cases hfree
  | resetToIdle resume =>
    intro order hslot
    cases hslot
  | maybeApply resume =>
    dsimp only [next]
    split
    · exact h rfl
    · exact h rfl
  | synchronize resume => exact h rfl
  | _ => cases hworker

/-- A tail that does not return to the worker. -/
def returnsElsewhere : Resume → Bool
  | .worker => false
  | _ => true

/-- Points of the threads beside the worker. -/
def besides : Pc → Bool
  | .worker _ => false
  | .flush resume _ => returnsElsewhere resume
  | .resetToIdle resume => returnsElsewhere resume
  | .maybeApply resume => returnsElsewhere resume
  | .synchronize resume => returnsElsewhere resume
  | _ => true

/-- A method that returns elsewhere is beside the worker. -/
theorem besides_resume {resume : Resume} (h : returnsElsewhere resume=true) :
    besides resume.pc=true := by
  cases resume with
  | worker => cases h
  | _ => rfl

/-- What is beside the worker is not its own. -/
theorem foreign_of_besides {pc : Pc} (h : besides pc=true) : ofWorker pc=false := by
  cases pc with
  | worker point => cases h
  | resetToIdle resume => cases resume <;> first | rfl | cases h
  | maybeApply resume => cases resume <;> first | rfl | cases h
  | synchronize resume => cases resume <;> first | rfl | cases h
  | _ => rfl

/-- No other thread comes to run the code of the worker. -/
theorem besides_next {oracle : Oracle} {shared : Shared} {pc : Pc} (h : besides pc=true) :
    besides (next oracle shared pc).2=true := by
  cases pc with
  | ready last =>
    dsimp only [next]
    cases oracle.call <;> dsimp only [begin] <;> (repeat' split) <;> rfl
  | start call point =>
    cases point <;> dsimp only [next,nextStart] <;> (repeat' split) <;> rfl
  | stop ime sceneId point =>
    cases point <;> dsimp only [next,nextStop,finishMethod] <;> (repeat' split) <;> rfl
  | cancel ime commitRawText point =>
    cases point <;> dsimp only [next,nextCancel,finishMethod] <;> (repeat' split) <;> rfl
  | flush resume point =>
    cases point <;> dsimp only [next,nextFlush,popNext] <;> (repeat' split) <;>
      first | exact h | exact besides_resume h
  | maybeApply resume =>
    dsimp only [next]
    split
    · exact besides_resume h
    · exact h
  | synchronize resume => exact besides_resume h
  | worker point => cases h
  | shutdown point =>
    cases point <;> dsimp only [next,nextShutdown] <;> (repeat' split) <;> rfl
  | resetToIdle resume => exact h
  | _ =>
    dsimp only [next,injectLocked]
    (repeat' split) <;> rfl

end Steps

section Runs

/-- Invariant of the cancels. -/
structure CancelInv (pair : System×CancelHistory) : Prop where
  /-- The fields of the state machine agree. -/
  coherent : Coherent pair.1.shared.machine
  /-- Thread zero runs the worker. -/
  worker : ofWorker (pair.1.pcs 0)=true
  /-- The other threads do not. -/
  others : ∀ t, t≠0 → besides (pair.1.pcs t)=true
  /-- An order that waits for a free worker keeps its phase. -/
  queued : owesReset (pair.1.pcs 0)=false → KeepsPhase pair.1.shared
  /-- What is known about an order of a stop that the worker has. -/
  carries : pair.2.ofStop=true → Carries pair.1.shared.machine pair.2 (pair.1.pcs 0)

/-- Every guarded step keeps the invariant. -/
theorem machine_cancels (pair : System×CancelHistory) (label : ℕ×Oracle) (inv : CancelInv pair)
    (guarded : cancelsAlone pair label) :
    CancelInv (observed machine observeCancels pair label) := by
  obtain ⟨pool,history⟩ := pair
  obtain ⟨thread,oracle⟩ := label
  obtain ⟨hsubmits,halone⟩ := guarded
  have hcoherent := coherent_next inv.coherent oracle (pool.pcs thread)
  by_cases hthread : thread=0
  · subst hthread
    have hself : (machine pool (0,oracle)).pcs 0=(next oracle pool.shared (pool.pcs 0)).2 :=
      Pool.step_pcs_self pool 0 oracle
    refine ⟨hcoherent,?_,?_,?_,?_⟩
    · exact hself ▸ ofWorker_next inv.worker
    · intro t ht
      have hother : (machine pool (0,oracle)).pcs t=pool.pcs t := Pool.step_pcs_of_ne ht
      exact hother ▸ inv.others t ht
    · intro hfree
      exact keepsPhase_worker inv.worker (hself ▸ hfree) inv.queued
    · intro hofStop
      have hcarries := carries_worker inv.worker inv.coherent inv.queued inv.carries hofStop
      exact hself ▸ hcarries
  · have hforeign := foreign_of_besides (inv.others thread hthread)
    have hzero : (machine pool (thread,oracle)).pcs 0=pool.pcs 0 :=
      Pool.step_pcs_of_ne (Ne.symm hthread)
    refine ⟨hcoherent,?_,?_,?_,?_⟩
    · exact hzero ▸ inv.worker
    · intro t ht
      by_cases hself : t=thread
      · subst hself
        have hnext : (machine pool (t,oracle)).pcs t=(next oracle pool.shared (pool.pcs t)).2 :=
          Pool.step_pcs_self pool t oracle
        exact hnext ▸ besides_next (inv.others t ht)
      · have hother : (machine pool (thread,oracle)).pcs t=pool.pcs t :=
          Pool.step_pcs_of_ne hself
        exact hother ▸ inv.others t ht
    · intro hfree
      exact keepsPhase_foreign hforeign hsubmits (inv.queued (hzero ▸ hfree))
    · intro hofStop
      have hbefore : history.ofStop=true := by
        rcases recorded_foreign history oracle pool.shared hforeign with
          hhistory | ⟨ime,commitRawText,_,hhistory⟩
        · exact hhistory ▸ hofStop
        · have hcancelled : (history.cancelled pool.shared.machine commitRawText).ofStop=true :=
            hhistory ▸ hofStop
          unfold CancelHistory.cancelled at hcancelled
          split at hcancelled <;> exact hcancelled
      have hcarries := carries_foreign oracle hforeign (halone hbefore) (inv.carries hbefore)
      exact hzero ▸ hcarries

/-- Nothing is queued or taken at the start. -/
theorem startup_cancels : CancelInv (startup,{}) := by
  refine ⟨⟨fun _ => rfl,fun _ => ⟨rfl,rfl⟩,fun _ => rfl,fun _ => rfl⟩,rfl,?_,?_,?_⟩
  · intro t ht
    rw [startup_pcs ht]
    rfl
  · intro _ order hslot
    cases hslot
  · intro hofStop
    cases hofStop

/-- What the invariant says about a step. -/
theorem honoured_of_inv {pair : System×CancelHistory} {label : ℕ×Oracle} (inv : CancelInv pair) :
    Honoured pair label := by
  intro hofStop
  have hcarries := inv.carries hofStop
  unfold honours
  split
  · rename_i order result hpc
    have hzero : label.1=0 := by
      by_contra hne
      have hbesides := inv.others label.1 hne
      rw [hpc] at hbesides
      cases hbesides
    rw [hzero] at hpc
    rw [hpc] at hcarries
    have hstep : (machine pair.1 label).shared=
        publish order.ime result.payload pair.1.shared := by
      dsimp only [machine,Pool.step]
      rw [hzero,hpc]
      rfl
    rw [hstep,hcarries.2]
    exact decide_eq_true ⟨rfl,rfl⟩
  · rename_i ime commitRawText hpc
    refine decide_eq_true ?_
    intro haccepted
    exact hcarries.accepted haccepted
  · rfl

/-- In every run whose orders are submitted in the recording phase and in
which no other thread drives the phase to idle while the worker has an
order of a stop, every cancel of such an order is honoured. -/
theorem cancels_honoured_of_alone_run (schedule : List (ℕ×Oracle))
    (guarded : Along (observed machine observeCancels) cancelsAlone (startup,{}) schedule) :
    Along (observed machine observeCancels) Honoured (startup,{}) schedule :=
  guarded.everyStep machine_cancels (fun _ _ inv _ => honoured_of_inv inv) startup_cancels

/-- A session reports what it has recognized. -/
def heard : List RecognitionEvent := [{kind := .finalText,text := "hello"}]

/-- The worker takes an order of a stop through recognition into
post-processing, a cancel for the raw text arrives there, and the
post-processor returns another text. -/
def cancelledOrder : List (ℕ×Oracle) :=
  goesOn 0 2++(0,{events := heard})::goesOn 0 1++(0,{entersPostprocessing := true})::goesOn 0 1++
    arrives 3 (.cancelOperation true true)::goesOn 3 1++
    (0,{pipeline := {payload := {commitText := "polished"}}})::goesOn 0 2

/-- A stop is accepted, the worker ends an injected text and resets the
recording to idle, and only then the stop submits. -/
def submitAfterReset : List (ℕ×Oracle) :=
  arrives 1 injectCall::goesOn 1 1++goesOn 0 2++arrives 2 startCall::goesOn 2 8++
    arrives 2 (.stopRecording true "")::goesOn 2 3++goesOn 0 6++goesOn 2 1++goesOn 0 2++
    cancelledOrder

/-- A cancel can be accepted and not honoured: the order was submitted in
the idle phase, where every cancel is accepted and nothing is recorded. -/
theorem cancel_lost_after_reset :
    ¬∀ schedule : List (ℕ×Oracle),
      Along (observed machine observeCancels) cancelsOnly (startup,{}) schedule →
      Along (observed machine observeCancels) Honoured (startup,{}) schedule := by
  intro h
  exact absurd (h submitAfterReset (by decide +kernel)) (by decide +kernel)

theorem quietChunk_size : (List.replicate 2000 (0 : Int16)).length ≤ RecordingBuffer.maxChunkSamples := by
  rw [List.length_replicate]
  decide

/-- A chunk of silence. -/
def quietChunk : AudioPcmChunk := ⟨List.replicate 2000 0,quietChunk_size⟩

/-- Enough captured samples for recognition. -/
def captured : Call := .processCallback (List.replicate 4 quietChunk)

/-- A recording is stopped and cancelled during post-processing. -/
def cancelledRecording : List (ℕ×Oracle) :=
  arrives 1 startCall::goesOn 1 8++arrives 4 captured::
    arrives 1 (.stopRecording true "")::goesOn 1 5++goesOn 0 1++cancelledOrder

/-- The raw text of a recording is published when a cancel asks for it. -/
theorem cancel_honoured_after_stop :
    Along (observed machine observeCancels) Honoured (startup,{}) cancelledRecording ∧
      (run machine startup cancelledRecording).shared.emitted=[rawPayload "hello"] :=
  ⟨cancels_honoured_of_alone_run cancelledRecording (by decide +kernel),by decide +kernel⟩

end Runs

end Vinput.ControllerCancel
