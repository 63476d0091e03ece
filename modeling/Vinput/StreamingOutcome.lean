import Vinput.StreamingSession

/-!
# The outcome of a streaming session

The flags of a session are read against its history: they say which events
were reported and whether the process was killed. Every step keeps this, so
the result that the first call of `Finish` computes from the flags is a
statement about everything that happened before.
-/

namespace Vinput.StreamingOutcome

open InterleavedRuns JsonTree ProcessLines StreamingSession
open ProcessSession (ChildEvent)

section Flags

/-- The flags of the events tell what was reported. -/
structure Reported (session : Session) : Prop where
  once : session.emitted.count .completed=if session.completedEmitted then 1 else 0
  errors : session.sawError=false → ∀ text, RecognitionEvent.error text∉session.emitted
  finals : session.sawFinalText=true →
    ∃ text, text≠"" ∧ RecognitionEvent.finalText text∈session.emitted

/-- The flag of the kill tells what the process said. -/
structure Killed (session : Session) : Prop where
  flag : session.killedByUs=session.wasKilled
  started : session.wasKilled=true ∨ session.child.isSome=true → session.started=true
  child : ∀ child, session.child=some child → session.wasKilled=true →
    child.cancelReported=true ∨ child.ended=true

/-- What every step keeps of a session. -/
structure Faithful (session : Session) : Prop where
  reported : Reported session
  killed : Killed session

variable {session : Session} {env : Environment}

/-- The part of a session that the flags and the history are about. -/
def facts (session : Session) :=
  (session.emitted,session.completedEmitted,session.sawError,session.sawFinalText,
    session.killedByUs,session.wasKilled,session.started,session.child)

/-- Faithfulness only looks at the facts. -/
theorem Faithful.of_facts (faithful : Faithful session) {after : Session}
    (h : facts after=facts session) : Faithful after := by
  unfold facts at h
  injection h with hemitted h
  injection h with hcompleted h
  injection h with herror h
  injection h with hfinal h
  injection h with hkilled h
  injection h with hwas h
  injection h with hstarted hchild
  obtain ⟨reported,killed⟩ := faithful
  constructor
  · refine ⟨?_,?_,?_⟩
    · rw [hemitted,hcompleted]
      exact reported.once
    · rw [herror,hemitted]
      exact reported.errors
    · rw [hfinal,hemitted]
      exact reported.finals
  · refine ⟨?_,?_,?_⟩
    · rw [hkilled,hwas]
      exact killed.flag
    · rw [hwas,hchild,hstarted]
      exact killed.started
    · rw [hchild,hwas]
      exact killed.child

/-- An event that is neither an error nor the end. -/
theorem Reported.emit (reported : Reported session) {event : RecognitionEvent}
    (herror : ∀ text, event≠.error text) (hend : event≠.completed) :
    Reported (emit event session) where
  once := by
    dsimp only [StreamingSession.emit]
    rw [List.count_append,List.count_singleton,beq_false_of_ne hend]
    exact reported.once
  errors := by
    intro hflag text hmem
    rcases List.mem_append.mp hmem with hold | hnew
    · exact reported.errors hflag text hold
    · exact herror text (List.mem_singleton.mp hnew).symm
  finals := by
    intro hflag
    obtain ⟨text,htext,hmem⟩ := reported.finals hflag
    exact ⟨text,htext,List.mem_append_left _ hmem⟩

theorem Reported.queueError (reported : Reported session) (text : String) :
    Reported (queueError text session) where
  once := by
    dsimp only [StreamingSession.queueError,StreamingSession.emit]
    rw [List.count_append,List.count_singleton]
    exact reported.once
  errors := by
    intro hflag
    cases hflag
  finals := by
    intro hflag
    obtain ⟨final,hfinal,hmem⟩ := reported.finals hflag
    exact ⟨final,hfinal,List.mem_append_left _ hmem⟩

theorem Reported.queueCompleted (reported : Reported session) :
    Reported (queueCompleted session) := by
  unfold StreamingSession.queueCompleted
  split
  · exact reported
  · rename_i hfirst
    have honce := reported.once
    rw [if_neg hfirst] at honce
    refine ⟨?_,?_,?_⟩
    · dsimp only [StreamingSession.emit]
      rw [List.count_append,honce]
      rfl
    · intro hflag text hmem
      rcases List.mem_append.mp hmem with hold | hnew
      · exact reported.errors hflag text hold
      · cases List.mem_singleton.mp hnew
    · intro hflag
      obtain ⟨text,htext,hmem⟩ := reported.finals hflag
      exact ⟨text,htext,List.mem_append_left _ hmem⟩

/-- An error keeps the report faithful. -/
theorem Faithful.queueError (faithful : Faithful session) (text : String) :
    Faithful (queueError text session) :=
  ⟨faithful.reported.queueError text,faithful.killed.flag,faithful.killed.started,
    faithful.killed.child⟩

/-- The end keeps the report faithful. -/
theorem Faithful.queueCompleted (faithful : Faithful session) :
    Faithful (queueCompleted session) := by
  refine ⟨faithful.reported.queueCompleted,?_⟩
  unfold StreamingSession.queueCompleted
  split
  · exact faithful.killed
  · exact ⟨faithful.killed.flag,faithful.killed.started,faithful.killed.child⟩

/-- Ending the helper keeps the report faithful. -/
theorem Faithful.terminate (faithful : Faithful session) : Faithful (terminate session) := by
  unfold StreamingSession.terminate
  split
  · exact faithful
  · refine ⟨⟨faithful.reported.once,faithful.reported.errors,faithful.reported.finals⟩,
      faithful.killed.flag,?_,?_⟩
    · intro hor
      exact faithful.killed.started (hor.imp_right fun hnone => by cases hnone)
    · intro child hchild
      cases hchild

/-- A partial text keeps the report faithful. -/
theorem Faithful.partialText (faithful : Faithful session) (text last : String) :
    Faithful (emit (.partialText text) {session with lastPartialText := last}) := by
  have hsame : Faithful {session with lastPartialText := last} := faithful.of_facts rfl
  refine ⟨hsame.reported.emit ?_ ?_,hsame.killed.flag,hsame.killed.started,hsame.killed.child⟩
  · intro other h
    cases h
  · intro h
    cases h

/-- A final text that is not empty is one the session saw. -/
theorem Faithful.finalText (faithful : Faithful session) {text : String} (htext : text≠"")
    (last : String) :
    Faithful (emit (.finalText text) {session with
      sawFinalText := true,lastPartialText := last}) := by
  obtain ⟨reported,killed⟩ := faithful
  have hemitted : Reported (emit (.finalText text) session) := by
    refine reported.emit ?_ ?_
    · intro other h
      cases h
    · intro h
      cases h
  refine ⟨⟨hemitted.once,hemitted.errors,?_⟩,killed.flag,killed.started,killed.child⟩
  intro _
  exact ⟨text,htext,List.mem_append_right _ List.mem_cons_self⟩

variable (env) in
/-- A line of the process keeps the flags true. -/
theorem Faithful.handleOutputLine {state : Session×Option String} (faithful : Faithful state.1)
    (line : Bytes) : Faithful (handleOutputLine env state line).1.1 := by
  unfold StreamingSession.handleOutputLine
  split
  · exact faithful
  · dsimp only
    split
    · exact faithful
    split
    · split
      · exact faithful.partialText _ _
      · exact faithful
    split
    · split
      · rename_i htext
        exact faithful.finalText htext ""
      · exact faithful
    split
    · exact faithful.of_facts rfl
    · exact faithful

variable (env) in
/-- Output of the process keeps the flags true. -/
theorem Faithful.consumeStdoutLines (faithful : Faithful session) (error : Option String) :
    Faithful (consumeStdoutLines env session error).1 := by
  have hline : ∀ (state : Session×Option String) line, Faithful state.1 →
      Faithful (StreamingSession.onLine env state line).1.1 := by
    intro state line hstate
    unfold StreamingSession.onLine
    dsimp only
    split
    · exact hstate
    · exact hstate.handleOutputLine env _
  have hdrained : Faithful (drainLinesFromBuffer (StreamingSession.onLine env) false
      (session,error) session.stdoutBuffer).1.1 :=
    LineFraming.drainLines_invariant hline false faithful session.stdoutBuffer
  exact hdrained.of_facts rfl

/-- A new process has not been killed. -/
theorem Faithful.placed (faithful : Faithful session) (hfirst : session.started=false) :
    Faithful {session with child := some {},started := true} := by
  obtain ⟨reported,killed⟩ := faithful
  refine ⟨⟨reported.once,reported.errors,reported.finals⟩,killed.flag,fun _ => rfl,?_⟩
  intro child _ hwas
  have hstarted := killed.started (.inl hwas)
  rw [hfirst] at hstarted
  cases hstarted

/-- The exit of the process keeps the flags true. -/
theorem Faithful.handleExit {child : Child} (faithful : Faithful session)
    (hchild : session.child=some child) (hopen : child.ended=false) (exitCode : ℤ) (killed : Bool) :
    Faithful (handleExit exitCode (killed || child.cancelReported)
      {session with child := some {child with ended := true}}) := by
  obtain ⟨reported,hkilled⟩ := faithful
  have hstarted : session.started=true := hkilled.started (.inr (by rw [hchild]; rfl))
  have htold : (killed || child.cancelReported)=
      (session.wasKilled || (killed || child.cancelReported)) := by
    cases hwas : session.wasKilled with
    | false => rfl
    | true =>
      rcases hkilled.child child hchild hwas with hcancel | hended
      · rw [hcancel,Bool.or_true]
        rfl
      · rw [hopen] at hended
        cases hended
  have hexited : Faithful {session with
      child := some {child with ended := true},childExited := true,exitCode := exitCode
      killedByUs := killed || child.cancelReported
      wasKilled := session.wasKilled || (killed || child.cancelReported)} := by
    refine ⟨⟨reported.once,reported.errors,reported.finals⟩,htold,fun _ => hstarted,?_⟩
    intro left hleft _
    cases hleft
    exact .inr rfl
  unfold StreamingSession.handleExit
  dsimp only
  split
  · exact hexited.queueError _
  · exact hexited

variable (env) in
/-- An event of the process keeps the flags true. -/
theorem Faithful.handleChildEvent (faithful : Faithful session) {child left : Child}
    (hchild : session.child=some child) {offered : Option ChildEvent} {event : ChildEvent}
    (hnext : nextEvent child offered=some (event,left)) (error : Option String) :
    Faithful (handleChildEvent env {session with child := some left} error event).1 := by
  obtain ⟨reported,killed⟩ := faithful
  have hstarted : session.started=true := killed.started (.inr (by rw [hchild]; rfl))
  unfold nextEvent at hnext
  split at hnext
  · cases hnext
  rename_i hopen
  cases offered with
  | none => cases hnext
  | some offer =>
    cases offer with
    | exited exitCode killedByUs =>
      cases hnext
      exact Faithful.handleExit ⟨reported,killed⟩ hchild (Bool.eq_false_iff.mpr hopen) _ _
    | cancelled =>
      cases hnext
      refine ⟨⟨reported.once,reported.errors,reported.finals⟩,rfl,fun _ => hstarted,?_⟩
      intro left hleft _
      cases hleft
      exact .inl rfl
    | chunk channel data =>
      cases hnext
      have hsame : ∀ buffer,
          Faithful {session with child := some child,stdoutBuffer := buffer} := by
        intro buffer
        refine ⟨⟨reported.once,reported.errors,reported.finals⟩,killed.flag,fun _ => hstarted,?_⟩
        intro left hleft hwas
        cases hleft
        exact killed.child child hchild hwas
      cases channel with
      | stdout => exact (hsame _).consumeStdoutLines env error
      | stderr => exact hsame session.stdoutBuffer

end Flags

section Steps

/-- The call is `Finish`. -/
def isFinish : Starter → Bool
  | .audio _ => false
  | .finish => true

/-- The message is sent by `Finish`. -/
def sentByFinish : Purpose → Bool
  | .starter starter => isFinish starter
  | .cancel => false

/-- The drain is part of `Finish`. -/
def drainOfFinish : Drain → Bool
  | .sendFailed purpose _ => sentByFinish purpose
  | .audio => false
  | _ => true

/-- The program counter is inside a call of `Finish`. -/
def inFinish : Pc → Bool
  | .ready _ => false
  | .ensureStarted starter _ => isFinish starter
  | .spawn starter _ => isFinish starter
  | .place starter _ => isFinish starter
  | .send purpose _ => sentByFinish purpose
  | .drainEvents drain _ => drainOfFinish drain
  | .evaluate _ _ => true

/-- What the place in a call says: there is no process yet, or `Finish` has
a result to evaluate. -/
def Concluded (session : Session) : Pc → Prop
  | .spawn _ _ => session.started=false
  | .place _ _ => session.started=false
  | .evaluate _ _ => session.completedEmitted=true ∧
    (session.sawFinalText=true ∨ session.sawError=true ∨ session.cancelled=true ∨
      session.killedByUs=true)
  | _ => True

/-- A session in the middle of a step, inside a call of `Finish` or not. -/
structure Underway (returned : List Bool) (inside : Bool) (session : Session) : Prop where
  faithful : Faithful session
  returned : session.finishReturns=returned
  finishing : session.finished=true → session.finishReturns≠[] ∨ inside=true

/-- A session after a step: the flags are true, and a call of `Finish` that
has ended in the step has failed. -/
structure Modest (returned : List Bool) (after : Session×Pc) : Prop where
  faithful : Faithful after.1
  concluded : Concluded after.1 after.2
  finishing : after.1.finished=true → after.1.finishReturns≠[] ∨ inFinish after.2=true
  returns : after.1.finishReturns=returned ∨ after.1.finishReturns=returned++[false]

/-- What the events of the process leave alone. -/
def control (session : Session) : Bool×List Bool := (session.finished,session.finishReturns)

variable {returned : List Bool} {inside : Bool} {session : Session} {env : Environment}

/-- An error event leaves the control flags alone. -/
theorem control_queueError (text : String) (session : Session) :
    control (queueError text session)=control session := rfl

theorem control_queueCompleted (session : Session) :
    control (queueCompleted session)=control session := by
  unfold queueCompleted
  split <;> rfl

theorem control_terminate (session : Session) : control (terminate session)=control session := by
  unfold terminate
  split <;> rfl

theorem control_handleOutputLine (state : Session×Option String) (line : Bytes) :
    control (handleOutputLine env state line).1.1=control state.1 := by
  unfold handleOutputLine
  split
  · rfl
  · dsimp only
    split
    · rfl
    split
    · split <;> rfl
    split
    · split <;> rfl
    split <;> rfl

theorem control_consumeStdoutLines (session : Session) (error : Option String) :
    control (consumeStdoutLines env session error).1=control session := by
  have hline : ∀ (state : Session×Option String) line, control state.1=control session →
      control (StreamingSession.onLine env state line).1.1=control session := by
    intro state line hstate
    unfold StreamingSession.onLine
    dsimp only
    split
    · exact hstate
    · rw [control_handleOutputLine]
      exact hstate
  have hdrained : control (drainLinesFromBuffer (StreamingSession.onLine env) false
      (session,error) session.stdoutBuffer).1.1=control session :=
    LineFraming.drainLines_invariant hline false rfl session.stdoutBuffer
  exact hdrained

theorem control_handleChildEvent (session : Session) (error : Option String) (event : ChildEvent) :
    control (handleChildEvent env session error event).1=control session := by
  cases event with
  | chunk channel data =>
    cases channel with
    | stdout => exact control_consumeStdoutLines _ error
    | stderr => rfl
  | cancelled => rfl
  | exited exitCode killed =>
    dsimp only [handleChildEvent,handleExit]
    split <;> rfl

/-- Another session with the same control is in the middle of the same step. -/
theorem Underway.of_control (underway : Underway returned inside session) {after : Session}
    (faithful : Faithful after) (hcontrol : control after=control session) :
    Underway returned inside after := by
  obtain ⟨hfinished,hreturns⟩ := Prod.mk.inj hcontrol
  exact ⟨faithful,hreturns.trans underway.returned,by
    rw [hfinished,hreturns]
    exact underway.finishing⟩

/-- An error is queued while a call is underway. -/
theorem Underway.queueError (underway : Underway returned inside session) (text : String) :
    Underway returned inside (queueError text session) :=
  underway.of_control (underway.faithful.queueError text) (control_queueError text session)

theorem Underway.queueCompleted (underway : Underway returned inside session) :
    Underway returned inside (queueCompleted session) :=
  underway.of_control underway.faithful.queueCompleted (control_queueCompleted session)

/-- The helper ends while a call is underway. -/
theorem Underway.terminate (underway : Underway returned inside session) :
    Underway returned inside (terminate session) :=
  underway.of_control underway.faithful.terminate (control_terminate session)

/-- A step that only moves on. -/
theorem Underway.moves (pc : Pc) (underway : Underway returned (inFinish pc) session)
    (concluded : Concluded session pc) : Modest returned (session,pc) :=
  ⟨underway.faithful,concluded,underway.finishing,.inl underway.returned⟩

/-- A call other than a finish returns. -/
theorem Underway.returns (underway : Underway returned false session) (value : Bool)
    (error : Option String) : Modest returned (returns value error session) :=
  Underway.moves (.ready _) underway trivial

/-- A call of `Finish` that fails. -/
theorem Underway.returnsFinish (underway : Underway returned inside session)
    (error : Option String) : Modest returned (returnsFinish false error session) where
  faithful := underway.faithful.of_facts rfl
  concluded := trivial
  finishing := by
    intro _
    exact .inl (List.append_ne_nil_of_right_ne_nil _ (List.cons_ne_nil _ _))
  returns := by
    refine .inr ?_
    rw [←underway.returned]
    rfl

/-- A helper that does not start ends the call. -/
theorem Underway.startFails {starter : Starter}
    (underway : Underway returned (isFinish starter) session) (error : Option String) :
    Modest returned (startFails error session starter) := by
  cases starter with
  | audio pcm => exact underway.returns false error
  | finish => exact underway.returnsFinish error

/-- A helper that starts lets the call go on. -/
theorem Underway.startSucceeds {starter : Starter}
    (underway : Underway returned (isFinish starter) session) (error : Option String) :
    Modest returned (startSucceeds error session starter) := by
  cases starter with
  | audio pcm =>
    dsimp only [StreamingSession.startSucceeds]
    split
    · exact Underway.moves (.drainEvents .audio error) underway trivial
    · exact Underway.moves (.send (.starter (.audio pcm)) error) underway trivial
  | finish =>
    exact ⟨underway.faithful.of_facts rfl,trivial,fun _ => .inr rfl,.inl underway.returned⟩

theorem Underway.finishFails (underway : Underway returned inside session) (text : String)
    (error : Option String) : Modest returned (finishFails text error session) :=
  (underway.queueError text).queueCompleted.terminate.returnsFinish error

theorem Underway.cancelled (underway : Underway returned false session) :
    Modest returned (cancelled session) :=
  underway.queueCompleted.terminate.returns true none

/-- A message that is refused ends the call. -/
theorem Underway.sendFails {purpose : Purpose}
    (underway : Underway returned (sentByFinish purpose) session) (error : Option String) :
    Modest returned (sendFails error session purpose) := by
  cases purpose with
  | starter starter =>
    cases starter with
    | audio pcm => exact underway.returns false error
    | finish => exact underway.finishFails _ error
  | cancel => exact underway.cancelled

/-- Waiting for the grace time belongs to a finish. -/
theorem Underway.waitGrace (underway : Underway returned true session) (oracle : Oracle)
    (error : Option String) : Modest returned (waitGrace oracle error session) := by
  unfold StreamingSession.waitGrace
  split
  · exact Underway.moves (.drainEvents .grace error) underway trivial
  · exact Underway.moves (.drainEvents (.last false error) none) underway trivial

theorem Underway.waitFinal (underway : Underway returned true session) (oracle : Oracle)
    (error : Option String) : Modest returned (waitFinal oracle error session) := by
  unfold StreamingSession.waitFinal
  split
  · exact Underway.moves (.drainEvents .await error) underway trivial
  · exact underway.waitGrace oracle error

/-- A message that is taken lets the call go on. -/
theorem Underway.sendSucceeds {purpose : Purpose}
    (underway : Underway returned (sentByFinish purpose) session) (oracle : Oracle)
    (error : Option String) : Modest returned (sendSucceeds oracle error session purpose) := by
  cases purpose with
  | starter starter =>
    cases starter with
    | audio pcm => exact Underway.moves (.drainEvents .audio error) underway trivial
    | finish => exact underway.waitFinal oracle error
  | cancel => exact underway.cancelled

/-- A finish that concludes has told the end. -/
theorem completedEmitted_conclude (session : Session) :
    (terminate (queueCompleted session)).completedEmitted=true := by
  have hcompleted : (queueCompleted session).completedEmitted=true := by
    unfold queueCompleted
    split
    · assumption
    · rfl
  unfold terminate
  split
  · exact hcompleted
  · exact hcompleted

/-- The end of a session leaves the flags of its outcome alone. -/
theorem outcome_conclude (session : Session) :
    ((terminate (queueCompleted session)).sawFinalText,
      (terminate (queueCompleted session)).sawError,
      (terminate (queueCompleted session)).cancelled,
      (terminate (queueCompleted session)).killedByUs)=
      (session.sawFinalText,session.sawError,session.cancelled,session.killedByUs) := by
  unfold terminate queueCompleted
  split
  · split <;> rfl
  · split <;> rfl

/-- `Finish` goes on to evaluate: it has completed, and it has a final text
unless something went wrong. -/
theorem Underway.concludes (underway : Underway returned true session) (graceFailed : Bool)
    (error : Option String) : Modest returned (concludes graceFailed error session) := by
  unfold StreamingSession.concludes
  dsimp only
  split
  · have htold := underway.queueError "Streaming ASR provider returned no text."
    have houtcome := outcome_conclude
      (StreamingSession.queueError "Streaming ASR provider returned no text." session)
    refine Underway.moves (.evaluate graceFailed error) htold.queueCompleted.terminate
      ⟨completedEmitted_conclude _,.inr (.inl ?_)⟩
    exact (Prod.mk.inj (Prod.mk.inj houtcome).2).1
  · rename_i hsome
    have houtcome := outcome_conclude session
    obtain ⟨hfinal,hrest⟩ := Prod.mk.inj houtcome
    obtain ⟨herror,hrest⟩ := Prod.mk.inj hrest
    obtain ⟨hcancelled,hkilled⟩ := Prod.mk.inj hrest
    refine Underway.moves (.evaluate graceFailed error) underway.queueCompleted.terminate
      ⟨completedEmitted_conclude _,?_⟩
    rw [hfinal,herror,hcancelled,hkilled]
    revert hsome
    cases session.sawFinalText <;> cases session.sawError <;> cases session.cancelled <;>
      cases session.killedByUs <;> decide

/-- Behind a drain the call goes on. -/
theorem Underway.afterDrain {drain : Drain}
    (underway : Underway returned (drainOfFinish drain) session) (oracle : Oracle) (ok : Bool)
    (error : Option String) : Modest returned (afterDrain oracle ok error session drain) := by
  cases drain with
  | sendFailed purpose own => exact underway.sendFails _
  | audio =>
    dsimp only [StreamingSession.afterDrain]
    split
    · exact underway.returns true _
    · exact underway.returns false error
  | await =>
    dsimp only [StreamingSession.afterDrain]
    split
    · exact underway.finishFails _ error
    split
    · exact (underway.queueError _).queueCompleted.terminate.returnsFinish _
    · exact underway.waitFinal oracle error
  | grace =>
    dsimp only [StreamingSession.afterDrain]
    split
    · exact Underway.moves (.drainEvents (.last true error) none) underway trivial
    · exact underway.waitGrace oracle error
  | last graceFailed own => exact underway.concludes graceFailed own

variable (env) in
/-- One event that is drained keeps the call underway. -/
theorem Underway.drainStep {drain : Drain}
    (underway : Underway returned (drainOfFinish drain) session) (oracle : Oracle)
    (error : Option String) : Modest returned (drainStep env oracle drain error session) := by
  unfold StreamingSession.drainStep
  split
  · exact underway.afterDrain oracle true _
  · rename_i child hchild
    split
    · exact underway.afterDrain oracle true _
    · rename_i event left hnext
      have hhandled : Underway returned (drainOfFinish drain)
          (handleChildEvent env {session with child := some left} error event).1 :=
        underway.of_control (underway.faithful.handleChildEvent env hchild hnext error)
          (control_handleChildEvent _ error event)
      dsimp only
      split
      · exact hhandled.afterDrain oracle false _
      · exact Underway.moves (.drainEvents drain _) hhandled trivial

end Steps

section Runs

/-- The outcome a step may give to the first call of `Finish`, and the end
that is reported once. -/
structure OutcomeKept (env : Environment) (system : System) (label : Label) : Prop where
  once : (machine env system label).session.emitted.count .completed≤1
  /-- The first call of `Finish` returns true in this step. -/
  succeeds : system.session.finishReturns=[] →
    (machine env system label).session.finishReturns=[true] →
    (∃ text, text≠"" ∧
      RecognitionEvent.finalText text∈(machine env system label).session.emitted) ∧
    RecognitionEvent.completed∈(machine env system label).session.emitted ∧
    (∀ text, RecognitionEvent.error text∉(machine env system label).session.emitted) ∧
    system.session.cancelled=false ∧ system.session.wasKilled=false ∧
      system.session.interrupted=false

/-- What holds in every state of a run. -/
structure SessionInv (system : System) : Prop where
  faithful : Faithful system.session
  concluded : Concluded system.session system.pc
  finishing : system.session.finished=true →
    system.session.finishReturns≠[] ∨ inFinish system.pc=true

variable {env : Environment} {system : System} {oracle : Oracle}

/-- The invariant says which call is underway. -/
theorem SessionInv.underway (inv : SessionInv system) :
    Underway system.session.finishReturns (inFinish system.pc) system.session :=
  ⟨inv.faithful,rfl,inv.finishing⟩

/-- A call that begins, unless `Finish` has been called before. -/
theorem modest_begin {session : Session} {returned : List Bool}
    (underway : Underway returned false session) (call : Call)
    (first : session.finished=true → ∀ error, call≠.finish error) :
    Modest returned (begin session call) := by
  cases call with
  | pushAudio pcm error =>
    dsimp only [begin]
    split
    · exact underway.returns false _
    · exact Underway.moves (.ensureStarted (.audio pcm) error) underway trivial
  | finish error =>
    dsimp only [begin]
    split
    · rename_i hfinished
      exact absurd rfl (first hfinished error)
    · rename_i hfinished
      refine ⟨underway.faithful,trivial,?_,.inl underway.returned⟩
      intro h
      exact absurd h hfinished
  | cancel =>
    dsimp only [begin]
    split
    · exact underway.cancelled
    split
    · exact Underway.moves (.send .cancel none)
        (underway.of_control (underway.faithful.of_facts rfl) rfl) trivial
    · have hmarked : Underway returned false {session with cancelled := true} :=
        underway.of_control (underway.faithful.of_facts rfl) rfl
      exact hmarked.cancelled

/-- What a call of `Finish` that returns true has found. -/
structure Success (session : Session) : Prop where
  cancelled : session.cancelled=false
  killed : session.killedByUs=false
  interrupted : session.interrupted=false
  error : session.sawError=false
  final : session.sawFinalText=true
  completed : session.completedEmitted=true

/-- `Finish` fails, or it has found a success. -/
theorem evaluate_cases {session : Session} {graceFailed : Bool} {error : Option String}
    (concluded : Concluded session (.evaluate graceFailed error)) :
    (∃ text, evaluate graceFailed error session=returnsFinish false text session) ∨
      ∃ text, evaluate graceFailed error session=returnsFinish true text session ∧
        Success session := by
  unfold evaluate
  split
  · exact .inl ⟨_,rfl⟩
  · rename_i hflags
    obtain ⟨hcompleted,hfound⟩ := concluded
    obtain ⟨hcalm,hinterrupted⟩ := Bool.or_eq_false_iff.mp (Bool.eq_false_iff.mpr hflags)
    obtain ⟨hcancelled,hkilled⟩ := Bool.or_eq_false_iff.mp hcalm
    have hvalue : (!session.sawError && !graceFailed)=false ∨
        (!session.sawError && !graceFailed)=true ∧ Success session := by
      cases herror : session.sawError with
      | true => exact .inl rfl
      | false =>
        cases graceFailed with
        | true => exact .inl rfl
        | false =>
          rw [herror,hcancelled,hkilled] at hfound
          have hfinal : session.sawFinalText=true := by simpa using hfound
          exact .inr ⟨rfl,hcancelled,hkilled,hinterrupted,herror,hfinal,hcompleted⟩
    have hreturn : ∀ text,
        (∃ left, returnsFinish (!session.sawError && !graceFailed) text session=
          returnsFinish false left session) ∨
        ∃ left, returnsFinish (!session.sawError && !graceFailed) text session=
          returnsFinish true left session ∧ Success session := by
      intro text
      rcases hvalue with hfalse | ⟨htrue,hsuccess⟩
      · rw [hfalse]
        exact .inl ⟨text,rfl⟩
      · rw [htrue]
        exact .inr ⟨text,rfl,hsuccess⟩
    dsimp only
    split
    · exact .inl ⟨_,rfl⟩
    · split
      · exact .inl ⟨_,rfl⟩
      · exact hreturn _
    · exact hreturn _

variable (env oracle) in
/-- A step is modest, or it returns true from `Finish`: again, or because of
a success. -/
theorem next_cases (inv : SessionInv system) :
    Modest system.session.finishReturns (next env oracle system.session system.pc) ∨
      ∃ text, next env oracle system.session system.pc=
          returnsFinish true text system.session ∧
        (system.session.finishReturns≠[] ∨ Success system.session) := by
  have underway := inv.underway
  have hfinishing := inv.finishing
  have hconcluded := inv.concluded
  obtain ⟨session,pc⟩ := system
  dsimp only at underway hfinishing hconcluded ⊢
  cases pc with
  | ready last =>
    by_cases hagain : session.finished=true ∧ ∃ error, oracle.call=.finish error
    · obtain ⟨hfinished,error,hcall⟩ := hagain
      refine .inr ⟨note "" error,?_,.inl ?_⟩
      · dsimp only [next]
        rw [hcall]
        dsimp only [begin]
        rw [if_pos hfinished]
      · exact (hfinishing hfinished).resolve_right Bool.false_ne_true
    · refine .inl (modest_begin underway oracle.call ?_)
      intro hfinished error hcall
      exact hagain ⟨hfinished,error,hcall⟩
  | ensureStarted starter error =>
    refine .inl ?_
    dsimp only [next]
    split
    · exact underway.startFails _
    split
    · exact underway.startSucceeds error
    rename_i hstarted
    split
    · exact underway.startFails _
    · exact Underway.moves (.spawn starter error) underway (Bool.eq_false_iff.mpr hstarted)
  | spawn starter error =>
    refine .inl ?_
    dsimp only [next]
    split
    · exact (underway.queueError _).queueCompleted.startFails _
    · exact Underway.moves (.place starter error) underway hconcluded
  | place starter error =>
    refine .inl ?_
    dsimp only [next]
    split
    · exact underway.startFails error
    · exact (underway.of_control (underway.faithful.placed hconcluded) rfl).startSucceeds error
  | send purpose error =>
    refine .inl ?_
    dsimp only [next]
    split
    · exact underway.sendFails _
    split
    · exact Underway.moves (.drainEvents (.sendFailed purpose error) none) underway trivial
    · exact underway.sendSucceeds oracle _
  | drainEvents drain error => exact .inl (underway.drainStep env oracle error)
  | evaluate graceFailed error =>
    rcases evaluate_cases hconcluded with ⟨text,hfails⟩ | ⟨text,hreturns,hsuccess⟩
    · refine .inl ?_
      dsimp only [next]
      rw [hfails]
      exact underway.returnsFinish text
    · exact .inr ⟨text,hreturns,.inr hsuccess⟩

/-- The owner keeps the invariant, whatever the environment decides. -/
theorem SessionInv.owner (inv : SessionInv system) (oracle : Oracle) :
    SessionInv (machine env system (.owner oracle)) := by
  dsimp only [machine]
  rcases next_cases env oracle inv with hmodest | ⟨text,hreturns,_⟩
  · exact ⟨hmodest.faithful,hmodest.concluded,hmodest.finishing⟩
  · rw [hreturns]
    refine ⟨inv.faithful.of_facts rfl,trivial,?_⟩
    intro _
    exact .inl (List.append_ne_nil_of_right_ne_nil _ (List.cons_ne_nil _ _))

/-- Every step keeps the invariant of the session. -/
theorem machine_session (inv : SessionInv system) (label : Label) :
    SessionInv (machine env system label) := by
  cases label with
  | owner oracle => exact inv.owner oracle
  -- the other thread touches none of the flags that the invariant is about
  | interrupt => exact ⟨inv.faithful.of_facts rfl,inv.concluded,inv.finishing⟩
  | pollEvents => exact ⟨inv.faithful.of_facts rfl,inv.concluded,inv.finishing⟩

/-- A session starts with nothing reported. -/
theorem sessionInv_start : SessionInv {} where
  faithful := by
    refine ⟨⟨rfl,?_,?_⟩,rfl,?_,?_⟩
    · intro _ text hmem
      cases hmem
    · intro h
      cases h
    · rintro (h | h)
      · cases h
      · cases h
    · intro child h
      cases h
  concluded := trivial
  finishing := by
    intro h
    cases h

/-- The end is reported at most once. -/
theorem Faithful.completed_once {session : Session} (faithful : Faithful session) :
    session.emitted.count .completed≤1 := by
  rw [faithful.reported.once]
  split
  · exact le_rfl
  · exact Nat.zero_le 1

/-- A success is a final text and an end without an error. -/
theorem Success.emitted {session : Session} (success : Success session)
    (faithful : Faithful session) :
    (∃ text, text≠"" ∧ RecognitionEvent.finalText text∈session.emitted) ∧
      RecognitionEvent.completed∈session.emitted ∧
      (∀ text, RecognitionEvent.error text∉session.emitted) ∧ session.wasKilled=false := by
  have honce := faithful.reported.once
  rw [if_pos success.completed] at honce
  refine ⟨faithful.reported.finals success.final,?_,faithful.reported.errors success.error,?_⟩
  · exact List.count_pos_iff.mp (by rw [honce]; exact Nat.one_pos)
  · rw [←faithful.killed.flag]
    exact success.killed

/-- Steps other than those of the owner return nothing. -/
theorem outcomeKept_of_returns (inv : SessionInv system) {label : Label}
    (h : (machine env system label).session.finishReturns≠system.session.finishReturns++[true]) :
    OutcomeKept env system label where
  once := (machine_session inv label).faithful.completed_once
  succeeds := by
    intro hfirst hreturns
    rw [hfirst,hreturns] at h
    exact absurd rfl h

/-- Every step from a state of a run keeps the outcome. -/
theorem machine_outcome (inv : SessionInv system) (label : Label) :
    OutcomeKept env system label := by
  have hquiet : system.session.finishReturns≠system.session.finishReturns++[true] := by
    intro h
    cases List.self_eq_append_right.mp h
  cases label with
  | interrupt => exact outcomeKept_of_returns inv hquiet
  | pollEvents => exact outcomeKept_of_returns inv hquiet
  | owner oracle =>
    rcases next_cases env oracle inv with hmodest | ⟨text,hreturns,hwhy⟩
    · refine outcomeKept_of_returns inv ?_
      rcases hmodest.returns with hsame | hfalse
      · dsimp only [machine]
        rw [hsame]
        exact hquiet
      · dsimp only [machine]
        rw [hfalse]
        intro h
        cases List.append_cancel_left h
    · refine ⟨(machine_session inv _).faithful.completed_once,?_⟩
      intro hfirst _
      have hsuccess := hwhy.resolve_left (absurd hfirst)
      obtain ⟨hfinal,hcompleted,herror,hkilled⟩ := hsuccess.emitted inv.faithful
      dsimp only [machine]
      rw [hreturns]
      exact ⟨hfinal,hcompleted,herror,hsuccess.cancelled,hkilled,hsuccess.interrupted⟩

variable (env) in
/-- In every run of a session the end is reported at most once, and when the
first call of `Finish` returns true, a final text and the end have been
reported and no error, and nothing has cut the session short. -/
theorem outcome_kept_of_run (schedule : List Label) :
    Along (machine env) (OutcomeKept env) {} schedule := by
  have hany : Along (machine env) (fun _ _ => True) {} schedule :=
    along_of_labels (fun _ _ _ => trivial) _
  refine hany.everyStep ?_ ?_ sessionInv_start
  · intro system label inv _
    exact machine_session inv label
  · intro system label inv _
    exact machine_outcome inv label

/-- A command whose lines are all the same final text. -/
def talkative : Environment where
  readJson := fun _ => .ok (.object [("type",.text "final"),("text",.text "word")])
  hasCommand := true

/-- A process that answers with one line and exits. -/
def answered : List Label :=
  [.owner {call := .finish none},.owner {},.owner {},.owner {},.owner {},
    .owner {offered := some (.chunk .stdout [65,newline])},
    .owner {offered := some (.exited 0 false)},.pollEvents,.owner {},.owner {},.owner {}]

example : (run (machine talkative) {} answered).session.finishReturns=[true] := by
  decide +kernel

end Runs

end Vinput.StreamingOutcome
