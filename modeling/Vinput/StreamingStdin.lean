import Vinput.Base64
import Vinput.InterleavedRuns
import Vinput.LineSplitting
import Vinput.StreamingSession

/-!
# What a streaming helper reads

A streaming session talks to its helper in lines of JSON: chunks of audio, the
end of the audio and a cancellation. Whatever the owner calls, the helper and
other threads do, the messages are handed to the process in this order, each chunk
once, and none that was accepted is missing. The samples travel as Base64. Of what
is handed over, any part from the start may get to the helper.
-/

namespace Vinput.StreamingStdin

open InterleavedRuns
open LineSplitting (joinLines)
open ProcessLines (Bytes newline)
open JsonTree StreamingSession

section Messages

/-- A message for the helper. -/
inductive Message where
  | audio (pcm : List Int16)
  | finish
  | cancel
deriving DecidableEq

/-- The message of a call. -/
def messageOf : Purpose → Message
  | .starter (.audio pcm) => .audio pcm
  | .starter .finish => .finish
  | .cancel => .cancel

/-- What is known of the calls: the chunks given to `PushAudio`, the messages
sent, and the chunks for which `PushAudio` has returned true. -/
structure Told where
  calls : List (List Int16) := []
  sent : List Message := []
  accepted : List (List Int16) := []

/-- A call with audio begins. -/
def called (oracle : Oracle) : Pc → List (List Int16)
  | .ready _ =>
    match oracle.call with
    | .pushAudio pcm _ => [pcm]
    | _ => []
  | _ => []

/-- A message is handed to the process. -/
def sends (oracle : Oracle) (session : Session) : Pc → List Message
  | .send purpose _ =>
    if session.child.isNone || oracle.pushFails then [] else [messageOf purpose]
  | _ => []

/-- `PushAudio` has gone through. -/
def accepts (calls : List (List Int16)) (before after : Pc) : List (List Int16) :=
  match before,after with
  | .drainEvents .audio _,.ready (some returned) =>
    if returned.value then [calls.getLastD []] else []
  | _,_ => []

variable (env : Environment)

/-- What a step adds. -/
def observe (told : Told) (system : System) : Label → Told
  | .owner oracle =>
    ⟨told.calls++called oracle system.pc,told.sent++sends oracle system.session system.pc,
      told.accepted++accepts told.calls system.pc (next env oracle system.session system.pc).2⟩
  | _ => told

/-- The session with what is known of its calls. -/
def toldStep : System×Told → Label → System×Told := observed (machine env) (observe env)

end Messages

section Order

/-- A message that ends the audio, if it was sent. -/
def ending (finish cancel : Bool) : List Message :=
  (if finish then [.finish] else [])++(if cancel then [.cancel] else [])

/-- The messages sent: chunks of these calls, without a chunk that was accepted
being left out, and then the endings. -/
def Sent (told : Told) (calls : List (List Int16)) (finish cancel : Bool) : Prop :=
  ∃ chunks : List (List Int16),told.sent=chunks.map .audio++ending finish cancel ∧
    chunks.Sublist calls ∧
    (told.accepted.filter fun pcm => decide (pcm≠[])).Sublist chunks

/-- Between calls, and while `Finish` waits. -/
def Between (told : Told) (finished cancelled : Bool) : Prop :=
  ∃ finish cancel,Sent told told.calls finish cancel ∧
    (finish=true → finished=true) ∧ (cancel=true → cancelled=true)

/-- A chunk has not been sent yet. -/
def Waiting (told : Told) (pcm : List Int16) : Prop :=
  ∃ calls,told.calls=calls++[pcm] ∧ Sent told calls false false

/-- Before a call with the process asks for it. -/
def Asking (told : Told) (finished cancelled : Bool) : Starter → Prop
  | .audio pcm => finished=false ∧ ∃ calls cancel,told.calls=calls++[pcm] ∧
      Sent told calls false cancel ∧ (cancel=true → cancelled=true)
  | .finish => finished=false ∧ ∃ cancel,Sent told told.calls false cancel ∧
      (cancel=true → cancelled=true)

/-- Before the process of a call is started. -/
def Starting (told : Told) (finished cancelled : Bool) : Starter → Prop
  | .audio pcm => finished=false ∧ cancelled=false ∧ Waiting told pcm
  | .finish => finished=false ∧ cancelled=false ∧ Sent told told.calls false false

/-- Before a message is sent, or after it could not be sent. -/
def Sending (told : Told) (finished cancelled : Bool) : Purpose → Prop
  | .starter (.audio pcm) => finished=false ∧ cancelled=false ∧ Waiting told pcm
  | .starter .finish => finished=true ∧ cancelled=false ∧ Sent told told.calls false false
  | .cancel => cancelled=true ∧ ∃ finish,Sent told told.calls finish false ∧
      (finish=true → finished=true)

/-- What holds at a point of the owner. -/
def Kept (told : Told) (finished cancelled : Bool) : Pc → Prop
  | .ready _ => Between told finished cancelled
  | .ensureStarted starter _ => Asking told finished cancelled starter
  | .spawn starter _ => Starting told finished cancelled starter
  | .place starter _ => Starting told finished cancelled starter
  | .send purpose _ => Sending told finished cancelled purpose
  | .drainEvents (.sendFailed purpose _) _ => Sending told finished cancelled purpose
  | .drainEvents .audio _ => finished=false ∧ cancelled=false ∧
      Sent {told with accepted := told.accepted++[told.calls.getLastD []]} told.calls false false
  | .drainEvents _ _ => Between told finished cancelled
  | .evaluate _ _ => Between told finished cancelled

variable {told : Told} {calls wider : List (List Int16)} {finish cancel finished cancelled : Bool}
  {pcm : List Int16}

/-- More calls may have begun. -/
theorem Sent.mono (h : Sent told calls finish cancel) (hwider : calls.Sublist wider) :
    Sent told wider finish cancel := by
  obtain ⟨chunks,hsent,hcalls,haccepted⟩ := h
  exact ⟨chunks,hsent,hcalls.trans hwider,haccepted⟩

/-- A chunk may be given up. -/
theorem Sent.forget (h : Sent {told with accepted := told.accepted++[pcm]} calls finish cancel) :
    Sent told calls finish cancel := by
  obtain ⟨chunks,hsent,hcalls,haccepted⟩ := h
  refine ⟨chunks,hsent,hcalls,List.Sublist.trans ?_ haccepted⟩
  exact (List.sublist_append_left told.accepted [pcm]).filter _

/-- Before the last block nothing else was told. -/
theorem Waiting.sent (h : Waiting told pcm) : Sent told told.calls false false := by
  obtain ⟨calls,hcalls,hsent⟩ := h
  rw [hcalls]
  exact hsent.mono (List.sublist_append_left calls [pcm])

/-- A call that waits is between its messages. -/
theorem Waiting.between (h : Waiting told pcm) (finished cancelled : Bool) :
    Between told finished cancelled :=
  ⟨false,false,h.sent,by simp,by simp⟩

/-- A chunk that is sent may be accepted then. -/
theorem Waiting.send (h : Waiting told pcm) :
    Sent ⟨told.calls,told.sent++[.audio pcm],told.accepted++[told.calls.getLastD []]⟩ told.calls
      false false := by
  obtain ⟨calls,hcalls,chunks,hsent,hchunks,haccepted⟩ := h
  have hlast : told.calls.getLastD []=pcm := by simp [hcalls]
  refine ⟨chunks++[pcm],?_,?_,?_⟩
  · simp [hsent,ending]
  · rw [hcalls]
    exact hchunks.append_right [pcm]
  · dsimp only
    rw [hlast,List.filter_append]
    exact haccepted.append List.filter_sublist

/-- A call without samples sends nothing. -/
theorem Waiting.nothing (h : Waiting told []) :
    Sent {told with accepted := told.accepted++[told.calls.getLastD []]} told.calls
      false false := by
  obtain ⟨calls,hcalls,chunks,hsent,hchunks,haccepted⟩ := h
  have hlast : told.calls.getLastD []=[] := by simp [hcalls]
  refine ⟨chunks,hsent,?_,?_⟩
  · rw [hcalls]
    exact hchunks.trans (List.sublist_append_left calls [[]])
  · dsimp only
    rw [hlast,List.filter_append]
    simpa using haccepted

/-- What was told fits flags that are at least as far. -/
theorem Sent.between (h : Sent told told.calls finish cancel) (hfinish : finish=true → finished=true)
    (hcancel : cancel=true → cancelled=true) : Between told finished cancelled :=
  ⟨finish,cancel,h,hfinish,hcancel⟩

/-- A call that sends is between messages. -/
theorem Sending.between {purpose : Purpose} (h : Sending told finished cancelled purpose) :
    Between told finished cancelled := by
  match purpose,h with
  | .starter (.audio _),⟨_,_,hwaiting⟩ => exact hwaiting.between _ _
  | .starter .finish,⟨_,_,hsent⟩ => exact hsent.between (by simp) (by simp)
  | .cancel,⟨_,_,hsent,hfinish⟩ => exact hsent.between hfinish (by simp)

/-- A call that starts the helper is between messages. -/
theorem Starting.between {starter : Starter} (h : Starting told finished cancelled starter) :
    Between told finished cancelled := by
  match starter,h with
  | .audio _,⟨_,_,hwaiting⟩ => exact hwaiting.between _ _
  | .finish,⟨_,_,hsent⟩ => exact hsent.between (by simp) (by simp)

/-- A call that asks for the helper is between messages. -/
theorem Asking.between {starter : Starter} (h : Asking told finished cancelled starter) :
    Between told finished cancelled := by
  match starter,h with
  | .audio pcm,⟨_,calls,_,hcalls,hsent,hcancel⟩ =>
    rw [Between]
    refine ⟨false,_,?_,by simp,hcancel⟩
    rw [hcalls]
    exact hsent.mono (List.sublist_append_left calls [pcm])
  | .finish,⟨_,_,hsent,hcancel⟩ => exact hsent.between (by simp) hcancel

/-- Nothing was cancelled in a session that is not. -/
theorem not_cancel (hcancel : cancel=true → cancelled=true) (hgoes : cancelled=false) :
    cancel=false := by
  cases cancel with
  | false => rfl
  | true => exact absurd ((hcancel rfl).symm.trans hgoes) (by decide)

/-- A call that may go on has not been cancelled. -/
theorem Asking.starting {starter : Starter} (h : Asking told finished cancelled starter)
    (hgoes : cancelled=false) : Starting told finished cancelled starter := by
  match starter,h with
  | .audio pcm,⟨hfinished,calls,cancel,hcalls,hsent,hcancel⟩ =>
    obtain rfl := not_cancel hcancel hgoes
    exact ⟨hfinished,hgoes,calls,hcalls,hsent⟩
  | .finish,⟨hfinished,cancel,hsent,hcancel⟩ =>
    obtain rfl := not_cancel hcancel hgoes
    exact ⟨hfinished,hgoes,hsent⟩

theorem Between.more (h : Between told finished cancelled) (calls : List (List Int16)) :
    Between {told with calls := told.calls++calls} finished cancelled := by
  obtain ⟨finish,cancel,hsent,hfinish,hcancel⟩ := h
  exact ⟨finish,cancel,hsent.mono (List.sublist_append_left told.calls calls),hfinish,hcancel⟩

end Order

section Flags

/-- What the events of the process leave alone. -/
def flags (session : Session) : Bool×Bool := (session.finished,session.cancelled)

variable {env : Environment}

theorem flags_queueError (text : String) (session : Session) :
    flags (queueError text session)=flags session := rfl

theorem flags_queueCompleted (session : Session) : flags (queueCompleted session)=flags session := by
  unfold queueCompleted
  split <;> rfl

/-- Ending the helper keeps the flags. -/
theorem flags_terminate (session : Session) : flags (terminate session)=flags session := by
  unfold terminate
  split <;> rfl

/-- A line of the helper keeps the flags. -/
theorem flags_handleOutputLine (state : Session×Option String) (line : Bytes) :
    flags (handleOutputLine env state line).1.1=flags state.1 := by
  unfold handleOutputLine
  split
  · rfl
  · dsimp only
    split_ifs <;> rfl

theorem flags_consumeStdoutLines (session : Session) (error : Option String) :
    flags (consumeStdoutLines env session error).1=flags session := by
  have hline : ∀ (state : Session×Option String) line,flags state.1=flags session →
      flags (onLine env state line).1.1=flags session := by
    intro state line hstate
    unfold onLine
    dsimp only
    split
    · exact hstate
    · exact (flags_handleOutputLine state _).trans hstate
  exact LineFraming.drainLines_invariant hline false rfl session.stdoutBuffer

/-- An event of the helper keeps the flags. -/
theorem flags_handleChildEvent (session : Session) (error : Option String)
    (event : ProcessSession.ChildEvent) :
    flags (handleChildEvent env session error event).1=flags session := by
  cases event with
  | chunk channel data =>
    cases channel with
    | stdout => exact flags_consumeStdoutLines _ error
    | stderr => rfl
  | cancelled => rfl
  | exited exitCode killed =>
    dsimp only [handleChildEvent,handleExit]
    split <;> rfl

end Flags

section Steps

variable {env : Environment} {told : Told} {session : Session} {error : Option String}
  {oracle : Oracle}

/-- What holds of a session and its owner. -/
def Follows (told : Told) (after : Session×Pc) : Prop :=
  Kept told after.1.finished after.1.cancelled after.2

/-- No call is in the middle of its work. -/
def Calm (told : Told) (session : Session) : Prop :=
  Between told session.finished session.cancelled

theorem Calm.frame {other : Session} (h : Calm told session) (hflags : flags other=flags session) :
    Calm told other := by
  have hfinished : other.finished=session.finished := congrArg Prod.fst hflags
  have hcancelled : other.cancelled=session.cancelled := congrArg Prod.snd hflags
  unfold Calm
  rw [hfinished,hcancelled]
  exact h

/-- A call that returns leaves a calm session. -/
theorem Calm.returns (h : Calm told session) (value : Bool) (error : Option String) :
    Follows told (returns value error session) := h

theorem Calm.returnsFinish (h : Calm told session) (value : Bool) (error : Option String) :
    Follows told (returnsFinish value error session) := h

/-- A helper that does not start leaves a calm session. -/
theorem Calm.startFails (h : Calm told session) (error : Option String) (starter : Starter) :
    Follows told (startFails error session starter) := by
  cases starter <;> exact h

/-- A finish that fails leaves a calm session. -/
theorem Calm.finishFails (h : Calm told session) (text : String) (error : Option String) :
    Follows told (finishFails text error session) :=
  Calm.returnsFinish (h.frame ((flags_terminate _).trans ((flags_queueCompleted _).trans
    (flags_queueError text session)))) false error

theorem Calm.cancelled (h : Calm told session) : Follows told (cancelled session) :=
  Calm.returns (h.frame ((flags_terminate _).trans (flags_queueCompleted session))) true none

/-- Waiting for the grace time is calm. -/
theorem Calm.waitGrace (h : Calm told session) (oracle : Oracle) (error : Option String) :
    Follows told (waitGrace oracle error session) := by
  unfold StreamingSession.waitGrace
  split <;> exact h

/-- Waiting for the last answer is calm. -/
theorem Calm.waitFinal (h : Calm told session) (oracle : Oracle) (error : Option String) :
    Follows told (waitFinal oracle error session) := by
  unfold StreamingSession.waitFinal
  split
  · exact h
  · exact h.waitGrace oracle error

/-- A finish that concludes is calm. -/
theorem Calm.concludes (h : Calm told session) (graceFailed : Bool) (error : Option String) :
    Follows told (concludes graceFailed error session) := by
  unfold StreamingSession.concludes
  dsimp only
  split
  · exact h.frame ((flags_terminate _).trans ((flags_queueCompleted _).trans
      (flags_queueError _ session)))
  · exact h.frame ((flags_terminate _).trans (flags_queueCompleted session))

/-- A finish that times out is calm. -/
theorem Calm.timesOut (h : Calm told session) (error : Option String) :
    Follows told (timesOut error session) :=
  Calm.returnsFinish (h.frame ((flags_terminate _).trans ((flags_queueCompleted _).trans
    (flags_queueError _ session)))) false _

theorem Calm.evaluate (h : Calm told session) (graceFailed : Bool) (error : Option String) :
    Follows told (evaluate graceFailed error session) := by
  unfold StreamingSession.evaluate
  dsimp only
  split
  · exact h
  · split
    · exact h
    · split_ifs <;> exact h
    · exact h

/-- A helper that starts is told what the call was made for. -/
theorem starts {starter : Starter}
    (h : Starting told session.finished session.cancelled starter) (error : Option String) :
    Follows told (startSucceeds error session starter) := by
  match starter,h with
  | .audio pcm,⟨hfinished,hcancelled,hwaiting⟩ =>
    unfold startSucceeds
    dsimp only
    split
    · rename_i hnothing
      subst hnothing
      exact ⟨hfinished,hcancelled,hwaiting.nothing⟩
    · exact ⟨hfinished,hcancelled,hwaiting⟩
  | .finish,⟨_,hcancelled,hsent⟩ => exact ⟨rfl,hcancelled,hsent⟩

/-- A message that is refused leaves the session between messages. -/
theorem send_fails {purpose : Purpose}
    (h : Sending told session.finished session.cancelled purpose) (error : Option String) :
    Follows told (sendFails error session purpose) := by
  have hcalm : Calm told session := h.between
  cases purpose with
  | starter starter =>
    cases starter with
    | audio pcm => exact hcalm.returns false error
    | finish => exact hcalm.finishFails _ error
  | cancel => exact hcalm.cancelled

/-- The message of a call has been sent. -/
theorem send_succeeds {purpose : Purpose}
    (h : Sending told session.finished session.cancelled purpose) (oracle : Oracle)
    (error : Option String) :
    Follows {told with sent := told.sent++[messageOf purpose]}
      (sendSucceeds oracle error session purpose) := by
  match purpose,h with
  | .starter (.audio pcm),⟨hfinished,hcancelled,hwaiting⟩ =>
    exact ⟨hfinished,hcancelled,hwaiting.send⟩
  | .starter .finish,⟨hfinished,_,chunks,hsent,hcalls,haccepted⟩ =>
    have hcalm : Calm {told with sent := told.sent++[.finish]} session :=
      ⟨true,false,⟨chunks,by simp [hsent,ending],hcalls,haccepted⟩,fun _ => hfinished,by simp⟩
    exact hcalm.waitFinal oracle error
  | .cancel,⟨hcancelled,finish,⟨chunks,hsent,hcalls,haccepted⟩,hfinish⟩ =>
    have hcalm : Calm {told with sent := told.sent++[.cancel]} session :=
      ⟨finish,true,⟨chunks,by simp [hsent,ending],hcalls,haccepted⟩,hfinish,fun _ => hcancelled⟩
    exact hcalm.cancelled

/-- What holds while events of the process are drained. -/
def Draining (told : Told) (session : Session) (drain : Drain) : Prop :=
  Kept told session.finished session.cancelled (.drainEvents drain none)

/-- Draining only looks at the flags. -/
theorem Draining.frame {drain : Drain} {other : Session} (h : Draining told session drain)
    (hflags : flags other=flags session) : Draining told other drain := by
  have hfinished : other.finished=session.finished := congrArg Prod.fst hflags
  have hcancelled : other.cancelled=session.cancelled := congrArg Prod.snd hflags
  unfold Draining
  rw [hfinished,hcancelled]
  exact h

/-- The told of a step that sends nothing. -/
def accepting (told : Told) (before after : Pc) : Told :=
  {told with accepted := told.accepted++accepts told.calls before after}

/-- Only a push is accepted at the end of a drain. -/
theorem accepts_other {drain : Drain} (h : drain≠.audio) (calls : List (List Int16))
    (own : Option String) (after : Pc) : accepts calls (.drainEvents drain own) after=[] := by
  cases drain with
  | audio => exact absurd rfl h
  | sendFailed purpose given => rfl
  | await => rfl
  | grace => rfl
  | last graceFailed given => rfl

/-- A drain for anything but audio accepts nothing new. -/
theorem follows_other {drain : Drain} {after : Session×Pc} (hdrain : drain≠.audio)
    (h : Follows told after) (own : Option String) :
    Follows (accepting told (.drainEvents drain own) after.2) after := by
  unfold accepting
  rw [accepts_other hdrain,List.append_nil]
  exact h

theorem after_await (h : Calm told session) (oracle : Oracle) (ok : Bool)
    (error : Option String) : Follows told (afterDrain oracle ok error session .await) := by
  unfold afterDrain
  dsimp only
  split_ifs
  · exact h.finishFails _ error
  · exact h.timesOut error
  · exact h.waitFinal oracle error

theorem after_grace (h : Calm told session) (oracle : Oracle) (ok : Bool)
    (error : Option String) : Follows told (afterDrain oracle ok error session .grace) := by
  unfold afterDrain
  dsimp only
  split_ifs
  · exact h
  · exact h.waitGrace oracle error

/-- A push is accepted when its drain has gone well. -/
theorem after_audio (h : Draining told session .audio) (oracle : Oracle) (ok : Bool)
    (error own : Option String) :
    Follows (accepting told (.drainEvents .audio own)
      (afterDrain oracle ok error session .audio).2)
      (afterDrain oracle ok error session .audio) := by
  obtain ⟨_,_,hsent⟩ := h
  cases ok with
  | true =>
    have hgiven : Between {told with accepted := told.accepted++[told.calls.getLastD []]}
        session.finished session.cancelled := hsent.between (by simp) (by simp)
    exact hgiven
  | false =>
    have hcalm : Calm told session := hsent.forget.between (by simp) (by simp)
    have hnone : accepting told (.drainEvents .audio own)
        (afterDrain oracle false error session .audio).2=told := by
      simp [accepting,accepts,afterDrain,returns]
    rw [hnone]
    exact hcalm.returns false error

/-- Behind every drain the messages told are those of the calls. -/
theorem after_drain {drain : Drain} (h : Draining told session drain) (oracle : Oracle) (ok : Bool)
    (error own : Option String) :
    Follows (accepting told (.drainEvents drain own)
      (afterDrain oracle ok error session drain).2)
      (afterDrain oracle ok error session drain) := by
  cases drain with
  | sendFailed purpose given => exact follows_other (by simp) (send_fails h _) own
  | audio => exact after_audio h oracle ok error own
  | await => exact follows_other (by simp) (after_await h oracle ok error) own
  | grace => exact follows_other (by simp) (after_grace h oracle ok error) own
  | last graceFailed given =>
    exact follows_other (by simp) (Calm.concludes h graceFailed given) own

/-- One event that is drained keeps that. -/
theorem drain_step {drain : Drain} (h : Draining told session drain) (oracle : Oracle)
    (error own : Option String) :
    Follows (accepting told (.drainEvents drain own)
      (drainStep env oracle drain error session).2) (drainStep env oracle drain error session) := by
  unfold drainStep
  split
  · exact after_drain h oracle true _ own
  · split
    · exact after_drain h oracle true _ own
    · rename_i child _ event left _
      have hflags : flags (handleChildEvent env {session with child := some left} error event).1=
          flags session :=
        flags_handleChildEvent {session with child := some left} error event
      dsimp only
      split
      · exact after_drain (h.frame hflags) oracle false _ own
      · have hnone : accepting told (.drainEvents drain own)
            (.drainEvents drain (handleChildEvent env {session with child := some left}
              error event).2)=told := by
          unfold accepting
          cases drain <;> simp [accepts]
        rw [hnone]
        have hframe := h.frame hflags
        cases drain <;> exact hframe

/-- A call begins; its chunk has not been sent. -/
theorem begins (h : Calm told session) (last : Option Returned) (oracle : Oracle) :
    Follows {told with calls := told.calls++called oracle (.ready last)}
      (begin session oracle.call) := by
  unfold called begin
  dsimp only
  cases oracle.call with
  | pushAudio pcm error =>
    dsimp only
    split
    · exact Calm.returns (Between.more h [pcm]) false _
    · rename_i hfinished
      obtain ⟨finish,cancel,hsent,hfinish,hcancel⟩ := h
      have hopen := Bool.eq_false_iff.mpr hfinished
      obtain rfl := not_cancel hfinish hopen
      exact ⟨hopen,told.calls,cancel,rfl,hsent,hcancel⟩
  | finish error =>
    have hcalls : {told with calls := told.calls++[]}=told := by simp
    dsimp only
    rw [hcalls]
    split
    · exact h.returnsFinish true _
    · rename_i hfinished
      obtain ⟨finish,cancel,hsent,hfinish,hcancel⟩ := h
      have hopen := Bool.eq_false_iff.mpr hfinished
      obtain rfl := not_cancel hfinish hopen
      exact ⟨hopen,cancel,hsent,hcancel⟩
  | cancel =>
    have hcalls : {told with calls := told.calls++[]}=told := by simp
    dsimp only
    rw [hcalls]
    split
    · exact h.cancelled
    · rename_i hcancelled
      obtain ⟨finish,cancel,hsent,hfinish,hcancel⟩ := h
      obtain rfl := not_cancel hcancel (Bool.eq_false_iff.mpr hcancelled)
      have hcalm : Calm told {session with cancelled := true} := hsent.between hfinish (by simp)
      split
      · exact ⟨rfl,finish,hsent,hfinish⟩
      · exact hcalm.cancelled

/-- A step of the owner that sends nothing and accepts nothing. -/
theorem observe_quiet {system : System} (hcalled : called oracle system.pc=[])
    (hsends : sends oracle system.session system.pc=[])
    (haccepts : accepts told.calls system.pc (next env oracle system.session system.pc).2=[]) :
    observe env told system (.owner oracle)=told := by
  simp [observe,hcalled,hsends,haccepts]

/-- Each step of the owner keeps the account. -/
theorem owner_follows {system : System} (h : Follows told (system.session,system.pc))
    (oracle : Oracle) :
    Follows (observe env told system (.owner oracle))
      (next env oracle system.session system.pc) := by
  obtain ⟨session,pc⟩ := system
  cases pc with
  | ready last =>
    have hobserve : observe env told ⟨session,.ready last⟩ (.owner oracle)=
        {told with calls := told.calls++called oracle (.ready last)} := by
      simp [observe,sends,accepts]
    rw [hobserve]
    exact begins h last oracle
  | ensureStarted starter error =>
    have hask : Asking told session.finished session.cancelled starter := h
    have hcalm : Calm told session := hask.between
    rw [observe_quiet rfl rfl rfl]
    unfold next
    dsimp only
    split
    · exact hcalm.startFails _ starter
    · rename_i hgoes
      have hopen : session.cancelled=false := by
        cases hcancelled : session.cancelled with
        | false => rfl
        | true => simp [hcancelled] at hgoes
      have hstart := hask.starting hopen
      split
      · exact starts hstart error
      · split
        · exact hcalm.startFails _ starter
        · exact hstart
  | spawn starter error =>
    have hstart : Starting told session.finished session.cancelled starter := h
    have hcalm : Calm told session := hstart.between
    rw [observe_quiet rfl rfl rfl]
    unfold next
    dsimp only
    split
    · exact Calm.startFails (hcalm.frame ((flags_queueCompleted _).trans
        (flags_queueError _ session))) _ starter
    · exact hstart
  | place starter error =>
    have hstart : Starting told session.finished session.cancelled starter := h
    have hcalm : Calm told session := hstart.between
    rw [observe_quiet rfl rfl rfl]
    unfold next
    dsimp only
    split
    · exact hcalm.startFails error starter
    · have hplaced : Starting told
          ({session with child := some {},started := true} : Session).finished
          ({session with child := some {},started := true} : Session).cancelled starter := hstart
      exact starts hplaced error
  | send purpose error =>
    have hsend : Sending told session.finished session.cancelled purpose := h
    cases hchild : session.child.isNone with
    | true =>
      have hsends : sends oracle session (.send purpose error)=[] := by simp [sends,hchild]
      rw [observe_quiet rfl hsends rfl]
      simp only [next,hchild,if_true]
      exact send_fails hsend _
    | false =>
      cases hpush : oracle.pushFails with
      | true =>
        have hsends : sends oracle session (.send purpose error)=[] := by simp [sends,hpush]
        rw [observe_quiet rfl hsends rfl]
        simp only [next,hchild,hpush,if_true,Bool.false_eq_true,if_false]
        exact hsend
      | false =>
        have hobserve : observe env told ⟨session,.send purpose error⟩ (.owner oracle)=
            {told with sent := told.sent++[messageOf purpose]} := by
          simp [observe,called,sends,accepts,hchild,hpush]
        rw [hobserve]
        simp only [next,hchild,hpush,Bool.false_eq_true,if_false]
        exact send_succeeds hsend oracle _
  | drainEvents drain error =>
    have hdrain : Draining told session drain := by
      cases drain <;> exact h
    have hobserve : observe env told ⟨session,.drainEvents drain error⟩ (.owner oracle)=
        accepting told (.drainEvents drain error) (drainStep env oracle drain error session).2 := by
      simp [observe,called,sends,accepting,next]
    rw [hobserve]
    exact drain_step hdrain oracle error error
  | evaluate graceFailed error =>
    have hcalm : Calm told session := h
    rw [observe_quiet rfl rfl rfl]
    exact hcalm.evaluate graceFailed error

/-- Every step keeps the messages in line with the calls. -/
theorem told_follows (pair : System×Told) (label : Label)
    (h : Follows pair.2 (pair.1.session,pair.1.pc)) :
    Follows (toldStep env pair label).2
      ((toldStep env pair label).1.session,(toldStep env pair label).1.pc) := by
  cases label with
  | owner oracle => exact owner_follows h oracle
  | interrupt => exact h
  | pollEvents => exact h

/-- At every point some of the calls were told, in order. -/
theorem follows_sent {pc : Pc} {finished cancelled : Bool} (h : Kept told finished cancelled pc) :
    ∃ finish cancel,Sent told told.calls finish cancel := by
  have hbetween : ∀ {told : Told},Between told finished cancelled →
      ∃ finish cancel,Sent told told.calls finish cancel :=
    fun h => ⟨_,_,h.choose_spec.choose_spec.1⟩
  cases pc with
  | ready last => exact hbetween h
  | ensureStarted starter error => exact hbetween (Asking.between h)
  | spawn starter error => exact hbetween (Starting.between h)
  | place starter error => exact hbetween (Starting.between h)
  | send purpose error => exact hbetween (Sending.between h)
  | drainEvents drain error =>
    cases drain with
    | sendFailed purpose given => exact hbetween (Sending.between h)
    | audio => exact ⟨false,false,h.2.2.forget⟩
    | await => exact hbetween h
    | grace => exact hbetween h
    | last graceFailed given => exact hbetween h
  | evaluate graceFailed error => exact hbetween h

end Steps

section Samples

/-- The bytes of samples, the lower byte first. -/
def asBytes (pcm : List Int16) : Bytes :=
  pcm.flatMap fun sample =>
    [(sample.toUInt16.toNat%256).toUInt8,(sample.toUInt16.toNat/256).toUInt8]

/-- The samples of bytes. -/
def samplesOf : Bytes → Option (List Int16)
  | [] => some []
  | low::high::rest => do
    let samples ← samplesOf rest
    return (low.toNat+256*high.toNat).toUInt16.toInt16::samples
  | _ => none

/-- A sample is recovered from its two bytes. -/
theorem sample_bytes (sample : Int16) :
    ((sample.toUInt16.toNat%256).toUInt8.toNat+
      256*(sample.toUInt16.toNat/256).toUInt8.toNat).toUInt16.toInt16=sample := by
  have hlt := sample.toUInt16.toNat_lt
  have hlow : (sample.toUInt16.toNat%256).toUInt8.toNat=sample.toUInt16.toNat%256 :=
    UInt8.toNat_ofNat_of_lt' (Nat.mod_lt _ (by decide))
  have hhigh : (sample.toUInt16.toNat/256).toUInt8.toNat=sample.toUInt16.toNat/256 :=
    UInt8.toNat_ofNat_of_lt' (Nat.div_lt_of_lt_mul hlt)
  have hsum : sample.toUInt16.toNat%256+256*(sample.toUInt16.toNat/256)=sample.toUInt16.toNat :=
    Nat.mod_add_div _ 256
  rw [hlow,hhigh,hsum]
  simp

/-- Samples are read back from their bytes. -/
theorem samplesOf_asBytes (pcm : List Int16) : samplesOf (asBytes pcm)=some pcm := by
  induction pcm with
  | nil => rfl
  | cons sample rest ih =>
    have hbytes : asBytes (sample::rest)=
        (sample.toUInt16.toNat%256).toUInt8::(sample.toUInt16.toNat/256).toUInt8::
          asBytes rest := rfl
    rw [hbytes,samplesOf,ih]
    exact congrArg (fun value => some (value::rest)) (sample_bytes sample)

/-- A text of these bytes, one character each. -/
def textOf (bytes : Bytes) : String := String.ofList (bytes.map fun byte => Char.ofNat byte.toNat)

/-- The bytes of a text whose characters have one byte each. -/
def bytesOf (text : String) : Bytes := text.toList.map fun c => c.toNat.toUInt8

theorem bytesOf_textOf (bytes : Bytes) : bytesOf (textOf bytes)=bytes := by
  have hbyte : ∀ byte : UInt8,(Char.ofNat byte.toNat).toNat.toUInt8=byte := by
    intro byte
    have hlt := byte.toNat_lt
    have hvalid : byte.toNat.isValidChar := .inl (by omega)
    have hchar : (Char.ofNat byte.toNat).toNat=byte.toNat := congrArg Char.toNat (dif_pos hvalid)
    rw [hchar]
    exact UInt8.ofNat_toNat
  unfold bytesOf textOf
  simp [Function.comp_def,hbyte]

end Samples

section Lines

/-- The JSON library. -/
structure Library where
  /-- The text of a tree, unless an error is reported. -/
  writeJson : Json → Option Bytes
  readJson : Bytes → Option Json

variable (library : Library)

/-- The tree of a message. -/
def payload : Message → Json
  | .audio pcm =>
    .object [("type",.text "audio"),("audio_base64",.text (textOf (Base64.encode (asBytes pcm))))]
  | .finish => .object [("type",.text "finish")]
  | .cancel => .object [("type",.text "cancel")]

/-- The text of a value, empty if it has none. -/
def ToText (value : Json) : Bytes := (library.writeJson value).getD []

/-- The bytes that are pushed for messages. -/
def stdin (messages : List Message) : Bytes :=
  joinLines newline (messages.map fun message => ToText library (payload message))

/-- What a helper makes of a tree. -/
def messageIn (tree : Json) : Option Message :=
  if textMember "type" tree="audio" then
    ((Base64.decode (bytesOf (textMember "audio_base64" tree))).bind samplesOf).map .audio
  else if textMember "type" tree="finish" then some .finish
  else if textMember "type" tree="cancel" then some .cancel
  else none

/-- What a helper reads, line by line. -/
def received (text : Bytes) : List (Option Message) :=
  (LineSplitting.splitAtNewlines newline text).1.map fun line =>
    (library.readJson line).bind messageIn

/-- A tree is written on one line and read with the same members. -/
def Library.ReadsBack (library : Library) (value : Json) : Prop :=
  ∃ text tree,library.writeJson value=some text ∧ newline∉text ∧
    library.readJson text=some tree ∧ ∀ key,tree.find key=value.find key

variable {library}

/-- A helper finds the message in its tree. -/
theorem messageIn_payload (message : Message) {tree : Json}
    (h : ∀ key,tree.find key=(payload message).find key) : messageIn tree=some message := by
  have htext : ∀ key,textMember key tree=textMember key (payload message) := by
    intro key
    unfold textMember
    rw [h key]
  unfold messageIn
  rw [htext "type",htext "audio_base64"]
  cases message with
  | audio pcm =>
    have htype : textMember "type" (payload (.audio pcm))="audio" := rfl
    have haudio : textMember "audio_base64" (payload (.audio pcm))=
        textOf (Base64.encode (asBytes pcm)) := rfl
    rw [if_pos htype,haudio,bytesOf_textOf,Base64.decode_encode,Option.bind_some,
      samplesOf_asBytes]
    rfl
  | finish => rfl
  | cancel => rfl

/-- Messages are read as they were sent. -/
theorem received_stdin {messages : List Message}
    (h : ∀ message∈messages,library.ReadsBack (payload message)) :
    received library (stdin library messages)=messages.map some := by
  have hclean : ∀ line∈messages.map fun message => ToText library (payload message),
      newline∉line := by
    intro line hline
    obtain ⟨message,hmessage,rfl⟩ := List.mem_map.mp hline
    obtain ⟨text,tree,hwrite,hclean,-⟩ := h message hmessage
    simpa [ToText,hwrite] using hclean
  have hsplits : LineSplitting.Splits newline (stdin library messages)
      (messages.map fun message => ToText library (payload message)) [] :=
    ⟨(List.append_nil _).symm,hclean,List.not_mem_nil⟩
  have hlines := ((LineSplitting.splits_splitAtNewlines newline _).unique hsplits).1
  unfold received
  rw [hlines,List.map_map]
  refine List.map_congr_left fun message hmessage => ?_
  obtain ⟨text,tree,hwrite,-,hread,htree⟩ := h message hmessage
  have htext : ToText library (payload message)=text := by simp [ToText,hwrite]
  dsimp only [Function.comp_apply]
  rw [htext,hread,Option.bind_some,messageIn_payload message htree]

/-- From a part of the lines a helper reads a part of the messages. -/
theorem received_prefix {first whole : Bytes} (h : first<+:whole) :
    received library first<+:received library whole := by
  obtain ⟨more,rfl⟩ := h
  have hfirst := LineSplitting.splits_splitAtNewlines newline first
  have hmore := LineSplitting.splits_splitAtNewlines newline
    ((LineSplitting.splitAtNewlines newline first).2++more)
  have hlines := ((LineSplitting.splits_splitAtNewlines newline _).unique
    (hfirst.append hmore)).1
  unfold received
  rw [hlines,List.map_append]
  exact List.prefix_append _ _

end Lines

section Helper

/-- Whatever the owner calls, the helper and other threads do: what is handed to
the process is read as chunks with the samples they were given, in the order of
the calls and each once, then the end of the audio and a cancellation, each at
most once. None of the chunks that were accepted is missing in it. A helper that
gets a part of it, from the start, reads a part of these messages. -/
theorem helper_reads (env : Environment) (library : Library) (schedule : List Label)
    (hreads : ∀ message∈(run (toldStep env) ({},{}) schedule).2.sent,
      library.ReadsBack (payload message)) :
    ∃ chunks finish cancel,
      received library (stdin library (run (toldStep env) ({},{}) schedule).2.sent)=
        (chunks.map .audio++ending finish cancel).map some ∧
      chunks.Sublist (run (toldStep env) ({},{}) schedule).2.calls ∧
      ((run (toldStep env) ({},{}) schedule).2.accepted.filter
        fun pcm => decide (pcm≠[])).Sublist chunks ∧
      ∀ first,first<+:stdin library (run (toldStep env) ({},{}) schedule).2.sent →
        received library first<+:(chunks.map Message.audio++ending finish cancel).map some := by
  have hstart : Follows {} (({} : System).session,({} : System).pc) :=
    ⟨false,false,⟨[],rfl,List.Sublist.refl [],List.Sublist.refl []⟩,by simp,by simp⟩
  have hfollows := @run_invariant _ _ (toldStep env)
    (fun pair : System×Told => Follows pair.2 (pair.1.session,pair.1.pc)) told_follows ({},{})
    schedule hstart
  obtain ⟨finish,cancel,chunks,hsent,hcalls,haccepted⟩ := follows_sent hfollows
  have hreceived := received_stdin hreads
  rw [hsent] at hreceived
  refine ⟨chunks,finish,cancel,?_,hcalls,haccepted,fun first hfirst => ?_⟩
  · rw [hsent]
    exact hreceived
  · rw [←hreceived,←hsent]
    exact received_prefix hfirst

/-- A library for messages, whose texts have no escapes; members are sorted. -/
def sampleLibrary : Library where
  writeJson
    | .object [("type",.text type)] => some (bytesOf ("\x7b\"type\":\""++type++"\"\x7d"))
    | .object [("type",.text type),("audio_base64",.text audio)] =>
      some (bytesOf ("\x7b\"audio_base64\":\""++audio++"\",\"type\":\""++type++"\"\x7d"))
    | _ => none
  readJson text :=
    match text.splitOn 34 with
    | [_,_,_,type,_] => some (.object [("type",.text (textOf type))])
    | [_,_,_,audio,_,_,_,type,_] =>
      some (.object [("audio_base64",.text (textOf audio)),("type",.text (textOf type))])
    | _ => none

/-- Two members with different keys may stand in either order. -/
theorem find_swap {key other : String} {value second : Json} (h : key≠other) (wanted : String) :
    (Json.object [(other,second),(key,value)]).find wanted=
      (Json.object [(key,value),(other,second)]).find wanted := by
  unfold Json.find
  simp only [List.lookup_cons]
  by_cases hkey : wanted=key
  · rw [hkey,beq_self_eq_true,beq_false_of_ne h]
  · rw [beq_false_of_ne hkey]

/-- A chunk is pushed and the audio ends. -/
def sampleSchedule : List Label :=
  List.replicate 6 (.owner {call := .pushAudio [1,-2] none})++
    List.replicate 3 (.owner {call := .finish none})

/-- The lines of these messages. -/
def audioLine : Bytes := bytesOf "\x7b\"audio_base64\":\"AQD+/w==\",\"type\":\"audio\"\x7d"

/-- The line that ends the input. -/
def finishLine : Bytes := bytesOf "\x7b\"type\":\"finish\"\x7d"

/-- A command that prints nothing. -/
def sampleEnvironment : Environment := ⟨fun _ => .error "",true⟩

/-- A helper is told one block and the end. -/
theorem helper_reads_sample :
    ∃ chunks finish cancel,
      received sampleLibrary (stdin sampleLibrary [.audio [1,-2],.finish])=
        (chunks.map .audio++ending finish cancel).map some ∧
      chunks.Sublist [[1,-2]] ∧ [[1,-2]].Sublist chunks ∧
      ∀ first,first<+:stdin sampleLibrary [.audio [1,-2],.finish] →
        received sampleLibrary first<+:(chunks.map Message.audio++ending finish cancel).map some := by
  have hsent : (run (toldStep sampleEnvironment) ({},{}) sampleSchedule).2.sent=
      [.audio [1,-2],.finish] := by decide +kernel
  have hcalls : (run (toldStep sampleEnvironment) ({},{}) sampleSchedule).2.calls=[[1,-2]] := by
    decide +kernel
  have haccepted : (run (toldStep sampleEnvironment) ({},{}) sampleSchedule).2.accepted=
      [[1,-2]] := by decide +kernel
  have haudio : sampleLibrary.ReadsBack (payload (.audio [1,-2])) := by
    have hwrite : sampleLibrary.writeJson (payload (.audio [1,-2]))=some audioLine := by
      decide +kernel
    have hsplit : audioLine.splitOn 34=
        ["\x7b","audio_base64",":","AQD+/w==",",","type",":","audio","\x7d"].map bytesOf := by
      decide +kernel
    have htexts : textOf (bytesOf "AQD+/w==")=textOf (Base64.encode (asBytes [1,-2])) ∧
        textOf (bytesOf "audio")="audio" := by decide +kernel
    refine ⟨_,_,hwrite,by decide +kernel,?_,fun key => find_swap (by decide) key⟩
    dsimp only [sampleLibrary]
    rw [hsplit,←htexts.1,←htexts.2]
    rfl
  have hfinish : sampleLibrary.ReadsBack (payload .finish) := by
    have hwrite : sampleLibrary.writeJson (payload .finish)=some finishLine := by decide +kernel
    have hsplit : finishLine.splitOn 34=
        ["\x7b","type",":","finish","\x7d"].map bytesOf := by decide +kernel
    have htext : textOf (bytesOf "finish")="finish" := by decide +kernel
    refine ⟨_,_,hwrite,by decide +kernel,?_,fun key => rfl⟩
    dsimp only [sampleLibrary]
    rw [hsplit]
    exact congrArg (fun type => some (Json.object [("type",.text type)])) htext
  have hreads := helper_reads sampleEnvironment sampleLibrary sampleSchedule (by
    rw [hsent]
    intro message hmessage
    rcases List.mem_cons.mp hmessage with rfl | hmessage
    · exact haudio
    · exact List.mem_singleton.mp hmessage ▸ hfinish)
  rw [hsent,hcalls,haccepted] at hreads
  exact hreads

end Helper

end Vinput.StreamingStdin
