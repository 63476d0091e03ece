import Vinput.ControllerTurns

/-!
# Conservation of captured audio

Captured samples go from the queue through the hands of the main loop into
the buffer and from there, in pushes or as the tail of an order, to the
session of the recording. What is received, in hand and in the buffer is
together always what was taken from the queue, amplified and in order, as
long as starts, stops and the drain of the main loop take turns.
-/

namespace Vinput.ControllerAudio

open InterleavedRuns RuntimePhases RuntimeController ControllerCore ControllerPhase
open ControllerStart ControllerDeferred ControllerTurns
open RecordingBuffer (AudioPcmChunk Waiting Live pending applyGain applyGain_append
  streamingChunkSamples)

section Hand

/-- What a thread inside its drain has taken and not yet passed on. -/
structure Hand where
  /-- Samples from the queue that are not yet in the buffer. -/
  raw : List Int16 := []
  /-- Samples from the buffer that are not yet pushed. -/
  popped : List Int16 := []
  /-- Session the thread pushes to. -/
  target : Option ℕ := none
  /-- The session is about to be failed. -/
  failing : Bool := false
  /-- Nothing of a live session is in the hand. -/
  early : Bool := true

/-- The hand of a thread. -/
def hand : Pc → Hand
  | .flush _ (.audioCheck pcm) => {raw := pcm}
  | .flush _ (.audioStartup pcm) => {raw := pcm}
  | .flush _ (.audioAppend pcm) => {raw := pcm,early := false}
  | .flush _ (.audioPush id chunk) => {popped := chunk,target := some id,early := false}
  | .flush _ (.audioNext id) => {target := some id,early := false}
  | .flush _ (.failActive id .draining) => {target := some id,failing := true,early := false}
  | _ => {}

/-- Samples a session has received so far. -/
def receivedBy (id : ℕ) (shared : Shared) : List Int16 :=
  (shared.received.filter fun push => push.1=id).flatMap Prod.snd

/-- Samples taken from the queue by the drain of the main loop in this
step. -/
def dequeued (shared : Shared) : Pc → List Int16
  | .flush _ .drainLoop => (shared.capture.queue.head?.map fun chunk => chunk.samples).getD []
  | _ => []

/-- Samples taken from the queue by a stop in this step. -/
def drained (shared : Shared) : Pc → List Int16
  | .stop _ _ .drain => queuedSamples shared
  | _ => []

/-- Samples the capture device queues in this step. -/
def arrived (oracle : Oracle) (shared : Shared) : Pc → List Int16
  | .ready _ =>
    match oracle.call with
    | .processCallback chunks =>
      if shared.capture.recording then chunks.flatMap AudioPcmChunk.samples else []
    | _ => []
  | _ => []

/-- `BeginRecording` drops what is left in the queue in this step. -/
def clearsQueue : Pc → Bool
  | .start _ .drain => true
  | _ => false

/-- A cancel, a deferred stop or a shutdown drops what is in the queue in
this step. -/
def discardsQueue : Pc → Bool
  | .cancel _ _ (.drain _ _) => true
  | .flush _ .drain => true
  | .shutdown .drain => true
  | _ => false

/-- Without a chunk the hand is empty. -/
theorem hand_of_not_handling {pc : Pc} (h : handling pc=false) : hand pc={} := by
  cases pc with
  | flush resume point =>
    cases point with
    | failActive id after =>
      cases after with
      | draining => cases h
      | polling => rfl
    | _ => first | rfl | cases h
  | _ => rfl

/-- An early hand holds nothing but raw samples. -/
theorem hand_early {pc : Pc} (h : (hand pc).early=true) :
    (hand pc).popped=[] ∧ (hand pc).target=none ∧ (hand pc).failing=false := by
  unfold hand at h ⊢
  split at h <;> first | exact ⟨rfl,rfl,rfl⟩ | cases h

/-- A chunk is in hand only inside the drain. -/
theorem not_handling_of_not_draining {pc : Pc} (h : draining pc=false) : handling pc=false := by
  cases pc with
  | flush resume point => cases point <;> first | rfl | exact h
  | _ => rfl

/-- Outside its drain a thread has nothing in hand. -/
theorem hand_of_not_draining {pc : Pc} (h : draining pc=false) : hand pc={} :=
  hand_of_not_handling (not_handling_of_not_draining h)

/-- A step outside the drain leaves the hand empty. -/
theorem hand_next {oracle : Oracle} {shared : Shared} {pc : Pc} (h : draining pc=false) :
    hand (next oracle shared pc).2={} := by
  cases hnext : draining (next oracle shared pc).2 with
  | false => exact hand_of_not_draining hnext
  | true =>
    rcases draining_next hnext with hbefore | henters
    · exact absurd (h.symm.trans hbefore) Bool.false_ne_true
    · unfold entersDrain at henters
      split at henters
      · dsimp only [next,nextFlush]
        rw [if_pos henters]
        rfl
      · cases henters

/-- A session receives what is pushed to it. -/
theorem receivedBy_pushAudio (pushed : Bool) (id : ℕ) (pcm : List Int16) (shared : Shared)
    (other : ℕ) :
    receivedBy other (pushAudio pushed id pcm shared)=
      receivedBy other shared++(if pushed=true ∧ other=id then pcm else []) := by
  unfold pushAudio receivedBy
  by_cases hpushed : pushed=true
  · rw [if_pos hpushed]
    dsimp only
    rw [List.filter_append,List.flatMap_append]
    by_cases hid : other=id
    · simp [hid,hpushed]
    · simp [hid,Ne.symm hid]
  · rw [if_neg hpushed]
    simp [hpushed]

end Hand

section Balance

/-- Before the session is installed, startup samples and the hand of the main
loop are what was taken from the queue. -/
structure StartBalance (shared : Shared) (pc : Pc) (heard : List Int16) : Prop where
  /-- Nothing of a live session is in the hand. -/
  early : (hand pc).early=true
  /-- The buffer is not activated. -/
  waiting : Waiting shared.audioBuffer
  /-- Nothing is lost. -/
  samples : shared.audioBuffer.startupPcm++(hand pc).raw=heard

/-- While the session records, what it received, what is popped, what is in
the buffer and what is in hand are what was taken from the queue. -/
structure Balance (id : ℕ) (shared : Shared) (pc : Pc) (heard : List Int16) : Prop where
  /-- The buffer is activated for the session. -/
  live : Live (usesBufferedDelivery shared.activeBackend) shared.audioBuffer
  /-- The main loop pushes to this session. -/
  target : ∀ other, (hand pc).target=some other → other=id
  /-- Nothing is lost, unless the session is about to fail. -/
  samples : (hand pc).failing=false →
    receivedBy id shared++(hand pc).popped++pending shared.audioBuffer++
      applyGain shared.audioBuffer.gain (hand pc).raw=applyGain shared.audioBuffer.gain heard

variable {oracle : Oracle} {shared : Shared} {resume : Resume} {point : FlushPoint}
  {heard : List Int16}

/-- The drain keeps the balance of a start. -/
theorem startBalance_drain (hmark : shared.startRecordingInProgress=true)
    (hactive : shared.active=none) (haccepting : shared.acceptingChunks=true)
    (h : StartBalance shared (.flush resume point) heard)
    (hdraining : drainPoint point=true) :
    StartBalance (nextFlush oracle shared resume point).1
      (nextFlush oracle shared resume point).2
      (heard++dequeued shared (.flush resume point)) := by
  obtain ⟨hearly,hwaiting,hsamples⟩ := h
  have hpoint : ∀ after : AfterFailure, hand (.flush resume after.point)={} := by
    intro after
    cases after <;> rfl
  cases point with
  | drainLoop =>
    dsimp only [nextFlush,dequeued]
    have hstartup : shared.audioBuffer.startupPcm=heard := by
      rw [←hsamples]
      exact (List.append_nil _).symm
    cases hqueue : shared.capture.queue with
    | nil => exact ⟨rfl,hwaiting,by rw [hstartup]; rfl⟩
    | cons chunk rest =>
      dsimp only [List.head?_cons,Option.map_some,Option.getD_some]
      split
      · rename_i hempty
        refine ⟨rfl,hwaiting,?_⟩
        rw [hempty,List.append_nil]
        exact (List.append_nil _).trans hstartup
      · exact ⟨rfl,hwaiting,by rw [hstartup]; rfl⟩
  | audioCheck pcm =>
    dsimp only [nextFlush,dequeued]
    rw [if_pos haccepting,List.append_nil]
    exact ⟨rfl,hwaiting,hsamples⟩
  | audioStartup pcm =>
    dsimp only [nextFlush,dequeued]
    rw [hmark,hactive,List.append_nil]
    obtain ⟨hwaits,hstartup⟩ := RecordingBuffer.waiting_appendStartup hwaiting pcm
    refine ⟨rfl,hwaits,?_⟩
    rw [←hsamples]
    exact (List.append_nil _).trans hstartup
  | audioAppend pcm => cases hearly
  | audioPush id chunk => cases hearly
  | audioNext id => cases hearly
  | audioRetire id =>
    dsimp only [nextFlush,dequeued]
    rw [List.append_nil]
    exact ⟨rfl,hwaiting,hsamples⟩
  | failActive id after =>
    cases after with
    | draining => cases hearly
    | polling => cases hdraining
  | failRetire id after =>
    dsimp only [nextFlush,dequeued]
    rw [List.append_nil]
    exact ⟨rfl,hwaiting,hsamples⟩
  | failEnd after =>
    dsimp only [nextFlush,dequeued]
    rw [List.append_nil]
    exact ⟨rfl,hwaiting,hsamples⟩
  | failSchedule after =>
    dsimp only [nextFlush,dequeued]
    rw [List.append_nil]
    refine ⟨?_,hwaiting,?_⟩
    · rw [hpoint]
    · rw [hpoint]
      exact hsamples
  | _ => cases hdraining

/-- With nothing in hand, what is not received is in the buffer. -/
theorem Balance.settled {id : ℕ} {pc : Pc} (h : Balance id shared pc heard)
    (hpopped : (hand pc).popped=[]) (hraw : (hand pc).raw=[])
    (hfailing : (hand pc).failing=false) :
    receivedBy id shared++pending shared.audioBuffer=applyGain shared.audioBuffer.gain heard := by
  have hsamples := h.samples hfailing
  have hnothing : applyGain shared.audioBuffer.gain []=[] := rfl
  rw [hpopped,hraw,hnothing,List.append_nil,List.append_nil] at hsamples
  exact hsamples

/-- A settled session has received or is owed all its audio. -/
theorem balance_of_settled {id : ℕ} {pc : Pc}
    (hlive : Live (usesBufferedDelivery shared.activeBackend) shared.audioBuffer)
    (h : receivedBy id shared++pending shared.audioBuffer=
      applyGain shared.audioBuffer.gain heard) (hhand : hand pc={}) :
    Balance id shared pc heard := by
  have hnothing : applyGain shared.audioBuffer.gain []=[] := rfl
  refine ⟨hlive,?_,fun _ => ?_⟩
  · rw [hhand]
    exact nofun
  · rw [hhand]
    dsimp only
    rw [hnothing,List.append_nil,List.append_nil]
    exact h

/-- Popping a chunk moves samples from the buffer into the hand. -/
theorem balance_popNext {id : ℕ}
    (hlive : Live (usesBufferedDelivery shared.activeBackend) shared.audioBuffer)
    (h : receivedBy id shared++pending shared.audioBuffer=
      applyGain shared.audioBuffer.gain heard) :
    Balance id (popNext resume id shared).1 (popNext resume id shared).2 heard := by
  obtain ⟨hlives,hpopped,hgain⟩ :=
    RecordingBuffer.live_popStreamingChunk hlive streamingChunkSamples
  unfold popNext
  dsimp only
  cases hchunk : (RecordingBuffer.popStreamingChunk streamingChunkSamples
      shared.audioBuffer).2 with
  | none =>
    rw [hchunk] at hpopped
    refine balance_of_settled hlives ?_ rfl
    dsimp only
    rw [hgain,←h,←hpopped]
    rfl
  | some chunk =>
    rw [hchunk] at hpopped
    refine ⟨hlives,?_,fun _ => ?_⟩
    · intro other hother
      exact (Option.some.inj hother).symm
    · dsimp only [hand]
      rw [hgain]
      refine (List.append_nil _).trans ?_
      rw [←h,←hpopped,List.append_assoc]
      rfl

/-- A chunk from the queue is in hand. -/
theorem balance_dequeue {id : ℕ} (h : Balance id shared (.flush resume .drainLoop) heard) :
    Balance id (nextFlush oracle shared resume .drainLoop).1
      (nextFlush oracle shared resume .drainLoop).2
      (heard++dequeued shared (.flush resume .drainLoop)) := by
  have hbalance := h.settled rfl rfl rfl
  dsimp only [nextFlush,dequeued]
  cases hqueue : shared.capture.queue with
  | nil =>
    dsimp only [List.head?_nil,Option.map_none,Option.getD_none]
    rw [List.append_nil]
    exact balance_of_settled h.live hbalance rfl
  | cons chunk rest =>
    dsimp only [List.head?_cons,Option.map_some,Option.getD_some]
    split
    · rename_i hempty
      rw [hempty,List.append_nil]
      exact balance_of_settled h.live hbalance rfl
    · refine ⟨h.live,nofun,fun _ => ?_⟩
      dsimp only [hand]
      rw [applyGain_append,←hbalance,List.append_nil]
      rfl

/-- The chunk in hand goes to the buffer, and a full streaming chunk is
popped. -/
theorem balance_append {id : ℕ} {pcm : List Int16} (hactive : shared.active=some id)
    (h : Balance id shared (.flush resume (.audioAppend pcm)) heard) :
    Balance id (nextFlush oracle shared resume (.audioAppend pcm)).1
      (nextFlush oracle shared resume (.audioAppend pcm)).2 heard := by
  obtain ⟨hlives,hpending,hgain⟩ := RecordingBuffer.live_append h.live pcm
  have hbalance : receivedBy id shared++
      pending (RecordingBuffer.append pcm shared.audioBuffer)=
      applyGain (RecordingBuffer.append pcm shared.audioBuffer).gain heard := by
    have hbefore := h.samples rfl
    dsimp only [hand] at hbefore
    rw [List.append_nil] at hbefore
    rw [hgain,hpending,←hbefore,List.append_assoc]
  dsimp only [nextFlush]
  rw [hactive]
  dsimp only
  by_cases hmode : usesBufferedDelivery shared.activeBackend=true
  · rw [if_pos hmode]
    exact balance_of_settled hlives hbalance rfl
  · rw [if_neg hmode]
    exact balance_popNext hlives hbalance

/-- A push changes nothing but what is received. -/
theorem pushAudio_buffer (pushed : Bool) (id : ℕ) (chunk : List Int16) (shared : Shared) :
    (pushAudio pushed id chunk shared).audioBuffer=shared.audioBuffer ∧
      (pushAudio pushed id chunk shared).activeBackend=shared.activeBackend := by
  unfold pushAudio
  split
  · exact ⟨rfl,rfl⟩
  · exact ⟨rfl,rfl⟩

/-- The popped chunk is received, or the session is about to fail. -/
theorem balance_push {id : ℕ} {chunk : List Int16}
    (h : Balance id shared (.flush resume (.audioPush id chunk)) heard) :
    Balance id (nextFlush oracle shared resume (.audioPush id chunk)).1
      (nextFlush oracle shared resume (.audioPush id chunk)).2 heard := by
  have hbefore := h.samples rfl
  obtain ⟨hbuffer,hbackend⟩ := pushAudio_buffer oracle.pushed id chunk shared
  dsimp only [nextFlush]
  refine ⟨?_,?_,?_⟩
  · rw [hbuffer,hbackend]
    exact h.live
  · intro target htarget
    split at htarget
    · exact (Option.some.inj htarget).symm
    · exact (Option.some.inj htarget).symm
  · intro hstill
    split at hstill
    · cases hstill
    · rename_i htaken
      have hpushed : oracle.pushed=true := by
        by_contra hrefused
        rw [Bool.eq_false_of_not_eq_true hrefused] at htaken
        exact htaken rfl
      rw [if_neg htaken,hbuffer,receivedBy_pushAudio,if_pos ⟨hpushed,rfl⟩]
      dsimp only [hand] at hbefore ⊢
      rw [List.append_nil]
      exact hbefore

/-- The drain keeps the balance of a recording. -/
theorem balance_drain {id : ℕ} (hmark : shared.startRecordingInProgress=false)
    (hactive : shared.active=some id)
    (haccepting : handPoint point=true → shared.acceptingChunks=true)
    (h : Balance id shared (.flush resume point) heard) (hdraining : drainPoint point=true)
    (hstays : (nextFlush oracle shared resume point).1.active=some id) :
    Balance id (nextFlush oracle shared resume point).1
      (nextFlush oracle shared resume point).2
      (heard++dequeued shared (.flush resume point)) := by
  by_cases hloop : point=.drainLoop
  · subst hloop
    exact balance_dequeue h
  have hnothing : dequeued shared (.flush resume point)=[] := by
    cases point <;> first | rfl | exact absurd rfl hloop
  rw [hnothing,List.append_nil]
  cases point with
  | drainLoop => exact absurd rfl hloop
  | audioCheck pcm =>
    dsimp only [nextFlush]
    rw [if_pos (haccepting rfl)]
    exact ⟨h.live,nofun,h.samples⟩
  | audioStartup pcm =>
    dsimp only [nextFlush]
    rw [hmark]
    exact ⟨h.live,nofun,h.samples⟩
  | audioAppend pcm => exact balance_append hactive h
  | audioPush other chunk =>
    have hid : other=id := h.target other rfl
    subst hid
    exact balance_push h
  | audioNext other =>
    have hid : other=id := h.target other rfl
    subst hid
    dsimp only [nextFlush]
    rw [if_neg (not_not.mpr hactive)]
    exact balance_popNext h.live (h.settled rfl rfl rfl)
  | audioRetire other => exact balance_of_settled h.live (h.settled rfl rfl rfl) rfl
  | failActive other after =>
    cases after with
    | draining =>
      have hid : other=id := h.target other rfl
      subst hid
      dsimp only [nextFlush] at hstays
      rw [if_neg (not_not.mpr hactive)] at hstays
      cases hstays
    | polling => cases hdraining
  | failRetire other after => exact balance_of_settled h.live (h.settled rfl rfl rfl) rfl
  | failEnd after => exact balance_of_settled h.live (h.settled rfl rfl rfl) rfl
  | failSchedule after =>
    have hpoint : hand (.flush resume after.point)={} := by
      cases after <;> rfl
    exact balance_of_settled h.live (h.settled rfl rfl rfl) hpoint
  | _ => cases hdraining

end Balance

section Frames

/-- Effects of steps that leave the recording buffer alone. -/
def silent : Effect → Bool
  | .keep => true
  | .abandon => true
  | .inject _ => true
  | .take => true
  | .postprocess => true
  | .halt => true
  | .release => true
  | _ => false

/-- The session a start is about to install. -/
def installing : Pc → Option ℕ
  | .start _ (.install id _) => some id
  | _ => none

/-- Outside the drain a silent step leaves the buffer alone. -/
theorem buffer_next {oracle : Oracle} {shared : Shared} {pc : Pc} (hdraining : draining pc=false)
    (hsilent : silent (effect shared pc)=true) :
    (next oracle shared pc).1.audioBuffer=shared.audioBuffer ∧
      (next oracle shared pc).1.activeBackend=shared.activeBackend := by
  cases pc with
  | ready last =>
    dsimp only [next]
    cases oracle.call <;> dsimp only [begin] <;> (repeat' split) <;> exact ⟨rfl,rfl⟩
  | start call point =>
    cases point with
    | accept =>
      dsimp only [next,nextStart,effect] at hsilent ⊢
      split
      · exact ⟨rfl,rfl⟩
      · rename_i hfree
        rw [if_neg hfree] at hsilent
        cases hsilent
    | failed error => cases hsilent
    | noSessionLocked error => cases hsilent
    | install id backend =>
      dsimp only [effect] at hsilent
      split at hsilent
      · cases hsilent
      · cases hsilent
    | _ =>
      dsimp only [next,nextStart]
      (repeat' split) <;> exact ⟨rfl,rfl⟩
  | stop ime sceneId point =>
    cases point with
    | submit pcm =>
      dsimp only [next,nextStop,effect] at hsilent ⊢
      unfold submitEffect at hsilent
      unfold submitLocked
      cases hactive : shared.active with
      | none => exact ⟨rfl,rfl⟩
      | some id =>
        rw [hactive] at hsilent
        dsimp only at hsilent
        split at hsilent
        · cases hsilent
        · cases hsilent
    | _ =>
      dsimp only [next,nextStop]
      (repeat' split) <;> exact ⟨rfl,rfl⟩
  | cancel ime commitRawText point =>
    cases point with
    | enter =>
      dsimp only [effect] at hsilent
      split at hsilent
      · cases hsilent
      · cases hsilent
    | _ => exact ⟨rfl,rfl⟩
  | flush resume point =>
    cases point with
    | failActive id after =>
      dsimp only [next,nextFlush,effect] at hsilent ⊢
      split
      · exact ⟨rfl,rfl⟩
      · rename_i hactive
        rw [if_neg hactive] at hsilent
        cases hsilent
    | audioStartup pcm => cases hdraining
    | audioAppend pcm => cases hdraining
    | audioPush id chunk => cases hdraining
    | audioNext id => cases hdraining
    | _ =>
      dsimp only [next,nextFlush]
      (repeat' split) <;> exact ⟨rfl,rfl⟩
  | resetToIdle resume => cases hsilent
  | worker point =>
    cases point <;> dsimp only [next,nextWorker,pushAudio] <;> (repeat' split) <;>
      exact ⟨rfl,rfl⟩
  | shutdown point =>
    cases point <;> dsimp only [next,nextShutdown] <;> (repeat' split) <;> exact ⟨rfl,rfl⟩
  | _ =>
    dsimp only [next,injectLocked]
    (repeat' split) <;> exact ⟨rfl,rfl⟩

/-- The session and the samples that a step of the worker pushes. -/
def workerPush (pc : Pc) : Option (ℕ×List Int16) :=
  match pc with
  | .worker (.push order) => order.session.map fun id => (id,order.pcm)
  | _ => none

/-- Outside the drain only the worker pushes, and only the rest of its
order. -/
theorem receivedBy_next (oracle : Oracle) (shared : Shared) {pc : Pc}
    (hdraining : draining pc=false) (id : ℕ) :
    receivedBy id (next oracle shared pc).1=receivedBy id shared ∨
      ∃ pcm, workerPush pc=some (id,pcm) ∧
        receivedBy id (next oracle shared pc).1=receivedBy id shared++pcm := by
  cases pc with
  | ready last =>
    left
    dsimp only [next]
    cases oracle.call <;> dsimp only [begin] <;> (repeat' split) <;> rfl
  | start call point =>
    left
    cases point <;> dsimp only [next,nextStart] <;> (repeat' split) <;> rfl
  | stop ime sceneId point =>
    left
    cases point <;> dsimp only [next,nextStop,submitLocked] <;> (repeat' split) <;> rfl
  | cancel ime commitRawText point =>
    left
    cases point <;> dsimp only [next,nextCancel,cancelLocked,cancelStartLocked] <;>
      (repeat' split) <;> rfl
  | flush resume point =>
    left
    cases point with
    | audioAppend pcm => cases hdraining
    | audioPush id chunk => cases hdraining
    | audioNext id => cases hdraining
    | _ =>
      dsimp only [next,nextFlush]
      (repeat' split) <;> rfl
  | worker point =>
    cases point with
    | push order =>
      dsimp only [next,nextWorker]
      split
      · exact .inl rfl
      · split
        · exact .inl rfl
        · rename_i other hsession
          split
          · exact .inl rfl
          · rw [receivedBy_pushAudio]
            by_cases hid : oracle.pushed=true ∧ id=other
            · right
              refine ⟨order.pcm,?_,by rw [if_pos hid]⟩
              unfold workerPush
              dsimp only
              rw [hsession,hid.2]
              rfl
            · left
              rw [if_neg hid]
              exact List.append_nil _
    | _ =>
      left
      dsimp only [next,nextWorker] <;> (repeat' split) <;> rfl
  | shutdown point =>
    left
    cases point <;> dsimp only [next,nextShutdown] <;> (repeat' split) <;> rfl
  | _ =>
    left
    dsimp only [next,injectLocked] <;> (repeat' split) <;> rfl

/-- A start gets the next number for its session. -/
theorem installing_next {oracle : Oracle} {shared : Shared} {pc : Pc} {id : ℕ}
    (h : installing (next oracle shared pc).2=some id) :
    id=shared.sessions ∧ (next oracle shared pc).1.sessions=shared.sessions+1 := by
  have hsome : (installing (next oracle shared pc).2).isSome=true := by
    rw [h]
    rfl
  have hstart : routine pc=.start := by
    refine routine_of_next (fun pc => (installing pc).isSome) ?_ ?_ hsome
    · intro pc hinstalling
      cases pc <;> first | rfl | cases hinstalling
    · intro pc hinstalling
      cases pc with
      | start call point => cases point <;> first | rfl | cases hinstalling
      | _ => cases hinstalling
  cases pc with
  | start call point =>
    cases point with
    | session =>
      dsimp only [next,nextStart] at h ⊢
      cases hsession : oracle.session with
      | created backend =>
        rw [hsession] at h
        cases h
        exact ⟨rfl,rfl⟩
      | refused error =>
        rw [hsession] at h
        cases h
    | _ =>
      dsimp only [next,nextStart] at h
      (repeat' split at h) <;> cases h
  | _ => cases hstart

/-- Sessions are only ever added. -/
theorem sessions_next (oracle : Oracle) (shared : Shared) (pc : Pc) :
    shared.sessions≤(next oracle shared pc).1.sessions := by
  cases pc with
  | ready last =>
    dsimp only [next]
    cases oracle.call <;> dsimp only [begin] <;> (repeat' split) <;> exact le_rfl
  | start call point =>
    cases point <;> dsimp only [next,nextStart] <;> (repeat' split) <;>
      first | exact le_rfl | exact Nat.le_succ _
  | stop ime sceneId point =>
    cases point <;> dsimp only [next,nextStop,submitLocked] <;> (repeat' split) <;>
      exact le_rfl
  | cancel ime commitRawText point =>
    cases point <;> dsimp only [next,nextCancel,cancelLocked,cancelStartLocked] <;>
      (repeat' split) <;> exact le_rfl
  | flush resume point =>
    cases point <;> dsimp only [next,nextFlush,popNext,pushAudio] <;> (repeat' split) <;>
      exact le_rfl
  | worker point =>
    cases point <;> dsimp only [next,nextWorker,pushAudio] <;> (repeat' split) <;> exact le_rfl
  | shutdown point =>
    cases point <;> dsimp only [next,nextShutdown] <;> (repeat' split) <;> exact le_rfl
  | _ =>
    dsimp only [next,injectLocked]
    (repeat' split) <;> exact le_rfl

/-- Unless it is dropped, a sample leaves the queue once and in order. -/
theorem queuedSamples_next (oracle : Oracle) (shared : Shared) {pc : Pc}
    (hclears : clearsQueue pc=false) (hdiscards : discardsQueue pc=false) :
    dequeued shared pc++drained shared pc++queuedSamples (next oracle shared pc).1=
      queuedSamples shared++arrived oracle shared pc := by
  cases pc with
  | ready last =>
    dsimp only [next]
    cases hcall : oracle.call with
    | processCallback chunks =>
      dsimp only [begin,arrived,dequeued,drained]
      rw [hcall]
      dsimp only
      split
      · exact List.flatMap_append
      · exact (List.append_nil _).symm
    | _ =>
      dsimp only [begin,arrived]
      rw [hcall]
      refine Eq.trans ?_ (List.append_nil _).symm
      (repeat' split) <;> rfl
  | start call point =>
    refine Eq.trans ?_ (List.append_nil _).symm
    cases point with
    | drain => cases hclears
    | _ =>
      dsimp only [next,nextStart]
      (repeat' split) <;> rfl
  | stop ime sceneId point =>
    refine Eq.trans ?_ (List.append_nil _).symm
    cases point with
    | drain => exact List.append_nil _
    | _ =>
      dsimp only [next,nextStop,submitLocked]
      (repeat' split) <;> rfl
  | cancel ime commitRawText point =>
    refine Eq.trans ?_ (List.append_nil _).symm
    cases point with
    | drain session applyPendingReload => cases hdiscards
    | _ =>
      dsimp only [next,nextCancel,cancelLocked,cancelStartLocked]
      (repeat' split) <;> rfl
  | flush resume point =>
    refine Eq.trans ?_ (List.append_nil _).symm
    cases point with
    | drain => cases hdiscards
    | drainLoop =>
      dsimp only [next,nextFlush,dequeued,drained]
      cases hqueue : shared.capture.queue with
      | nil =>
        dsimp only [queuedSamples]
        rw [hqueue]
        rfl
      | cons chunk rest =>
        dsimp only [queuedSamples]
        rw [hqueue,List.flatMap_cons,List.append_nil]
        rfl
    | _ =>
      dsimp only [next,nextFlush,popNext,pushAudio]
      (repeat' split) <;> rfl
  | worker point =>
    refine Eq.trans ?_ (List.append_nil _).symm
    cases point <;> dsimp only [next,nextWorker,pushAudio] <;> (repeat' split) <;> rfl
  | shutdown point =>
    refine Eq.trans ?_ (List.append_nil _).symm
    cases point with
    | drain => cases hdiscards
    | _ =>
      dsimp only [next,nextShutdown]
      (repeat' split) <;> rfl
  | _ =>
    refine Eq.trans ?_ (List.append_nil _).symm
    dsimp only [next,injectLocked]
    (repeat' split) <;> rfl

/-- A step that drops the queue takes nothing from it. -/
theorem queuedSamples_of_dropped (oracle : Oracle) (shared : Shared) {pc : Pc}
    (h : clearsQueue pc=true ∨ discardsQueue pc=true) :
    queuedSamples (next oracle shared pc).1=[] ∧ dequeued shared pc=[] ∧
      drained shared pc=[] ∧ arrived oracle shared pc=[] := by
  rcases h with hclears | hdiscards
  · unfold clearsQueue at hclears
    split at hclears
    · exact ⟨rfl,rfl,rfl,rfl⟩
    · cases hclears
  · unfold discardsQueue at hdiscards
    split at hdiscards
    · exact ⟨rfl,rfl,rfl,rfl⟩
    · exact ⟨rfl,rfl,rfl,rfl⟩
    · exact ⟨rfl,rfl,rfl,rfl⟩
    · cases hdiscards

/-- The capture device queues nothing while it does not record. -/
theorem arrived_eq_nil {oracle : Oracle} {shared : Shared} {pc : Pc}
    (h : shared.capture.recording=false) : arrived oracle shared pc=[] := by
  unfold arrived
  split
  · split
    · rw [h]
      rfl
    · rfl
  · rfl

/-- A queue nobody fills stays empty. -/
theorem queuedSamples_eq_nil {oracle : Oracle} {shared : Shared} {pc : Pc}
    (hempty : queuedSamples shared=[]) (hrecording : shared.capture.recording=false) :
    queuedSamples (next oracle shared pc).1=[] := by
  by_cases hdropped : clearsQueue pc=true ∨ discardsQueue pc=true
  · exact (queuedSamples_of_dropped oracle shared hdropped).1
  · obtain ⟨hclears,hdiscards⟩ := not_or.mp hdropped
    have hqueue := queuedSamples_next oracle shared (Bool.eq_false_of_not_eq_true hclears)
      (Bool.eq_false_of_not_eq_true hdiscards)
    rw [hempty,arrived_eq_nil hrecording] at hqueue
    exact (List.append_eq_nil_iff.mp hqueue).2

end Frames

end Vinput.ControllerAudio
