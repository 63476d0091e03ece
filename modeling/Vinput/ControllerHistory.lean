import Vinput.ControllerAudio

/-!
# What was captured and where it is

The history of a run keeps what entered the capture queue since the last
accepted start, what the drain of the main loop and the stop have taken from
it, and what each submitted session is due. As long as starts, stops and the
drain take turns, every sample that was captured is in the queue, in a hand,
in the buffer or with its session.
-/

namespace Vinput.ControllerHistory

open InterleavedRuns RuntimePhases RuntimeController ControllerCore ControllerPhase
open ControllerStart ControllerDeferred ControllerTurns ControllerAudio
open RecordingBuffer (Live pending applyGain applyGain_append)

section History

/-- What went through the capture queue, and what sessions are due. -/
structure AudioHistory where
  /-- Samples the main loop has taken since the last accepted start. -/
  heard : List Int16 := []
  /-- Samples stops have taken since the last accepted start. -/
  tail : List Int16 := []
  /-- Samples the main loop took from an accepted start before
  `BeginRecording` emptied the queue. -/
  early : List Int16 := []
  /-- Samples in the queue at or since the accepted start, those left behind
  that `BeginRecording` drops apart. -/
  captured : List Int16 := []
  /-- Sessions that have been installed. -/
  installed : ℕ → Bool := fun _ => false
  /-- Samples each submitted session has to receive. -/
  due : ℕ → Option (List Int16) := fun _ => none

/-- What sessions are due after an effect. -/
def dueAfter (shared : Shared) (history : AudioHistory) : Effect → ℕ → Option (List Int16)
  | .submit order =>
    match order.session with
    | some id => Function.update history.due id
        (some (applyGain shared.audioBuffer.gain (history.early++history.captured)))
    | none => history.due
  | _ => history.due

/-- Sessions that have been installed after an effect. -/
def installedAfter (history : AudioHistory) : Effect → ℕ → Bool
  | .install id => Function.update history.installed id true
  | _ => history.installed

/-- Samples the main loop took early, and those captured, after a step. -/
def capturedAfter (oracle : Oracle) (shared : Shared) (pc : Pc) (history : AudioHistory) :
    List Int16×List Int16 :=
  if acceptsStart shared pc then ([],queuedSamples shared)
  else if clearsQueue pc then (history.heard,[])
  else (history.early,history.captured++arrived oracle shared pc)

/-- The history reads what enters and leaves the queue, and every effect. -/
def observeAudio (history : AudioHistory) (pool : System) (label : ℕ×Oracle) : AudioHistory :=
  let pc := pool.pcs label.1
  {heard := if acceptsStart pool.shared pc then [] else history.heard++dequeued pool.shared pc
   tail := if acceptsStart pool.shared pc then [] else history.tail++drained pool.shared pc
   early := (capturedAfter label.2 pool.shared pc history).1
   captured := (capturedAfter label.2 pool.shared pc history).2
   installed := installedAfter history (effect pool.shared pc)
   due := dueAfter pool.shared history (effect pool.shared pc)}

/-- Samples a stop carries to its second region. -/
def stopPcm : Pc → Option (List Int16)
  | .stop _ _ (.submit pcm) => some pcm
  | _ => none

/-- A stop that has cleared the recording flag. -/
def afterCapture : Pc → Bool
  | .stop _ _ .drain => true
  | .stop _ _ (.submit _) => true
  | _ => false

/-- The session the worker finishes in this step. -/
def finishes : Pc → Option ℕ
  | .worker (.finish order) => order.session
  | _ => none

/-- The session of the order a worker has in hand. -/
def holding : Pc → Option ℕ
  | .worker (.push order) => order.session
  | .worker (.finish order) => order.session
  | _ => none

/-- The session the main loop pushes to in this step. -/
def pushes : Pc → Option ℕ
  | .flush _ (.audioPush id _) => some id
  | _ => none

/-- A stop submits exactly what its session has not yet received of the
samples captured since the start. Nobody but the worker pushes to a
submitted session, and it has received everything it is due when the worker
finishes it. -/
structure Conserved (pair : System×AudioHistory) (label : ℕ×Oracle) : Prop where
  /-- The order carries the rest. -/
  submitted : ∀ order id, effect pair.1.shared (pair.1.pcs label.1)=.submit order →
    order.session=some id →
    receivedBy id pair.1.shared++order.pcm=
      applyGain pair.1.shared.audioBuffer.gain (pair.2.early++pair.2.captured)
  /-- A submitted session is left to the worker. -/
  exclusive : ∀ id, pushes (pair.1.pcs label.1)=some id → pair.2.due id=none
  /-- A finished session has everything. -/
  finished : ∀ id, finishes (pair.1.pcs label.1)=some id →
    pair.2.due id=some (receivedBy id pair.1.shared)

end History

section Invariants

/-- Invariant of the stops and the capture queue. -/
structure CaptureInv (pool : System) (history : AudioHistory) : Prop where
  /-- The capture of a stop no longer records. -/
  disarmed : ∀ t, afterCapture (pool.pcs t)=true → pool.shared.capture.recording=false
  /-- The queue of a stop is empty. -/
  emptied : ∀ t pcm, stopPcm (pool.pcs t)=some pcm → queuedSamples pool.shared=[]
  /-- A stop carries what was taken by stops. -/
  taken : pool.shared.active≠none → ∀ t pcm, stopPcm (pool.pcs t)=some pcm → history.tail=pcm
  /-- Without such a stop nothing was taken by one. -/
  untouched : pool.shared.active≠none → (∀ t, stopPcm (pool.pcs t)=none) → history.tail=[]
  /-- What was captured is taken or in the queue. -/
  accounted : (pool.shared.active≠none ∨ pool.shared.startRecordingInProgress=true) →
    history.heard++history.tail++queuedSamples pool.shared=history.early++history.captured

/-- Nothing is discarded from the queue during a start or a recording. -/
def keepsQueue (pool : System) (label : ℕ×Oracle) : Prop :=
  discardsQueue (pool.pcs label.1)=true → pool.shared.capture.queue=[] ∨
    (pool.shared.active=none ∧ pool.shared.startRecordingInProgress=false)

instance (pool : System) (label : ℕ×Oracle) : Decidable (keepsQueue pool label) :=
  inferInstanceAs (Decidable (discardsQueue (pool.pcs label.1)=true →
    pool.shared.capture.queue=[] ∨
      (pool.shared.active=none ∧ pool.shared.startRecordingInProgress=false)))

/-- Invariant of the samples on their way. -/
structure FlowInv (pool : System) (history : AudioHistory) : Prop where
  /-- A marked start has everything in its startup buffer. -/
  starting : pool.shared.startRecordingInProgress=true →
    StartBalance pool.shared (pool.pcs mainThread) history.heard ∧ history.tail=[]
  /-- A recording has everything received, in hand or in its buffer. -/
  recording : ∀ id, pool.shared.active=some id →
    Balance id pool.shared (pool.pcs mainThread) history.heard

/-- Invariant of the sessions and their orders. -/
structure LedgerInv (pool : System) (history : AudioHistory) : Prop where
  /-- A session about to be installed is a new one. -/
  fresh : ∀ t id, installing (pool.pcs t)=some id →
    id<pool.shared.sessions ∧ history.installed id=false
  /-- Installed sessions have been created. -/
  known : ∀ id, history.installed id=true → id<pool.shared.sessions
  /-- A session that was never installed has received nothing. -/
  unheard : ∀ id, history.installed id=false →
    receivedBy id pool.shared=[] ∧ history.due id=none
  /-- The active session is installed and not submitted. -/
  active : ∀ id, pool.shared.active=some id → history.installed id=true ∧ history.due id=none
  /-- So is the session the main loop pushes to. -/
  target : ∀ id, (hand (pool.pcs mainThread)).target=some id →
    history.installed id=true ∧ history.due id=none
  /-- A queued order carries the rest, and nobody else has its session. -/
  queued : ∀ order id, pool.shared.currentOrder=.queued order → order.session=some id →
    history.due id=some (receivedBy id pool.shared++order.pcm) ∧
      ∀ t, holding (pool.pcs t)≠some id
  /-- An order in the hands of the worker carries the rest. -/
  pushing : ∀ t id pcm, workerPush (pool.pcs t)=some (id,pcm) →
    history.due id=some (receivedBy id pool.shared++pcm)
  /-- A session about to be finished has received everything. -/
  finishing : ∀ t id, finishes (pool.pcs t)=some id →
    history.due id=some (receivedBy id pool.shared)
  /-- No two threads hold orders of one session. -/
  distinct : ∀ t u id, t≠u → holding (pool.pcs t)=some id → holding (pool.pcs u)≠some id

/-- Invariant of the audio. -/
structure AudioInv (pair : System×AudioHistory) : Prop where
  /-- Starts, stops and the drain take turns. -/
  turns : TurnInv pair.1
  /-- Stops have the capture queue for themselves. -/
  capture : CaptureInv pair.1 pair.2
  /-- Samples on their way are accounted for. -/
  flow : FlowInv pair.1 pair.2
  /-- Sessions and orders are accounted for. -/
  ledger : LedgerInv pair.1 pair.2

end Invariants

section Steps

/-- A stop with audio is between its regions. -/
theorem betweenRegions_of_stopPcm {pc : Pc} {pcm : List Int16} (h : stopPcm pc=some pcm) :
    betweenRegions pc=true := by
  unfold stopPcm at h
  split at h
  · rfl
  · cases h

theorem betweenRegions_of_afterCapture {pc : Pc} (h : afterCapture pc=true) :
    betweenRegions pc=true := by
  unfold afterCapture at h
  split at h
  · rfl
  · rfl
  · cases h

/-- A thread carries samples to its second region because it has just
drained the queue. -/
theorem stopPcm_next {oracle : Oracle} {shared : Shared} {pc : Pc} {pcm : List Int16}
    (h : stopPcm (next oracle shared pc).2=some pcm) :
    ∃ ime sceneId, pc=.stop ime sceneId .drain ∧ pcm=queuedSamples shared := by
  have hbetween := betweenRegions_of_stopPcm h
  rcases (betweenRegions_next hbetween).1 with ⟨haccepts,_⟩ | ⟨hbefore,_⟩
  · unfold acceptsStop at haccepts
    split at haccepts
    · dsimp only [next,nextStop] at h
      split at h
      · cases h
      · cases h
    · cases haccepts
  · unfold betweenRegions at hbefore
    split at hbefore
    · cases h
    · cases h
      exact ⟨_,_,rfl,rfl⟩
    · cases h
    · cases hbefore

/-- A stop clears the recording flag before it drains the queue. -/
theorem afterCapture_next {oracle : Oracle} {shared : Shared} {pc : Pc}
    (h : afterCapture (next oracle shared pc).2=true) :
    (next oracle shared pc).1.capture.recording=false ∨
      (afterCapture pc=true ∧
        (next oracle shared pc).1.capture.recording=shared.capture.recording) := by
  rcases (betweenRegions_next (betweenRegions_of_afterCapture h)).1 with
    ⟨haccepts,_⟩ | ⟨hbefore,_⟩
  · unfold acceptsStop at haccepts
    split at haccepts
    · dsimp only [next,nextStop] at h
      split at h
      · cases h
      · cases h
    · cases haccepts
  · unfold betweenRegions at hbefore
    split at hbefore
    · exact .inl rfl
    · exact .inr ⟨rfl,rfl⟩
    · cases h
    · cases hbefore

/-- The second region of a stop leaves no session behind. -/
theorem active_of_stopPcm {shared : Shared} {pc : Pc} {pcm : List Int16} (oracle : Oracle)
    (h : stopPcm pc=some pcm) : (next oracle shared pc).1.active=none := by
  have hcore := congrArg Core.active (core_next oracle shared pc)
  have henabled := effect_enabled shared pc
  unfold stopPcm at h
  split at h
  · rename_i ime sceneId pcm
    rcases submitEffect_cases sceneId pcm shared with hs | hs | ⟨order,hs⟩
    · have heffect : effect shared (.stop ime sceneId (.submit pcm))=.abandon := hs
      rw [heffect] at hcore henabled
      exact hcore.trans henabled
    · have heffect : effect shared (.stop ime sceneId (.submit pcm))=.discard := hs
      rw [heffect] at hcore
      exact hcore
    · have heffect : effect shared (.stop ime sceneId (.submit pcm))=.submit order := hs
      rw [heffect] at hcore
      exact hcore
  · cases h

/-- A session is active after an effect because it was before, or because it
has just been installed. -/
theorem active_apply {before : Core} {change : Effect} {id : ℕ}
    (h : (change.apply before).active=some id) :
    before.active=some id ∨ change=.install id := by
  cases change with
  | install other =>
    cases h
    exact .inr rfl
  | discard => cases h
  | submit order => cases h
  | cancel => cases h
  | fail => cases h
  | release => cases h
  | _ => exact .inl h

/-- A session becomes active by its install. -/
theorem active_next {oracle : Oracle} {shared : Shared} {pc : Pc} {id : ℕ}
    (h : (next oracle shared pc).1.active=some id) :
    shared.active=some id ∨ effect shared pc=.install id :=
  active_apply ((congrArg Core.active (core_next oracle shared pc)).symm.trans h)

/-- An order is submitted by the second region of a stop with all that is to
be delivered. -/
theorem cases_of_submit {shared : Shared} {pc : Pc} {order : RecognitionOrder}
    (h : effect shared pc=.submit order) :
    ∃ ime sceneId pcm id, pc=.stop ime sceneId (.submit pcm) ∧ shared.active=some id ∧
      order.session=some id ∧
      (Live (usesBufferedDelivery shared.activeBackend) shared.audioBuffer →
        order.pcm=pending (RecordingBuffer.append pcm shared.audioBuffer)) := by
  cases origin_of_effect h with
  | @submit ime sceneId pcm order hsubmit =>
    unfold submitEffect at hsubmit
    cases hactive : shared.active with
    | none =>
      rw [hactive] at hsubmit
      cases hsubmit
    | some id =>
      rw [hactive] at hsubmit
      dsimp only at hsubmit
      split at hsubmit
      · cases hsubmit
      · cases hsubmit
        refine ⟨ime,sceneId,pcm,id,rfl,rfl,rfl,fun hlive => ?_⟩
        exact RecordingBuffer.live_take (RecordingBuffer.live_append hlive pcm).1

end Steps

section Capture

variable {pool : System} {history : AudioHistory} {thread : ℕ} {oracle : Oracle}

theorem dequeued_eq_nil {shared : Shared} {pc : Pc} (h : draining pc=false) :
    dequeued shared pc=[] := by
  cases pc with
  | flush resume point => cases point <;> first | rfl | cases h
  | _ => rfl

theorem dequeued_of_not_dequeues {shared : Shared} {pc : Pc} (h : dequeues shared pc=false) :
    dequeued shared pc=[] := by
  cases pc with
  | flush resume point =>
    cases point with
    | drainLoop =>
      have hempty : shared.capture.queue=[] := by simpa [dequeues] using h
      dsimp only [dequeued]
      rw [hempty]
      rfl
    | _ => rfl
  | _ => rfl

/-- A thread inside its drain is the main loop. -/
theorem mainThread_of_draining (inv : TurnInv pool) (h : draining (pool.pcs thread)=true) :
    thread=mainThread := by
  by_contra hother
  exact Bool.false_ne_true ((inv.onMain thread hother).symm.trans h)

/-- Only a stop takes samples beside the main loop. -/
theorem drained_eq_nil {shared : Shared} {pc : Pc} (h : betweenRegions pc=false) :
    drained shared pc=[] := by
  cases pc with
  | stop ime sceneId point => cases point <;> first | rfl | cases h
  | _ => rfl

/-- Two threads never have a turn at once, before or after a step. -/
theorem not_both_turns (inv : TurnInv pool) {t u : ℕ} (hne : t≠u)
    (ht : takesTurn (pool.pcs t)=true) (hu : takesTurn (pool.pcs u)=true) : False :=
  Bool.false_ne_true ((inv.apart t u hne ht).symm.trans hu)

/-- While a stop is between its regions, the capture stays off once it has
been stopped. -/
theorem disarmed_step (inv : AudioInv (pool,history)) (guarded : takesTurns pool (thread,oracle)) :
    ∀ t, afterCapture ((machine pool (thread,oracle)).pcs t)=true →
      (machine pool (thread,oracle)).shared.capture.recording=false := by
  intro t hafter
  have hturns := machine_turns pool (thread,oracle) inv.turns guarded
  by_cases hself : t=thread
  · subst hself
    rw [Pool.step_pcs_self] at hafter
    rcases afterCapture_next hafter with hoff | ⟨hbefore,hsame⟩
    · exact hoff
    · exact hsame.trans (inv.capture.disarmed t hbefore)
  · by_contra hon
    have hrecording := Bool.eq_true_of_not_eq_false hon
    have hturn := takesTurn_of_betweenRegions (betweenRegions_of_afterCapture hafter)
    rw [Pool.step_pcs_of_ne hself] at hafter
    rcases recording_next hrecording with hbefore | harmed
    · exact Bool.false_ne_true ((inv.capture.disarmed t hafter).symm.trans hbefore)
    · refine not_both_turns hturns hself hturn (takesTurn_of_startAccepted ?_)
      rw [Pool.step_pcs_self]
      exact startAccepted_of_startOpen (startOpen_of_startArmed harmed)

/-- A stop that has drained the queue finds it empty. -/
theorem emptied_step (inv : AudioInv (pool,history)) :
    ∀ t pcm, stopPcm ((machine pool (thread,oracle)).pcs t)=some pcm →
      queuedSamples (machine pool (thread,oracle)).shared=[] := by
  intro t pcm hpcm
  by_cases hself : t=thread
  · subst hself
    rw [Pool.step_pcs_self] at hpcm
    obtain ⟨ime,sceneId,hpc,_⟩ := stopPcm_next hpcm
    rw [Pool.step_shared]
    dsimp only
    rw [hpc]
    rfl
  · rw [Pool.step_pcs_of_ne hself] at hpcm
    have hafter : afterCapture (pool.pcs t)=true := by
      unfold stopPcm at hpcm
      split at hpcm
      · rename_i hpc
        rw [hpc]
        rfl
      · cases hpcm
    exact queuedSamples_eq_nil (inv.capture.emptied t pcm hpcm) (inv.capture.disarmed t hafter)

/-- A stop carries what was taken by stops, and nothing is taken by another
one. -/
theorem taken_step (inv : AudioInv (pool,history)) (guarded : takesTurns pool (thread,oracle))
    (hactive : (machine pool (thread,oracle)).shared.active≠none) :
    ∀ t pcm, stopPcm ((machine pool (thread,oracle)).pcs t)=some pcm →
      (observeAudio history pool (thread,oracle)).tail=pcm := by
  intro t pcm hpcm
  dsimp only [observeAudio]
  obtain ⟨id,hid⟩ := Option.ne_none_iff_exists'.mp hactive
  rw [Pool.step_shared] at hid
  by_cases hself : t=thread
  · subst hself
    rw [Pool.step_pcs_self] at hpcm
    obtain ⟨ime,sceneId,hpc,hsamples⟩ := stopPcm_next hpcm
    have hturn : takesTurn (pool.pcs t)=true := by
      rw [hpc]
      rfl
    -- No other stop has drained the queue since the start.
    have hnone : ∀ u, stopPcm (pool.pcs u)=none := by
      intro u
      by_contra hsome
      obtain ⟨other,hother⟩ := Option.ne_none_iff_exists'.mp hsome
      have hne : u≠t := by
        intro heq
        rw [heq,hpc] at hother
        cases hother
      exact not_both_turns inv.turns hne
        (takesTurn_of_betweenRegions (betweenRegions_of_stopPcm hother)) hturn
    have hbefore : pool.shared.active≠none := by
      rcases active_next hid with hsome | heffect
      · rw [hsome]
        exact nofun
      · rw [hpc] at heffect
        cases heffect
    rw [hpc,inv.capture.untouched hbefore hnone]
    exact hsamples.symm
  · rw [Pool.step_pcs_of_ne hself] at hpcm
    have hbetween := betweenRegions_of_stopPcm hpcm
    have hfree : takesTurn (pool.pcs thread)=false :=
      inv.turns.apart t thread hself (takesTurn_of_betweenRegions hbetween)
    have haccepts : acceptsStart pool.shared (pool.pcs thread)=false := by
      by_contra hstart
      have hnow : accepts pool.shared (pool.pcs thread)=true := by
        unfold accepts
        rw [Bool.eq_true_of_not_eq_false hstart]
        rfl
      exact Bool.false_ne_true ((alone_of_accepts guarded hnow hself).1.symm.trans
        (takesTurn_of_betweenRegions hbetween))
    have hbefore : pool.shared.active≠none := by
      rcases active_next hid with hsome | heffect
      · rw [hsome]
        exact nofun
      · exact absurd (hfree.symm.trans
          (takesTurn_of_startAccepted (startAccepted_of_install heffect))) Bool.false_ne_true
    rw [haccepts,drained_eq_nil (Bool.or_eq_false_iff.mp hfree).2,List.append_nil]
    exact inv.capture.taken hbefore t pcm hpcm

/-- Before a stop drains the queue, nothing is taken by one. -/
theorem untouched_step (inv : AudioInv (pool,history))
    (hactive : (machine pool (thread,oracle)).shared.active≠none)
    (hnone : ∀ t, stopPcm ((machine pool (thread,oracle)).pcs t)=none) :
    (observeAudio history pool (thread,oracle)).tail=[] := by
  dsimp only [observeAudio]
  split
  · rfl
  obtain ⟨id,hid⟩ := Option.ne_none_iff_exists'.mp hactive
  rw [Pool.step_shared] at hid
  have hkept : drained pool.shared (pool.pcs thread)=[] := by
    by_cases hbetween : betweenRegions (pool.pcs thread)=true
    · have hself := hnone thread
      rw [Pool.step_pcs_self] at hself
      unfold drained
      split
      · rename_i hpc
        rw [hpc] at hself
        cases hself
      · rfl
    · exact drained_eq_nil (Bool.eq_false_of_not_eq_true hbetween)
  rw [hkept,List.append_nil]
  rcases active_next hid with hsome | heffect
  · refine inv.capture.untouched ?_ ?_
    · rw [hsome]
      exact nofun
    · intro t
      by_contra hcarries
      obtain ⟨pcm,hpcm⟩ := Option.ne_none_iff_exists'.mp hcarries
      by_cases hself : t=thread
      · subst hself
        rw [active_of_stopPcm oracle hpcm] at hid
        cases hid
      · have hafter := hnone t
        rw [Pool.step_pcs_of_ne hself,hpcm] at hafter
        cases hafter
  · have henabled := effect_enabled pool.shared (pool.pcs thread)
    rw [heffect] at henabled
    exact (inv.flow.starting henabled.2).2

/-- A start or a recording was under way before the step, unless it is
accepted now. -/
theorem underWay_before (haccepts : acceptsStart pool.shared (pool.pcs thread)=false)
    (h : (machine pool (thread,oracle)).shared.active≠none ∨
      (machine pool (thread,oracle)).shared.startRecordingInProgress=true) :
    pool.shared.active≠none ∨ pool.shared.startRecordingInProgress=true := by
  rw [Pool.step_shared] at h
  rcases h with hactive | hmark
  · obtain ⟨id,hid⟩ := Option.ne_none_iff_exists'.mp hactive
    rcases active_next hid with hbefore | heffect
    · left
      rw [hbefore]
      exact nofun
    · right
      have henabled := effect_enabled pool.shared (pool.pcs thread)
      rw [heffect] at henabled
      exact henabled.2
  · rcases mark_next hmark with hbefore | heffect
    · exact .inr hbefore
    · exact absurd (haccepts.symm.trans (acceptsStart_of_mark heffect)) Bool.false_ne_true

/-- When the main loop takes a chunk, no stop has taken anything. -/
theorem tail_of_dequeues (inv : AudioInv (pool,history))
    (guarded : takesTurns pool (thread,oracle))
    (h : pool.shared.active≠none ∨ pool.shared.startRecordingInProgress=true)
    (hdequeues : dequeues pool.shared (pool.pcs thread)=true) : history.tail=[] := by
  rcases h with hactive | hmark
  · have haccepting := guarded.2.2 hdequeues (inv.turns.agree.agrees.mpr hactive)
    refine inv.capture.untouched hactive fun t => ?_
    by_contra hcarries
    obtain ⟨pcm,hpcm⟩ := Option.ne_none_iff_exists'.mp hcarries
    have hrefused := inv.turns.stopping t (betweenRegions_of_stopPcm hpcm)
    exact Bool.false_ne_true (hrefused.symm.trans haccepting)
  · exact (inv.flow.starting hmark).2

/-- `BeginRecording` empties the queue before a stop has taken anything. -/
theorem tail_of_clearsQueue (inv : AudioInv (pool,history))
    (h : pool.shared.active≠none ∨ pool.shared.startRecordingInProgress=true)
    (hclears : clearsQueue (pool.pcs thread)=true) : history.tail=[] := by
  rcases h with hactive | hmark
  · have hstart : startAccepted (pool.pcs thread)=true := by
      unfold clearsQueue at hclears
      split at hclears
      · rename_i hpc
        rw [hpc]
        rfl
      · cases hclears
    exact absurd (inv.turns.agree.agrees.mpr hactive) (inv.turns.starting thread hstart)
  · exact (inv.flow.starting hmark).2

/-- A step that drops nothing keeps the account of the queue. -/
theorem accounted_kept (inv : AudioInv (pool,history))
    (guarded : takesTurns pool (thread,oracle))
    (h : pool.shared.active≠none ∨ pool.shared.startRecordingInProgress=true)
    (hclears : clearsQueue (pool.pcs thread)=false)
    (hdiscards : discardsQueue (pool.pcs thread)=false) :
    history.heard++dequeued pool.shared (pool.pcs thread)++
        (history.tail++drained pool.shared (pool.pcs thread))++
        queuedSamples (next oracle pool.shared (pool.pcs thread)).1=
      history.early++(history.captured++arrived oracle pool.shared (pool.pcs thread)) := by
  have hqueue := queuedSamples_next oracle pool.shared hclears hdiscards
  have hbefore := inv.capture.accounted h
  rw [←List.append_assoc history.early,←hbefore,List.append_assoc _ (queuedSamples pool.shared),
    ←hqueue]
  cases hdequeues : dequeues pool.shared (pool.pcs thread) with
  | true =>
    rw [tail_of_dequeues inv guarded h hdequeues]
    simp only [List.append_nil,List.nil_append,List.append_assoc]
  | false =>
    rw [dequeued_of_not_dequeues hdequeues]
    simp only [List.append_nil,List.nil_append,List.append_assoc]

/-- What was captured is taken or in the queue. -/
theorem accounted_step (inv : AudioInv (pool,history)) (guarded : takesTurns pool (thread,oracle))
    (kept : keepsQueue pool (thread,oracle))
    (h : (machine pool (thread,oracle)).shared.active≠none ∨
      (machine pool (thread,oracle)).shared.startRecordingInProgress=true) :
    (observeAudio history pool (thread,oracle)).heard++
        (observeAudio history pool (thread,oracle)).tail++
        queuedSamples (machine pool (thread,oracle)).shared=
      (observeAudio history pool (thread,oracle)).early++
        (observeAudio history pool (thread,oracle)).captured := by
  dsimp only [observeAudio,capturedAfter]
  rw [Pool.step_shared]
  by_cases haccepts : acceptsStart pool.shared (pool.pcs thread)=true
  · obtain ⟨call,hnext⟩ := next_of_mark oracle (mark_of_acceptsStart haccepts)
    simp only [if_pos haccepts]
    rw [hnext]
    rfl
  · have hbefore := underWay_before (Bool.eq_false_of_not_eq_true haccepts) h
    simp only [if_neg haccepts]
    cases hclears : clearsQueue (pool.pcs thread) with
    | true =>
      obtain ⟨hqueue,hdequeued,hdrained,_⟩ :=
        queuedSamples_of_dropped oracle pool.shared (.inl hclears)
      rw [if_pos rfl,hqueue,hdequeued,hdrained,tail_of_clearsQueue inv hbefore hclears]
      simp only [List.append_nil]
    | false =>
      cases hdiscards : discardsQueue (pool.pcs thread) with
      | false => exact accounted_kept inv guarded hbefore hclears hdiscards
      | true =>
        -- What is dropped here is nothing.
        have hempty : queuedSamples pool.shared=[] := by
          unfold queuedSamples
          rcases kept hdiscards with hempty | ⟨hactive,hmark⟩
          · rw [hempty]
            rfl
          · rcases hbefore with hsome | hmarked
            · exact absurd hactive hsome
            · exact absurd (hmark.symm.trans hmarked) Bool.false_ne_true
        obtain ⟨hqueue,hdequeued,hdrained,harrived⟩ :=
          queuedSamples_of_dropped oracle pool.shared (.inr hdiscards)
        have haccount := inv.capture.accounted hbefore
        rw [hempty] at haccount
        rw [if_neg Bool.false_ne_true,hqueue,hdequeued,hdrained,harrived]
        simpa only [List.append_nil] using haccount

/-- A step with turns that keeps the queue keeps the account of the capture. -/
theorem capture_step (inv : AudioInv (pool,history)) (guarded : takesTurns pool (thread,oracle))
    (kept : keepsQueue pool (thread,oracle)) :
    CaptureInv (machine pool (thread,oracle)) (observeAudio history pool (thread,oracle)) :=
  ⟨disarmed_step inv guarded,emptied_step inv,taken_step inv guarded,untouched_step inv,
    accounted_step inv guarded kept⟩

end Capture

section Flow

variable {pool : System} {history : AudioHistory} {thread : ℕ} {oracle : Oracle}

/-- Steps outside the drain leave the hand of the main loop alone. -/
theorem hand_step (h : draining (pool.pcs thread)=false) :
    hand ((machine pool (thread,oracle)).pcs mainThread)=hand (pool.pcs mainThread) := by
  by_cases hself : mainThread=thread
  · rw [hself,Pool.step_pcs_self,hand_next h,hand_of_not_draining h]
  · rw [Pool.step_pcs_of_ne hself]

/-- The drain has no effect on the core but the failure of the session. -/
theorem effect_of_draining {shared : Shared} {pc : Pc} (h : draining pc=true) :
    effect shared pc=.keep ∨ effect shared pc=.fail := by
  cases pc with
  | flush resume point =>
    cases point with
    | failActive id after =>
      dsimp only [effect]
      split
      · exact .inl rfl
      · exact .inr rfl
    | _ => exact .inl rfl
  | _ => cases h

/-- A draining call accepts no start. -/
theorem not_acceptsStart_of_draining {shared : Shared} {pc : Pc} (h : draining pc=true) :
    acceptsStart shared pc=false := by
  cases pc <;> first | rfl | cases h

/-- While a start is marked, only silent steps keep the mark. -/
theorem silent_of_marked {before : Core} {change : Effect} (enabled : change.Enabled before)
    (hactive : before.active=none) (h : (change.apply before).mark=true) (hne : change≠.mark) :
    silent change=true := by
  cases change with
  | mark => exact absurd rfl hne
  | unmark => cases h
  | install id => cases h
  | cancel => cases h
  | reset => cases h
  | discard => exact absurd hactive enabled.2
  | submit order => exact absurd hactive enabled
  | fail => exact absurd hactive enabled
  | _ => rfl

/-- During a recording no mark is taken away. -/
theorem not_unmark_of_recording {shared : Shared} {pc : Pc} (hrec : shared.phase=.recording)
    (hstart : startAccepted pc=false) : effect shared pc≠.unmark := by
  intro h
  cases origin_of_effect h with
  | failed => cases hstart
  | noSession => cases hstart
  | refused => cases hstart
  | cancelStart quiet => exact quiet hrec

/-- A session is active only in the recording phase. -/
theorem recording_of_active (inv : TurnInv pool) {id : ℕ} (h : pool.shared.active=some id) :
    pool.shared.phase=.recording := by
  refine inv.agree.agrees.mpr ?_
  dsimp only [core]
  rw [h]
  exact nofun

/-- While a session stays active, only silent steps are taken. -/
theorem silent_of_recording (inv : TurnInv pool) {id : ℕ} (hactive : pool.shared.active=some id)
    (hstays : (next oracle pool.shared (pool.pcs thread)).1.active=some id) :
    silent (effect pool.shared (pool.pcs thread))=true := by
  have hrec := recording_of_active inv hactive
  have hstart : startAccepted (pool.pcs thread)=false := by
    by_contra haccepted
    exact inv.starting thread (Bool.eq_true_of_not_eq_false haccepted) hrec
  have hcore := congrArg Core.active (core_next oracle pool.shared (pool.pcs thread))
  have hafter := hcore.symm.trans hstays
  have henabled := effect_enabled pool.shared (pool.pcs thread)
  have hidle : pool.shared.phase≠.idle := by
    rw [hrec]
    exact nofun
  cases heffect : effect pool.shared (pool.pcs thread) with
  | mark =>
    rw [heffect] at henabled
    exact absurd henabled.1 hidle
  | unmark => exact absurd heffect (not_unmark_of_recording hrec hstart)
  | install other =>
    rw [heffect] at henabled
    exact absurd henabled.1 hidle
  | reset => exact absurd ⟨thread,owesReset_of_effect heffect⟩ (inv.agree.clear hrec)
  | discard =>
    rw [heffect] at hafter
    cases hafter
  | submit order =>
    rw [heffect] at hafter
    cases hafter
  | cancel =>
    rw [heffect] at hafter
    cases hafter
  | fail =>
    rw [heffect] at hafter
    cases hafter
  | _ => rfl

/-- An accepted start begins with an empty buffer and nothing in the hand of the
main loop. -/
theorem startBalance_accept (guarded : takesTurns pool (thread,oracle))
    (haccepts : acceptsStart pool.shared (pool.pcs thread)=true) :
    StartBalance (next oracle pool.shared (pool.pcs thread)).1
      ((machine pool (thread,oracle)).pcs mainThread) [] := by
  have heffect := mark_of_acceptsStart haccepts
  obtain ⟨call,hnext⟩ := next_of_mark oracle heffect
  have hquiet : draining (pool.pcs thread)=false := by
    cases hdraining : draining (pool.pcs thread) with
    | false => rfl
    | true =>
      exact absurd ((not_acceptsStart_of_draining hdraining).symm.trans haccepts)
        Bool.false_ne_true
  have hempty : handling (pool.pcs mainThread)=false := by
    by_cases hself : mainThread=thread
    · rw [hself]
      exact not_handling_of_not_draining hquiet
    · exact (alone_of_accepts guarded (accepts_of_mark heffect) hself).2
  have hhand := hand_of_not_handling hempty
  obtain ⟨hwaits,hempty⟩ := RecordingBuffer.waiting_reset RecordingBuffer.unity
    pool.shared.audioBuffer
  refine ⟨?_,?_,?_⟩
  · rw [hand_step hquiet,hhand]
  · rw [hnext]
    exact hwaits
  · rw [hand_step hquiet,hhand,hnext]
    exact (List.append_nil _).trans hempty

/-- No stop drains the queue while a start is marked: it would have its turn
beside the start. -/
theorem drained_of_marked (inv : AudioInv (pool,history))
    (hmark : pool.shared.startRecordingInProgress=true) :
    drained pool.shared (pool.pcs thread)=[] := by
  refine drained_eq_nil (Bool.eq_false_of_not_eq_true fun hbetween => ?_)
  obtain ⟨u,hu⟩ := inv.turns.marked hmark
  have hstart := startAccepted_of_startMarked hu
  have hdiff : u≠thread := by
    intro heq
    rw [heq] at hstart
    exact Bool.false_ne_true
      ((not_start_of_betweenRegions hbetween pool.shared).1.symm.trans hstart)
  exact not_both_turns inv.turns hdiff (takesTurn_of_startAccepted hstart)
    (takesTurn_of_betweenRegions hbetween)

/-- A start that stays marked keeps its samples. -/
theorem startBalance_kept (inv : AudioInv (pool,history))
    (hne : effect pool.shared (pool.pcs thread)≠.mark)
    (hbefore : pool.shared.startRecordingInProgress=true)
    (hmark : (next oracle pool.shared (pool.pcs thread)).1.startRecordingInProgress=true) :
    StartBalance (next oracle pool.shared (pool.pcs thread)).1
      ((machine pool (thread,oracle)).pcs mainThread)
      (history.heard++dequeued pool.shared (pool.pcs thread)) := by
  obtain ⟨hbalance,_⟩ := inv.flow.starting hbefore
  have hactive : pool.shared.active=none := by
    by_contra hsome
    have hrec := inv.turns.agree.agrees.mpr hsome
    dsimp only [core] at hrec
    rw [inv.turns.idle hbefore] at hrec
    cases hrec
  cases hdraining : draining (pool.pcs thread) with
  | true =>
    have hmain := mainThread_of_draining inv.turns hdraining
    subst hmain
    rw [Pool.step_pcs_self]
    cases hpc : pool.pcs mainThread with
    | flush resume point =>
      rw [hpc] at hdraining hbalance
      exact startBalance_drain hbefore hactive (inv.turns.accepting hbefore) hbalance hdraining
    | _ =>
      rw [hpc] at hdraining
      cases hdraining
  | false =>
    have hafter := (congrArg Core.mark (core_next oracle pool.shared (pool.pcs thread))).symm.trans
      hmark
    have hsilent := silent_of_marked (effect_enabled pool.shared (pool.pcs thread)) hactive
      hafter hne
    have hbuffer : (next oracle pool.shared (pool.pcs thread)).1.audioBuffer=
        pool.shared.audioBuffer := (buffer_next hdraining hsilent).1
    rw [dequeued_eq_nil hdraining,List.append_nil]
    refine ⟨?_,?_,?_⟩
    · rw [hand_step hdraining]
      exact hbalance.early
    · rw [hbuffer]
      exact hbalance.waiting
    · rw [hand_step hdraining,hbuffer]
      exact hbalance.samples

/-- A marked start has everything in its startup buffer. -/
theorem starting_flow (inv : AudioInv (pool,history)) (guarded : takesTurns pool (thread,oracle))
    (hmark : (machine pool (thread,oracle)).shared.startRecordingInProgress=true) :
    StartBalance (machine pool (thread,oracle)).shared
      ((machine pool (thread,oracle)).pcs mainThread)
      (observeAudio history pool (thread,oracle)).heard ∧
      (observeAudio history pool (thread,oracle)).tail=[] := by
  rw [Pool.step_shared] at hmark ⊢
  dsimp only [observeAudio] at hmark ⊢
  by_cases haccepts : acceptsStart pool.shared (pool.pcs thread)=true
  · rw [if_pos haccepts,if_pos haccepts]
    exact ⟨startBalance_accept guarded haccepts,rfl⟩
  · rw [if_neg haccepts,if_neg haccepts]
    have hne : effect pool.shared (pool.pcs thread)≠.mark := by
      intro heffect
      exact haccepts (acceptsStart_of_mark heffect)
    have hbefore : pool.shared.startRecordingInProgress=true := by
      rcases mark_next hmark with hbefore | heffect
      · exact hbefore
      · exact absurd heffect hne
    refine ⟨startBalance_kept inv hne hbefore hmark,?_⟩
    rw [drained_of_marked inv hbefore,(inv.flow.starting hbefore).2]
    rfl

/-- A session is installed as the one its start has created. -/
theorem fresh_of_install (inv : AudioInv (pool,history)) {id : ℕ}
    (h : effect pool.shared (pool.pcs thread)=.install id) :
    id<pool.shared.sessions ∧ history.installed id=false := by
  obtain ⟨call,backend,hpc,_⟩ := returns_of_install {} h
  refine inv.ledger.fresh thread id ?_
  rw [hpc]
  rfl

/-- An installation turns the startup samples into those to be delivered. -/
theorem balance_install (inv : AudioInv (pool,history)) {id : ℕ}
    (heffect : effect pool.shared (pool.pcs thread)=.install id) :
    Balance id (next oracle pool.shared (pool.pcs thread)).1 (pool.pcs mainThread)
      history.heard := by
  have henabled := effect_enabled pool.shared (pool.pcs thread)
  rw [heffect] at henabled
  obtain ⟨hbalance,_⟩ := inv.flow.starting henabled.2
  obtain ⟨hpopped,htarget,_⟩ := hand_early hbalance.early
  obtain ⟨call,backend,_,hnext⟩ := returns_of_install oracle heffect
  have hfresh := (fresh_of_install inv heffect).2
  have hnothing : receivedBy id pool.shared=[] := (inv.ledger.unheard id hfresh).1
  obtain ⟨hlive,hpending,hgain⟩ := RecordingBuffer.live_activate hbalance.waiting
    (usesBufferedDelivery backend) oracle.gain
  rw [hnext]
  refine ⟨hlive,?_,fun _ => ?_⟩
  · intro other hother
    rw [htarget] at hother
    cases hother
  · dsimp only [installLocked]
    rw [hpopped,hpending,hgain,←hbalance.samples,applyGain_append]
    have hsame : receivedBy id (installLocked call oracle.gain id backend pool.shared)=[] :=
      hnothing
    dsimp only [installLocked] at hsame
    rw [hsame]
    rfl

/-- A recording keeps its samples. -/
theorem balance_kept (inv : AudioInv (pool,history)) {id : ℕ}
    (hbefore : pool.shared.active=some id)
    (hactive : (next oracle pool.shared (pool.pcs thread)).1.active=some id) :
    Balance id (next oracle pool.shared (pool.pcs thread)).1
      ((machine pool (thread,oracle)).pcs mainThread)
      (history.heard++dequeued pool.shared (pool.pcs thread)) := by
  have hbalance := inv.flow.recording id hbefore
  have hrec := recording_of_active inv.turns hbefore
  cases hdraining : draining (pool.pcs thread) with
  | true =>
    have hmain := mainThread_of_draining inv.turns hdraining
    subst hmain
    have hmark : pool.shared.startRecordingInProgress=false := by
      by_contra hmarked
      have hidle := inv.turns.idle (Bool.eq_true_of_not_eq_false hmarked)
      rw [hrec] at hidle
      cases hidle
    have haccepting : handling (pool.pcs mainThread)=true →
        pool.shared.acceptingChunks=true := by
      intro hhand
      by_contra hrefused
      exact Bool.false_ne_true ((inv.turns.refusing hrec
        (Bool.eq_false_of_not_eq_true hrefused)).symm.trans hhand)
    rw [Pool.step_pcs_self]
    cases hpc : pool.pcs mainThread with
    | flush resume point =>
      rw [hpc] at hdraining hbalance hactive haccepting
      exact balance_drain hmark hbefore haccepting hbalance hdraining hactive
    | _ =>
      rw [hpc] at hdraining
      cases hdraining
  | false =>
    have hsilent := silent_of_recording inv.turns hbefore hactive
    obtain ⟨hbuffer,hbackend⟩ : (next oracle pool.shared (pool.pcs thread)).1.audioBuffer=
        pool.shared.audioBuffer ∧ (next oracle pool.shared (pool.pcs thread)).1.activeBackend=
        pool.shared.activeBackend := buffer_next hdraining hsilent
    have hreceived : receivedBy id (next oracle pool.shared (pool.pcs thread)).1=
        receivedBy id pool.shared := by
      rcases receivedBy_next oracle pool.shared hdraining id with hsame | ⟨pcm,hpush,_⟩
      · exact hsame
      · have hdue := inv.ledger.pushing thread id pcm hpush
        rw [(inv.ledger.active id hbefore).2] at hdue
        cases hdue
    rw [dequeued_eq_nil hdraining,List.append_nil]
    refine ⟨?_,?_,?_⟩
    · rw [hbuffer,hbackend]
      exact hbalance.live
    · rw [hand_step hdraining]
      exact hbalance.target
    · rw [hand_step hdraining,hbuffer,hreceived]
      exact hbalance.samples

/-- A recording has everything received, in hand or in its buffer. -/
theorem recording_flow (inv : AudioInv (pool,history)) {id : ℕ}
    (hactive : (machine pool (thread,oracle)).shared.active=some id) :
    Balance id (machine pool (thread,oracle)).shared
      ((machine pool (thread,oracle)).pcs mainThread)
      (observeAudio history pool (thread,oracle)).heard := by
  rw [Pool.step_shared] at hactive ⊢
  dsimp only [observeAudio] at hactive ⊢
  have haccepts : acceptsStart pool.shared (pool.pcs thread)=false := by
    -- The phase is idle when a start is accepted, and nothing is installed.
    by_contra hstart
    have heffect := mark_of_acceptsStart (Bool.eq_true_of_not_eq_false hstart)
    have henabled := effect_enabled pool.shared (pool.pcs thread)
    rw [heffect] at henabled
    have hidle : pool.shared.phase=.idle := henabled.1
    rcases active_next hactive with hbefore | hinstall
    · rw [recording_of_active inv.turns hbefore] at hidle
      cases hidle
    · cases heffect.symm.trans hinstall
  rw [haccepts]
  rcases active_next hactive with hbefore | heffect
  · exact balance_kept inv hbefore hactive
  · have hstart := startAccepted_of_install heffect
    have hquiet := not_draining_of_takesTurn (takesTurn_of_startAccepted hstart)
    obtain ⟨hlive,htarget,hsamples⟩ :
      Balance id (next oracle pool.shared (pool.pcs thread)).1 (pool.pcs mainThread)
        history.heard := balance_install inv heffect
    rw [dequeued_eq_nil hquiet,List.append_nil]
    refine ⟨hlive,?_,?_⟩
    · rw [hand_step hquiet]
      exact htarget
    · rw [hand_step hquiet]
      exact hsamples

/-- A step with turns keeps the flow of the audio. -/
theorem flow_step (inv : AudioInv (pool,history)) (guarded : takesTurns pool (thread,oracle)) :
    FlowInv (machine pool (thread,oracle)) (observeAudio history pool (thread,oracle)) :=
  ⟨starting_flow inv guarded,fun _ => recording_flow inv⟩

end Flow

end Vinput.ControllerHistory
