import Vinput.ControllerHistory

/-!
# Every captured sample reaches its session once and in order

As long as starts, stops and the drain of the main loop take turns, an order
is submitted with exactly the rest of what its session is due, and the
session has received all of it when the worker finishes it.
-/

namespace Vinput.ControllerConservation

open InterleavedRuns RuntimePhases RuntimeController ControllerCore ControllerPhase
open ControllerStart ControllerDeferred ControllerTurns ControllerAudio ControllerHistory
open RecordingBuffer (AudioPcmChunk Live pending applyGain applyGain_append)

section Ledger

/-- A worker that pushes holds its session. -/
theorem holding_of_workerPush {pc : Pc} {id : ℕ} {pcm : List Int16}
    (h : workerPush pc=some (id,pcm)) : holding pc=some id := by
  unfold workerPush at h
  split at h
  · obtain ⟨other,hsession,hpair⟩ := Option.map_eq_some_iff.mp h
    cases hpair
    exact hsession
  · cases h

theorem holding_of_finishes {pc : Pc} {id : ℕ} (h : finishes pc=some id) :
    holding pc=some id := by
  unfold finishes at h
  split at h
  · exact h
  · cases h

/-- Only a worker comes to hold an order. -/
theorem worker_of_holding {oracle : Oracle} {shared : Shared} {pc : Pc} {id : ℕ}
    (h : holding (next oracle shared pc).2=some id) : routine pc=.worker := by
  have hsome : (holding (next oracle shared pc).2).isSome=true := by
    rw [h]
    rfl
  refine routine_of_next (fun pc => (holding pc).isSome) ?_ ?_ hsome
  · intro pc hholding
    cases pc <;> first | rfl | cases hholding
  · intro pc hholding
    cases pc with
    | worker point => cases point <;> first | rfl | cases hholding
    | _ => cases hholding

/-- A worker takes the order in the slot. -/
theorem workerPush_next {oracle : Oracle} {shared : Shared} {pc : Pc} {id : ℕ} {pcm : List Int16}
    (h : workerPush (next oracle shared pc).2=some (id,pcm)) :
    ∃ order, shared.currentOrder=.queued order ∧ order.session=some id ∧ order.pcm=pcm ∧
      effect shared pc=.take ∧ (next oracle shared pc).1=takeOrderLocked shared := by
  have hworker : routine pc=.worker := worker_of_holding (holding_of_workerPush h)
  cases pc with
  | worker point =>
    cases point with
    | wait =>
      dsimp only [next,nextWorker,effect] at h ⊢
      cases hslot : shared.currentOrder with
      | queued order =>
        rw [hslot] at h
        dsimp only [workerPush] at h
        obtain ⟨other,hsession,hpair⟩ := Option.map_eq_some_iff.mp h
        cases hpair
        exact ⟨order,rfl,hsession,rfl,rfl,rfl⟩
      | movedFrom =>
        rw [hslot] at h
        cases h
      | empty =>
        rw [hslot] at h
        dsimp only at h
        split at h
        · cases h
        · cases h
    | _ =>
      dsimp only [next,nextWorker] at h
      (repeat' split at h) <;> cases h
  | _ => cases hworker

/-- A session is about to be finished when the rest of its order has been
pushed. -/
theorem finishes_next {oracle : Oracle} {shared : Shared} {pc : Pc} {id : ℕ}
    (h : finishes (next oracle shared pc).2=some id) :
    ∃ pcm, workerPush pc=some (id,pcm) ∧
      receivedBy id (next oracle shared pc).1=receivedBy id shared++pcm := by
  have hworker : routine pc=.worker := worker_of_holding (holding_of_finishes h)
  cases pc with
  | worker point =>
    cases point with
    | push order =>
      dsimp only [next,nextWorker] at h ⊢
      split at h
      · cases h
      · rename_i hthrows
        rw [if_neg hthrows]
        cases hsession : order.session with
        | none =>
          rw [hsession] at h
          cases h
        | some other =>
          rw [hsession] at h
          dsimp only at h ⊢
          have hpush : workerPush (.worker (.push order))=some (other,order.pcm) := by
            dsimp only [workerPush]
            rw [hsession]
            rfl
          by_cases hempty : order.pcm=[]
          · rw [if_pos hempty] at h ⊢
            have hid : order.session=some id := h
            rw [hsession] at hid
            cases hid
            exact ⟨order.pcm,hpush,by rw [hempty]; exact (List.append_nil _).symm⟩
          · rw [if_neg hempty] at h ⊢
            dsimp only at h ⊢
            split at h
            · rename_i hpushed
              have hid : some other=some id := h
              cases hid
              refine ⟨order.pcm,hpush,?_⟩
              rw [receivedBy_pushAudio,if_pos ⟨hpushed,rfl⟩]
            · cases h
    | _ =>
      dsimp only [next,nextWorker] at h
      (repeat' split at h) <;> cases h
  | _ => cases hworker

/-- Whoever holds an order is about to push its rest or to finish its
session. -/
theorem holding_cases {pc : Pc} {id : ℕ} (h : holding pc=some id) :
    (∃ pcm, workerPush pc=some (id,pcm)) ∨ finishes pc=some id := by
  unfold holding at h
  split at h
  · rename_i order
    left
    refine ⟨order.pcm,?_⟩
    dsimp only [workerPush]
    rw [h]
    rfl
  · exact .inr h
  · cases h

/-- An order is held because it was before, or because it has just been
taken from the slot. -/
theorem holding_next {oracle : Oracle} {shared : Shared} {pc : Pc} {id : ℕ}
    (h : holding (next oracle shared pc).2=some id) :
    holding pc=some id ∨
      ∃ order, shared.currentOrder=.queued order ∧ order.session=some id ∧
        effect shared pc=.take := by
  rcases holding_cases h with ⟨pcm,hpush⟩ | hfinishes
  · obtain ⟨order,hslot,hsession,_,htake,_⟩ := workerPush_next hpush
    exact .inr ⟨order,hslot,hsession,htake⟩
  · obtain ⟨pcm,hpush,_⟩ := finishes_next hfinishes
    exact .inl (holding_of_workerPush hpush)

/-- The drain pushes only to the session in its hand. -/
theorem receivedBy_drain {oracle : Oracle} {shared : Shared} {pc : Pc} (h : draining pc=true)
    (id : ℕ) :
    receivedBy id (next oracle shared pc).1=receivedBy id shared ∨
      (hand pc).target=some id := by
  cases pc with
  | flush resume point =>
    cases point with
    | audioPush other chunk =>
      dsimp only [next,nextFlush]
      rw [receivedBy_pushAudio]
      by_cases hid : id=other
      · exact .inr (congrArg some hid.symm)
      · left
        rw [if_neg (fun hboth => hid hboth.2)]
        exact List.append_nil _
    | _ =>
      left
      dsimp only [next,nextFlush,popNext]
      (repeat' split) <;> rfl
  | _ => cases h

/-- The drain turns only to the active session. -/
theorem target_next {oracle : Oracle} {shared : Shared} {pc : Pc} {id : ℕ}
    (hdraining : draining pc=true) (h : (hand (next oracle shared pc).2).target=some id) :
    (hand pc).target=some id ∨ shared.active=some id := by
  have hpoint : ∀ (resume : Resume) (after : AfterFailure),
      (hand (.flush resume after.point)).target=none := by
    intro resume after
    cases after <;> rfl
  have hresume : ∀ resume : Resume, (hand resume.pc).target=none := by
    intro resume
    cases resume <;> rfl
  cases pc with
  | flush resume point =>
    cases point with
    | audioAppend pcm =>
      right
      dsimp only [next,nextFlush,popNext] at h
      split at h
      · cases h
      · rename_i other hactive
        split at h
        · cases h
        · split at h
          · cases h
          · rw [hactive]
            exact h
    | audioPush other chunk =>
      left
      dsimp only [next,nextFlush] at h
      split at h
      · exact h
      · exact h
    | audioNext other =>
      left
      dsimp only [next,nextFlush,popNext] at h
      split at h
      · cases h
      · split at h
        · cases h
        · exact h
    | failActive other after =>
      dsimp only [next,nextFlush] at h
      split at h
      · cases (hpoint resume after).symm.trans h
      · cases h
    | failSchedule after => cases (hpoint resume after).symm.trans h
    | _ =>
      dsimp only [next,nextFlush] at h
      (repeat' split at h) <;> first | cases h | cases (hresume resume).symm.trans h
  | _ => cases hdraining

/-- The slot holds an order after an effect because it did before, or
because it has just been stored. -/
theorem queued_apply {before : Core} {change : Effect} {order : RecognitionOrder}
    (h : (change.apply before).slot=.queued order) :
    before.slot=.queued order ∨ change=.submit order ∨ change=.inject order := by
  cases change with
  | submit other =>
    cases h
    exact .inr (.inl rfl)
  | inject other =>
    cases h
    exact .inr (.inr rfl)
  | install id => cases h
  | abandon => cases h
  | discard => cases h
  | cancel => cases h
  | reset => cases h
  | take => cases h
  | _ => exact .inl h

variable {pool : System} {history : AudioHistory} {thread : ℕ} {oracle : Oracle}

/-- An order carries exactly what its session has not yet received. -/
theorem submit_completes (inv : AudioInv (pool,history)) {order : RecognitionOrder} {id : ℕ}
    (heffect : effect pool.shared (pool.pcs thread)=.submit order)
    (hsession : order.session=some id) :
    receivedBy id pool.shared++order.pcm=
      applyGain pool.shared.audioBuffer.gain (history.early++history.captured) := by
  obtain ⟨ime,sceneId,pcm,active,hpc,hactive,hown,hpcm⟩ := cases_of_submit heffect
  have hid : active=id := Option.some.inj (hown.symm.trans hsession)
  subst hid
  have hstop : stopPcm (pool.pcs thread)=some pcm := by
    rw [hpc]
    rfl
  have hsome : pool.shared.active≠none := by
    rw [hactive]
    exact nofun
  obtain ⟨hlive,_,hsamples⟩ := inv.flow.recording active hactive
  -- The main loop has nothing in hand while a stop is between its regions.
  have hrefused := inv.turns.stopping thread (betweenRegions_of_stopPcm hstop)
  have hempty := inv.turns.refusing (recording_of_active inv.turns hactive) hrefused
  rw [hand_of_not_handling hempty] at hsamples
  have hheard := hsamples rfl
  have haccount := inv.capture.accounted (.inl hsome)
  rw [inv.capture.taken hsome thread pcm hstop,inv.capture.emptied thread pcm hstop,
    List.append_nil] at haccount
  have hraw : applyGain pool.shared.audioBuffer.gain []=[] := rfl
  dsimp only at hheard
  rw [hraw,List.append_nil,List.append_nil] at hheard
  rw [hpcm hlive,(RecordingBuffer.live_append hlive pcm).2.1,←haccount,applyGain_append,←hheard,
    List.append_assoc]

/-- What a submitted session is due stays so. -/
theorem due_kept (inv : AudioInv (pool,history)) {id : ℕ} {due : List Int16}
    (h : history.due id=some due) :
    (observeAudio history pool (thread,oracle)).due id=some due := by
  dsimp only [observeAudio]
  cases heffect : effect pool.shared (pool.pcs thread) with
  | submit order =>
    obtain ⟨_,_,_,active,_,hactive,hsession,_⟩ := cases_of_submit heffect
    have hne : id≠active := by
      intro heq
      rw [heq,(inv.ledger.active active hactive).2] at h
      cases h
    dsimp only [dueAfter]
    rw [hsession]
    dsimp only
    rw [Function.update_of_ne hne]
    exact h
  | _ => exact h

/-- Nothing is due to a session that is not submitted. -/
theorem due_none {id : ℕ} (h : history.due id=none)
    (hkeeps : ∀ order, effect pool.shared (pool.pcs thread)=.submit order →
      order.session≠some id) :
    (observeAudio history pool (thread,oracle)).due id=none := by
  dsimp only [observeAudio]
  cases heffect : effect pool.shared (pool.pcs thread) with
  | submit order =>
    dsimp only [dueAfter]
    cases hsession : order.session with
    | none => exact h
    | some other =>
      have hne : id≠other := by
        intro heq
        exact hkeeps order heffect (heq ▸ hsession)
      dsimp only
      rw [Function.update_of_ne hne]
      exact h
  | _ => exact h

/-- Sessions are installed by the effect of that name. -/
theorem installed_after {id : ℕ} :
    (observeAudio history pool (thread,oracle)).installed id=true ↔
      history.installed id=true ∨ effect pool.shared (pool.pcs thread)=.install id := by
  dsimp only [observeAudio]
  cases heffect : effect pool.shared (pool.pcs thread) with
  | install other =>
    dsimp only [installedAfter]
    by_cases hid : id=other
    · rw [hid,Function.update_self]
      simp
    · rw [Function.update_of_ne hid]
      have hne : Effect.install other≠.install id := by
        intro heq
        cases heq
        exact hid rfl
      simp [hne]
  | _ => simp [installedAfter]

/-- A session that is due something receives only from the worker. -/
theorem received_step (inv : AudioInv (pool,history)) {id : ℕ} {due : List Int16}
    (h : history.due id=some due) :
    receivedBy id (machine pool (thread,oracle)).shared=receivedBy id pool.shared ∨
      ∃ pcm, workerPush (pool.pcs thread)=some (id,pcm) ∧
        receivedBy id (machine pool (thread,oracle)).shared=receivedBy id pool.shared++pcm := by
  rw [Pool.step_shared]
  cases hdraining : draining (pool.pcs thread) with
  | false => exact receivedBy_next oracle pool.shared hdraining id
  | true =>
    have hmain := mainThread_of_draining inv.turns hdraining
    rcases receivedBy_drain hdraining id with hsame | htarget
    · exact .inl hsame
    · rw [hmain] at htarget
      have hdue := (inv.ledger.target id htarget).2
      rw [h] at hdue
      cases hdue

/-- A session held by another thread receives nothing. -/
theorem received_other (inv : AudioInv (pool,history)) {t id : ℕ} {due : List Int16}
    (h : history.due id=some due) (hne : t≠thread) (hholds : holding (pool.pcs t)=some id) :
    receivedBy id (machine pool (thread,oracle)).shared=receivedBy id pool.shared := by
  rcases received_step inv h with hsame | ⟨pcm,hpush,_⟩
  · exact hsame
  · exact absurd (holding_of_workerPush hpush) (inv.ledger.distinct t thread id hne hholds)

/-- A session about to be installed is a new one. -/
theorem fresh_step (inv : AudioInv (pool,history)) :
    ∀ t id, installing ((machine pool (thread,oracle)).pcs t)=some id →
      id<(machine pool (thread,oracle)).shared.sessions ∧
        (observeAudio history pool (thread,oracle)).installed id=false := by
  intro t id hinstalling
  rw [Pool.step_shared]
  dsimp only
  by_cases hself : t=thread
  · subst hself
    rw [Pool.step_pcs_self] at hinstalling
    obtain ⟨hid,hsessions⟩ := installing_next hinstalling
    refine ⟨by omega,Bool.eq_false_of_not_eq_true fun hinstalled => ?_⟩
    rcases installed_after.mp hinstalled with hbefore | heffect
    · have hknown := inv.ledger.known id hbefore
      dsimp only at hknown
      omega
    · obtain ⟨call,backend,_,hnext⟩ := returns_of_install oracle heffect
      rw [hnext] at hinstalling
      cases hinstalling
  · rw [Pool.step_pcs_of_ne hself] at hinstalling
    obtain ⟨hlt,hfresh⟩ := inv.ledger.fresh t id hinstalling
    refine ⟨lt_of_lt_of_le hlt (sessions_next oracle pool.shared (pool.pcs thread)),
      Bool.eq_false_of_not_eq_true fun hinstalled => ?_⟩
    rcases installed_after.mp hinstalled with hbefore | heffect
    · exact Bool.false_ne_true (hfresh.symm.trans hbefore)
    · have hstart : startAccepted (pool.pcs t)=true := by
        unfold installing at hinstalling
        split at hinstalling
        · rename_i hpc
          rw [hpc]
          rfl
        · cases hinstalling
      exact not_both_turns inv.turns hself (takesTurn_of_startAccepted hstart)
        (takesTurn_of_startAccepted (startAccepted_of_install heffect))

/-- Installed sessions have been created. -/
theorem known_step (inv : AudioInv (pool,history)) :
    ∀ id, (observeAudio history pool (thread,oracle)).installed id=true →
      id<(machine pool (thread,oracle)).shared.sessions := by
  intro id hinstalled
  refine lt_of_lt_of_le ?_ (sessions_next oracle pool.shared (pool.pcs thread))
  rcases installed_after.mp hinstalled with hbefore | heffect
  · exact inv.ledger.known id hbefore
  · exact (fresh_of_install inv heffect).1

/-- A session that was never installed has received nothing. -/
theorem unheard_step (inv : AudioInv (pool,history)) :
    ∀ id, (observeAudio history pool (thread,oracle)).installed id=false →
      receivedBy id (machine pool (thread,oracle)).shared=[] ∧
        (observeAudio history pool (thread,oracle)).due id=none := by
  intro id hnever
  have hbefore : history.installed id=false := by
    refine Bool.eq_false_of_not_eq_true fun hinstalled => ?_
    exact Bool.false_ne_true (hnever.symm.trans (installed_after.mpr (.inl hinstalled)))
  obtain ⟨hnothing,hdue⟩ := inv.ledger.unheard id hbefore
  constructor
  · rw [Pool.step_shared]
    cases hdraining : draining (pool.pcs thread) with
    | false =>
      rcases receivedBy_next oracle pool.shared hdraining id with hsame | ⟨pcm,hpush,_⟩
      · exact hsame.trans hnothing
      · have howed := inv.ledger.pushing thread id pcm hpush
        rw [hdue] at howed
        cases howed
    | true =>
      rcases receivedBy_drain hdraining id with hsame | htarget
      · exact hsame.trans hnothing
      · rw [mainThread_of_draining inv.turns hdraining] at htarget
        have hinstalled := (inv.ledger.target id htarget).1
        exact absurd (hbefore.symm.trans hinstalled) Bool.false_ne_true
  · refine due_none hdue fun order heffect hsession => ?_
    obtain ⟨_,_,_,active,_,hactive,hown,_⟩ := cases_of_submit heffect
    have hid : active=id := Option.some.inj (hown.symm.trans hsession)
    rw [hid] at hactive
    have hinstalled := (inv.ledger.active id hactive).1
    exact Bool.false_ne_true (hbefore.symm.trans hinstalled)

/-- The active session is installed and not submitted. -/
theorem active_step (inv : AudioInv (pool,history)) :
    ∀ id, (machine pool (thread,oracle)).shared.active=some id →
      (observeAudio history pool (thread,oracle)).installed id=true ∧
        (observeAudio history pool (thread,oracle)).due id=none := by
  intro id hactive
  rw [Pool.step_shared] at hactive
  dsimp only at hactive
  have hcore := congrArg Core.active (core_next oracle pool.shared (pool.pcs thread))
  have hkeeps : ∀ order, effect pool.shared (pool.pcs thread)=.submit order →
      order.session≠some id := by
    -- A submission leaves no session active.
    intro order heffect
    rw [heffect] at hcore
    cases hcore.symm.trans hactive
  rcases active_next hactive with hbefore | heffect
  · obtain ⟨hinstalled,hdue⟩ := inv.ledger.active id hbefore
    exact ⟨installed_after.mpr (.inl hinstalled),due_none hdue hkeeps⟩
  · have hfresh := (fresh_of_install inv heffect).2
    exact ⟨installed_after.mpr (.inr heffect),
      due_none (inv.ledger.unheard id hfresh).2 hkeeps⟩

/-- The main loop pushes to a session that is not submitted. -/
theorem target_step (inv : AudioInv (pool,history)) :
    ∀ id, (hand ((machine pool (thread,oracle)).pcs mainThread)).target=some id →
      (observeAudio history pool (thread,oracle)).installed id=true ∧
        (observeAudio history pool (thread,oracle)).due id=none := by
  intro id htarget
  cases hdraining : draining (pool.pcs thread) with
  | true =>
    have hmain := mainThread_of_draining inv.turns hdraining
    rw [←hmain,Pool.step_pcs_self] at htarget
    have hbefore : history.installed id=true ∧ history.due id=none := by
      rcases target_next hdraining htarget with hsame | hactive
      · rw [hmain] at hsame
        exact inv.ledger.target id hsame
      · exact inv.ledger.active id hactive
    refine ⟨installed_after.mpr (.inl hbefore.1),due_none hbefore.2 fun order heffect => ?_⟩
    rcases effect_of_draining hdraining with hkeep | hfail
    · cases hkeep.symm.trans heffect
    · cases hfail.symm.trans heffect
  | false =>
    rw [hand_step hdraining] at htarget
    obtain ⟨hinstalled,hdue⟩ := inv.ledger.target id htarget
    refine ⟨installed_after.mpr (.inl hinstalled),due_none hdue fun order heffect => ?_⟩
    obtain ⟨_,_,pcm,_,hpc,hactive,_⟩ := cases_of_submit heffect
    have hbetween : betweenRegions (pool.pcs thread)=true := by
      rw [hpc]
      rfl
    have hempty := inv.turns.refusing (recording_of_active inv.turns hactive)
      (inv.turns.stopping thread hbetween)
    rw [hand_of_not_handling hempty] at htarget
    cases htarget

/-- Whoever holds an order has a session that is due something. -/
theorem due_of_holding (inv : AudioInv (pool,history)) {t id : ℕ}
    (h : holding (pool.pcs t)=some id) : ∃ due, history.due id=some due := by
  rcases holding_cases h with ⟨pcm,hpush⟩ | hfinishes
  · exact ⟨_,inv.ledger.pushing t id pcm hpush⟩
  · exact ⟨_,inv.ledger.finishing t id hfinishes⟩

/-- A step that takes no order gives none to anybody. -/
theorem holding_step {t id : ℕ} (hkeeps : effect pool.shared (pool.pcs thread)≠.take)
    (h : holding ((machine pool (thread,oracle)).pcs t)=some id) :
    holding (pool.pcs t)=some id := by
  by_cases hself : t=thread
  · subst hself
    rw [Pool.step_pcs_self] at h
    rcases holding_next h with hbefore | ⟨_,_,_,htake⟩
    · exact hbefore
    · exact absurd htake hkeeps
  · rw [Pool.step_pcs_of_ne hself] at h
    exact h

/-- A queued order carries the rest, and nobody else has its session. -/
theorem queued_step (inv : AudioInv (pool,history)) :
    ∀ order id, (machine pool (thread,oracle)).shared.currentOrder=.queued order →
      order.session=some id →
      (observeAudio history pool (thread,oracle)).due id=
          some (receivedBy id (machine pool (thread,oracle)).shared++order.pcm) ∧
        ∀ t, holding ((machine pool (thread,oracle)).pcs t)≠some id := by
  intro order id hslot hsession
  have hcore := congrArg Core.slot (core_next oracle pool.shared (pool.pcs thread))
  rw [Pool.step_shared] at hslot
  have hafter := hcore.symm.trans hslot
  have hkeeps : effect pool.shared (pool.pcs thread)≠.take := by
    intro htake
    rw [htake] at hafter
    cases hafter
  rcases queued_apply hafter with hbefore | heffect | heffect
  · obtain ⟨hdue,hnobody⟩ := inv.ledger.queued order id hbefore hsession
    refine ⟨?_,fun t hholds => hnobody t (holding_step hkeeps hholds)⟩
    rw [due_kept inv hdue]
    rcases received_step inv hdue with hsame | ⟨pcm,hpush,_⟩
    · rw [hsame]
    · exact absurd (holding_of_workerPush hpush) (hnobody thread)
  · obtain ⟨ime,sceneId,pcm,active,hpc,hactive,hown,_⟩ := cases_of_submit heffect
    have hid : active=id := Option.some.inj (hown.symm.trans hsession)
    rw [hid] at hactive
    constructor
    · have hreceived : receivedBy id (machine pool (thread,oracle)).shared=
          receivedBy id pool.shared := by
        have hquiet : draining (pool.pcs thread)=false := by
          rw [hpc]
          rfl
        rcases receivedBy_next oracle pool.shared hquiet id with hsame | ⟨rest,hpush,_⟩
        · exact hsame
        · rw [hpc] at hpush
          cases hpush
      rw [hreceived,submit_completes inv heffect hsession]
      dsimp only [observeAudio]
      rw [heffect]
      dsimp only [dueAfter]
      rw [hsession]
      exact Function.update_self _ _ _
    · intro t hholds
      obtain ⟨due,hdue⟩ := due_of_holding inv (holding_step hkeeps hholds)
      rw [(inv.ledger.active id hactive).2] at hdue
      cases hdue
  · rw [session_of_inject heffect] at hsession
    cases hsession

/-- An order in the hands of the worker carries the rest. -/
theorem pushing_step (inv : AudioInv (pool,history)) :
    ∀ t id pcm, workerPush ((machine pool (thread,oracle)).pcs t)=some (id,pcm) →
      (observeAudio history pool (thread,oracle)).due id=
        some (receivedBy id (machine pool (thread,oracle)).shared++pcm) := by
  intro t id pcm hpush
  by_cases hself : t=thread
  · subst hself
    rw [Pool.step_pcs_self] at hpush
    obtain ⟨order,hslot,hsession,hrest,_,hnext⟩ := workerPush_next hpush
    have hdue := (inv.ledger.queued order id hslot hsession).1
    rw [due_kept inv hdue,hrest,Pool.step_shared]
    dsimp only
    rw [hnext]
    rfl
  · rw [Pool.step_pcs_of_ne hself] at hpush
    have hdue := inv.ledger.pushing t id pcm hpush
    rw [due_kept inv hdue,received_other inv hdue hself (holding_of_workerPush hpush)]

/-- A session about to be finished has received everything. -/
theorem finishing_step (inv : AudioInv (pool,history)) :
    ∀ t id, finishes ((machine pool (thread,oracle)).pcs t)=some id →
      (observeAudio history pool (thread,oracle)).due id=
        some (receivedBy id (machine pool (thread,oracle)).shared) := by
  intro t id hfinishes
  by_cases hself : t=thread
  · subst hself
    rw [Pool.step_pcs_self] at hfinishes
    obtain ⟨pcm,hpush,hreceived⟩ := finishes_next hfinishes
    rw [due_kept inv (inv.ledger.pushing t id pcm hpush),Pool.step_shared]
    exact congrArg some hreceived.symm
  · rw [Pool.step_pcs_of_ne hself] at hfinishes
    have hdue := inv.ledger.finishing t id hfinishes
    rw [due_kept inv hdue,received_other inv hdue hself (holding_of_finishes hfinishes)]

/-- No two threads hold orders of one session. -/
theorem distinct_step (inv : AudioInv (pool,history)) :
    ∀ t u id, t≠u → holding ((machine pool (thread,oracle)).pcs t)=some id →
      holding ((machine pool (thread,oracle)).pcs u)≠some id := by
  -- The thread that steps may take an order, and nobody else holds it.
  have hfirst : ∀ u id, u≠thread → holding ((machine pool (thread,oracle)).pcs thread)=some id →
      holding (pool.pcs u)≠some id := by
    intro u id hne hholds
    rw [Pool.step_pcs_self] at hholds
    rcases holding_next hholds with hbefore | ⟨order,hslot,hsession,_⟩
    · exact inv.ledger.distinct thread u id (Ne.symm hne) hbefore
    · exact (inv.ledger.queued order id hslot hsession).2 u
  intro t u id hne ht hu
  by_cases hself : t=thread
  · rw [hself] at ht hne
    rw [Pool.step_pcs_of_ne (Ne.symm hne)] at hu
    exact hfirst u id (Ne.symm hne) ht hu
  · rw [Pool.step_pcs_of_ne hself] at ht
    by_cases hother : u=thread
    · rw [hother] at hu
      exact hfirst t id hself hu ht
    · rw [Pool.step_pcs_of_ne hother] at hu
      exact inv.ledger.distinct t u id hne ht hu

/-- Every step keeps the ledger of the audio. -/
theorem ledger_step (inv : AudioInv (pool,history)) :
    LedgerInv (machine pool (thread,oracle)) (observeAudio history pool (thread,oracle)) where
  fresh := fresh_step inv
  known := known_step inv
  unheard := unheard_step inv
  active := active_step inv
  target := target_step inv
  queued := queued_step inv
  pushing := pushing_step inv
  finishing := finishing_step inv
  distinct := distinct_step inv

end Ledger

/-- The calls of a run in which starts, stops and the drain take turns and
nothing is discarded from the queue during a start or a recording. -/
def keepsAudio (pool : System) (label : ℕ×Oracle) : Prop :=
  takesTurns pool label ∧ keepsQueue pool label

/-- Every step that keeps the audio keeps its accounts. -/
theorem machine_audio (pair : System×AudioHistory) (label : ℕ×Oracle) (inv : AudioInv pair)
    (guarded : keepsAudio pair.1 label) : AudioInv (observed machine observeAudio pair label) :=
  ⟨machine_turns pair.1 label inv.turns guarded.1,capture_step inv guarded.1 guarded.2,
    flow_step inv guarded.1,ledger_step inv⟩

/-- Nobody captures, installs or holds anything at the start. -/
theorem startup_quiet (t : ℕ) : stopPcm (startup.pcs t)=none ∧
    afterCapture (startup.pcs t)=false ∧ installing (startup.pcs t)=none ∧
      holding (startup.pcs t)=none := by
  by_cases ht : t=0
  · rw [ht]
    exact ⟨rfl,rfl,rfl,rfl⟩
  · rw [startup_pcs ht]
    exact ⟨rfl,rfl,rfl,rfl⟩

/-- At the start nobody holds a session. -/
theorem startup_holding (t id : ℕ) : holding (startup.pcs t)≠some id := by
  intro h
  cases (startup_quiet t).2.2.2.symm.trans h

/-- There are no sessions and no orders at the start. -/
theorem startup_ledger : LedgerInv startup {} where
  fresh := by
    intro t id h
    cases (startup_quiet t).2.2.1.symm.trans h
  known := by
    intro id h
    cases h
  unheard := fun _ _ => ⟨rfl,rfl⟩
  active := by
    intro id h
    cases h
  target := by
    intro id h
    cases h
  queued := by
    intro order id h
    cases h
  pushing := by
    intro t id pcm h
    exact absurd (holding_of_workerPush h) (startup_holding t id)
  finishing := by
    intro t id h
    exact absurd (holding_of_finishes h) (startup_holding t id)
  distinct := by
    intro t u id _ h
    exact absurd h (startup_holding t id)

/-- Nothing is captured and nobody has an order at the start. -/
theorem startup_audio : AudioInv (startup,{}) := by
  refine ⟨startup_turns,⟨?_,?_,?_,fun _ _ => rfl,fun _ => rfl⟩,⟨?_,?_⟩,startup_ledger⟩
  · intro t h
    exact absurd ((startup_quiet t).2.1.symm.trans h) Bool.false_ne_true
  · intro t pcm h
    cases (startup_quiet t).1.symm.trans h
  · intro hactive
    exact absurd rfl hactive
  · intro h
    cases h
  · intro id h
    cases h

/-- The main loop pushes to the session in its hand. -/
theorem target_of_pushes {pc : Pc} {id : ℕ} (h : pushes pc=some id) :
    draining pc=true ∧ (hand pc).target=some id := by
  unfold pushes at h
  split at h
  · exact ⟨rfl,h⟩
  · cases h

/-- In every run in which starts, stops and the drain take turns and nothing
is discarded on the way, every captured sample reaches the session of its
recording once and in order. -/
theorem audio_conserved_of_turns_run (schedule : List (ℕ×Oracle))
    (guarded : Along machine keepsAudio startup schedule) :
    Along (observed machine observeAudio) Conserved (startup,{}) schedule := by
  have watched : Along (observed machine observeAudio)
      (fun pair label => keepsAudio pair.1 label) (startup,{}) schedule :=
    (along_observed keepsAudio).mpr guarded
  refine watched.everyStep machine_audio ?_ startup_audio
  intro pair label inv _
  refine ⟨fun order id heffect hsession => submit_completes inv heffect hsession,?_,
    inv.ledger.finishing label.1⟩
  intro id hpushes
  obtain ⟨hdraining,htarget⟩ := target_of_pushes hpushes
  rw [mainThread_of_draining inv.turns hdraining] at htarget
  exact (inv.ledger.target id htarget).2

/-- What has been received and what the order carries begin with the first
captured sample. -/
def beginsRight (pair : System×AudioHistory) (label : ℕ×Oracle) : Bool :=
  match effect pair.1.shared (pair.1.pcs label.1) with
  | .submit order =>
    match order.session with
    | some id => (receivedBy id pair.1.shared++order.pcm).head?=
        (applyGain pair.1.shared.audioBuffer.gain (pair.2.early++pair.2.captured)).head?
    | none => true
  | _ => true

/-- A recording begins with what was conserved. -/
theorem beginsRight_of_conserved {pair : System×AudioHistory} {label : ℕ×Oracle}
    (h : Conserved pair label) : beginsRight pair label=true := by
  unfold beginsRight
  split
  · rename_i order heffect
    split
    · rename_i id hsession
      rw [h.submitted order id heffect hsession]
      exact decide_eq_true rfl
    · rfl
  · rfl

/-- A captured chunk of silence. -/
def silence : AudioPcmChunk := ⟨List.replicate 2000 0,by rw [List.length_replicate]; decide⟩

/-- A captured click. -/
def click : AudioPcmChunk := ⟨[1],by decide⟩

/-- The capture device queues some chunks. -/
def captures (chunks : List AudioPcmChunk) : ℕ×Oracle := arrives 3 (.processCallback chunks)

/-- The main loop holds a click it has just dequeued when a client stops the
recording. -/
def stopDuringDrain : List (ℕ×Oracle) :=
  arrives 1 startCall::goesOn 1 8++captures [click]::arrives 1 .flushDeferredActions::goesOn 1 3++
    captures (List.replicate 4 silence)::arrives 2 (.stopRecording true "")::goesOn 2 4

/-- A captured chunk can be lost: the stop clears the accepting flag while
the main loop holds the click, and submits the order without it. -/
theorem audio_chunk_lost :
    ¬∀ schedule : List (ℕ×Oracle),
      (∀ label∈schedule, isShutdown label.2.call=false) →
      Along machine (fun pool label => entersDrain pool.shared (pool.pcs label.1)=true →
        label.1=mainThread) startup schedule →
      Along (observed machine observeAudio) Conserved (startup,{}) schedule := by
  intro h
  have hbegins := (h stopDuringDrain (by decide) (by decide +kernel)).mono
    fun _ _ => beginsRight_of_conserved
  exact absurd hbegins (by decide +kernel)

/-- A chunk is pushed by the main loop, four more are left to the stop, and
the worker pushes these and finishes the session. -/
def stopAfterDrain : List (ℕ×Oracle) :=
  arrives 1 startCall::goesOn 1 8++captures [silence]::
    arrives 1 .flushDeferredActions::goesOn 1 13++captures (List.replicate 4 silence)::
    arrives 2 (.stopRecording true "")::goesOn 2 5++goesOn 0 4

/-- All of its samples reach the session of an undisturbed recording. -/
theorem audio_conserved_after_drain :
    Along (observed machine observeAudio) Conserved (startup,{}) stopAfterDrain := by
  have hserving : Along machine (fun _ label => isShutdown label.2.call=false) startup
      stopAfterDrain := by decide
  have hkept : Along machine (fun pool label =>
      ((entersDrain pool.shared (pool.pcs label.1)=true → label.1=mainThread) ∧
        (dequeues pool.shared (pool.pcs label.1)=true → pool.shared.phase=.recording →
          pool.shared.acceptingChunks=true)) ∧
        keepsQueue pool label) startup stopAfterDrain := by decide +kernel
  obtain ⟨hmain,hqueue⟩ := along_and.mp hkept
  refine audio_conserved_of_turns_run stopAfterDrain (along_and.mpr ⟨along_and.mpr ⟨along_and.mpr
    ⟨along_and.mpr ⟨hserving,?_⟩,?_⟩,hmain⟩,hqueue⟩)
  · exact Pool.along_alone 4 (.ready none) rfl (by decide) (fun t ht => startup_pcs (by omega))
      (by decide +kernel)
  · exact Pool.along_alone 4 (.ready none) rfl (by decide) (fun t ht => startup_pcs (by omega))
      (by decide +kernel)

end Vinput.ControllerConservation
