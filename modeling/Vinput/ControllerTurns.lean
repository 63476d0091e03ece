import Vinput.ControllerPhase
import Vinput.ControllerDeferred

/-!
# Who may touch the audio

Starts, stops and the drain of the main loop work on one buffer and one
capture queue. They take turns when a start or a stop is accepted only while
no other start or stop is between its regions and while the main loop has no
chunk in hand, and when the main loop takes none that a recording refuses.
Then what it takes is passed on, and a stop has the queue for itself.
-/

namespace Vinput.ControllerTurns

open InterleavedRuns RuntimePhases RuntimeController ControllerCore ControllerPhase
open ControllerStart ControllerDeferred

/-- The thread of the main loop. -/
def mainThread : ℕ := 1

/-- A failed session was noticed while draining. -/
def AfterFailure.isDraining : AfterFailure → Bool
  | .draining => true
  | .polling => false

/-- Points of a flush inside `DrainIncomingAudio`, after its first look at
the accepting flag. -/
def drainPoint : FlushPoint → Bool
  | .drainLoop => true
  | .audioCheck _ => true
  | .audioStartup _ => true
  | .audioAppend _ => true
  | .audioPush _ _ => true
  | .audioNext _ => true
  | .audioRetire _ => true
  | .failActive _ after => AfterFailure.isDraining after
  | .failRetire _ after => AfterFailure.isDraining after
  | .failEnd after => AfterFailure.isDraining after
  | .failSchedule after => AfterFailure.isDraining after
  | _ => false

/-- A thread inside `DrainIncomingAudio`. -/
def draining : Pc → Bool
  | .flush _ point => drainPoint point
  | _ => false

/-- Points of a flush at which a dequeued chunk, or what was made of it, is in hand. -/
def handPoint : FlushPoint → Bool
  | .audioCheck _ => true
  | .audioStartup _ => true
  | .audioAppend _ => true
  | .audioPush _ _ => true
  | .audioNext _ => true
  | .failActive _ after => AfterFailure.isDraining after
  | _ => false

/-- A thread with a dequeued chunk in hand. -/
def handling : Pc → Bool
  | .flush _ point => handPoint point
  | _ => false

/-- A thread dequeues a chunk in this step. -/
def dequeues (shared : Shared) : Pc → Bool
  | .flush _ .drainLoop => !shared.capture.queue.isEmpty
  | _ => false

/-- A thread enters the loop of `DrainIncomingAudio` in this step. -/
def entersDrain (shared : Shared) : Pc → Bool
  | .flush _ .drainEnter => shared.acceptingChunks
  | _ => false

/-- A thread between the regions of a start or of a stop. -/
def takesTurn (pc : Pc) : Bool := startAccepted pc || betweenRegions pc

/-- A start or a stop is accepted in this step. -/
def accepts (shared : Shared) (pc : Pc) : Bool := acceptsStart shared pc || acceptsStop shared pc

/-- The calls of a run without `Shutdown` in which the main loop alone drains,
a start or a stop is accepted only while no other one is between its regions
and the main loop has no chunk in hand, no chunk is dequeued that a recording
refuses, and a session is installed only while no thread owes a reset. -/
def takesTurns (pool : System) (label : ℕ×Oracle) : Prop :=
  (installsClear pool label ∧
    Pool.Alone (fun _ shared pc => accepts shared pc)
      (fun pc => takesTurn pc || handling pc) pool label) ∧
  (entersDrain pool.shared (pool.pcs label.1)=true → label.1=mainThread) ∧
  (dequeues pool.shared (pool.pcs label.1)=true → pool.shared.phase=.recording →
    pool.shared.acceptingChunks=true)

/-- A thread is inside the drain because it was before, or because it has
just entered it. -/
theorem draining_next {oracle : Oracle} {shared : Shared} {pc : Pc}
    (h : draining (next oracle shared pc).2=true) :
    draining pc=true ∨ entersDrain shared pc=true := by
  have hafter : ∀ (resume : Resume) (after : AfterFailure),
      draining (.flush resume after.point)=AfterFailure.isDraining after := by
    intro resume after
    cases after <;> rfl
  have hresume : ∀ resume : Resume, draining resume.pc=false := by
    intro resume
    cases resume <;> rfl
  have hflush : routine pc=.flush := by
    refine routine_of_next draining ?_ ?_ h
    · intro pc hdraining
      cases pc <;> first | rfl | cases hdraining
    · intro pc hdraining
      cases pc with
      | flush resume point => cases point <;> first | rfl | cases hdraining
      | _ => cases hdraining
  cases pc with
  | flush resume point =>
    cases point with
    | drainEnter =>
      dsimp only [next,nextFlush] at h
      split at h
      · rename_i haccepting
        exact .inr haccepting
      · cases h
    | failActive id after =>
      left
      dsimp only [next,nextFlush] at h
      split at h
      · exact (hafter resume after).symm.trans h
      · exact h
    | failRetire id after => exact .inl h
    | failEnd after => exact .inl h
    | failSchedule after => exact .inl ((hafter resume after).symm.trans h)
    | drainLoop => exact .inl rfl
    | audioCheck pcm => exact .inl rfl
    | audioStartup pcm => exact .inl rfl
    | audioAppend pcm => exact .inl rfl
    | audioPush id chunk => exact .inl rfl
    | audioNext id => exact .inl rfl
    | audioRetire id => exact .inl rfl
    | _ =>
      dsimp only [next,nextFlush] at h
      (repeat' split at h) <;> first | cases h | cases (hresume resume).symm.trans h
  | _ => cases hflush

/-- A thread has a chunk in hand because it had one before, or because it has
just dequeued it. -/
theorem handling_next {oracle : Oracle} {shared : Shared} {pc : Pc}
    (h : handling (next oracle shared pc).2=true) :
    handling pc=true ∨ dequeues shared pc=true := by
  have hafter : ∀ (resume : Resume) (after : AfterFailure),
      handling (.flush resume after.point)=false := by
    intro resume after
    cases after <;> rfl
  have hresume : ∀ resume : Resume, handling resume.pc=false := by
    intro resume
    cases resume <;> rfl
  have hflush : routine pc=.flush := by
    refine routine_of_next handling ?_ ?_ h
    · intro pc hhandling
      cases pc <;> first | rfl | cases hhandling
    · intro pc hhandling
      cases pc with
      | flush resume point => cases point <;> first | rfl | cases hhandling
      | _ => cases hhandling
  cases pc with
  | flush resume point =>
    cases point with
    | drainLoop =>
      right
      dsimp only [next,nextFlush,dequeues] at h ⊢
      cases hqueue : shared.capture.queue with
      | nil =>
        rw [hqueue] at h
        cases h
      | cons chunk rest => rfl
    | failActive id after =>
      dsimp only [next,nextFlush] at h
      split at h
      · cases (hafter resume after).symm.trans h
      · cases h
    | failSchedule after => cases (hafter resume after).symm.trans h
    | audioCheck pcm => exact .inl rfl
    | audioStartup pcm => exact .inl rfl
    | audioAppend pcm => exact .inl rfl
    | audioPush id chunk => exact .inl rfl
    | audioNext id => exact .inl rfl
    | pollEnter =>
      dsimp only [next,nextFlush] at h
      (repeat' split at h) <;> cases h
    | _ =>
      dsimp only [next,nextFlush] at h
      (repeat' split at h) <;> first | cases h | cases (hresume resume).symm.trans h
  | _ => cases hflush

/-- A thread is inside an accepted start because it was before, or because
its start has just been accepted. -/
theorem startAccepted_of_next {oracle : Oracle} {shared : Shared} {pc : Pc}
    (h : startAccepted (next oracle shared pc).2=true) :
    startAccepted pc=true ∨ effect shared pc=.mark := by
  have hstart : routine pc=.start := by
    refine routine_of_next startAccepted ?_ ?_ h
    · intro pc haccepted
      cases pc <;> first | rfl | cases haccepted
    · intro pc haccepted
      cases pc with
      | start call point => cases point <;> first | rfl | cases haccepted
      | _ => cases haccepted
  cases pc with
  | start call point =>
    cases point with
    | enter =>
      dsimp only [next,nextStart] at h
      split at h
      · cases h
      · cases h
    | accept =>
      dsimp only [next,nextStart,effect] at h ⊢
      split at h
      · cases h
      · rename_i hfree
        rw [if_neg hfree]
        exact .inr rfl
    | _ => exact .inl rfl
  | _ => cases hstart

/-- Chunks are accepted from an accepted start or an installation on, and
refused from the end of a start, an accepted stop, a cancel or a failure on. -/
theorem accepting_next (oracle : Oracle) (shared : Shared) (pc : Pc) :
    (next oracle shared pc).1.acceptingChunks=shared.acceptingChunks ∨
      ((next oracle shared pc).1.acceptingChunks=true ∧
        (effect shared pc=.mark ∨ ∃ id, effect shared pc=.install id)) ∨
      ((next oracle shared pc).1.acceptingChunks=false ∧
        (startClosing pc=true ∨ cancelsStart shared pc=true ∨ acceptsStop shared pc=true ∨
          effect shared pc=.cancel ∨ effect shared pc=.fail ∨ shuttingDown pc=true)) := by
  cases pc with
  | ready last =>
    left
    dsimp only [next]
    cases oracle.call <;> dsimp only [begin] <;> (repeat' split) <;> rfl
  | start call point =>
    cases point with
    | accept =>
      dsimp only [next,nextStart,effect]
      split
      · exact .inl rfl
      · exact .inr (.inl ⟨rfl,.inl rfl⟩)
    | failed error => exact .inr (.inr ⟨rfl,.inl rfl⟩)
    | noSessionLocked error => exact .inr (.inr ⟨rfl,.inl rfl⟩)
    | install id backend =>
      dsimp only [next,nextStart,effect]
      split
      · exact .inr (.inr ⟨rfl,.inl rfl⟩)
      · exact .inr (.inl ⟨rfl,.inr ⟨id,rfl⟩⟩)
    | _ =>
      left
      dsimp only [next,nextStart] <;> (repeat' split) <;> rfl
  | stop ime sceneId point =>
    cases point with
    | enter =>
      dsimp only [next,nextStop]
      split
      · exact .inl rfl
      · rename_i hrec
        exact .inr (.inr ⟨rfl,.inr (.inr (.inl (decide_eq_true (not_not.mp hrec))))⟩)
    | _ =>
      left
      dsimp only [next,nextStop,submitLocked]
      (repeat' split) <;> rfl
  | cancel ime commitRawText point =>
    cases point with
    | enter =>
      dsimp only [next,nextCancel,effect]
      by_cases hrec : shared.phase=.recording
      · rw [cancelLocked_recording hrec,if_pos hrec]
        exact .inr (.inr ⟨rfl,.inr (.inr (.inr (.inl rfl)))⟩)
      · obtain ⟨sessionIme,machine,requested,_,hafter⟩ :=
          cancelLocked_other hrec ime commitRawText
        rw [hafter]
        unfold cancelStartLocked
        cases hmark : shared.startRecordingInProgress with
        | true => exact .inr (.inr ⟨rfl,.inr (.inl hmark)⟩)
        | false => exact .inl rfl
    | _ => exact .inl rfl
  | flush resume point =>
    cases point with
    | failActive id after =>
      dsimp only [next,nextFlush,effect]
      split
      · exact .inl rfl
      · exact .inr (.inr ⟨rfl,.inr (.inr (.inr (.inr (.inl rfl))))⟩)
    | _ =>
      left
      dsimp only [next,nextFlush,popNext,pushAudio] <;> (repeat' split) <;> rfl
  | worker point =>
    left
    cases point <;> dsimp only [next,nextWorker,pushAudio] <;> (repeat' split) <;> rfl
  | shutdown point =>
    cases point with
    | enter => exact .inr (.inr ⟨rfl,.inr (.inr (.inr (.inr (.inr rfl))))⟩)
    | _ =>
      left
      dsimp only [next,nextShutdown] <;> (repeat' split) <;> rfl
  | _ =>
    left
    dsimp only [next,injectLocked] <;> (repeat' split) <;> rfl

/-- Invariant of the turns. -/
structure TurnInv (pool : System) : Prop where
  /-- Phase and session agree. -/
  agree : AgreeInv pool
  /-- The mark belongs to a start. -/
  marked : pool.shared.startRecordingInProgress=true → pool.Some startMarked
  /-- The mark is set only in the idle phase. -/
  idle : pool.shared.startRecordingInProgress=true → pool.shared.phase=.idle
  /-- Only the main loop drains. -/
  onMain : ∀ t, t≠mainThread → draining (pool.pcs t)=false
  /-- One start or stop at a time. -/
  apart : ∀ t u, t≠u → takesTurn (pool.pcs t)=true → takesTurn (pool.pcs u)=false
  /-- A stop finds chunks refused. -/
  stopping : ∀ t, betweenRegions (pool.pcs t)=true → pool.shared.acceptingChunks=false
  /-- A start in progress finds no recording. -/
  starting : ∀ t, startAccepted (pool.pcs t)=true → pool.shared.phase≠.recording
  /-- Chunks are accepted while a start is marked. -/
  accepting : pool.shared.startRecordingInProgress=true → pool.shared.acceptingChunks=true
  /-- The main loop has a chunk of a recording in hand only while chunks are accepted. -/
  refusing : pool.shared.phase=.recording → pool.shared.acceptingChunks=false →
    handling (pool.pcs mainThread)=false

theorem takesTurn_of_startAccepted {pc : Pc} (h : startAccepted pc=true) :
    takesTurn pc=true := by
  unfold takesTurn
  rw [h]
  rfl

theorem takesTurn_of_betweenRegions {pc : Pc} (h : betweenRegions pc=true) :
    takesTurn pc=true := by
  unfold takesTurn
  rw [h,Bool.or_true]

/-- A stop is not a start. -/
theorem not_start_of_betweenRegions {pc : Pc} (h : betweenRegions pc=true) (shared : Shared) :
    startAccepted pc=false ∧ acceptsStart shared pc=false := by
  cases pc <;> first | exact ⟨rfl,rfl⟩ | cases h

/-- A call with a turn is not draining. -/
theorem not_draining_of_takesTurn {pc : Pc} (h : takesTurn pc=true) : draining pc=false := by
  cases pc <;> first | rfl | cases h

/-- A call with a turn has no chunk in hand. -/
theorem not_handling_of_takesTurn {pc : Pc} (h : takesTurn pc=true) : handling pc=false := by
  cases pc <;> first | rfl | cases h

/-- An accepted stop goes on between its regions. -/
theorem betweenRegions_of_acceptsStop {shared : Shared} {pc : Pc} (oracle : Oracle)
    (h : acceptsStop shared pc=true) :
    shared.phase=.recording ∧ betweenRegions (next oracle shared pc).2=true := by
  unfold acceptsStop at h
  split at h
  · have hrec := of_decide_eq_true h
    dsimp only [next,nextStop]
    rw [if_neg (not_not.mpr hrec)]
    exact ⟨hrec,rfl⟩
  · cases h

/-- A turn is taken by its thread already, or begins with this step. -/
theorem takesTurn_next {oracle : Oracle} {shared : Shared} {pc : Pc}
    (h : takesTurn (next oracle shared pc).2=true) :
    takesTurn pc=true ∨ accepts shared pc=true := by
  unfold accepts
  rcases Bool.or_eq_true_iff.mp h with hstart | hstop
  · rcases startAccepted_of_next hstart with hbefore | heffect
    · exact .inl (takesTurn_of_startAccepted hbefore)
    · right
      rw [acceptsStart_of_mark heffect]
      rfl
  · rcases (betweenRegions_next hstop).1 with ⟨haccepts,_⟩ | ⟨hbefore,_⟩
    · right
      rw [haccepts,Bool.or_true]
    · exact .inl (takesTurn_of_betweenRegions hbefore)

section Step

variable {pool : System} {thread : ℕ} {oracle : Oracle}

/-- While a turn begins, nobody else has one and the main loop has nothing in
hand. -/
theorem alone_of_accepts (guarded : takesTurns pool (thread,oracle))
    (h : accepts pool.shared (pool.pcs thread)=true) {other : ℕ} (hne : other≠thread) :
    takesTurn (pool.pcs other)=false ∧ handling (pool.pcs other)=false := by
  by_contra hbusy
  refine guarded.1.2 h ⟨other,hne,?_⟩
  cases hturn : takesTurn (pool.pcs other) with
  | true => exact Bool.or_eq_true_iff.mpr (.inl hturn)
  | false =>
    cases hhand : handling (pool.pcs other) with
    | true => exact Bool.or_eq_true_iff.mpr (.inr hhand)
    | false => exact absurd ⟨hturn,hhand⟩ hbusy

/-- A start is marked when it is accepted. -/
theorem accepts_of_mark {shared : Shared} {pc : Pc} (h : effect shared pc=.mark) :
    accepts shared pc=true := by
  unfold accepts
  rw [acceptsStart_of_mark h]
  rfl

theorem accepts_of_acceptsStop {shared : Shared} {pc : Pc} (h : acceptsStop shared pc=true) :
    accepts shared pc=true := by
  unfold accepts
  rw [h,Bool.or_true]

/-- Only the main loop enters its drain. -/
theorem onMain_step (inv : TurnInv pool) (guarded : takesTurns pool (thread,oracle)) :
    ∀ t, t≠mainThread → draining ((machine pool (thread,oracle)).pcs t)=false := by
  intro t ht
  by_cases hself : t=thread
  · subst hself
    rw [Pool.step_pcs_self]
    by_contra hdraining
    rcases draining_next (Bool.eq_true_of_not_eq_false hdraining) with hbefore | henters
    · exact Bool.false_ne_true ((inv.onMain t ht).symm.trans hbefore)
    · exact ht (guarded.2.1 henters)
  · rw [Pool.step_pcs_of_ne hself]
    exact inv.onMain t ht

/-- Turns stay apart. -/
theorem apart_step (inv : TurnInv pool) (guarded : takesTurns pool (thread,oracle)) :
    ∀ t u, t≠u → takesTurn ((machine pool (thread,oracle)).pcs t)=true →
      takesTurn ((machine pool (thread,oracle)).pcs u)=false := by
  -- It is enough to look at pairs of the acting thread and another one.
  have hactor : ∀ u, u≠thread → takesTurn ((machine pool (thread,oracle)).pcs thread)=true →
      takesTurn (pool.pcs u)=false := by
    intro u hu hturn
    rw [Pool.step_pcs_self] at hturn
    rcases takesTurn_next hturn with hbefore | haccepts
    · exact inv.apart thread u hu.symm hbefore
    · exact (alone_of_accepts guarded haccepts hu).1
  intro t u htu hturn
  by_cases ht : t=thread
  · subst ht
    rw [Pool.step_pcs_of_ne htu.symm]
    exact hactor u htu.symm hturn
  · by_cases hu : u=thread
    · subst hu
      by_contra hother
      have hfree := hactor t ht (Bool.eq_true_of_not_eq_false hother)
      rw [Pool.step_pcs_of_ne ht] at hturn
      exact Bool.false_ne_true (hfree.symm.trans hturn)
    · rw [Pool.step_pcs_of_ne ht] at hturn
      rw [Pool.step_pcs_of_ne hu]
      exact inv.apart t u htu hturn

/-- The main loop takes no chunk while a recording refuses them. -/
theorem empty_step (guarded : takesTurns pool (thread,oracle))
    (hrec : pool.shared.phase=.recording) (hrefused : pool.shared.acceptingChunks=false)
    (h : handling (pool.pcs mainThread)=false) :
    handling ((machine pool (thread,oracle)).pcs mainThread)=false := by
  by_cases hself : mainThread=thread
  · rw [hself] at h
    rw [hself,Pool.step_pcs_self]
    by_contra hhand
    rcases handling_next (Bool.eq_true_of_not_eq_false hhand) with hbefore | hdequeues
    · exact Bool.false_ne_true (h.symm.trans hbefore)
    · exact Bool.false_ne_true (hrefused.symm.trans (guarded.2.2 hdequeues hrec))
  · rw [Pool.step_pcs_of_ne hself]
    exact h

/-- When a stop is accepted, the main loop has nothing in hand. -/
theorem empty_of_acceptsStop (guarded : takesTurns pool (thread,oracle))
    (h : acceptsStop pool.shared (pool.pcs thread)=true) :
    handling ((machine pool (thread,oracle)).pcs mainThread)=false := by
  by_cases hself : mainThread=thread
  · rw [hself,Pool.step_pcs_self]
    exact not_handling_of_takesTurn
      (takesTurn_of_betweenRegions (betweenRegions_of_acceptsStop oracle h).2)
  · rw [Pool.step_pcs_of_ne hself]
    exact (alone_of_accepts guarded (accepts_of_acceptsStop h) hself).2

/-- An accepted stop refuses chunks. -/
theorem accepting_of_acceptsStop {shared : Shared} {pc : Pc} (oracle : Oracle)
    (h : acceptsStop shared pc=true) : (next oracle shared pc).1.acceptingChunks=false := by
  unfold acceptsStop at h
  split at h
  · dsimp only [next,nextStop]
    rw [if_neg (not_not.mpr (of_decide_eq_true h))]
  · cases h

/-- A thread that installs is inside an accepted start. -/
theorem startAccepted_of_install {shared : Shared} {pc : Pc} {id : ℕ}
    (h : effect shared pc=.install id) : startAccepted pc=true := by
  obtain ⟨call,backend,hpc,_⟩ := returns_of_install {} h
  rw [hpc]
  rfl

/-- A stop between its regions keeps chunks refused. -/
theorem stopping_step (inv : TurnInv pool) (guarded : takesTurns pool (thread,oracle)) :
    ∀ t, betweenRegions ((machine pool (thread,oracle)).pcs t)=true →
      (machine pool (thread,oracle)).shared.acceptingChunks=false := by
  intro t hbetween
  rw [Pool.step_shared]
  by_cases haccepts : acceptsStop pool.shared (pool.pcs thread)=true
  · exact accepting_of_acceptsStop oracle haccepts
  · have hbefore : betweenRegions (pool.pcs t)=true := by
      by_cases hself : t=thread
      · subst hself
        rw [Pool.step_pcs_self] at hbetween
        rcases (betweenRegions_next hbetween).1 with ⟨hnow,_⟩ | ⟨hbefore,_⟩
        · exact absurd hnow haccepts
        · exact hbefore
      · rw [Pool.step_pcs_of_ne hself] at hbetween
        exact hbetween
    have hrefused := inv.stopping t hbefore
    -- Only a start could accept chunks again, and it would have its turn.
    rcases accepting_next oracle pool.shared (pool.pcs thread) with
      hsame | ⟨_,heffect | ⟨id,heffect⟩⟩ | ⟨hnow,_⟩
    · exact hsame.trans hrefused
    · exfalso
      have hstart := acceptsStart_of_mark heffect
      have hne : t≠thread := by
        intro hself
        rw [hself] at hbefore
        exact Bool.false_ne_true
          ((not_start_of_betweenRegions hbefore pool.shared).2.symm.trans hstart)
      exact Bool.false_ne_true ((alone_of_accepts guarded (accepts_of_mark heffect) hne).1.symm.trans
        (takesTurn_of_betweenRegions hbefore))
    · exfalso
      have hstart := startAccepted_of_install heffect
      have hne : t≠thread := by
        intro hself
        rw [hself] at hbefore
        exact Bool.false_ne_true
          ((not_start_of_betweenRegions hbefore pool.shared).1.symm.trans hstart)
      exact Bool.false_ne_true ((inv.apart t thread hne
        (takesTurn_of_betweenRegions hbefore)).symm.trans (takesTurn_of_startAccepted hstart))
    · exact hnow

/-- A start in progress sees no recording begin. -/
theorem starting_step (inv : TurnInv pool) :
    ∀ t, startAccepted ((machine pool (thread,oracle)).pcs t)=true →
      (machine pool (thread,oracle)).shared.phase≠.recording := by
  intro t haccepted hrec
  rw [Pool.step_shared] at hrec
  have hphase := congrArg Core.phase (core_next oracle pool.shared (pool.pcs thread))
  rcases recording_apply (hphase.symm.trans hrec) with hbefore | ⟨id,heffect⟩
  · by_cases hself : t=thread
    · subst hself
      rw [Pool.step_pcs_self] at haccepted
      rcases startAccepted_of_next haccepted with hstart | heffect
      · exact inv.starting t hstart hbefore
      · have henabled := effect_enabled pool.shared (pool.pcs t)
        rw [heffect] at henabled
        have hidle : pool.shared.phase=.idle := henabled.1
        have hrecording : pool.shared.phase=.recording := hbefore
        rw [hidle] at hrecording
        cases hrecording
    · rw [Pool.step_pcs_of_ne hself] at haccepted
      exact inv.starting t haccepted hbefore
  · -- The session is installed by the only start, which returns with it.
    have hstart := startAccepted_of_install heffect
    by_cases hself : t=thread
    · subst hself
      obtain ⟨call,backend,_,hnext⟩ := returns_of_install oracle heffect
      rw [Pool.step_pcs_self,hnext] at haccepted
      cases haccepted
    · rw [Pool.step_pcs_of_ne hself] at haccepted
      exact Bool.false_ne_true ((inv.apart thread t (Ne.symm hself)
        (takesTurn_of_startAccepted hstart)).symm.trans (takesTurn_of_startAccepted haccepted))

/-- A start that closes was accepted. -/
theorem startAccepted_of_startClosing {pc : Pc} (h : startClosing pc=true) :
    startAccepted pc=true := by
  cases pc with
  | start call point => cases point <;> first | rfl | cases h
  | _ => cases h

/-- Only a start in progress is cancelled. -/
theorem mark_of_cancels {shared : Shared} {pc : Pc} (h : cancelsStart shared pc=true) :
    shared.startRecordingInProgress=true := by
  unfold cancelsStart at h
  split at h
  · exact h
  · cases h

/-- Chunks stay accepted while a start is marked. -/
theorem accepting_step (inv : TurnInv pool)
    (hmark : (machine pool (thread,oracle)).shared.startRecordingInProgress=true) :
    (machine pool (thread,oracle)).shared.acceptingChunks=true := by
  rw [Pool.step_shared] at hmark ⊢
  have henabled := effect_enabled pool.shared (pool.pcs thread)
  rcases mark_next hmark with hbefore | heffect
  · have hidle := inv.idle hbefore
    have hnotrec : pool.shared.phase≠.recording := by
      rw [hidle]
      exact nofun
    rcases accepting_next oracle pool.shared (pool.pcs thread) with
      hsame | ⟨hnow,_⟩ | ⟨_,hclosing | hcancels | haccepts | hcancel | hfail | hshut⟩
    · exact hsame.trans (inv.accepting hbefore)
    · exact hnow
    · exact absurd ((mark_of_closing hclosing).symm.trans hmark) Bool.false_ne_true
    · exact absurd ((mark_of_cancelsStart hcancels).symm.trans hmark) Bool.false_ne_true
    · exact absurd (betweenRegions_of_acceptsStop oracle haccepts).1 hnotrec
    · rw [hcancel] at henabled
      exact absurd henabled hnotrec
    · rw [hfail] at henabled
      exact absurd (inv.agree.agrees.mpr henabled) hnotrec
    · exact absurd ((inv.agree.serving thread).symm.trans hshut) Bool.false_ne_true
  · obtain ⟨call,hnext⟩ := next_of_mark oracle heffect
    rw [hnext]
    rfl

/-- During a recording chunks are refused only while the main loop has nothing in
hand. -/
theorem refusing_step (inv : TurnInv pool) (guarded : takesTurns pool (thread,oracle))
    (hrec : (machine pool (thread,oracle)).shared.phase=.recording)
    (hrefused : (machine pool (thread,oracle)).shared.acceptingChunks=false) :
    handling ((machine pool (thread,oracle)).pcs mainThread)=false := by
  rw [Pool.step_shared] at hrec hrefused
  have hphase := congrArg Core.phase (core_next oracle pool.shared (pool.pcs thread))
  have hafter := hphase.symm.trans hrec
  rcases recording_apply hafter with hwas | ⟨id,heffect⟩
  · have hbefore : pool.shared.phase=.recording := hwas
    rcases accepting_next oracle pool.shared (pool.pcs thread) with
      hsame | ⟨hnow,_⟩ | ⟨_,hclosing | hcancels | haccepts | hcancel | hfail | hshut⟩
    · have hrefusedBefore := hsame.symm.trans hrefused
      exact empty_step guarded hbefore hrefusedBefore (inv.refusing hbefore hrefusedBefore)
    · exact absurd (hrefused.symm.trans hnow) Bool.false_ne_true
    · exact absurd hbefore (inv.starting thread (startAccepted_of_startClosing hclosing))
    · have hidle := inv.idle (mark_of_cancels hcancels)
      rw [hbefore] at hidle
      cases hidle
    · exact empty_of_acceptsStop guarded haccepts
    · rw [hcancel] at hafter
      cases hafter
    · rw [hfail] at hafter
      unfold Effect.apply at hafter
      dsimp only at hafter
      rw [if_pos hwas] at hafter
      cases hafter
    · exact absurd ((inv.agree.serving thread).symm.trans hshut) Bool.false_ne_true
  · obtain ⟨call,backend,_,hnext⟩ := returns_of_install oracle heffect
    rw [hnext] at hrefused
    cases hrefused

end Step

/-- Every step that takes turns keeps them. -/
theorem machine_turns (pool : System) (label : ℕ×Oracle) (inv : TurnInv pool)
    (guarded : takesTurns pool label) : TurnInv (machine pool label) := by
  obtain ⟨thread,oracle⟩ := label
  have hcore := core_next oracle pool.shared (pool.pcs thread)
  refine ⟨machine_agrees pool _ inv.agree guarded.1.1,startMarked_debt inv.marked,?_,
    onMain_step inv guarded,apart_step inv guarded,stopping_step inv guarded,
    starting_step inv,accepting_step inv,refusing_step inv guarded⟩
  intro hmark
  exact (congrArg Core.phase hcore).trans
    (idle_of_mark_apply (effect_enabled pool.shared (pool.pcs thread)) inv.idle
      ((congrArg Core.mark hcore).symm.trans hmark))

/-- No turn is taken at the start. -/
theorem startup_turns : TurnInv startup := by
  have hquiet : ∀ t, takesTurn (startup.pcs t)=false ∧ draining (startup.pcs t)=false := by
    intro t
    by_cases ht : t=0
    · rw [ht]
      exact ⟨rfl,rfl⟩
    · rw [startup_pcs ht]
      exact ⟨rfl,rfl⟩
  have hfree : ∀ t, ¬takesTurn (startup.pcs t)=true := by
    intro t hturn
    exact Bool.false_ne_true ((hquiet t).1.symm.trans hturn)
  refine ⟨startup_agrees,nofun,nofun,fun t _ => (hquiet t).2,?_,?_,?_,nofun,nofun⟩
  · intro t u _ hturn
    exact absurd hturn (hfree t)
  · intro t hbetween
    exact absurd (takesTurn_of_betweenRegions hbetween) (hfree t)
  · intro t haccepted
    exact absurd (takesTurn_of_startAccepted haccepted) (hfree t)

end Vinput.ControllerTurns
