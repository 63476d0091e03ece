import Vinput.ControllerDeferred

/-!
# Deferred reloads

A reload that finds the daemon busy is applied by whoever makes it free
again. At any time that the reload is open, some thread must be on the way
to apply it, or a capture stop is scheduled whose flush does. The only step
that walks away from this debt is the return of a start whose capture
failed: its sibling paths schedule a capture stop.
-/

namespace Vinput.ControllerReload

open InterleavedRuns RuntimePhases RuntimeController ControllerCore ControllerStart
open ControllerDeferred

/-- No start whose capture failed gives up its mark in the idle phase while a
reload is deferred, and nobody shuts down. -/
def failsWithoutReload (pool : System) (label : ℕ×Oracle) : Prop :=
  isShutdown label.2.call=false ∧
    (startFailed (pool.pcs label.1)=true → pool.shared.phase=.idle →
      pool.shared.pendingAsrBackendReload=false)

instance (pool : System) (label : ℕ×Oracle) : Decidable (failsWithoutReload pool label) :=
  inferInstanceAs (Decidable (_ ∧ (_ → _ → _)))

/-- A thread through which a recording that nobody marks is cleared up or the
reload applied. -/
def clearsUp (pc : Pc) : Bool := startOpen pc || appliesReload pc || owesReset pc

/-- A thread that will apply the deferred reload or schedule a flush that
does. -/
def bringsReload (pc : Pc) : Bool :=
  startAccepted pc || appliesReload pc || owesReset pc || flushDecides pc

/-- Nothing is under way: the phase is idle, no start is marked, no stop is
scheduled, and no thread is inside a call or an order. -/
structure Quiescent (pool : System) : Prop where
  /-- The phase is idle. -/
  idle : pool.shared.phase=.idle
  /-- No start is in progress. -/
  unmarked : pool.shared.startRecordingInProgress=false
  /-- No capture stop is scheduled. -/
  unscheduled : pool.shared.pendingCaptureStop=false
  /-- No call and no order is under way. -/
  rests : ∀ t, resting (pool.pcs t)=true

/-- A reload is deferred although the daemon is free. -/
def reloadOpen (shared : Shared) : Prop :=
  shared.pendingAsrBackendReload=true ∧ shared.phase=.idle ∧
    shared.startRecordingInProgress=false

/-- What clears up brings the reload. -/
theorem bringsReload_of_clearsUp {pc : Pc} (h : clearsUp pc=true) : bringsReload pc=true := by
  unfold clearsUp at h
  unfold bringsReload
  rcases Bool.or_eq_true_iff.mp h with h | howes
  · rcases Bool.or_eq_true_iff.mp h with hopen | happlies
    · rw [startAccepted_of_startOpen hopen]
      rfl
    · rw [happlies,Bool.or_true]
      rfl
  · rw [howes,Bool.or_true]
    rfl

/-- A flush that decides does not clear up yet. -/
theorem not_clearsUp_of_flushDecides {pc : Pc} (h : flushDecides pc=true) :
    clearsUp pc=false := by
  unfold flushDecides at h
  split at h
  · rfl
  · cases h

/-- A resting thread brings no reload. -/
theorem not_bringsReload_of_resting {pc : Pc} (h : resting pc=true) : bringsReload pc=false := by
  cases pc with
  | ready last => rfl
  | worker point => cases point <;> first | rfl | cases h
  | _ => cases h

/-- Invariant behind the deferred reload. -/
structure ReloadInv (pool : System) : Prop where
  /-- The mark belongs to a start. -/
  marked : pool.shared.startRecordingInProgress=true → pool.Some startMarked
  /-- A marked capture was armed by a start. -/
  armed : pool.shared.startRecordingInProgress=true ∧ pool.shared.capture.recording=true →
    pool.Some startOpen
  /-- A capture that records while the reload is open is cleared up. -/
  recording : reloadOpen pool.shared ∧ pool.shared.capture.recording=true → pool.Some clearsUp
  /-- An open reload is brought by some thread or by the scheduled stop. -/
  owed : reloadOpen pool.shared ∧ pool.shared.pendingCaptureStop=false → pool.Some bringsReload
  /-- Nobody shuts down. -/
  serving : ∀ t, shuttingDown (pool.pcs t)=false

/-- A step that leaves the reload open found it open, looks at it next, or
took the mark away. -/
theorem reloadOpen_next {oracle : Oracle} {shared : Shared} {pc : Pc}
    (hserving : shuttingDown pc=false) (h : reloadOpen (next oracle shared pc).1) :
    reloadOpen shared ∨ appliesReload (next oracle shared pc).2=true ∨
      (shared.startRecordingInProgress=true ∧
        (startClosing pc=true ∨ cancelsStart shared pc=true)) := by
  obtain ⟨hreload,hidle,hmark⟩ := h
  have hbefore : shared.pendingAsrBackendReload=true := by
    rcases pendingReload_next hreload with hbefore | hbusy
    · exact hbefore
    · exact absurd ((busyForStart_eq_false.mpr ⟨hidle,hmark⟩).symm.trans hbusy) Bool.false_ne_true
  rcases idle_next hserving hidle hreload with hwas | happlies
  · rcases unmark_next hserving hmark with hnone | htaken | happlies
    · exact .inl ⟨hbefore,hwas,hnone⟩
    · exact .inr (.inr htaken)
    · exact .inr (.inl happlies)
  · exact .inr (.inl happlies)

/-- Threads that clear up do so until the reload is no longer open or the
capture no longer records. -/
theorem clearsUp_next {oracle : Oracle} {shared : Shared} {pc : Pc} (h : clearsUp pc=true)
    (hopen : reloadOpen (next oracle shared pc).1)
    (hrecording : (next oracle shared pc).1.capture.recording=true) :
    clearsUp (next oracle shared pc).2=true := by
  obtain ⟨hreload,hidle,hmark⟩ := hopen
  unfold clearsUp at h ⊢
  rcases Bool.or_eq_true_iff.mp h with h | howes
  · rcases Bool.or_eq_true_iff.mp h with hstart | happlies
    · rcases startOpen_next hstart with hnext | hdisarmed | ⟨id,hinstall⟩
      · rw [hnext]
        rfl
      · exact absurd (hdisarmed.symm.trans hrecording) Bool.false_ne_true
      · rw [(next_of_install oracle hinstall).1] at hidle
        cases hidle
    · rcases appliesReload_next happlies with hnext | hnone | hbusy
      · rw [hnext,Bool.or_true]
        rfl
      · exact absurd (hnone.symm.trans hreload) Bool.false_ne_true
      · exact absurd hidle hbusy
  · rcases owesReset_progress howes with hnext | hnext
    · rw [hnext,Bool.or_true]
    · rw [hnext,Bool.or_true]
      rfl

/-- A capture that records while the reload is open stays accounted for. -/
theorem clearsUp_debt {pool : System} {thread : ℕ} {oracle : Oracle} (inv : ReloadInv pool) :
    reloadOpen (machine pool (thread,oracle)).shared ∧
      (machine pool (thread,oracle)).shared.capture.recording=true →
      (machine pool (thread,oracle)).Some clearsUp := by
  refine Pool.debt_step (fun shared : Shared => reloadOpen shared ∧
    shared.capture.recording=true) inv.recording ?_
  rintro ⟨hopen,hrecording⟩
  cases hkind : clearsUp (pool.pcs thread) with
  | true => exact .inl (clearsUp_next hkind hopen hrecording)
  | false =>
    have hnot : startOpen (pool.pcs thread)=false := by
      unfold clearsUp at hkind
      exact (Bool.or_eq_false_iff.mp (Bool.or_eq_false_iff.mp hkind).1).1
    rcases recording_next hrecording with hrecorded | harmed
    · rcases reloadOpen_next (inv.serving thread) hopen with hwas | happlies | ⟨hmark,_⟩
      · exact .inr (.inl ⟨⟨hwas,hrecorded⟩,rfl⟩)
      · left
        unfold clearsUp
        rw [happlies,Bool.or_true]
        rfl
      · -- The mark is gone, but whoever armed the capture is another thread.
        rcases (inv.armed ⟨hmark,hrecorded⟩).self_or_other thread with hself | hother
        · exact absurd (hnot.symm.trans hself) Bool.false_ne_true
        · refine .inr (.inr (hother.mono ?_))
          intro pc hstart
          unfold clearsUp
          rw [hstart]
          rfl
    · left
      unfold clearsUp
      rw [startOpen_of_startArmed harmed]
      rfl

/-- Threads that bring the reload do so until it is no longer open or a stop
is scheduled. Only a flush that skips its teardown gives up. -/
theorem bringsReload_next {oracle : Oracle} {shared : Shared} {pc : Pc}
    (h : bringsReload pc=true) (hopen : reloadOpen (next oracle shared pc).1)
    (hnone : (next oracle shared pc).1.pendingCaptureStop=false)
    (hfailed : startFailed pc=false) :
    bringsReload (next oracle shared pc).2=true ∨
      flushDecides pc=true ∧ skipTeardown shared=true := by
  obtain ⟨hreload,hidle,hmark⟩ := hopen
  unfold bringsReload at h ⊢
  rcases Bool.or_eq_true_iff.mp h with h | hdecides
  · left
    rcases Bool.or_eq_true_iff.mp h with h | howes
    · rcases Bool.or_eq_true_iff.mp h with hstart | happlies
      · rcases startAccepted_next hstart with hnext | hscheduled | ⟨id,hinstall⟩ | hfails
        · rw [hnext]
          rfl
        · exact absurd (hnone.symm.trans hscheduled) Bool.false_ne_true
        · rw [(next_of_install oracle hinstall).1] at hidle
          cases hidle
        · exact absurd (hfailed.symm.trans hfails) Bool.false_ne_true
      · rcases appliesReload_next happlies with hnext | hgone | hbusy
        · rw [hnext,Bool.or_true]
          rfl
        · exact absurd (hgone.symm.trans hreload) Bool.false_ne_true
        · exact absurd hidle hbusy
    · rcases owesReset_progress howes with hnext | hnext
      · rw [hnext,Bool.or_true]
        rfl
      · rw [hnext,Bool.or_true]
        rfl
  · rcases (flushDecides_next hdecides).2 with howes | hskip
    · left
      rw [howes,Bool.or_true]
      rfl
    · exact .inr ⟨hdecides,hskip⟩

/-- A free daemon skips a teardown only for a capture that records. -/
theorem recording_of_skip {shared : Shared} (hidle : shared.phase=.idle)
    (hmark : shared.startRecordingInProgress=false) (h : skipTeardown shared=true) :
    shared.capture.recording=true := by
  simpa [skipTeardown,hidle,hmark] using h

/-- An open reload stays with some thread or with the scheduled stop. -/
theorem bringsReload_debt {pool : System} {thread : ℕ} {oracle : Oracle} (inv : ReloadInv pool)
    (guarded : failsWithoutReload pool (thread,oracle)) :
    reloadOpen (machine pool (thread,oracle)).shared ∧
      (machine pool (thread,oracle)).shared.pendingCaptureStop=false →
      (machine pool (thread,oracle)).Some bringsReload := by
  refine Pool.debt_step (fun shared : Shared => reloadOpen shared ∧
    shared.pendingCaptureStop=false) inv.owed ?_
  rintro ⟨hopen,hnone⟩
  have hserving := inv.serving thread
  cases hkind : bringsReload (pool.pcs thread) with
  | true =>
    have hfailed : startFailed (pool.pcs thread)=false := by
      -- The failing region keeps reload and phase, so its guard would apply.
      by_contra hfails
      have hfails := Bool.eq_true_of_not_eq_false hfails
      have hsame : (next oracle pool.shared (pool.pcs thread)).1=clearStartLocked pool.shared := by
        unfold startFailed at hfails
        split at hfails
        · rename_i hpc
          rw [hpc]
          rfl
        · cases hfails
      rw [hsame] at hopen
      exact absurd ((guarded.2 hfails hopen.2.1).symm.trans hopen.1) Bool.false_ne_true
    rcases bringsReload_next hkind hopen hnone hfailed with hnext | ⟨hdecides,hskip⟩
    · exact .inl hnext
    · -- A skipped teardown is taken over by whoever holds the capture.
      have hsame : (next oracle pool.shared (pool.pcs thread)).1=pool.shared :=
        (flushDecides_next hdecides).1
      rw [hsame] at hopen
      have hrecording := recording_of_skip hopen.2.1 hopen.2.2 hskip
      rcases (inv.recording ⟨hopen,hrecording⟩).self_or_other thread with hself | hother
      · exact absurd ((not_clearsUp_of_flushDecides hdecides).symm.trans hself)
          Bool.false_ne_true
      · exact .inr (.inr (hother.mono fun pc hclears => bringsReload_of_clearsUp hclears))
  | false =>
    have hnot := hkind
    unfold bringsReload at hnot
    simp only [Bool.or_eq_false_iff] at hnot
    obtain ⟨⟨⟨hstart,_⟩,_⟩,_⟩ := hnot
    rcases pendingStop_next hnone with hwasnone | heffect | hdecides | hshutdown
    · rcases reloadOpen_next hserving hopen with hwas | happlies | ⟨hmark,_⟩
      · exact .inr (.inl ⟨⟨hwas,hwasnone⟩,rfl⟩)
      · left
        unfold bringsReload
        rw [happlies,Bool.or_true]
        rfl
      · -- A cancel took the mark away; its start is still under way.
        rcases (inv.marked hmark).self_or_other thread with hself | hother
        · exact absurd (hstart.symm.trans (startAccepted_of_startMarked hself))
            Bool.false_ne_true
        · refine .inr (.inr (hother.mono ?_))
          intro pc hmarked
          unfold bringsReload
          rw [startAccepted_of_startMarked hmarked]
          rfl
    · have hafter := congrArg Core.mark (core_next oracle pool.shared (pool.pcs thread))
      rw [heffect] at hafter
      exact absurd (hopen.2.2.symm.trans hafter) Bool.false_ne_true
    · left
      unfold bringsReload
      rw [hdecides,Bool.or_true]
    · rw [hshutdown] at hserving
      cases hserving

/-- Every step that does not give up a failed start while a reload is
deferred keeps the invariant. -/
theorem machine_reload (pool : System) (label : ℕ×Oracle) (inv : ReloadInv pool)
    (guarded : failsWithoutReload pool label) : ReloadInv (machine pool label) :=
  ⟨startMarked_debt inv.marked,startOpen_debt inv.armed,clearsUp_debt inv,
    bringsReload_debt inv guarded,machine_serving guarded.1 inv.serving⟩

/-- Nothing is deferred at the start. -/
theorem startup_reload : ReloadInv startup := by
  refine ⟨nofun,?_,?_,?_,?_⟩
  · intro h
    cases h.1
  · intro h
    cases h.1.1
  · intro h
    cases h.1.1
  intro t
  by_cases ht : t=0
  · rw [ht]
    rfl
  · rw [startup_pcs ht]
    rfl

/-- In every run in which no start gives up its mark for a failed capture
while a reload is deferred, no quiescent state has a deferred reload. -/
theorem reload_applied_of_run (schedule : List (ℕ×Oracle))
    (guarded : Along machine failsWithoutReload startup schedule)
    (quiescent : Quiescent (run machine startup schedule)) :
    (run machine startup schedule).shared.pendingAsrBackendReload=false := by
  have inv := guarded.invariant machine_reload startup_reload
  by_contra hpending
  have hreload := Bool.eq_true_of_not_eq_false hpending
  obtain ⟨t,hbrings⟩ := inv.owed
    ⟨⟨hreload,quiescent.idle,quiescent.unmarked⟩,quiescent.unscheduled⟩
  exact absurd ((not_bringsReload_of_resting (quiescent.rests t)).symm.trans hbrings)
    Bool.false_ne_true

/-- A start is accepted, a reload arrives and is deferred, and the capture
cannot be opened. -/
def reloadDuringFailedStart : List (ℕ×Oracle) :=
  arrives 1 startCall::goesOn 1 2++arrives 2 .reloadAsrBackend::goesOn 2 1++goesOn 1 3++
    (1,{capture := .failed "no device"})::goesOn 1 1

/-- A deferred reload can be stranded: the start whose capture failed gives
up its mark without scheduling anything. -/
theorem reload_stranded :
    ¬∀ schedule : List (ℕ×Oracle),
      (∀ label∈schedule, isShutdown label.2.call=false) →
      Quiescent (run machine startup schedule) →
      (run machine startup schedule).shared.pendingAsrBackendReload=false := by
  intro h
  have quiescent : Quiescent (run machine startup reloadDuringFailedStart) :=
    ⟨by decide,by decide,by decide,rests_of_bounded 3 (by decide) (by decide) (by decide)⟩
  exact absurd (h reloadDuringFailedStart (by decide) quiescent) (by decide)

/-- The same with a session that cannot be created: a capture stop is
scheduled and the main loop flushes. -/
def reloadDuringRefusedStart : List (ℕ×Oracle) :=
  arrives 1 startCall::goesOn 1 2++arrives 2 .reloadAsrBackend::goesOn 2 1++goesOn 1 4++
    (1,{session := .refused "no backend"})::goesOn 1 3++
    arrives 3 .flushDeferredActions::goesOn 3 10

/-- The flush of a refused start applies the reload deferred during it. -/
theorem reload_applied_after_refused_start :
    Quiescent (run machine startup reloadDuringRefusedStart) ∧
      (run machine startup reloadDuringRefusedStart).shared.pendingAsrBackendReload=false := by
  have quiescent : Quiescent (run machine startup reloadDuringRefusedStart) :=
    ⟨by decide,by decide,by decide,rests_of_bounded 4 (by decide) (by decide) (by decide)⟩
  exact ⟨quiescent,reload_applied_of_run reloadDuringRefusedStart (by decide) quiescent⟩

end Vinput.ControllerReload
