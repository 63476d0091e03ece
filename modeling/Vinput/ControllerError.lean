import Vinput.ControllerDeferred

/-!
# The way out of the error phase

A failed session leaves the controller in the error phase, in which every
call is rejected. The way out is the flush for a scheduled capture stop,
which takes the flag first and then skips its reset when a capture records.
Whoever holds that capture has to schedule the stop again. All paths of a
start do so except the one on which the capture cannot be opened.
-/

namespace Vinput.ControllerError

open InterleavedRuns RuntimePhases RuntimeController ControllerCore ControllerStart
open ControllerDeferred

/-- The capture opens. -/
def opens : CaptureOutcome → Bool
  | .failed _ => false
  | _ => true

/-- `Shutdown` is about to drop the scheduled stop. -/
def dropsStop : Pc → Bool
  | .shutdown .pending => true
  | _ => false

/-- In the error phase no capture fails to open and `Shutdown` drops no
scheduled stop. -/
def opensInError (pool : System) (label : ℕ×Oracle) : Prop :=
  pool.shared.phase=.error →
    (startArmed (pool.pcs label.1)=true → opens label.2.capture=true) ∧
    dropsStop (pool.pcs label.1)=false

instance (pool : System) (label : ℕ×Oracle) : Decidable (opensInError pool label) :=
  inferInstanceAs (Decidable (_ → (_ → _) ∧ _))

/-- Callers of a flush. -/
def flushCaller : Resume → Bool
  | .mainLoop => true
  | .start _ => true
  | _ => false

/-- Flushes are called by the main loop and by starts only. -/
def wellCalled : Pc → Bool
  | .flush resume _ => flushCaller resume
  | _ => true

/-- Points of a start that lead to a scheduled stop when the phase is
error. -/
def settlingPoint : StartPoint → Bool
  | .enter => false
  | .accept => false
  | .failed _ => false
  | _ => true

/-- A thread inside `FailActiveSession`, `FlushDeferredActions` or
`StartRecordingInternal` on its way out of the error phase. -/
def settles : Pc → Bool
  | .start _ point => settlingPoint point
  | .flush _ (.failRetire _ _) => true
  | .flush _ (.failEnd _) => true
  | .flush _ (.failSchedule _) => true
  | .flush resume .stop => flushCaller resume
  | .flush resume .drain => flushCaller resume
  | .resetToIdle resume => flushCaller resume
  | _ => false

/-- Steps of a start to its scheduled stop. -/
def startDistance : StartPoint → ℕ
  | .drain => 8
  | .arm => 7
  | .armNew => 6
  | .armed _ => 5
  | .session => 4
  | .noSession _ => 3
  | .noSessionLocked _ => 2
  | .noSessionSchedule _ => 1
  | .install _ _ => 3
  | .abort => 2
  | .abortSchedule => 1
  | _ => 0

/-- Steps of a thread to the scheduled stop or to the reset. -/
def distance : Pc → ℕ
  | .start _ point => startDistance point
  | .flush _ (.failRetire _ _) => 3
  | .flush _ (.failEnd _) => 2
  | .flush _ (.failSchedule _) => 1
  | .flush _ .stop => 3
  | .flush _ .drain => 2
  | .resetToIdle _ => 1
  | _ => 0

/-- Within the given number of its own steps a thread schedules a capture
stop or resets the controller, whatever the environment decides, as long as
the capture opens. -/
def Leads : ℕ → Shared → Pc → Prop
  | 0,_,_ => False
  | steps+1,shared,pc => ∀ oracle : Oracle, opens oracle.capture=true →
    (next oracle shared pc).1.pendingCaptureStop=true ∨
      (next oracle shared pc).1.phase=.idle ∨
      Leads steps (next oracle shared pc).1 (next oracle shared pc).2

/-- A thread inside one of the three functions that deal with the error
phase. -/
def insideRecovery : Pc → Bool
  | .start _ _ => true
  | .flush _ _ => true
  | .resetToIdle resume => flushCaller resume
  | .maybeApply resume => flushCaller resume
  | .synchronize resume => flushCaller resume
  | _ => false

/-- Outside any call: waiting for one, or the worker. -/
def outsideCalls : Pc → Bool
  | .ready _ => true
  | .worker _ => true
  | .resetToIdle .worker => true
  | .maybeApply .worker => true
  | .synchronize .worker => true
  | _ => false

/-- Every place is at most eight steps from the end. -/
theorem distance_le (pc : Pc) : distance pc≤8 := by
  cases pc with
  | start call point => cases point <;> simp [distance,startDistance]
  | flush resume point => cases point <;> simp [distance]
  | _ => simp [distance]

/-- A start on its way schedules its stop step by step: in the error phase it
can neither be accepted nor install. -/
theorem settles_nextStart {oracle : Oracle} {shared : Shared} {call : StartCall}
    {point : StartPoint} (herror : shared.phase=.error) (h : settlingPoint point=true)
    (hopens : startArmed (.start call point)=true → opens oracle.capture=true) :
    (nextStart oracle shared call point).1.pendingCaptureStop=true ∨
      (settles (nextStart oracle shared call point).2=true ∧
        distance (nextStart oracle shared call point).2<startDistance point ∧
        (nextStart oracle shared call point).1.phase=.error) := by
  cases point with
  | enter => cases h
  | accept => cases h
  | failed error => cases h
  | noSessionSchedule error => exact .inl rfl
  | abortSchedule => exact .inl rfl
  | armed reused =>
    right
    have hopen := hopens rfl
    dsimp only [nextStart]
    cases hcapture : oracle.capture with
    | opened => exact ⟨rfl,by simp [distance,startDistance],herror⟩
    | reopened =>
      dsimp only
      split
      · exact ⟨rfl,by simp [distance,startDistance],herror⟩
      · exact ⟨rfl,by simp [distance,startDistance],herror⟩
    | failed error =>
      rw [hcapture] at hopen
      cases hopen
  | install id backend =>
    right
    have habort : (!shared.startRecordingInProgress || decide (shared.phase≠.idle))=true := by
      rw [herror]
      simp
    dsimp only [nextStart]
    rw [if_pos habort]
    exact ⟨rfl,by simp [distance,startDistance],herror⟩
  | _ =>
    right
    dsimp only [nextStart]
    (repeat' split) <;> exact ⟨rfl,by simp [distance,startDistance],herror⟩

/-- A thread on its way out of the error phase gets there step by step. -/
theorem settles_next {oracle : Oracle} {shared : Shared} {pc : Pc}
    (herror : shared.phase=.error) (h : settles pc=true)
    (hopens : startArmed pc=true → opens oracle.capture=true) :
    (next oracle shared pc).1.pendingCaptureStop=true ∨
      (next oracle shared pc).1.phase=.idle ∨
      (settles (next oracle shared pc).2=true ∧
        distance (next oracle shared pc).2<distance pc ∧
        (next oracle shared pc).1.phase=.error) := by
  cases pc with
  | start call point =>
    rcases settles_nextStart herror h hopens with hscheduled | hway
    · exact .inl hscheduled
    · exact .inr (.inr hway)
  | flush resume point =>
    cases point with
    | failRetire id after => exact .inr (.inr ⟨rfl,by simp [next,nextFlush,distance],herror⟩)
    | failEnd after => exact .inr (.inr ⟨rfl,by simp [next,nextFlush,distance],herror⟩)
    | failSchedule after => exact .inl rfl
    | stop => exact .inr (.inr ⟨h,by simp [next,nextFlush,distance],herror⟩)
    | drain => exact .inr (.inr ⟨h,by simp [next,nextFlush,distance],herror⟩)
    | _ => cases h
  | resetToIdle resume => exact .inr (.inl rfl)
  | _ => cases h

/-- A thread on its way out of the error phase leads out of it. -/
theorem leads_of_settles {steps : ℕ} {shared : Shared} {pc : Pc} (herror : shared.phase=.error)
    (h : settles pc=true) (hsteps : distance pc<steps) : Leads steps shared pc := by
  induction steps generalizing shared pc with
  | zero => omega
  | succ steps ih =>
    intro oracle hopens
    rcases settles_next herror h (fun _ => hopens) with hscheduled | hidle | ⟨hnext,hless,hstays⟩
    · exact .inl hscheduled
    · exact .inr (.inl hidle)
    · exact .inr (.inr (ih hstays hnext (by omega)))

/-- A thread that may hold the capture in the error phase. -/
def holdsCapture : Pc → Bool
  | .start _ point => openPoint point
  | .flush _ (.failRetire _ _) => true
  | .flush _ (.failEnd _) => true
  | _ => false

theorem holdsCapture_of_startOpen {pc : Pc} (h : startOpen pc=true) : holdsCapture pc=true := by
  cases pc with
  | start call point => exact h
  | _ => cases h

theorem settles_of_holdsCapture {pc : Pc} (h : holdsCapture pc=true) : settles pc=true := by
  cases pc with
  | start call point => cases point <;> first | rfl | cases h
  | flush resume point => cases point <;> first | rfl | cases h
  | _ => cases h

/-- What settles is inside the recovery. -/
theorem insideRecovery_of_settles {pc : Pc} (h : settles pc=true) : insideRecovery pc=true := by
  cases pc with
  | start call point => rfl
  | flush resume point => rfl
  | resetToIdle resume => exact h
  | _ => cases h

/-- Outside all calls there is no recovery. -/
theorem not_insideRecovery_of_outsideCalls {pc : Pc} (h : outsideCalls pc=true) :
    insideRecovery pc=false := by
  unfold outsideCalls at h
  split at h
  case h_6 => cases h
  all_goals rfl

/-- A resting thread is outside all calls. -/
theorem outsideCalls_of_resting {pc : Pc} (h : resting pc=true) : outsideCalls pc=true := by
  cases pc with
  | ready last => rfl
  | worker point => rfl
  | _ => cases h

/-- The error phase is entered only by the failure of the active session. -/
theorem error_apply {before : Core} {change : Effect} (h : (change.apply before).phase=.error) :
    before.phase=.error ∨ change=.fail := by
  cases change with
  | fail => exact .inr rfl
  | install id => cases h
  | abandon => cases h
  | discard => cases h
  | cancel => cases h
  | reset => cases h
  | postprocess => cases h
  | halt => cases h
  | submit order =>
    unfold Effect.apply at h
    dsimp only at h
    split at h
    · cases h
    · exact .inl h
  | _ => exact .inl h

/-- The failure of the active session goes on to cancel the session. -/
theorem next_of_fail {shared : Shared} {pc : Pc} (oracle : Oracle) (h : effect shared pc=.fail) :
    ∃ resume id after, (next oracle shared pc).2=.flush resume (.failRetire id after) := by
  cases origin_of_effect h with
  | @fail resume id after active =>
    refine ⟨resume,id,after,?_⟩
    simp only [next,nextFlush,if_neg (not_not.mpr active)]

/-- A step in the error phase found it, or goes on to cancel the failed
session. -/
theorem error_next {oracle : Oracle} {shared : Shared} {pc : Pc}
    (h : (next oracle shared pc).1.phase=.error) :
    shared.phase=.error ∨ holdsCapture (next oracle shared pc).2=true := by
  have hphase := congrArg Core.phase (core_next oracle shared pc)
  rcases error_apply (hphase.symm.trans h) with hbefore | hfail
  · exact .inl hbefore
  · right
    obtain ⟨resume,id,after,hnext⟩ := next_of_fail oracle hfail
    rw [hnext]
    rfl

/-- Whoever holds the capture does so until it no longer records. -/
theorem holdsCapture_next {oracle : Oracle} {shared : Shared} {pc : Pc}
    (h : holdsCapture pc=true) (herror : (next oracle shared pc).1.phase=.error) :
    holdsCapture (next oracle shared pc).2=true ∨
      (next oracle shared pc).1.capture.recording=false := by
  cases pc with
  | start call point =>
    have hopen : startOpen (.start call point)=true := h
    rcases startOpen_next hopen with hnext | hdisarmed | ⟨id,hinstall⟩
    · exact .inl (holdsCapture_of_startOpen hnext)
    · exact .inr hdisarmed
    · rw [(next_of_install oracle hinstall).1] at herror
      cases herror
  | flush resume point =>
    cases point with
    | failRetire id after => exact .inl rfl
    | failEnd after => exact .inr rfl
    | _ => cases h
  | _ => cases h

/-- Flushes keep their callers. -/
theorem wellCalled_next {oracle : Oracle} {shared : Shared} {pc : Pc} (h : wellCalled pc=true) :
    wellCalled (next oracle shared pc).2=true := by
  have hresume : ∀ resume : Resume, wellCalled resume.pc=true := by
    intro resume
    cases resume <;> rfl
  have hfinish : ∀ (apply : Bool) (result : MethodResult),
      wellCalled (finishMethod apply result)=true := by
    intro apply result
    cases apply <;> rfl
  cases pc with
  | ready last =>
    dsimp only [next]
    cases oracle.call <;> dsimp only [begin] <;> (repeat' split) <;> rfl
  | start call point =>
    cases point <;> dsimp only [next,nextStart] <;> (repeat' split) <;> rfl
  | stop ime sceneId point =>
    cases point <;> dsimp only [next,nextStop] <;> (repeat' split) <;>
      first | rfl | exact hfinish _ _
  | cancel ime commitRawText point =>
    cases point <;> dsimp only [next,nextCancel] <;> (repeat' split) <;>
      first | rfl | exact hfinish _ _
  | flush resume point =>
    cases point <;> dsimp only [next,nextFlush,popNext] <;> (repeat' split) <;>
      first | rfl | exact h | exact hresume _
  | worker point =>
    cases point <;> dsimp only [next,nextWorker] <;> (repeat' split) <;> rfl
  | shutdown point =>
    cases point <;> dsimp only [next,nextShutdown] <;> (repeat' split) <;> rfl
  | maybeApply resume =>
    dsimp only [next]
    split
    · exact hresume resume
    · rfl
  | synchronize resume => exact hresume resume
  | _ =>
    dsimp only [next,injectLocked]
    (repeat' split) <;> rfl

/-- A thread that leaves the error phase or is about to decide so. -/
def recovers (pc : Pc) : Bool := settles pc || flushDecides pc

/-- Invariant behind the error phase. -/
structure ErrorInv (pool : System) : Prop where
  /-- The mark is set only in the idle phase. -/
  marked : pool.shared.startRecordingInProgress=true → pool.shared.phase=.idle
  /-- A capture that records in the error phase is held by some thread. -/
  recording : pool.shared.phase=.error ∧ pool.shared.capture.recording=true →
    pool.Some holdsCapture
  /-- The error phase is left through some thread or the scheduled stop. -/
  owed : pool.shared.phase=.error ∧ pool.shared.pendingCaptureStop=false → pool.Some recovers
  /-- Flushes have their callers. -/
  called : ∀ t, wellCalled (pool.pcs t)=true

/-- In the error phase a teardown is skipped only for a capture that
records. -/
theorem recording_of_skip_error {shared : Shared} (herror : shared.phase=.error)
    (hmark : shared.startRecordingInProgress=true → shared.phase=.idle)
    (h : skipTeardown shared=true) : shared.capture.recording=true := by
  have hunmarked : shared.startRecordingInProgress=false := by
    by_contra hmarked
    have hidle := hmark (Bool.eq_true_of_not_eq_false hmarked)
    rw [herror] at hidle
    cases hidle
  simpa [skipTeardown,herror,hunmarked] using h

/-- A decision that is not skipped settles. -/
theorem settles_of_decides {oracle : Oracle} {shared : Shared} {pc : Pc}
    (hcalled : wellCalled pc=true) (h : flushDecides pc=true) (hskip : skipTeardown shared=false) :
    settles (next oracle shared pc).2=true := by
  unfold flushDecides at h
  split at h
  · dsimp only [next,nextFlush]
    rw [if_neg (Bool.eq_false_iff.mp hskip)]
    split
    · exact hcalled
    · exact hcalled
  · cases h

/-- A capture that records in the error phase stays with some thread. -/
theorem holdsCapture_debt {pool : System} {thread : ℕ} {oracle : Oracle} (inv : ErrorInv pool) :
    (machine pool (thread,oracle)).shared.phase=.error ∧
      (machine pool (thread,oracle)).shared.capture.recording=true →
      (machine pool (thread,oracle)).Some holdsCapture := by
  refine Pool.debt_step (fun shared : Shared => shared.phase=.error ∧
    shared.capture.recording=true) inv.recording ?_
  rintro ⟨herror,hrecording⟩
  cases hkind : holdsCapture (pool.pcs thread) with
  | true =>
    left
    rcases holdsCapture_next hkind herror with hnext | hdisarmed
    · exact hnext
    · exact absurd (hdisarmed.symm.trans hrecording) Bool.false_ne_true
  | false =>
    rcases error_next herror with hbefore | hnext
    · rcases recording_next hrecording with hrecorded | harmed
      · exact .inr (.inl ⟨⟨hbefore,hrecorded⟩,rfl⟩)
      · exact .inl (holdsCapture_of_startOpen (startOpen_of_startArmed harmed))
    · exact .inl hnext

/-- In the error phase every way out is kept: the threads on it go on, and a
skipped teardown is taken over by whoever holds the capture. -/
theorem recovers_debt {pool : System} {thread : ℕ} {oracle : Oracle} (inv : ErrorInv pool)
    (guarded : opensInError pool (thread,oracle)) :
    (machine pool (thread,oracle)).shared.phase=.error ∧
      (machine pool (thread,oracle)).shared.pendingCaptureStop=false →
      (machine pool (thread,oracle)).Some recovers := by
  refine Pool.debt_step (fun shared : Shared => shared.phase=.error ∧
    shared.pendingCaptureStop=false) inv.owed ?_
  rintro ⟨herror,hnone⟩
  have hsettled : ∀ pc, settles pc=true → recovers pc=true := by
    intro pc h
    unfold recovers
    rw [h]
    rfl
  rcases error_next herror with hbefore | hnext
  · obtain ⟨hopens,hdrops⟩ := guarded hbefore
    cases hsettles : settles (pool.pcs thread) with
    | true =>
      left
      rcases settles_next hbefore hsettles hopens with hscheduled | hidle | ⟨hnext,_⟩
      · exact absurd (hnone.symm.trans hscheduled) Bool.false_ne_true
      · rw [herror] at hidle
        cases hidle
      · exact hsettled _ hnext
    | false =>
      cases hdecides : flushDecides (pool.pcs thread) with
      | true =>
        cases hskip : skipTeardown pool.shared with
        | false => exact .inl (hsettled _ (settles_of_decides (inv.called thread) hdecides hskip))
        | true =>
          have hrecording := recording_of_skip_error hbefore inv.marked hskip
          rcases (inv.recording ⟨hbefore,hrecording⟩).self_or_other thread with hself | hother
          · exact absurd (hsettles.symm.trans (settles_of_holdsCapture hself))
              Bool.false_ne_true
          · exact .inr (.inr (hother.mono fun pc hholds =>
              hsettled pc (settles_of_holdsCapture hholds)))
      | false =>
        rcases pendingStop_next hnone with hwasnone | heffect | hnext | hshutdown
        · refine .inr (.inl ⟨⟨hbefore,hwasnone⟩,?_⟩)
          unfold recovers
          rw [hsettles,hdecides]
          rfl
        · have henabled := effect_enabled pool.shared (pool.pcs thread)
          rw [heffect] at henabled
          have hidle : pool.shared.phase=.idle := henabled.1
          rw [hbefore] at hidle
          cases hidle
        · left
          unfold recovers
          rw [hnext,Bool.or_true]
        · rw [hshutdown] at hdrops
          cases hdrops
  · exact .inl (hsettled _ (settles_of_holdsCapture hnext))

/-- Every step keeps the ways out of the error phase. -/
theorem machine_error (pool : System) (label : ℕ×Oracle) (inv : ErrorInv pool)
    (guarded : opensInError pool label) : ErrorInv (machine pool label) := by
  obtain ⟨thread,oracle⟩ := label
  refine ⟨?_,holdsCapture_debt inv,recovers_debt inv guarded,?_⟩
  · have hcore := core_next oracle pool.shared (pool.pcs thread)
    intro hmark
    have hafter := (congrArg Core.mark hcore).symm.trans hmark
    exact (congrArg Core.phase hcore).trans
      (idle_of_mark_apply (effect_enabled pool.shared (pool.pcs thread)) inv.marked hafter)
  · exact Pool.local_step (fun _ _ pc => wellCalled pc=true) inv.called
      (wellCalled_next (inv.called thread)) (fun _ _ h => h)

/-- The controller does not start in the error phase. -/
theorem startup_error : ErrorInv startup := by
  refine ⟨nofun,?_,?_,?_⟩
  · intro h
    cases h.1
  · intro h
    cases h.1
  · intro t
    by_cases ht : t=0
    · rw [ht]
      rfl
    · rw [startup_pcs ht]
      rfl

/-- In the error phase a stop is scheduled or some thread leads out. -/
theorem leads_of_error {pool : System} (inv : ErrorInv pool)
    (herror : pool.shared.phase=.error) :
    pool.shared.pendingCaptureStop=true ∨
      ∃ t, insideRecovery (pool.pcs t)=true ∧ Leads 10 pool.shared (pool.pcs t) := by
  have hsettled : ∀ t, settles (pool.pcs t)=true →
      insideRecovery (pool.pcs t)=true ∧ Leads 10 pool.shared (pool.pcs t) := by
    intro t h
    have hle := distance_le (pool.pcs t)
    exact ⟨insideRecovery_of_settles h,leads_of_settles herror h (by omega)⟩
  cases hstop : pool.shared.pendingCaptureStop with
  | true => exact .inl rfl
  | false =>
    right
    obtain ⟨t,hrecovers⟩ := inv.owed ⟨herror,hstop⟩
    rcases Bool.or_eq_true_iff.mp hrecovers with hsettles | hdecides
    · exact ⟨t,hsettled t hsettles⟩
    · cases hskip : skipTeardown pool.shared with
      | true =>
        have hrecording := recording_of_skip_error herror inv.marked hskip
        obtain ⟨other,hholds⟩ := inv.recording ⟨herror,hrecording⟩
        exact ⟨other,hsettled other (settles_of_holdsCapture hholds)⟩
      | false =>
        refine ⟨t,?_,?_⟩
        · unfold flushDecides at hdecides
          split at hdecides
          · rename_i hpc
            rw [hpc]
            rfl
          · cases hdecides
        · intro oracle hopens
          have hsame : (next oracle pool.shared (pool.pcs t)).1=pool.shared :=
            (flushDecides_next hdecides).1
          have hnext : settles (next oracle pool.shared (pool.pcs t)).2=true :=
            settles_of_decides (inv.called t) hdecides hskip
          have hle := distance_le (next oracle pool.shared (pool.pcs t)).2
          have hstays : (next oracle pool.shared (pool.pcs t)).1.phase=.error := by
            rw [hsame]
            exact herror
          exact .inr (.inr (leads_of_settles hstays hnext (Nat.lt_succ_of_le hle)))

/-- In every run in which no capture fails to open and `Shutdown` drops no
stop while the phase is error, the error phase is never permanent: a stop is
scheduled, or a thread inside a start, a flush or the failure of a session
leads out of it. So no state without calls and scheduled stop is in it. -/
theorem error_phase_left_of_run (schedule : List (ℕ×Oracle))
    (guarded : Along machine opensInError startup schedule) :
    ((run machine startup schedule).shared.phase=.error →
      (run machine startup schedule).shared.pendingCaptureStop=true ∨
        ∃ t, insideRecovery ((run machine startup schedule).pcs t)=true ∧
          Leads 10 (run machine startup schedule).shared
            ((run machine startup schedule).pcs t)) ∧
    ((run machine startup schedule).shared.pendingCaptureStop=false →
      (∀ t, outsideCalls ((run machine startup schedule).pcs t)=true) →
      (run machine startup schedule).shared.phase≠.error) := by
  have inv := guarded.invariant machine_error startup_error
  refine ⟨leads_of_error inv,?_⟩
  intro hnone houtside herror
  rcases leads_of_error inv herror with hscheduled | ⟨t,hinside,_⟩
  · exact Bool.false_ne_true (hnone.symm.trans hscheduled)
  · exact Bool.false_ne_true
      ((not_insideRecovery_of_outsideCalls (houtside t)).symm.trans hinside)

/-- The session of the active recording fails when it is polled. -/
def sessionFails : Oracle := {asyncFailure := some "backend gone"}

/-- A cancelled start installs its session on the mark of a later start. The
session fails, and the flush for it skips its teardown because the later
start has armed the capture, which then cannot be opened. -/
def failureDuringLateStart : List (ℕ×Oracle) :=
  arrives 1 startCall::goesOn 1 2++arrives 2 cancelCall::goesOn 2 4++
    arrives 2 startCall::goesOn 2 2++goesOn 1 6++
    arrives 3 .flushDeferredActions::goesOn 3 3++(3,sessionFails)::goesOn 3 5++
    goesOn 2 3++goesOn 3 1++(2,{capture := .failed "no device"})::goesOn 2 1

/-- The controller can get stuck in the error phase: the failed start gives
up without scheduling a stop, and the flush has already skipped its own. -/
theorem error_phase_stuck :
    ¬∀ schedule : List (ℕ×Oracle),
      (∀ label∈schedule, isShutdown label.2.call=false) →
      (run machine startup schedule).shared.pendingCaptureStop=false →
      (∀ t, outsideCalls ((run machine startup schedule).pcs t)=true) →
      (run machine startup schedule).shared.phase≠.error := by
  intro h
  have houtside : ∀ t, outsideCalls ((run machine startup failureDuringLateStart).pcs t)=true := by
    intro t
    have hrests := rests_of_bounded 4 (by decide)
      (show ∀ label∈failureDuringLateStart, label.1<4 by decide) (by decide) t
    exact outsideCalls_of_resting hrests
  exact absurd (h failureDuringLateStart (by decide) (by decide) houtside) (by decide)

/-- A recording whose session fails, up to the cancelling of the session. -/
def sessionFailure : List (ℕ×Oracle) :=
  arrives 1 startCall::goesOn 1 8++arrives 3 .flushDeferredActions::goesOn 3 3++
    (3,sessionFails)::goesOn 3 1

/-- After the failure of a session the flush leads out of the error phase. -/
theorem error_phase_left_after_failure :
    (run machine startup sessionFailure).shared.phase=.error ∧
      ∃ t, insideRecovery ((run machine startup sessionFailure).pcs t)=true ∧
        Leads 10 (run machine startup sessionFailure).shared
          ((run machine startup sessionFailure).pcs t) := by
  have herror : (run machine startup sessionFailure).shared.phase=.error := by decide
  have hnone : (run machine startup sessionFailure).shared.pendingCaptureStop=false := by decide
  refine ⟨herror,?_⟩
  rcases (error_phase_left_of_run sessionFailure (by decide)).1 herror with hscheduled | hleads
  · exact absurd (hnone.symm.trans hscheduled) Bool.false_ne_true
  · exact hleads

end Vinput.ControllerError
