import Vinput.ControllerStart

/-!
# Deferred work of the controller

A reload that arrives while the daemon is busy and the stop of a capture
whose start was given up are both left to somebody else through flags. Every
step has one effect on these flags, refined by the step function. Beside the
effects stand the ways: the kinds of threads that are bound to deal with a
flag, and how each of them goes on.
-/

namespace Vinput.ControllerDeferred

open InterleavedRuns RuntimePhases RuntimeController ControllerCore ControllerStart

section Flags

/-- The flags through which work is deferred. -/
structure Flags where
  /-- The capture records. -/
  recording : Bool
  /-- The main loop has to stop the capture. -/
  stop : Bool
  /-- A reload waits for the idle phase. -/
  reload : Bool

/-- The flags of a memory. -/
def flags (shared : Shared) : Flags :=
  ⟨shared.capture.recording,shared.pendingCaptureStop,shared.pendingAsrBackendReload⟩

/-- Effects of single steps on the flags. -/
inductive FlagEffect where
  /-- Nothing changes. -/
  | keep
  /-- The capture is armed. -/
  | arm
  /-- The capture no longer records. -/
  | disarm
  /-- A capture stop is scheduled. -/
  | schedule
  /-- The scheduled stop is taken or dropped. -/
  | unschedule
  /-- A reload is deferred. -/
  | defer
  /-- The deferred reload is taken. -/
  | apply

/-- What an effect makes of the flags. -/
def FlagEffect.after (before : Flags) : FlagEffect → Flags
  | .keep => before
  | .arm => {before with recording := true}
  | .disarm => {before with recording := false}
  | .schedule => {before with stop := true}
  | .unschedule => {before with stop := false}
  | .defer => {before with reload := true}
  | .apply => {before with reload := false}

/-- Effect on the flags of opening the capture. -/
def openEffect (reused : Bool) : CaptureOutcome → FlagEffect
  | .opened => .keep
  | .reopened => if reused then .disarm else .keep
  | .failed _ => .disarm

/-- Effect of one step of a thread on the flags. -/
def flagEffect (oracle : Oracle) (shared : Shared) : Pc → FlagEffect
  | .start _ .accept => if busyForStart shared then .keep else .unschedule
  | .start _ .arm => if oracle.reuse then .arm else .disarm
  | .start _ .armNew => .arm
  | .start _ (.armed reused) => openEffect reused oracle.capture
  | .start _ (.noSession _) => .disarm
  | .start _ (.noSessionSchedule _) => .schedule
  | .start _ .abort => .disarm
  | .start _ .abortSchedule => .schedule
  | .stop _ _ .capture => .disarm
  | .cancel _ _ (.capture _ _) => .disarm
  | .reload => if busyForStart shared then .defer else .keep
  | .expire => .disarm
  | .flush _ (.failEnd _) => .disarm
  | .flush _ (.failSchedule _) => .schedule
  | .flush _ .exchange => if shared.pendingCaptureStop then .unschedule else .keep
  | .flush _ .stop => .disarm
  | .maybeApply _ =>
    if !shared.pendingAsrBackendReload || shared.phase≠.idle then .keep else .apply
  | .shutdown .pending => .unschedule
  | .shutdown .stop => .disarm
  | _ => .keep

/-- Every step of every thread refines its effect on the flags. -/
theorem flags_next (oracle : Oracle) (shared : Shared) (pc : Pc) :
    flags (next oracle shared pc).1=(flagEffect oracle shared pc).after (flags shared) := by
  cases pc with
  | ready last =>
    dsimp only [next,flagEffect]
    cases oracle.call <;> dsimp only [begin] <;> (repeat' split) <;> rfl
  | start call point =>
    cases point with
    | armed reused =>
      dsimp only [next,nextStart,flagEffect]
      cases oracle.capture <;> dsimp only [openEffect] <;> (repeat' split) <;> rfl
    | _ =>
      dsimp only [next,nextStart,flagEffect]
      (repeat' split) <;> rfl
  | stop ime sceneId point =>
    cases point <;> dsimp only [next,nextStop,submitLocked,flagEffect] <;>
      (repeat' split) <;> rfl
  | cancel ime commitRawText point =>
    cases point <;> dsimp only [next,nextCancel,cancelLocked,cancelStartLocked,flagEffect] <;>
      (repeat' split) <;> rfl
  | flush resume point =>
    cases point <;> dsimp only [next,nextFlush,popNext,pushAudio,flagEffect] <;>
      (repeat' split) <;> rfl
  | worker point =>
    cases point <;> dsimp only [next,nextWorker,pushAudio,flagEffect] <;>
      (repeat' split) <;> rfl
  | shutdown point =>
    cases point <;> dsimp only [next,nextShutdown,flagEffect] <;> (repeat' split) <;> rfl
  | _ =>
    dsimp only [next,injectLocked,flagEffect]
    (repeat' split) <;> rfl

/-- A start that has just armed the capture. -/
def startArmed : Pc → Bool
  | .start _ (.armed _) => true
  | _ => false

/-- A flush before its decision on the teardown. -/
def flushDecides : Pc → Bool
  | .flush _ .decide => true
  | _ => false

/-- The capture is armed by a start on its way to open it. -/
theorem startArmed_of_arm {oracle : Oracle} {shared : Shared} {pc : Pc}
    (h : flagEffect oracle shared pc=.arm) : startArmed (next oracle shared pc).2=true := by
  unfold flagEffect at h
  split at h
  case h_2 call =>
    split at h
    · rename_i hreuse
      dsimp only [next,nextStart]
      rw [if_pos hreuse]
      rfl
    · cases h
  case h_3 call => rfl
  case h_4 call reused =>
    unfold openEffect at h
    (repeat' split at h) <;> cases h
  all_goals first | cases h | (split at h <;> cases h)

/-- The scheduled stop is dropped by an accepted start and by `Shutdown`, and
taken by a flush on its way to the decision. -/
theorem cases_of_unschedule {oracle : Oracle} {shared : Shared} {pc : Pc}
    (h : flagEffect oracle shared pc=.unschedule) :
    effect shared pc=.mark ∨ flushDecides (next oracle shared pc).2=true ∨
      pc=.shutdown .pending := by
  unfold flagEffect at h
  split at h
  case h_1 call =>
    split at h
    · cases h
    · rename_i hfree
      left
      dsimp only [effect]
      rw [if_neg hfree]
  case h_4 call reused =>
    unfold openEffect at h
    (repeat' split at h) <;> cases h
  case h_15 resume =>
    split at h
    · rename_i hpending
      right
      left
      dsimp only [next,nextFlush]
      rw [if_pos hpending]
      rfl
    · cases h
  case h_18 => exact .inr (.inr rfl)
  all_goals first | cases h | (split at h <;> cases h)

/-- A reload is deferred only by a step that finds and leaves the daemon
busy. -/
theorem busy_of_defer {oracle : Oracle} {shared : Shared} {pc : Pc}
    (h : flagEffect oracle shared pc=.defer) :
    busyForStart (next oracle shared pc).1=true := by
  unfold flagEffect at h
  split at h
  case h_4 call reused =>
    unfold openEffect at h
    (repeat' split at h) <;> cases h
  case h_11 =>
    split at h
    · rename_i hbusy
      dsimp only [next]
      rw [if_pos hbusy]
      exact hbusy
    · cases h
  all_goals first | cases h | (split at h <;> cases h)

/-- The capture records after a step because it did before, or because a
start has just armed it. -/
theorem recording_next {oracle : Oracle} {shared : Shared} {pc : Pc}
    (h : (next oracle shared pc).1.capture.recording=true) :
    shared.capture.recording=true ∨ startArmed (next oracle shared pc).2=true := by
  have hflags := congrArg Flags.recording (flags_next oracle shared pc)
  have hafter := hflags.symm.trans h
  cases hchange : flagEffect oracle shared pc with
  | arm => exact .inr (startArmed_of_arm hchange)
  | disarm =>
    rw [hchange] at hafter
    cases hafter
  | _ =>
    rw [hchange] at hafter
    exact .inl hafter

/-- A reload is deferred after a step because it was before, or because the
daemon is busy. -/
theorem pendingReload_next {oracle : Oracle} {shared : Shared} {pc : Pc}
    (h : (next oracle shared pc).1.pendingAsrBackendReload=true) :
    shared.pendingAsrBackendReload=true ∨ busyForStart (next oracle shared pc).1=true := by
  have hflags := congrArg Flags.reload (flags_next oracle shared pc)
  have hafter := hflags.symm.trans h
  cases hchange : flagEffect oracle shared pc with
  | defer => exact .inr (busy_of_defer hchange)
  | apply =>
    rw [hchange] at hafter
    cases hafter
  | _ =>
    rw [hchange] at hafter
    exact .inl hafter

/-- No stop is scheduled after a step because none was before, or because
the step took or dropped it. -/
theorem pendingStop_next {oracle : Oracle} {shared : Shared} {pc : Pc}
    (h : (next oracle shared pc).1.pendingCaptureStop=false) :
    shared.pendingCaptureStop=false ∨ effect shared pc=.mark ∨
      flushDecides (next oracle shared pc).2=true ∨ pc=.shutdown .pending := by
  have hflags := congrArg Flags.stop (flags_next oracle shared pc)
  have hafter := hflags.symm.trans h
  cases hchange : flagEffect oracle shared pc with
  | unschedule => exact .inr (cases_of_unschedule hchange)
  | schedule =>
    rw [hchange] at hafter
    cases hafter
  | _ =>
    rw [hchange] at hafter
    exact .inl hafter

end Flags

section Ways

/-- Points of a start that may leave the capture recording until a later
point clears the flag. -/
def openPoint : StartPoint → Bool
  | .drain => true
  | .arm => true
  | .armNew => true
  | .armed _ => true
  | .session => true
  | .noSession _ => true
  | .install _ _ => true
  | .abort => true
  | _ => false

/-- A thread whose start may have armed the capture. -/
def startOpen : Pc → Bool
  | .start _ point => openPoint point
  | _ => false

/-- A thread before the region that ends a start without a capture. -/
def startFailed : Pc → Bool
  | .start _ (.failed _) => true
  | _ => false

/-- A thread that will look at the deferred reload whatever happens. -/
def appliesReload : Pc → Bool
  | .maybeApply _ => true
  | .stop _ _ (.retire _ apply) => apply
  | .cancel _ _ (.capture _ apply) => apply
  | .cancel _ _ (.drain _ apply) => apply
  | .cancel _ _ (.retire _ apply) => apply
  | _ => false

theorem startOpen_of_startArmed {pc : Pc} (h : startArmed pc=true) : startOpen pc=true := by
  unfold startArmed at h
  split at h
  · rfl
  · cases h

theorem startAccepted_of_startMarked {pc : Pc} (h : startMarked pc=true) :
    startAccepted pc=true := by
  cases pc with
  | start call point => cases point <;> first | rfl | cases h
  | _ => cases h

theorem startAccepted_of_startOpen {pc : Pc} (h : startOpen pc=true) :
    startAccepted pc=true := by
  cases pc with
  | start call point => cases point <;> first | rfl | cases h
  | _ => cases h

/-- A start that may have armed the capture goes on so until it disarms it or
installs its session. -/
theorem startOpen_next {oracle : Oracle} {shared : Shared} {pc : Pc} (h : startOpen pc=true) :
    startOpen (next oracle shared pc).2=true ∨
      (next oracle shared pc).1.capture.recording=false ∨
      ∃ id, effect shared pc=.install id := by
  cases pc with
  | start call point =>
    cases point with
    | install id backend =>
      dsimp only [next,nextStart,effect]
      split
      · exact .inl rfl
      · exact .inr (.inr ⟨id,rfl⟩)
    | noSession error => exact .inr (.inl rfl)
    | abort => exact .inr (.inl rfl)
    | armed reused =>
      dsimp only [next,nextStart]
      cases oracle.capture with
      | opened => exact .inl rfl
      | reopened =>
        left
        dsimp only
        split
        · rfl
        · rfl
      | failed error => exact .inr (.inl rfl)
    | arm =>
      left
      dsimp only [next,nextStart]
      split
      · rfl
      · rfl
    | session =>
      left
      dsimp only [next,nextStart]
      split
      · rfl
      · rfl
    | drain => exact .inl rfl
    | armNew => exact .inl rfl
    | _ => cases h
  | _ => cases h

/-- An accepted start ends with a scheduled stop or with its session, unless
its capture failed. -/
theorem startAccepted_next {oracle : Oracle} {shared : Shared} {pc : Pc}
    (h : startAccepted pc=true) :
    startAccepted (next oracle shared pc).2=true ∨
      (next oracle shared pc).1.pendingCaptureStop=true ∨
      (∃ id, effect shared pc=.install id) ∨ startFailed pc=true := by
  cases pc with
  | start call point =>
    cases point with
    | enter => cases h
    | accept => cases h
    | failed error => exact .inr (.inr (.inr rfl))
    | noSessionSchedule error => exact .inr (.inl rfl)
    | abortSchedule => exact .inr (.inl rfl)
    | install id backend =>
      dsimp only [next,nextStart,effect]
      split
      · exact .inl rfl
      · exact .inr (.inr (.inl ⟨id,rfl⟩))
    | _ =>
      left
      dsimp only [next,nextStart]
      (repeat' split) <;> rfl
  | _ => cases h

/-- Whoever looks at the deferred reload takes it in the idle phase. -/
theorem appliesReload_next {oracle : Oracle} {shared : Shared} {pc : Pc}
    (h : appliesReload pc=true) :
    appliesReload (next oracle shared pc).2=true ∨
      (next oracle shared pc).1.pendingAsrBackendReload=false ∨
      (next oracle shared pc).1.phase≠.idle := by
  cases pc with
  | maybeApply resume =>
    right
    dsimp only [next]
    split
    · rename_i hleft
      rcases Bool.or_eq_true_iff.mp hleft with hnone | hphase
      · exact .inl (by simpa using hnone)
      · exact .inr (of_decide_eq_true hphase)
    · exact .inl rfl
  | stop ime sceneId point =>
    cases point with
    | retire session apply =>
      have happly : apply=true := h
      subst happly
      exact .inl rfl
    | _ => cases h
  | cancel ime commitRawText point =>
    cases point with
    | enter => cases h
    | capture session apply => exact .inl h
    | drain session apply => exact .inl h
    | retire session apply =>
      have happly : apply=true := h
      subst happly
      exact .inl rfl
  | _ => cases h

/-- Whoever owes a reset goes on to it, and looks at the deferred reload
after it. -/
theorem owesReset_progress {oracle : Oracle} {shared : Shared} {pc : Pc}
    (h : owesReset pc=true) :
    owesReset (next oracle shared pc).2=true ∨ appliesReload (next oracle shared pc).2=true := by
  cases pc with
  | resetToIdle resume => exact .inr rfl
  | worker point =>
    cases point with
    | loop => cases h
    | wait => cases h
    | done => cases h
    | _ =>
      left
      dsimp only [next,nextWorker]
      (repeat' split) <;> rfl
  | flush resume point =>
    cases point with
    | stop => exact .inl rfl
    | drain => exact .inl rfl
    | _ => cases h
  | _ => cases h

/-- A flush that decides for the teardown owes the reset. -/
theorem flushDecides_next {oracle : Oracle} {shared : Shared} {pc : Pc}
    (h : flushDecides pc=true) :
    (next oracle shared pc).1=shared ∧
      (owesReset (next oracle shared pc).2=true ∨ skipTeardown shared=true) := by
  unfold flushDecides at h
  split at h
  · dsimp only [next,nextFlush]
    split
    · exact ⟨rfl,.inr ‹_›⟩
    · split
      · exact ⟨rfl,.inl rfl⟩
      · exact ⟨rfl,.inl rfl⟩
  · cases h

/-- A stop that resets without an order looks at the deferred reload. -/
theorem appliesReload_of_stop {oracle : Oracle} {shared : Shared} {pc : Pc}
    (h : effect shared pc=.abandon ∨ effect shared pc=.discard) :
    appliesReload (next oracle shared pc).2=true := by
  have hstop : ∀ {ime sceneId pcm},
      submitEffect sceneId pcm shared=.abandon ∨ submitEffect sceneId pcm shared=.discard →
      appliesReload (next oracle shared (.stop ime sceneId (.submit pcm))).2=true := by
    intro ime sceneId pcm hends
    dsimp only [next,nextStop,appliesReload]
    unfold submitEffect at hends
    unfold submitLocked
    cases hactive : shared.active with
    | none => rfl
    | some id =>
      rw [hactive] at hends
      dsimp only at hends ⊢
      split at hends
      · rename_i hshort
        rw [if_pos hshort]
      · rcases hends with hends | hends <;> cases hends
  rcases h with h | h
  · cases origin_of_effect h with
    | abandon hends => exact hstop (.inl hends)
  · cases origin_of_effect h with
    | discard hends => exact hstop (.inr hends)

/-- A cancel that ends a recording looks at the reload if one is deferred. -/
theorem next_of_cancel {shared : Shared} {pc : Pc} (oracle : Oracle)
    (h : effect shared pc=.cancel) :
    appliesReload (next oracle shared pc).2=
      (next oracle shared pc).1.pendingAsrBackendReload := by
  cases origin_of_effect h with
  | cancel recording =>
    dsimp only [next,nextCancel]
    rw [cancelLocked_recording recording]
    rfl

/-- After a reset comes the look at the deferred reload. -/
theorem appliesReload_of_reset {oracle : Oracle} {shared : Shared} {pc : Pc}
    (h : effect shared pc=.reset) : appliesReload (next oracle shared pc).2=true := by
  cases origin_of_effect h with
  | reset => rfl

/-- Effects that can bring the controller to the idle phase. -/
theorem idle_apply {before : Core} {change : Effect} (h : (change.apply before).phase=.idle) :
    before.phase=.idle ∨ (change=.abandon ∨ change=.discard) ∨ change=.cancel ∨
      change=.reset ∨ change=.halt := by
  cases change with
  | install id => cases h
  | postprocess => cases h
  | abandon => exact .inr (.inl (.inl rfl))
  | discard => exact .inr (.inl (.inr rfl))
  | cancel => exact .inr (.inr (.inl rfl))
  | reset => exact .inr (.inr (.inr (.inl rfl)))
  | halt => exact .inr (.inr (.inr (.inr rfl)))
  | submit order =>
    unfold Effect.apply at h
    dsimp only at h
    split at h
    · cases h
    · exact .inl h
  | fail =>
    unfold Effect.apply at h
    dsimp only at h
    split at h
    · cases h
    · exact .inl h
  | _ => exact .inl h

/-- Whoever brings the controller to the idle phase looks at the deferred
reload, `Shutdown` apart. -/
theorem idle_next {oracle : Oracle} {shared : Shared} {pc : Pc}
    (hserving : shuttingDown pc=false) (h : (next oracle shared pc).1.phase=.idle)
    (hreload : (next oracle shared pc).1.pendingAsrBackendReload=true) :
    shared.phase=.idle ∨ appliesReload (next oracle shared pc).2=true := by
  have hphase := congrArg Core.phase (core_next oracle shared pc)
  rcases idle_apply (hphase.symm.trans h) with hbefore | hstop | hcancel | hreset | hhalt
  · exact .inl hbefore
  · exact .inr (appliesReload_of_stop hstop)
  · exact .inr ((next_of_cancel oracle hcancel).trans hreload)
  · exact .inr (appliesReload_of_reset hreset)
  · exact absurd (hserving.symm.trans (shuttingDown_of_halt hhalt)) Bool.false_ne_true

/-- Effects that can take the mark away. -/
theorem unmark_apply {before : Core} {change : Effect} (h : (change.apply before).mark=false) :
    before.mark=false ∨ (change=.unmark ∨ (∃ id, change=.install id) ∨ change=.cancel) ∨
      change=.reset ∨ change=.halt := by
  cases change with
  | mark => cases h
  | unmark => exact .inr (.inl (.inl rfl))
  | install id => exact .inr (.inl (.inr (.inl ⟨id,rfl⟩)))
  | cancel => exact .inr (.inl (.inr (.inr rfl)))
  | reset => exact .inr (.inr (.inl rfl))
  | halt => exact .inr (.inr (.inr rfl))
  | _ => exact .inl h

/-- The closing region of a start and a cancel take the mark away. -/
theorem unmarks_of_effect {shared : Shared} {pc : Pc}
    (h : effect shared pc=.unmark ∨ (∃ id, effect shared pc=.install id) ∨
      effect shared pc=.cancel) :
    startClosing pc=true ∨ cancelsStart shared pc=shared.startRecordingInProgress := by
  rcases h with h | ⟨id,h⟩ | h
  · cases origin_of_effect h with
    | failed => exact .inl rfl
    | noSession => exact .inl rfl
    | refused => exact .inl rfl
    | cancelStart => exact .inr rfl
  · cases origin_of_effect h with
    | install => exact .inl rfl
  · cases origin_of_effect h with
    | cancel => exact .inr rfl

/-- Only the closing region of a start and a cancel take a mark away without
a look at the deferred reload, `Shutdown` apart. -/
theorem unmark_next {oracle : Oracle} {shared : Shared} {pc : Pc}
    (hserving : shuttingDown pc=false)
    (h : (next oracle shared pc).1.startRecordingInProgress=false) :
    shared.startRecordingInProgress=false ∨
      (shared.startRecordingInProgress=true ∧
        (startClosing pc=true ∨ cancelsStart shared pc=true)) ∨
      appliesReload (next oracle shared pc).2=true := by
  have hmark := congrArg Core.mark (core_next oracle shared pc)
  rcases unmark_apply (hmark.symm.trans h) with hbefore | hunmarks | hreset | hhalt
  · exact .inl hbefore
  · cases hbefore : shared.startRecordingInProgress with
    | false => exact .inl rfl
    | true =>
      have hwho := unmarks_of_effect hunmarks
      rw [hbefore] at hwho
      exact .inr (.inl ⟨rfl,hwho⟩)
  · exact .inr (.inr (appliesReload_of_reset hreset))
  · exact absurd (hserving.symm.trans (shuttingDown_of_halt hhalt)) Bool.false_ne_true

/-- While a start is marked, a capture that records was armed by a start
that has not disarmed it. -/
theorem startOpen_debt {pool : System} {thread : ℕ} {oracle : Oracle}
    (inv : pool.shared.startRecordingInProgress=true ∧ pool.shared.capture.recording=true →
      pool.Some startOpen) :
    (machine pool (thread,oracle)).shared.startRecordingInProgress=true ∧
      (machine pool (thread,oracle)).shared.capture.recording=true →
      (machine pool (thread,oracle)).Some startOpen := by
  refine Pool.debt_step (fun shared : Shared => shared.startRecordingInProgress=true ∧
    shared.capture.recording=true) inv ?_
  rintro ⟨hmark,hrecording⟩
  cases hkind : startOpen (pool.pcs thread) with
  | true =>
    left
    rcases startOpen_next hkind with hnext | hdisarmed | ⟨id,hinstall⟩
    · exact hnext
    · exact absurd (hdisarmed.symm.trans hrecording) Bool.false_ne_true
    · exact absurd ((next_of_install oracle hinstall).2.symm.trans hmark) Bool.false_ne_true
  | false =>
    rcases mark_next hmark with hbefore | heffect
    · rcases recording_next hrecording with hrecorded | harmed
      · exact .inr (.inl ⟨⟨hbefore,hrecorded⟩,rfl⟩)
      · exact .inl (startOpen_of_startArmed harmed)
    · left
      obtain ⟨call,hnext⟩ := next_of_mark oracle heffect
      rw [hnext]
      rfl

end Ways

section Rest

/-- Outside any call and any order. -/
def resting : Pc → Bool
  | .ready _ => true
  | .worker .loop => true
  | .worker .wait => true
  | .worker .done => true
  | _ => false

/-- Threads outside a schedule rest, so only finitely many have to be looked
at. -/
theorem rests_of_bounded {schedule : List (ℕ×Oracle)} (bound : ℕ) (positive : 0<bound)
    (threads : ∀ label∈schedule, label.1<bound)
    (h : ∀ t<bound, resting ((run machine startup schedule).pcs t)=true) :
    ∀ t, resting ((run machine startup schedule).pcs t)=true := by
  intro t
  by_cases ht : t<bound
  · exact h t ht
  · have hunused : ∀ label∈schedule, label.1≠t := by
      intro label hlabel
      have hlt := threads label hlabel
      omega
    rw [Pool.run_pcs_of_unused hunused,startup_pcs (by omega)]
    rfl

end Rest

end Vinput.ControllerDeferred
