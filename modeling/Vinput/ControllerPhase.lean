import Vinput.ControllerCore

/-!
# Phase, session and the stop that ends them

Two properties of every interleaving of the controller. The recording phase
and the active session agree as long as no session is installed while a
thread still owes a reset. A stop ends the recording it was accepted for as
long as nothing else ends a recording between its two regions.
-/

namespace Vinput.ControllerPhase

open InterleavedRuns RuntimePhases RuntimeController ControllerCore

section Agreement

/-- The calls of a run without `Shutdown` in which a session is installed
only while no thread owes a reset. -/
def installsClear (pool : System) (label : ℕ×Oracle) : Prop :=
  isShutdown label.2.call=false ∧
    Pool.Alone (fun _ shared pc => installs shared pc) owesReset pool label

/-- Recording phase and active session agree. -/
def Agrees (before : Core) : Prop := before.phase=.recording ↔ before.active≠none

/-- No effect breaks the agreement except a reset during a recording and
the effects of `Shutdown`. -/
theorem agrees_apply {before : Core} {change : Effect} (enabled : change.Enabled before)
    (agrees : Agrees before) (hreset : change=.reset → before.phase≠.recording)
    (hhalt : change≠.halt) (hrelease : change≠.release) : Agrees (change.apply before) := by
  cases change with
  | keep => exact agrees
  | mark => exact agrees
  | unmark => exact agrees
  | install id => exact ⟨fun _ => nofun,fun _ => rfl⟩
  | abandon => exact ⟨nofun,fun hactive => absurd enabled hactive⟩
  | discard => exact ⟨nofun,fun hactive => absurd rfl hactive⟩
  | submit order =>
    have hrec := agrees.mpr enabled
    unfold Agrees Effect.apply
    dsimp only
    rw [if_pos hrec]
    exact ⟨nofun,fun hactive => absurd rfl hactive⟩
  | cancel => exact ⟨nofun,fun hactive => absurd rfl hactive⟩
  | inject order => exact agrees
  | fail =>
    have hrec := agrees.mpr enabled
    unfold Agrees Effect.apply
    dsimp only
    rw [if_pos hrec]
    exact ⟨nofun,fun hactive => absurd rfl hactive⟩
  | reset => exact ⟨nofun,fun hactive => absurd (agrees.mpr hactive) (hreset rfl)⟩
  | take => exact agrees
  | postprocess =>
    refine ⟨nofun,fun hactive => ?_⟩
    have hrec := agrees.mpr hactive
    rw [enabled] at hrec
    cases hrec
  | halt => exact absurd rfl hhalt
  | release => exact absurd rfl hrelease

/-- Invariant behind the agreement. -/
structure AgreeInv (pool : System) : Prop where
  /-- Phase and session agree. -/
  agrees : Agrees (core pool.shared)
  /-- A recording has no order beside it. -/
  empty : pool.shared.phase=.recording → pool.shared.currentOrder=.empty
  /-- No thread owes a reset during a recording. -/
  clear : pool.shared.phase=.recording → ¬pool.Some owesReset
  /-- Nobody shuts down. -/
  serving : ∀ t, shuttingDown (pool.pcs t)=false

/-- Every step that installs clear of resets keeps the agreement. -/
theorem machine_agrees (pool : System) (label : ℕ×Oracle) (inv : AgreeInv pool)
    (guarded : installsClear pool label) : AgreeInv (machine pool label) := by
  obtain ⟨thread,oracle⟩ := label
  obtain ⟨hcall,halone⟩ := guarded
  have henabled := effect_enabled pool.shared (pool.pcs thread)
  have hcore := core_next oracle pool.shared (pool.pcs thread)
  have hserving := inv.serving thread
  have hshut : ∀ kind : Effect, (kind=.halt ∨ kind=.release) →
      effect pool.shared (pool.pcs thread)≠kind := by
    rintro kind (rfl | rfl) heq
    · exact Bool.false_ne_true (hserving.symm.trans (shuttingDown_of_halt heq))
    · exact Bool.false_ne_true (hserving.symm.trans (shuttingDown_of_release heq))
  have hphase : (machine pool (thread,oracle)).shared.phase=
      ((effect pool.shared (pool.pcs thread)).apply (core pool.shared)).phase :=
    congrArg Core.phase hcore
  have hslot : (machine pool (thread,oracle)).shared.currentOrder=
      ((effect pool.shared (pool.pcs thread)).apply (core pool.shared)).slot :=
    congrArg Core.slot hcore
  refine ⟨?_,?_,?_,machine_serving hcall inv.serving⟩
  · rw [Pool.step_shared,hcore]
    refine agrees_apply henabled inv.agrees ?_ (hshut _ (.inl rfl)) (hshut _ (.inr rfl))
    intro hreset hrec
    exact inv.clear hrec ⟨thread,owesReset_of_effect hreset⟩
  · rw [hphase,hslot]
    exact slot_apply henabled inv.empty
  · rw [hphase]
    intro hrec hsome
    rcases recording_apply hrec with hbefore | ⟨id,hinstall⟩
    · rcases Pool.some_step_cases hsome with hself | hother
      · rcases owesReset_next hself with howes | htake | hdecides
        · exact inv.clear hbefore ⟨thread,howes⟩
        · rw [htake] at henabled
          exact henabled (inv.empty hbefore)
        · exact Bool.false_ne_true ((not_decidesTeardown hbefore _).symm.trans hdecides)
      · exact inv.clear hbefore hother.some
    · have hinstalls := installs_of_effect hinstall
      rcases Pool.some_step_cases hsome with hself | hother
      · exact Bool.false_ne_true ((owesReset_next_of_installs hinstalls).symm.trans hself)
      · exact halone hinstalls hother

/-- The controller starts idle, without a session or an order. -/
theorem startup_agrees : AgreeInv startup := by
  refine ⟨⟨nofun,fun hactive => absurd rfl hactive⟩,nofun,nofun,?_⟩
  intro t
  by_cases ht : t=0
  · rw [ht]
    rfl
  · rw [startup_pcs ht]
    rfl

/-- In every run whose sessions are installed clear of owed resets, the
phase is recording exactly while a session is active. -/
theorem recording_iff_active_of_clear_run (schedule : List (ℕ×Oracle))
    (guarded : Along machine installsClear startup schedule) :
    (run machine startup schedule).shared.phase=.recording ↔
      (run machine startup schedule).shared.active≠none :=
  (guarded.invariant machine_agrees startup_agrees).agrees

/-- An injected text is taken by the worker, a client starts to record, and
the worker finishes the injected text. -/
def startDuringInjectedOrder : List (ℕ×Oracle) :=
  arrives 1 injectCall::goesOn 1 1++goesOn 0 2++arrives 2 startCall::goesOn 2 8++goesOn 0 6

/-- Phase and session can disagree: the reset that ends the injected order
drives the new recording back to idle with its session installed. -/
theorem recording_reset_with_session :
    ¬∀ schedule : List (ℕ×Oracle),
      (∀ label∈schedule, isShutdown label.2.call=false) →
      ((run machine startup schedule).shared.phase=.recording ↔
        (run machine startup schedule).shared.active≠none) := by
  intro h
  exact absurd (h startDuringInjectedOrder (by decide)) (by decide)

/-- A recording that is started and not yet stopped. -/
def plainStart : List (ℕ×Oracle) := arrives 1 startCall::goesOn 1 8

/-- A plain start installs clear of resets and records with a session. -/
theorem recording_iff_active_after_start :
    (run machine startup plainStart).shared.phase=.recording ∧
      ((run machine startup plainStart).shared.phase=.recording ↔
        (run machine startup plainStart).shared.active≠none) :=
  ⟨by decide,recording_iff_active_of_clear_run plainStart (along_and.mpr ⟨by decide,
    Pool.along_alone 2 (.ready none) rfl (by decide) (fun t ht => startup_pcs (by omega))
      (by decide)⟩)⟩

end Agreement

section Stops

/-- How often sessions, orders and phases have been created so far. -/
structure Epochs where
  /-- Installed sessions. -/
  sessions : ℕ := 0
  /-- Stored orders. -/
  orders : ℕ := 0
  /-- Changes of the phase. -/
  phases : ℕ := 0
deriving DecidableEq

/-- The epochs after an effect. -/
def Epochs.after (before : Core) (change : Effect) (epochs : Epochs) : Epochs :=
  {sessions := match change with
    | .install _ => epochs.sessions+1
    | _ => epochs.sessions
   orders := match change with
    | .submit _ => epochs.orders+1
    | .inject _ => epochs.orders+1
    | _ => epochs.orders
   phases := if (change.apply before).phase=before.phase then epochs.phases
    else epochs.phases+1}

/-- History of the epochs and of the epoch in which each thread had its
stop accepted. -/
structure StopHistory where
  /-- The current epochs. -/
  now : Epochs := {}
  /-- Epochs of the last accepted stop of each thread. -/
  accepted : ℕ → Epochs := fun _ => {}

/-- The first region of a stop accepts in this step. -/
def acceptsStop (shared : Shared) : Pc → Bool
  | .stop _ _ .enter => decide (shared.phase=.recording)
  | _ => false

/-- The history reads every effect and every accepted stop. -/
def observeStops (history : StopHistory) (pool : System) (label : ℕ×Oracle) : StopHistory :=
  {now := history.now.after (core pool.shared) (effect pool.shared (pool.pcs label.1))
   accepted := if acceptsStop pool.shared (pool.pcs label.1) then
      Function.update history.accepted label.1 history.now else history.accepted}

/-- A stop between its two regions. -/
def betweenRegions : Pc → Bool
  | .stop _ _ .capture => true
  | .stop _ _ .drain => true
  | .stop _ _ (.submit _) => true
  | _ => false

/-- A region that ends a recording: a cancel, the second region of a stop,
the failure of the active session or a reset. -/
def endsRecording (shared : Shared) : Pc → Bool
  | .stop _ _ (.submit _) => decide (shared.phase=.recording)
  | .cancel _ _ .enter => decide (shared.phase=.recording)
  | .flush _ (.failActive id _) =>
    decide (shared.phase=.recording) && decide (shared.active=some id)
  | .resetToIdle _ => decide (shared.phase=.recording)
  | _ => false

/-- The calls of a run without `Shutdown` in which nothing ends a recording
while the stop of another thread is between its regions. -/
def endsAlone (pool : System) (label : ℕ×Oracle) : Prop :=
  isShutdown label.2.call=false ∧
    Pool.Alone (fun _ shared pc => endsRecording shared pc) betweenRegions pool label

/-- The second region of a stop runs in this step. -/
def submits : Pc → Bool
  | .stop _ _ (.submit _) => true
  | _ => false

/-- The second region of a stop touches nothing that was created after its
first region: no newer session, no newer phase and no newer order. -/
def EndsItsOwn (pair : System×StopHistory) (label : ℕ×Oracle) : Prop :=
  submits (pair.1.pcs label.1)=true →
    (pair.1.shared.active≠none →
      pair.2.now.sessions=(pair.2.accepted label.1).sessions) ∧
    (pair.1.shared.phase≠.idle → pair.2.now.phases=(pair.2.accepted label.1).phases) ∧
    (pair.1.shared.currentOrder≠.empty →
      pair.2.now.orders=(pair.2.accepted label.1).orders)

instance (pair : System×StopHistory) (label : ℕ×Oracle) : Decidable (EndsItsOwn pair label) :=
  inferInstanceAs (Decidable (_ → _ ∧ _ ∧ _))

/-- A recording that goes on starts no epoch. -/
theorem epochs_after_recording {before : Core} {change : Effect} {epochs : Epochs}
    (enabled : change.Enabled before) (hbefore : before.phase=.recording)
    (hafter : (change.apply before).phase=.recording) :
    epochs.after before change=epochs := by
  have hsame : (change.apply before).phase=before.phase := hafter.trans hbefore.symm
  unfold Epochs.after
  rw [if_pos hsame]
  cases change with
  | install id =>
    have hidle := enabled.1
    rw [hbefore] at hidle
    cases hidle
  | inject order =>
    have hidle : before.phase=.idle := enabled
    rw [hbefore] at hidle
    cases hidle
  | submit order =>
    unfold Effect.apply at hafter
    dsimp only at hafter
    rw [if_pos hbefore] at hafter
    cases hafter
  | _ => rfl

/-- A step that ends a recording is one of the regions that do. -/
theorem endsRecording_of_effect {shared : Shared} {pc : Pc} (hserving : shuttingDown pc=false)
    (hbefore : shared.phase=.recording)
    (hafter : ((effect shared pc).apply (core shared)).phase≠.recording) :
    endsRecording shared pc=true := by
  generalize hchange : effect shared pc=change at hafter
  cases origin_of_effect hchange with
  | abandon => exact decide_eq_true hbefore
  | discard => exact decide_eq_true hbefore
  | submit => exact decide_eq_true hbefore
  | cancel => exact decide_eq_true hbefore
  | cancelStart => exact decide_eq_true hbefore
  | reset => exact decide_eq_true hbefore
  | fail active => simp only [endsRecording,hbefore,active,decide_true,Bool.and_self]
  | install => exact absurd rfl hafter
  | postprocess inferring =>
    rw [hbefore] at inferring
    cases inferring
  | halt => cases hserving
  | retire => cases hserving
  | clear => cases hserving
  | _ => exact absurd hbefore hafter

/-- Invariant of the stops between their regions. -/
structure StopInv (pair : System×StopHistory) : Prop where
  /-- The accepted recording goes on and nothing new has been created. -/
  own : ∀ t, betweenRegions (pair.1.pcs t)=true →
    pair.1.shared.phase=.recording ∧ pair.2.now=pair.2.accepted t
  /-- Nobody shuts down. -/
  serving : ∀ t, shuttingDown (pair.1.pcs t)=false

/-- A thread is between the regions of a stop because its stop was just
accepted or was so before, and the step leaves the core alone. -/
theorem betweenRegions_next {oracle : Oracle} {shared : Shared} {pc : Pc}
    (h : betweenRegions (next oracle shared pc).2=true) :
    (acceptsStop shared pc=true ∧ shared.phase=.recording ∨
      betweenRegions pc=true ∧ acceptsStop shared pc=false) ∧ effect shared pc=.keep := by
  have hstop : routine pc=.stop := by
    refine routine_of_next betweenRegions ?_ ?_ h
    · intro pc hbetween
      cases pc <;> first | rfl | cases hbetween
    · intro pc hbetween
      cases pc with
      | stop ime sceneId point => cases point <;> first | rfl | cases hbetween
      | _ => cases hbetween
  cases pc with
  | stop ime sceneId point =>
    cases point with
    | enter =>
      dsimp only [next,nextStop] at h
      split at h
      · cases h
      · rename_i hrec
        have hphase := not_not.mp hrec
        exact ⟨.inl ⟨decide_eq_true hphase,hphase⟩,rfl⟩
    | capture => exact ⟨.inr ⟨rfl,rfl⟩,rfl⟩
    | drain => exact ⟨.inr ⟨rfl,rfl⟩,rfl⟩
    | submit pcm => cases h
    | retire session applyPendingReload => cases applyPendingReload <;> cases h
  | _ => cases hstop

/-- An effect that is none leaves phase and epochs. -/
theorem epochs_after_keep (before : Core) (epochs : Epochs) :
    epochs.after before .keep=epochs := by
  have hsame : (Effect.keep.apply before).phase=before.phase := rfl
  unfold Epochs.after
  rw [if_pos hsame]

/-- Every step that ends recordings alone keeps the stops to their own. -/
theorem machine_stops (pair : System×StopHistory) (label : ℕ×Oracle) (inv : StopInv pair)
    (guarded : endsAlone pair.1 label) :
    StopInv (observed machine observeStops pair label) := by
  obtain ⟨pool,history⟩ := pair
  obtain ⟨thread,oracle⟩ := label
  obtain ⟨hcall,halone⟩ := guarded
  have hphase : (machine pool (thread,oracle)).shared.phase=
      ((effect pool.shared (pool.pcs thread)).apply (core pool.shared)).phase :=
    congrArg Core.phase (core_next oracle pool.shared (pool.pcs thread))
  refine ⟨?_,machine_serving hcall inv.serving⟩
  intro t hbetween
  dsimp only [observed,observeStops] at hbetween ⊢
  by_cases ht : t=thread
  · subst ht
    rw [Pool.step_pcs_self] at hbetween
    obtain ⟨hwhy,hkeep⟩ := betweenRegions_next hbetween
    rw [hphase,hkeep,epochs_after_keep]
    rcases hwhy with ⟨haccepts,hrec⟩ | ⟨hbefore,haccepts⟩
    · rw [if_pos haccepts,Function.update_self]
      exact ⟨hrec,rfl⟩
    · rw [if_neg (Bool.eq_false_iff.mp haccepts)]
      exact inv.own t hbefore
  · rw [Pool.step_pcs_of_ne ht] at hbetween
    obtain ⟨hrec,hown⟩ := inv.own t hbetween
    have hgoes : ((effect pool.shared (pool.pcs thread)).apply (core pool.shared)).phase=
        .recording := by
      by_contra hends
      exact halone (endsRecording_of_effect (inv.serving thread) hrec hends) ⟨t,ht,hbetween⟩
    have hepochs : history.now.after (core pool.shared) (effect pool.shared (pool.pcs thread))=
        history.now :=
      epochs_after_recording (effect_enabled pool.shared (pool.pcs thread)) hrec hgoes
    refine ⟨hphase.trans hgoes,?_⟩
    rw [hepochs]
    split
    · rw [Function.update_of_ne ht]
      exact hown
    · exact hown

/-- No stop is under way at the start. -/
theorem startup_stops : StopInv (startup,{}) := by
  refine ⟨?_,startup_agrees.serving⟩
  intro t hbetween
  by_cases ht : t=0
  · rw [ht] at hbetween
    cases hbetween
  · rw [startup_pcs ht] at hbetween
    cases hbetween

/-- A stop at its second region is between its regions. -/
theorem betweenRegions_of_submits {pc : Pc} (h : submits pc=true) : betweenRegions pc=true := by
  unfold submits at h
  split at h
  · rfl
  · cases h

/-- In every run in which nothing ends a recording between the regions of
another stop, every stop ends only the recording it was accepted for. -/
theorem stop_ends_its_own_of_alone_run (schedule : List (ℕ×Oracle))
    (guarded : Along machine endsAlone startup schedule) :
    Along (observed machine observeStops) EndsItsOwn (startup,{}) schedule := by
  have watched : Along (observed machine observeStops)
      (fun pair label => endsAlone pair.1 label) (startup,{}) schedule :=
    (along_observed endsAlone).mpr guarded
  refine watched.everyStep machine_stops ?_ startup_stops
  intro pair label inv _ hsubmits
  obtain ⟨_,hown⟩ := inv.own label.1 (betweenRegions_of_submits hsubmits)
  rw [hown]
  exact ⟨fun _ => rfl,fun _ => rfl,fun _ => rfl⟩

/-- A stop is accepted, the recording is cancelled and a new one started,
and then the stop takes its second region. -/
def restartBetweenRegions : List (ℕ×Oracle) :=
  arrives 1 startCall::goesOn 1 8++arrives 1 (.stopRecording true "")::goesOn 1 3++
    arrives 2 (.cancelOperation true false)::goesOn 2 4++arrives 2 startCall::goesOn 2 8++
    goesOn 1 1

/-- A stop can end another recording than its own: the session of the new
recording is discarded as too short. -/
theorem stop_ends_newer_recording :
    ¬∀ schedule : List (ℕ×Oracle),
      (∀ label∈schedule, isShutdown label.2.call=false) →
      Along (observed machine observeStops) EndsItsOwn (startup,{}) schedule := by
  intro h
  exact absurd (h restartBetweenRegions (by decide)) (by decide)

/-- A recording that is started and stopped by one client. -/
def startThenStop : List (ℕ×Oracle) :=
  arrives 1 startCall::goesOn 1 8++arrives 1 (.stopRecording true "")::goesOn 1 5

/-- The stop of the only client ends its own recording. -/
theorem stop_ends_its_own_after_start :
    Along (observed machine observeStops) EndsItsOwn (startup,{}) startThenStop :=
  stop_ends_its_own_of_alone_run startThenStop (along_and.mpr ⟨by decide,
    Pool.along_alone 2 (.ready none) rfl (by decide) (fun t ht => startup_pcs (by omega))
      (by decide)⟩)

end Stops

end Vinput.ControllerPhase
