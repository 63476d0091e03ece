import Mathlib.Data.List.Perm.Basic
import Vinput.ControllerCore

/-!
# No order is lost or run twice

Every order that a stop or an injected text stores gets the next number, and
a ledger follows each number through the single slot: taken by the worker,
discarded by a cancel, or still waiting. An injected text leaves the phase
idle, so nothing but the timing protects its order; under that timing the
ledger accounts for every number exactly once and the worker takes what
waits within four of its own steps.
-/

namespace Vinput.ControllerOrders

open InterleavedRuns RuntimePhases RuntimeController ControllerCore

/-- The slot holds an order the worker has not taken. -/
def isQueued : OrderSlot → Bool
  | .queued _ => true
  | _ => false

/-- Numbers of all stored orders and what became of them. -/
structure Ledger where
  /-- Orders stored so far. -/
  stored : ℕ := 0
  /-- Number of the order in the slot. -/
  waiting : Option ℕ := none
  /-- Numbers the worker has taken. -/
  taken : List ℕ := []
  /-- Numbers a cancel has discarded. -/
  discarded : List ℕ := []

/-- A new order replaces whatever waits. -/
def Ledger.store (ledger : Ledger) : Ledger :=
  {ledger with stored := ledger.stored+1,waiting := some ledger.stored}

/-- The ledger after an effect. An order that is overwritten, or reset by
anything but a cancel, disappears from it. -/
def Ledger.after (ledger : Ledger) : Effect → Ledger
  | .submit _ => ledger.store
  | .inject _ => ledger.store
  | .take => {ledger with waiting := none,taken := ledger.taken++ledger.waiting.toList}
  | .cancel => {ledger with waiting := none,discarded := ledger.discarded++ledger.waiting.toList}
  | .install _ => {ledger with waiting := none}
  | .abandon => {ledger with waiting := none}
  | .discard => {ledger with waiting := none}
  | .reset => {ledger with waiting := none}
  | _ => ledger

/-- The ledger reads every effect. -/
def observeOrders (ledger : Ledger) (pool : System) (label : ℕ×Oracle) : Ledger :=
  ledger.after (effect pool.shared (pool.pcs label.1))

/-- An injected text is accepted in this step. -/
def injects (shared : Shared) : Pc → Bool
  | .inject _ _ _ => decide (shared.phase=.idle)
  | _ => false

/-- A text is accepted, a session installed or a teardown decided only
while no order waits, and a stop finds its recording still going on. -/
def slotFree (pool : System) (label : ℕ×Oracle) : Bool :=
  match pool.pcs label.1 with
  | .inject _ _ _ => decide (pool.shared.phase≠.idle) || !isQueued pool.shared.currentOrder
  | .start call (.install id backend) =>
    !installs pool.shared (.start call (.install id backend)) ||
      !isQueued pool.shared.currentOrder
  | .flush _ .decide => skipTeardown pool.shared || !isQueued pool.shared.currentOrder
  | .stop _ _ (.submit _) => decide (pool.shared.phase=.recording)
  | _ => true

/-- The slot is free where it is used, and neither a text is accepted nor a
session installed while another thread owes a reset. -/
def ordersApart (pool : System) (label : ℕ×Oracle) : Prop :=
  slotFree pool label=true ∧
    Pool.Alone (fun _ shared pc => installs shared pc || injects shared pc) owesReset pool label

/-- Every stored number is taken once, discarded once or waits. -/
def Ledger.Accounted (ledger : Ledger) : Prop :=
  (List.range ledger.stored).Perm (ledger.taken++ledger.discarded++ledger.waiting.toList)

/-- Storing into a free slot keeps the account. -/
theorem accounted_store {ledger : Ledger} (h : ledger.Accounted) (free : ledger.waiting=none) :
    ledger.store.Accounted := by
  unfold Ledger.Accounted at h ⊢
  rw [free,Option.toList_none,List.append_nil] at h
  dsimp only [Ledger.store,Option.toList_some]
  rw [List.range_succ]
  exact h.append_right _

/-- Taking from the slot keeps the account. -/
theorem accounted_take {ledger : Ledger} (h : ledger.Accounted) :
    (ledger.after .take).Accounted := by
  unfold Ledger.Accounted at h ⊢
  dsimp only [Ledger.after,Option.toList_none]
  rw [List.append_nil]
  refine h.trans ?_
  rw [List.append_assoc,List.append_assoc]
  exact (List.perm_append_comm).append_left _

/-- A cancel keeps the account. -/
theorem accounted_cancel {ledger : Ledger} (h : ledger.Accounted) :
    (ledger.after .cancel).Accounted := by
  unfold Ledger.Accounted at h ⊢
  dsimp only [Ledger.after,Option.toList_none]
  rw [List.append_nil,←List.append_assoc]
  exact h

/-- A free slot may be reset. -/
theorem accounted_free {ledger : Ledger} (h : ledger.Accounted) (free : ledger.waiting=none) :
    Ledger.Accounted {ledger with waiting := none} := by
  unfold Ledger.Accounted at h ⊢
  rw [free] at h
  exact h

/-- The core is exposed to a reset: a recording goes on or an order waits. -/
def Exposed (before : Core) : Prop := before.phase=.recording ∨ isQueued before.slot=true

/-- Invariant of slot and ledger. -/
structure OrderInv (pair : System×Ledger) : Prop where
  /-- Every number is accounted for. -/
  accounted : pair.2.Accounted
  /-- A number waits exactly while an order does. -/
  waiting : pair.2.waiting.isSome=isQueued pair.1.shared.currentOrder
  /-- A recording has no order beside it. -/
  empty : pair.1.shared.phase=.recording → pair.1.shared.currentOrder=.empty
  /-- No thread owes a reset while the core is exposed to it. -/
  clear : Exposed (core pair.1.shared) → ¬pair.1.Some owesReset

/-- A thread that owes a reset only enters post-processing or resets. -/
theorem effect_of_owesReset {shared : Shared} {pc : Pc} (h : owesReset pc=true) :
    effect shared pc=.keep ∨ effect shared pc=.postprocess ∨ effect shared pc=.reset := by
  cases pc with
  | worker point =>
    cases point with
    | enter order =>
      dsimp only [effect]
      split
      · exact .inr (.inl rfl)
      · exact .inl rfl
    | loop => cases h
    | wait => cases h
    | done => cases h
    | _ => exact .inl rfl
  | resetToIdle resume => exact .inr (.inr rfl)
  | flush resume point =>
    cases point with
    | stop => exact .inl rfl
    | drain => exact .inl rfl
    | _ => cases h
  | _ => cases h

/-- A teardown is decided without any effect. -/
theorem effect_of_decidesTeardown {shared : Shared} {pc : Pc}
    (h : decidesTeardown shared pc=true) : effect shared pc=.keep := by
  unfold decidesTeardown at h
  split at h
  · rfl
  · cases h

/-- The core becomes exposed only by an installation or a stored order. -/
theorem exposed_apply {before : Core} {change : Effect} (h : Exposed (change.apply before)) :
    Exposed before ∨ (∃ id, change=.install id) ∨ (∃ order, change=.submit order) ∨
      ∃ order, change=.inject order := by
  rcases h with hrec | hqueued
  · rcases recording_apply hrec with hbefore | hinstall
    · exact .inl (.inl hbefore)
    · exact .inr (.inl hinstall)
  · cases change with
    | submit order => exact .inr (.inr (.inl ⟨order,rfl⟩))
    | inject order => exact .inr (.inr (.inr ⟨order,rfl⟩))
    | install id => exact .inr (.inl ⟨id,rfl⟩)
    | abandon => cases hqueued
    | discard => cases hqueued
    | cancel => cases hqueued
    | reset => cases hqueued
    | take => cases hqueued
    | _ => exact .inl (.inr hqueued)

/-- An order of an injected text comes from a thread that injects. -/
theorem injects_of_effect {shared : Shared} {pc : Pc} {order : RecognitionOrder}
    (h : effect shared pc=.inject order) : injects shared pc=true := by
  cases origin_of_effect h with
  | inject idle => exact decide_eq_true idle

/-- A recording is ended by a stop only in its second region. -/
theorem stop_of_effect {shared : Shared} {pc : Pc}
    (h : effect shared pc=.abandon ∨ effect shared pc=.discard ∨
      ∃ order, effect shared pc=.submit order) :
    ∃ ime sceneId pcm, pc=.stop ime sceneId (.submit pcm) := by
  rcases h with h | h | ⟨order,h⟩
  · cases origin_of_effect h with
    | abandon => exact ⟨_,_,_,rfl⟩
  · cases origin_of_effect h with
    | discard => exact ⟨_,_,_,rfl⟩
  · cases origin_of_effect h with
    | submit => exact ⟨_,_,_,rfl⟩

/-- A free slot at an installation. -/
theorem slotFree_install {pool : System} {thread : ℕ} {oracle : Oracle}
    (h : slotFree pool (thread,oracle)=true)
    (hinstalls : installs pool.shared (pool.pcs thread)=true) :
    isQueued pool.shared.currentOrder=false := by
  unfold slotFree at h
  dsimp only at h
  cases hpc : pool.pcs thread with
  | start call point =>
    rw [hpc] at h hinstalls
    cases point with
    | install id backend =>
      dsimp only at h
      rw [hinstalls,Bool.not_true,Bool.false_or,Bool.not_eq_true'] at h
      exact h
    | _ => cases hinstalls
  | _ =>
    rw [hpc] at hinstalls
    cases hinstalls

/-- A free slot at an accepted text. -/
theorem slotFree_inject {pool : System} {thread : ℕ} {oracle : Oracle}
    (h : slotFree pool (thread,oracle)=true)
    (hinjects : injects pool.shared (pool.pcs thread)=true) :
    isQueued pool.shared.currentOrder=false := by
  unfold slotFree at h
  dsimp only at h
  cases hpc : pool.pcs thread with
  | inject ime text sceneId =>
    rw [hpc] at h hinjects
    have hidle := of_decide_eq_true hinjects
    simp only [hidle,ne_eq,not_true_eq_false,decide_false,Bool.false_or,Bool.not_eq_true'] at h
    exact h
  | _ =>
    rw [hpc] at hinjects
    cases hinjects

/-- A free slot at the decision on a teardown. -/
theorem slotFree_teardown {pool : System} {thread : ℕ} {oracle : Oracle}
    (h : slotFree pool (thread,oracle)=true)
    (hdecides : decidesTeardown pool.shared (pool.pcs thread)=true) :
    isQueued pool.shared.currentOrder=false := by
  unfold slotFree at h
  dsimp only at h
  cases hpc : pool.pcs thread with
  | flush resume point =>
    rw [hpc] at h hdecides
    cases point with
    | decide =>
      have hskip : skipTeardown pool.shared=false := by
        simpa only [decidesTeardown,Bool.not_eq_true'] using hdecides
      dsimp only at h
      rw [hskip,Bool.false_or,Bool.not_eq_true'] at h
      exact h
    | _ => cases hdecides
  | _ =>
    rw [hpc] at hdecides
    cases hdecides

/-- A stop in its second region finds its recording. -/
theorem slotFree_stop {pool : System} {thread : ℕ} {oracle : Oracle}
    (h : slotFree pool (thread,oracle)=true)
    (hstop : ∃ ime sceneId pcm, pool.pcs thread=.stop ime sceneId (.submit pcm)) :
    pool.shared.phase=.recording := by
  obtain ⟨ime,sceneId,pcm,hpc⟩ := hstop
  unfold slotFree at h
  dsimp only at h
  rw [hpc] at h
  exact of_decide_eq_true h

section Step

variable {pool : System} {ledger : Ledger} {thread : ℕ} {oracle : Oracle}

/-- No number waits when the slot is not queued. -/
theorem waiting_none (inv : OrderInv (pool,ledger))
    (free : isQueued pool.shared.currentOrder=false) : ledger.waiting=none := by
  have hwaiting := inv.waiting
  dsimp only at hwaiting
  rw [free] at hwaiting
  exact Option.isSome_eq_false_iff.mp hwaiting |> Option.isNone_iff_eq_none.mp

/-- No number waits during a recording. -/
theorem waiting_none_recording (inv : OrderInv (pool,ledger))
    (hrec : pool.shared.phase=.recording) : ledger.waiting=none := by
  have hempty := inv.empty hrec
  dsimp only at hempty
  refine waiting_none inv ?_
  rw [hempty]
  rfl

/-- Every step in the free slots keeps the account. -/
theorem accounted_step (inv : OrderInv (pool,ledger))
    (guarded : ordersApart pool (thread,oracle)) :
    (ledger.after (effect pool.shared (pool.pcs thread))).Accounted := by
  obtain ⟨hfree,_⟩ := guarded
  have hacc := inv.accounted
  cases hchange : effect pool.shared (pool.pcs thread) with
  | submit order =>
    have hrec := slotFree_stop hfree (stop_of_effect (.inr (.inr ⟨order,hchange⟩)))
    exact accounted_store hacc (waiting_none_recording inv hrec)
  | inject order =>
    exact accounted_store hacc
      (waiting_none inv (slotFree_inject hfree (injects_of_effect hchange)))
  | take => exact accounted_take hacc
  | cancel => exact accounted_cancel hacc
  | install id =>
    exact accounted_free hacc
      (waiting_none inv (slotFree_install hfree (installs_of_effect hchange)))
  | abandon =>
    have hrec := slotFree_stop hfree (stop_of_effect (.inl hchange))
    exact accounted_free hacc (waiting_none_recording inv hrec)
  | discard =>
    have hrec := slotFree_stop hfree (stop_of_effect (.inr (.inl hchange)))
    exact accounted_free hacc (waiting_none_recording inv hrec)
  | reset =>
    refine accounted_free hacc (waiting_none inv ?_)
    by_contra hqueued
    exact inv.clear (.inr (Bool.eq_true_of_not_eq_false hqueued))
      ⟨thread,owesReset_of_effect hchange⟩
  | _ => exact hacc

/-- Slot and ledger stay in step. -/
theorem waiting_step (inv : OrderInv (pool,ledger)) :
    (ledger.after (effect pool.shared (pool.pcs thread))).waiting.isSome=
      isQueued ((effect pool.shared (pool.pcs thread)).apply (core pool.shared)).slot := by
  cases effect pool.shared (pool.pcs thread) with
  | submit order => rfl
  | inject order => rfl
  | take => rfl
  | cancel => rfl
  | install id => rfl
  | abandon => rfl
  | discard => rfl
  | reset => rfl
  | _ => exact inv.waiting

/-- No step exposes the core to an owed reset. -/
theorem clear_step (inv : OrderInv (pool,ledger)) (guarded : ordersApart pool (thread,oracle))
    (hexposed : Exposed ((effect pool.shared (pool.pcs thread)).apply (core pool.shared))) :
    ¬(machine pool (thread,oracle)).Some owesReset := by
  obtain ⟨hfree,halone⟩ := guarded
  have henabled := effect_enabled pool.shared (pool.pcs thread)
  intro hsome
  rcases Pool.some_step_cases hsome with hself | hother
  · rcases owesReset_next hself with howes | htake | hdecides
    · have hbefore : Exposed (core pool.shared) := by
        rcases effect_of_owesReset howes with he | he | he
        · rw [he] at hexposed
          exact hexposed
        · rw [he] at hexposed
          rcases hexposed with hrec | hqueued
          · cases hrec
          · exact .inr hqueued
        · rw [he] at hexposed
          rcases hexposed with hrec | hqueued
          · cases hrec
          · cases hqueued
      exact inv.clear hbefore ⟨thread,howes⟩
    · rw [htake] at hexposed henabled
      rcases hexposed with hrec | hqueued
      · exact henabled (inv.empty hrec)
      · cases hqueued
    · rw [effect_of_decidesTeardown hdecides] at hexposed
      rcases hexposed with hrec | hqueued
      · exact Bool.false_ne_true ((not_decidesTeardown hrec _).symm.trans hdecides)
      · exact Bool.false_ne_true ((slotFree_teardown hfree hdecides).symm.trans hqueued)
  · rcases exposed_apply hexposed with hbefore | ⟨id,he⟩ | ⟨order,he⟩ | ⟨order,he⟩
    · exact inv.clear hbefore hother.some
    · refine halone ?_ hother
      dsimp only
      rw [installs_of_effect he,Bool.true_or]
    · have hrec := slotFree_stop hfree (stop_of_effect (.inr (.inr ⟨order,he⟩)))
      exact inv.clear (.inl hrec) hother.some
    · refine halone ?_ hother
      dsimp only
      rw [injects_of_effect he,Bool.or_true]

end Step

/-- Every step that keeps orders apart keeps slot and ledger. -/
theorem machine_orders (pair : System×Ledger) (label : ℕ×Oracle) (inv : OrderInv pair)
    (guarded : ordersApart pair.1 label) :
    OrderInv (observed machine observeOrders pair label) := by
  obtain ⟨pool,ledger⟩ := pair
  obtain ⟨thread,oracle⟩ := label
  have hcore := core_next oracle pool.shared (pool.pcs thread)
  have hphase : (machine pool (thread,oracle)).shared.phase=
      ((effect pool.shared (pool.pcs thread)).apply (core pool.shared)).phase :=
    congrArg Core.phase hcore
  have hslot : (machine pool (thread,oracle)).shared.currentOrder=
      ((effect pool.shared (pool.pcs thread)).apply (core pool.shared)).slot :=
    congrArg Core.slot hcore
  refine ⟨accounted_step inv guarded,?_,?_,?_⟩
  · dsimp only [observed,observeOrders]
    rw [hslot]
    exact waiting_step inv
  · dsimp only [observed]
    rw [hphase,hslot]
    exact slot_apply (effect_enabled pool.shared (pool.pcs thread)) inv.empty
  · dsimp only [observed]
    rw [Pool.step_shared,hcore]
    exact clear_step inv guarded

/-- The slot is empty at the start. -/
theorem startup_orders : OrderInv (startup,{}) := by
  refine ⟨List.Perm.nil,rfl,nofun,?_⟩
  rintro (hrec | hqueued)
  · cases hrec
  · cases hqueued

section Progress

/-- Points of the worker thread: its own and the tails it runs. -/
def ofWorker : Pc → Bool
  | .worker _ => true
  | .resetToIdle .worker => true
  | .maybeApply .worker => true
  | .synchronize .worker => true
  | _ => false

/-- The worker thread has ended. -/
def hasEnded : Pc → Bool
  | .worker .done => true
  | _ => false

/-- The worker thread stays in its own code. -/
theorem ofWorker_next {oracle : Oracle} {shared : Shared} {pc : Pc} (h : ofWorker pc=true) :
    ofWorker (next oracle shared pc).2=true := by
  cases pc with
  | worker point =>
    cases point <;> dsimp only [next,nextWorker] <;> (repeat' split) <;> rfl
  | resetToIdle resume =>
    cases resume with
    | worker => rfl
    | _ => cases h
  | maybeApply resume =>
    cases resume with
    | worker =>
      dsimp only [next]
      split
      · rfl
      · rfl
    | _ => cases h
  | synchronize resume =>
    cases resume with
    | worker => rfl
    | _ => cases h
  | _ => cases h

/-- Only a stopped worker loop ends the worker. -/
theorem hasEnded_next {oracle : Oracle} {shared : Shared} {pc : Pc} (hworker : ofWorker pc=true)
    (h : hasEnded (next oracle shared pc).2=true) :
    hasEnded pc=true ∨ shared.workerRunning=false := by
  cases pc with
  | worker point =>
    cases point with
    | done => exact .inl rfl
    | loop =>
      dsimp only [next,nextWorker] at h
      split at h
      · cases h
      · rename_i hrunning
        exact .inr (Bool.eq_false_of_not_eq_true hrunning)
    | wait =>
      dsimp only [next,nextWorker] at h
      split at h
      · cases h
      · cases h
      · split at h
        · cases h
        · rename_i hrunning
          exact .inr (Bool.eq_false_of_not_eq_true hrunning)
    | _ =>
      dsimp only [next,nextWorker] at h
      (repeat' split at h) <;> cases h
  | resetToIdle resume => cases h
  | maybeApply resume =>
    cases resume with
    | worker =>
      dsimp only [next] at h
      split at h
      · cases h
      · cases h
    | _ => cases hworker
  | synchronize resume =>
    cases resume with
    | worker => cases h
    | _ => cases hworker
  | _ => cases hworker

/-- The worker loop is never switched on again. -/
theorem workerRunning_next {oracle : Oracle} {shared : Shared} {pc : Pc}
    (h : shared.workerRunning=false) : (next oracle shared pc).1.workerRunning=false := by
  cases pc with
  | ready last =>
    dsimp only [next]
    cases oracle.call <;> dsimp only [begin] <;> (repeat' split) <;> exact h
  | start call point =>
    cases point <;> dsimp only [next,nextStart] <;> (repeat' split) <;> exact h
  | stop ime sceneId point =>
    cases point <;> dsimp only [next,nextStop,submitLocked] <;> (repeat' split) <;> exact h
  | cancel ime commitRawText point =>
    cases point <;> dsimp only [next,nextCancel,cancelLocked,cancelStartLocked] <;>
      (repeat' split) <;> exact h
  | flush resume point =>
    cases point <;> dsimp only [next,nextFlush,popNext,pushAudio] <;> (repeat' split) <;> exact h
  | worker point =>
    cases point <;> dsimp only [next,nextWorker,pushAudio] <;> (repeat' split) <;> exact h
  | shutdown point =>
    cases point <;> dsimp only [next,nextShutdown] <;> (repeat' split) <;> exact h
  | _ =>
    dsimp only [next,injectLocked]
    (repeat' split) <;> exact h

/-- Invariant of the worker thread. -/
structure WorkerInv (pool : System) : Prop where
  /-- Thread zero runs the worker. -/
  worker : ofWorker (pool.pcs 0)=true
  /-- It has ended only after the loop was stopped. -/
  ended : hasEnded (pool.pcs 0)=true → pool.shared.workerRunning=false

/-- Every step keeps the worker where it belongs. -/
theorem machine_worker (pool : System) (label : ℕ×Oracle) (inv : WorkerInv pool) :
    WorkerInv (machine pool label) := by
  obtain ⟨thread,oracle⟩ := label
  by_cases hthread : thread=0
  · subst hthread
    refine ⟨?_,?_⟩
    · rw [Pool.step_pcs_self]
      exact ofWorker_next inv.worker
    · rw [Pool.step_pcs_self]
      intro hended
      rcases hasEnded_next inv.worker hended with hbefore | hstopped
      · exact workerRunning_next (inv.ended hbefore)
      · exact workerRunning_next hstopped
  · have hzero : (machine pool (thread,oracle)).pcs 0=pool.pcs 0 :=
      Pool.step_pcs_of_ne (Ne.symm hthread)
    refine ⟨?_,?_⟩
    · rw [hzero]
      exact inv.worker
    · rw [hzero]
      intro hended
      exact workerRunning_next (inv.ended hended)

/-- An order with a number waits for a worker that still runs. -/
structure Waits (pool : System) (ledger : Ledger) (number : ℕ) : Prop where
  /-- The slot holds it. -/
  queued : isQueued pool.shared.currentOrder=true
  /-- The ledger knows its number. -/
  waiting : ledger.waiting=some number
  /-- The worker loop goes on. -/
  running : pool.shared.workerRunning=true

variable {pool : System} {ledger : Ledger} {number : ℕ}

/-- The worker at its wait takes the number that waits. -/
theorem taken_from_wait (waits : Waits pool ledger number) (hpc : pool.pcs 0=.worker .wait)
    (oracle : Oracle) :
    (run (observed machine observeOrders) (pool,ledger) (List.replicate 1 (0,oracle))).2.taken=
      ledger.taken++[number] := by
  have hne : pool.shared.currentOrder≠.empty := by
    intro hempty
    have hqueued := waits.queued
    rw [hempty] at hqueued
    cases hqueued
  have heffect : effect pool.shared (pool.pcs 0)=.take := by
    rw [hpc]
    exact if_neg hne
  dsimp only [run,List.replicate,List.foldl,observed,observeOrders]
  rw [heffect]
  dsimp only [Ledger.after]
  rw [waits.waiting,Option.toList_some]

/-- A step without effect passes the waiting order on. -/
theorem taken_after_step {target : Pc} {steps : ℕ} {taken : List ℕ} {oracle : Oracle}
    (waits : Waits pool ledger number) (hkeep : effect pool.shared (pool.pcs 0)=.keep)
    (hrunning : (next oracle pool.shared (pool.pcs 0)).1.workerRunning=
      pool.shared.workerRunning)
    (hnext : (next oracle pool.shared (pool.pcs 0)).2=target)
    (rest : ∀ later : System, Waits later ledger number → later.pcs 0=target →
      (run (observed machine observeOrders) (later,ledger)
        (List.replicate steps (0,oracle))).2.taken=taken) :
    (run (observed machine observeOrders) (pool,ledger)
      (List.replicate (steps+1) (0,oracle))).2.taken=taken := by
  have hledger : observeOrders ledger pool (0,oracle)=ledger := by
    dsimp only [observeOrders]
    rw [hkeep]
    rfl
  have hslot : (machine pool (0,oracle)).shared.currentOrder=pool.shared.currentOrder := by
    have hcore := core_next oracle pool.shared (pool.pcs 0)
    rw [hkeep] at hcore
    exact congrArg Core.slot hcore
  rw [List.replicate_succ,run_cons]
  dsimp only [observed]
  rw [hledger]
  refine rest (machine pool (0,oracle)) ⟨?_,waits.waiting,?_⟩ ?_
  · rw [hslot]
    exact waits.queued
  · rw [Pool.step_shared]
    exact hrunning.trans waits.running
  · rw [Pool.step_pcs_self]
    exact hnext

/-- From the head of its loop the worker needs two steps. -/
theorem taken_from_loop (waits : Waits pool ledger number) (hpc : pool.pcs 0=.worker .loop)
    (oracle : Oracle) :
    (run (observed machine observeOrders) (pool,ledger) (List.replicate 2 (0,oracle))).2.taken=
      ledger.taken++[number] := by
  have hnext : next oracle pool.shared (pool.pcs 0)=(pool.shared,.worker .wait) := by
    rw [hpc]
    exact if_pos waits.running
  refine taken_after_step waits (by rw [hpc]; rfl) (by rw [hnext]) (by rw [hnext]) ?_
  intro later hlater hwait
  exact taken_from_wait hlater hwait oracle

/-- From the synchronization of the backend it needs three. -/
theorem taken_from_synchronize (waits : Waits pool ledger number)
    (hpc : pool.pcs 0=.synchronize .worker) (oracle : Oracle) :
    (run (observed machine observeOrders) (pool,ledger) (List.replicate 3 (0,oracle))).2.taken=
      ledger.taken++[number] := by
  have hnext : next oracle pool.shared (pool.pcs 0)=(pool.shared,.worker .loop) := by
    rw [hpc]
    rfl
  refine taken_after_step waits (by rw [hpc]; rfl) (by rw [hnext]) (by rw [hnext]) ?_
  intro later hlater hloop
  exact taken_from_loop hlater hloop oracle

/-- From the end of its last order it needs at most four. -/
theorem taken_from_maybeApply (waits : Waits pool ledger number)
    (hpc : pool.pcs 0=.maybeApply .worker) (oracle : Oracle) :
    ∃ steps≤4, (run (observed machine observeOrders) (pool,ledger)
      (List.replicate steps (0,oracle))).2.taken=ledger.taken++[number] := by
  by_cases hskip : (!pool.shared.pendingAsrBackendReload || decide (pool.shared.phase≠.idle))=true
  · have hnext : next oracle pool.shared (pool.pcs 0)=(pool.shared,.worker .loop) := by
      rw [hpc]
      exact if_pos hskip
    refine ⟨3,by omega,taken_after_step waits (by rw [hpc]; rfl) (by rw [hnext])
      (by rw [hnext]) ?_⟩
    intro later hlater hloop
    exact taken_from_loop hlater hloop oracle
  · have hnext : next oracle pool.shared (pool.pcs 0)=
        ({pool.shared with pendingAsrBackendReload := false},.synchronize .worker) := by
      rw [hpc]
      exact if_neg hskip
    refine ⟨4,le_rfl,taken_after_step waits (by rw [hpc]; rfl) (by rw [hnext])
      (by rw [hnext]) ?_⟩
    intro later hlater hsync
    exact taken_from_synchronize hlater hsync oracle

/-- A worker that owes no reset takes a waiting order within four steps. -/
theorem taken_within_four (waits : Waits pool ledger number) (inv : WorkerInv pool)
    (hclear : owesReset (pool.pcs 0)=false) (oracle : Oracle) :
    ∃ steps≤4, (run (observed machine observeOrders) (pool,ledger)
      (List.replicate steps (0,oracle))).2.taken=ledger.taken++[number] := by
  have hworker := inv.worker
  cases hpc : pool.pcs 0 with
  | worker point =>
    cases point with
    | loop => exact ⟨2,by omega,taken_from_loop waits hpc oracle⟩
    | wait => exact ⟨1,by omega,taken_from_wait waits hpc oracle⟩
    | done =>
      have hended := inv.ended (by rw [hpc]; rfl)
      exact absurd (hended.symm.trans waits.running) Bool.false_ne_true
    | _ =>
      rw [hpc] at hclear
      cases hclear
  | resetToIdle resume =>
    rw [hpc] at hclear
    cases hclear
  | maybeApply resume =>
    rw [hpc] at hworker
    cases resume with
    | worker => exact taken_from_maybeApply waits hpc oracle
    | _ => cases hworker
  | synchronize resume =>
    rw [hpc] at hworker
    cases resume with
    | worker => exact ⟨3,by omega,taken_from_synchronize waits hpc oracle⟩
    | _ => cases hworker
  | _ =>
    rw [hpc] at hworker
    cases hworker

end Progress

/-- In every run that keeps orders apart, every stored order is taken once,
discarded once by a cancel or waits, and while the worker runs it takes a
waiting order within four of its steps. -/
theorem orders_accounted_of_apart_run (schedule : List (ℕ×Oracle))
    (guarded : Along machine ordersApart startup schedule) :
    (run (observed machine observeOrders) (startup,{}) schedule).2.Accounted ∧
      ∀ number, (run (observed machine observeOrders) (startup,{}) schedule).2.waiting=
          some number →
        (run (observed machine observeOrders) (startup,{}) schedule).1.shared.workerRunning=true →
        ∀ oracle, ∃ steps≤4,
          (run (observed machine observeOrders) (startup,{})
            (schedule++List.replicate steps (0,oracle))).2.taken=
          (run (observed machine observeOrders) (startup,{}) schedule).2.taken++[number] := by
  have watched : Along (observed machine observeOrders)
      (fun pair label => ordersApart pair.1 label) (startup,{}) schedule :=
    (along_observed ordersApart).mpr guarded
  have inv := watched.invariant machine_orders startup_orders
  have hworker : WorkerInv (run machine startup schedule) :=
    guarded.invariant (fun pool label hinv _ => machine_worker pool label hinv) ⟨rfl,nofun⟩
  refine ⟨inv.accounted,?_⟩
  intro number hwaiting hrunning oracle
  have hqueued : isQueued
      (run (observed machine observeOrders) (startup,{}) schedule).1.shared.currentOrder=true := by
    rw [←inv.waiting,hwaiting]
    rfl
  have hclear : owesReset
      ((run (observed machine observeOrders) (startup,{}) schedule).1.pcs 0)=false := by
    by_contra howes
    exact inv.clear (.inr hqueued) ⟨0,Bool.eq_true_of_not_eq_false howes⟩
  rw [←run_observed_fst machine observeOrders (startup,{})] at hworker
  obtain ⟨steps,hsteps,htaken⟩ :=
    taken_within_four ⟨hqueued,hwaiting,hrunning⟩ hworker hclear oracle
  refine ⟨steps,hsteps,?_⟩
  rw [run_append]
  exact htaken

/-- Two clients inject a text each before the worker wakes. -/
def twoInjectedTexts : List (ℕ×Oracle) :=
  arrives 1 injectCall::goesOn 1 1++arrives 2 injectCall::goesOn 2 1

/-- An accepted order can be lost: the second text overwrites the first. -/
theorem injected_order_lost :
    ¬∀ schedule : List (ℕ×Oracle),
      (run (observed machine observeOrders) (startup,{}) schedule).2.Accounted := by
  intro h
  have hperm := h twoInjectedTexts
  exact absurd hperm.length_eq (by decide)

/-- One injected text that the worker has not yet seen. -/
def oneInjectedText : List (ℕ×Oracle) := arrives 1 injectCall::goesOn 1 1

/-- A single injected text is kept apart, accounted for and taken. -/
theorem orders_accounted_after_inject :
    ∃ steps≤4, (run (observed machine observeOrders) (startup,{})
      (oneInjectedText++goesOn 0 steps)).2.taken=[0] :=
  (orders_accounted_of_apart_run oneInjectedText (along_and.mpr ⟨by decide,
    Pool.along_alone 2 (.ready none) rfl (by decide) (fun t ht => startup_pcs (by omega))
      (by decide)⟩)).2 0 (by decide) (by decide) {}

end Vinput.ControllerOrders
