import Vinput.AsyncDelivery

/-!
# The worker and the owners of the asynchronous session

Thread zero is the worker and every other thread is an owner. An invariant
of the session is a fact about the worker's point and a fact about each
owner, both over the shared memory and a history. It is kept by every step
once four kinds of single steps keep it.
-/

namespace Vinput.AsyncThreads

open InterleavedRuns AsyncSession AsyncDelivery

section Staff

variable {Ghost : Type*}

/-- A history that notes what the acting thread does. -/
def noted (note : Ghost → Oracle → Shared → Pc → Ghost) (ghost : Ghost) (pool : System)
    (label : ℕ×Oracle) : Ghost := note ghost label.2 pool.shared (pool.pcs label.1)

/-- Thread zero is the worker, the others are owners. -/
structure Staffed (atWorker : Shared → Ghost → WorkerPoint → Prop)
    (atOwner : Shared → Ghost → Pc → Prop) (pair : System×Ghost) : Prop where
  worker : ∃ point, pair.1.pcs 0=.worker point ∧ atWorker pair.1.shared pair.2 point
  owners : ∀ thread, thread≠0 → ofOwner (pair.1.pcs thread)=true ∧
    atOwner pair.1.shared pair.2 (pair.1.pcs thread)

/-- Single steps keep the facts about the worker and the owners. -/
structure KeepsStaff (note : Ghost → Oracle → Shared → Pc → Ghost)
    (atWorker : Shared → Ghost → WorkerPoint → Prop)
    (atOwner : Shared → Ghost → Pc → Prop) : Prop where
  /-- The worker's own step. -/
  worker : ∀ oracle shared ghost point, atWorker shared ghost point →
    atWorker (nextWorker oracle shared point).1 (note ghost oracle shared (.worker point))
      (nextWorker oracle shared point).2
  /-- A step of the worker, for an owner. -/
  idle : ∀ oracle shared ghost point pc, atWorker shared ghost point → ofOwner pc=true →
    atOwner shared ghost pc →
    atOwner (nextWorker oracle shared point).1 (note ghost oracle shared (.worker point)) pc
  /-- A step of an owner, for the worker. -/
  called : ∀ oracle shared ghost point pc, atWorker shared ghost point → ofOwner pc=true →
    atOwner shared ghost pc →
    atWorker (next oracle shared pc).1 (note ghost oracle shared pc) point
  /-- An owner's own step. -/
  owner : ∀ oracle shared ghost point pc, atWorker shared ghost point → ofOwner pc=true →
    atOwner shared ghost pc →
    atOwner (next oracle shared pc).1 (note ghost oracle shared pc) (next oracle shared pc).2
  /-- A step of an owner, for another owner. -/
  others : ∀ oracle shared ghost point pc other, atWorker shared ghost point →
    ofOwner pc=true → atOwner shared ghost pc → ofOwner other=true → atOwner shared ghost other →
    atOwner (next oracle shared pc).1 (note ghost oracle shared pc) other

variable {note : Ghost → Oracle → Shared → Pc → Ghost}
  {atWorker : Shared → Ghost → WorkerPoint → Prop} {atOwner : Shared → Ghost → Pc → Prop}

/-- Every step keeps what single steps keep. -/
theorem KeepsStaff.step (keeps : KeepsStaff note atWorker atOwner) (pair : System×Ghost)
    (label : ℕ×Oracle) (inv : Staffed atWorker atOwner pair) :
    Staffed atWorker atOwner (observed machine (noted note) pair label) := by
  obtain ⟨pool,ghost⟩ := pair
  obtain ⟨thread,oracle⟩ := label
  obtain ⟨point,hpoint,hworker⟩ := inv.worker
  have hpoint : pool.pcs 0=.worker point := hpoint
  by_cases hthread : thread=0
  · subst hthread
    have hself : (machine pool (0,oracle)).pcs 0=
        .worker (nextWorker oracle pool.shared point).2 := by
      rw [Pool.step_pcs_self,hpoint]
      rfl
    have hshared : (machine pool (0,oracle)).shared=(nextWorker oracle pool.shared point).1 := by
      rw [Pool.step_shared,hpoint]
      rfl
    have hghost : noted note ghost pool (0,oracle)=
        note ghost oracle pool.shared (.worker point) := by
      dsimp only [noted]
      rw [hpoint]
    refine ⟨⟨_,hself,?_⟩,?_⟩
    · dsimp only [observed]
      rw [hshared,hghost]
      exact keeps.worker oracle pool.shared ghost point hworker
    · intro other hother
      obtain ⟨howner,hfact⟩ := inv.owners other hother
      have hpcs : (machine pool (0,oracle)).pcs other=pool.pcs other := Pool.step_pcs_of_ne hother
      dsimp only [observed]
      rw [hpcs,hshared,hghost]
      exact ⟨howner,keeps.idle oracle pool.shared ghost point _ hworker howner hfact⟩
  · obtain ⟨howner,hfact⟩ := inv.owners thread hthread
    have hzero : (machine pool (thread,oracle)).pcs 0=pool.pcs 0 :=
      Pool.step_pcs_of_ne (Ne.symm hthread)
    refine ⟨⟨point,hzero.trans hpoint,?_⟩,?_⟩
    · exact keeps.called oracle pool.shared ghost point _ hworker howner hfact
    · intro other hother
      by_cases hself : other=thread
      · subst hself
        have hpcs : (machine pool (other,oracle)).pcs other=
            (next oracle pool.shared (pool.pcs other)).2 := Pool.step_pcs_self pool other oracle
        dsimp only [observed]
        rw [hpcs]
        exact ⟨ofOwner_next howner oracle pool.shared,
          keeps.owner oracle pool.shared ghost point _ hworker howner hfact⟩
      · obtain ⟨hsecond,hkept⟩ := inv.owners other hother
        have hpcs : (machine pool (thread,oracle)).pcs other=pool.pcs other :=
          Pool.step_pcs_of_ne hself
        dsimp only [observed]
        rw [hpcs]
        exact ⟨hsecond,
          keeps.others oracle pool.shared ghost point _ _ hworker howner hfact hsecond hkept⟩

/-- Every run keeps what single steps keep. -/
theorem KeepsStaff.run (keeps : KeepsStaff note atWorker atOwner) {start : System×Ghost}
    (hstart : Staffed atWorker atOwner start) (schedule : List (ℕ×Oracle)) :
    Staffed atWorker atOwner (run (observed machine (noted note)) start schedule) :=
  run_invariant keeps.step schedule hstart

/-- A new session is staffed. -/
theorem startup_staffed {maxQueuedSamples : ℕ} (ghost : Ghost)
    (hworker : atWorker {maxQueuedSamples := maxQueuedSamples} ghost .wait)
    (howner : atOwner {maxQueuedSamples := maxQueuedSamples} ghost (.ready none)) :
    Staffed atWorker atOwner (startup maxQueuedSamples,ghost) := by
  refine ⟨⟨.wait,rfl,hworker⟩,?_⟩
  intro thread hthread
  have hpc : (startup maxQueuedSamples).pcs thread=.ready none := if_neg hthread
  dsimp only
  rw [hpc]
  exact ⟨rfl,howner⟩

end Staff

end Vinput.AsyncThreads
