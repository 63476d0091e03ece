import Vinput.AsyncSession

/-!
# Delivery of the asynchronous session

Delivery is all or nothing. A finish that returns true has passed on every
accepted chunk in order and then finished the backend once. In every run
the backend sees at most one terminal call and no push after it.
-/

namespace Vinput.AsyncDelivery

open InterleavedRuns AsyncSession

/-- The chunk that a step accepts, if it accepts one. -/
def acceptedChunk (oracle : Oracle) (shared : Shared) : Pc → Option (List Int16)
  | .ready _ =>
    match oracle.call with
    | .pushAudio pcm =>
      if (pushAudioLocked pcm shared).2=.pushed true "" then some pcm else none
    | _ => none
  | _ => none

/-- History of the accepted chunks. -/
def observeAccepted (accepted : List (List Int16)) (pool : System) (label : ℕ×Oracle) :
    List (List Int16) :=
  accepted++(acceptedChunk label.2 pool.shared (pool.pcs label.1)).toList

/-- Pushes and terminal calls of the backend. -/
def received (calls : List BackendCall) : List BackendCall :=
  calls.filter fun call => call≠.interrupt

/-- The backend has received the pushes of some chunks and then these calls. -/
def Received (shared : Shared) (chunks : List (List Int16)) (last : List BackendCall) : Prop :=
  received shared.calls=chunks.map BackendCall.pushAudio++last

/-- The backend has received all accepted samples in order, and then one
finish. -/
def Delivered (shared : Shared) (accepted : List (List Int16)) : Prop :=
  ∃ chunks, Received shared chunks [.finish] ∧ chunks.flatten=accepted.flatten

/-- The backend has received pushes and after them at most one terminal
call. -/
def OneTerminal (shared : Shared) : Prop :=
  ∃ chunks last, Received shared chunks last ∧ (last=[] ∨ last=[.finish] ∨ last=[.cancel])

/-- Delivery is all or nothing. -/
structure AllOrNothing (pair : System×List (List Int16)) : Prop where
  /-- A finish that returns true has delivered everything accepted. -/
  finished : ∀ thread error, pair.1.pcs thread=.ready (some (.finished true error)) →
    Delivered pair.1.shared pair.2
  /-- There is at most one terminal call and no push after it. -/
  terminal : OneTerminal pair.1.shared

/-- The backend is being fed: with nothing cancelled, what it has received,
what the worker holds and what is queued are the accepted samples. -/
def Feeding (shared : Shared) (accepted : List (List Int16)) (held : List Int16) : Prop :=
  ∃ chunks, Received shared chunks [] ∧
    (shared.cancelRequested=false →
      chunks.flatten++held++shared.queue.flatten=accepted.flatten)

/-- The backend has only received pushes. -/
def Unterminated (shared : Shared) : Prop := ∃ chunks, Received shared chunks []

/-- The backend has been cancelled. -/
def Cancelled (shared : Shared) : Prop := ∃ chunks, Received shared chunks [.cancel]

/-- Everything accepted has been passed on and nothing more is accepted. -/
def Passed (shared : Shared) (accepted : List (List Int16)) : Prop :=
  shared.finishRequested=true ∧ Delivered shared accepted

/-- What is known while the worker passes on events. -/
def KnownAfter (shared : Shared) (accepted : List (List Int16)) : After → Prop
  | .loop => Feeding shared accepted []
  | .failing => Unterminated shared
  | .broke => Unterminated shared
  | .finished _ _ => Passed shared accepted
  | .cancelled => Cancelled shared

/-- What is known at each point of the worker. -/
def Known (shared : Shared) (accepted : List (List Int16)) : WorkerPoint → Prop
  | .wait => Feeding shared accepted []
  | .push chunk => Feeding shared accepted chunk
  | .poll after => KnownAfter shared accepted after
  | .rejected _ => Unterminated shared
  | .fail _ _ => Unterminated shared
  | .append _ after => KnownAfter shared accepted after
  | .wake after => KnownAfter shared accepted after
  | .finish => shared.finishRequested=true ∧
    ∃ chunks, Received shared chunks [] ∧ chunks.flatten=accepted.flatten
  | .cancel => Unterminated shared
  | .readError => Cancelled shared
  | .complete success _ => (success=true → Passed shared accepted) ∧ OneTerminal shared
  | .done => (shared.success=true → Passed shared accepted) ∧ OneTerminal shared

/-- Passed chunks end with one terminal event. -/
theorem oneTerminal_of_passed {shared : Shared} {accepted : List (List Int16)}
    (h : Passed shared accepted) : OneTerminal shared := by
  obtain ⟨_,chunks,hreceived,_⟩ := h
  exact ⟨chunks,[.finish],hreceived,.inr (.inl rfl)⟩

theorem oneTerminal_of_cancelled {shared : Shared} (h : Cancelled shared) :
    OneTerminal shared := by
  obtain ⟨chunks,hreceived⟩ := h
  exact ⟨chunks,[.cancel],hreceived,.inr (.inr rfl)⟩

theorem oneTerminal_of_unterminated {shared : Shared} (h : Unterminated shared) :
    OneTerminal shared := by
  obtain ⟨chunks,hreceived⟩ := h
  exact ⟨chunks,[],hreceived,.inl rfl⟩

theorem unterminated_of_feeding {shared : Shared} {accepted : List (List Int16)}
    {held : List Int16} (h : Feeding shared accepted held) : Unterminated shared := by
  obtain ⟨chunks,hreceived,_⟩ := h
  exact ⟨chunks,hreceived⟩

/-- There is at most one terminal call at every point. -/
theorem oneTerminal_of_known {shared : Shared} {accepted : List (List Int16)}
    {point : WorkerPoint} (h : Known shared accepted point) : OneTerminal shared := by
  have hafter : ∀ after, KnownAfter shared accepted after → OneTerminal shared := by
    intro after h
    cases after with
    | loop => exact oneTerminal_of_unterminated (unterminated_of_feeding h)
    | failing => exact oneTerminal_of_unterminated h
    | broke => exact oneTerminal_of_unterminated h
    | finished ok error => exact oneTerminal_of_passed h
    | cancelled => exact oneTerminal_of_cancelled h
  cases point with
  | wait => exact oneTerminal_of_unterminated (unterminated_of_feeding h)
  | push chunk => exact oneTerminal_of_unterminated (unterminated_of_feeding h)
  | poll after => exact hafter after h
  | append events after => exact hafter after h
  | wake after => exact hafter after h
  | finish =>
    obtain ⟨_,chunks,hreceived,_⟩ := h
    exact ⟨chunks,[],hreceived,.inl rfl⟩
  | readError => exact oneTerminal_of_cancelled h
  | complete success error => exact h.2
  | done => exact h.2
  | _ => exact oneTerminal_of_unterminated h

/-- One more call of the backend. -/
theorem received_calls (call : BackendCall) (hcall : call≠.interrupt) {shared : Shared}
    {chunks : List (List Int16)} (h : Received shared chunks []) :
    Received (calls call shared) chunks [call] := by
  unfold Received received calls at *
  rw [List.append_nil] at h
  rw [List.filter_append,h]
  simp only [List.filter_cons,decide_eq_true hcall,if_true,List.filter_nil]

/-- A pushed chunk joins the others. -/
theorem received_push {shared : Shared} {chunks : List (List Int16)}
    (h : Received shared chunks []) (chunk : List Int16) :
    Received (calls (.pushAudio chunk) shared) (chunks++[chunk]) [] := by
  have hpush := received_calls (.pushAudio chunk) nofun h
  unfold Received at hpush ⊢
  rw [hpush,List.map_append,List.append_nil]
  rfl

/-- An interrupt does not count. -/
theorem received_interrupt (shared : Shared) :
    received (calls .interrupt shared).calls=received shared.calls := by
  unfold received calls
  rw [List.filter_append]
  exact List.append_nil _

/-- What a worker step leaves alone when it calls nothing and takes
nothing from the queue. -/
theorem known_events {shared : Shared} {accepted : List (List Int16)} {after : After}
    (h : KnownAfter shared accepted after) : Known shared accepted after.point := by
  cases after with
  | loop => exact h
  | failing => exact h
  | broke => exact h
  | finished ok error => exact ⟨fun _ => h,oneTerminal_of_passed h⟩
  | cancelled => exact h

/-- Known facts read only the calls, the queue and two flags. -/
theorem knownAfter_congr {before after : Shared} {accepted : List (List Int16)} {point : After}
    (hcalls : after.calls=before.calls) (hqueue : after.queue=before.queue)
    (hcancel : after.cancelRequested=before.cancelRequested)
    (hfinish : after.finishRequested=before.finishRequested)
    (h : KnownAfter before accepted point) : KnownAfter after accepted point := by
  cases point <;>
    simpa only [KnownAfter,Feeding,Unterminated,Passed,Delivered,Cancelled,Received,hcalls,hqueue,
      hcancel,hfinish] using h

/-- The region that waits for work hands out the head of the queue, or ends
the feeding. -/
theorem known_wait {shared : Shared} {accepted : List (List Int16)}
    (h : Feeding shared accepted []) :
    Known (waitLocked shared).1 accepted (waitLocked shared).2 := by
  unfold waitLocked
  split
  · exact unterminated_of_feeding h
  · rename_i hgoes
    have hrunning := Bool.eq_false_of_not_eq_true hgoes
    obtain ⟨chunks,hreceived,hflow⟩ := h
    have hall := hflow hrunning
    rw [List.append_nil] at hall
    split
    · rename_i chunk rest hqueue
      refine ⟨chunks,hreceived,?_⟩
      intro _
      rw [← hall,hqueue,List.flatten_cons,List.append_assoc]
    · rename_i hqueue
      split
      · rename_i hfinish
        refine ⟨hfinish,chunks,hreceived,?_⟩
        rw [← hall,hqueue,List.flatten_nil,List.append_nil]
      · refine ⟨chunks,hreceived,?_⟩
        intro _
        rw [← hall,List.append_nil]

/-- Every step of the worker keeps what is known. -/
theorem known_worker {shared : Shared} {accepted : List (List Int16)} {point : WorkerPoint}
    (oracle : Oracle) (h : Known shared accepted point) :
    Known (nextWorker oracle shared point).1 accepted (nextWorker oracle shared point).2 := by
  cases point with
  | wait => exact known_wait h
  | push chunk =>
    obtain ⟨chunks,hreceived,hflow⟩ := h
    have hpushed := received_push hreceived chunk
    dsimp only [nextWorker]
    split
    · refine ⟨chunks++[chunk],hpushed,?_⟩
      intro hrunning
      rw [List.flatten_append,List.flatten_cons,List.flatten_nil,List.append_nil,List.append_nil]
      exact hflow hrunning
    · exact ⟨chunks++[chunk],hpushed⟩
  | poll after => exact h
  | rejected error => exact h
  | fail error events => exact h
  | append events after =>
    dsimp only [nextWorker]
    split
    · exact known_events h
    · exact knownAfter_congr rfl rfl rfl rfl h
  | wake after =>
    dsimp only [nextWorker]
    split
    · exact known_events (knownAfter_congr rfl rfl rfl rfl h)
    · exact known_events h
  | finish =>
    obtain ⟨hfinish,chunks,hreceived,hall⟩ := h
    exact ⟨hfinish,chunks,received_calls .finish nofun hreceived,hall⟩
  | cancel =>
    obtain ⟨chunks,hreceived⟩ := h
    exact ⟨chunks,received_calls .cancel nofun hreceived⟩
  | readError => exact ⟨fun hfalse => absurd hfalse Bool.false_ne_true,oneTerminal_of_cancelled h⟩
  | complete success error => exact h
  | done => exact h

/-- What a step of an owner does to the session and to the accepted
chunks. -/
structure OwnerMove (before after : Shared) (accepted later : List (List Int16)) : Prop where
  /-- The backend is at most interrupted. -/
  received : received after.calls=received before.calls
  /-- The result is left alone. -/
  success : after.success=before.success
  /-- After a request to finish nothing is accepted. -/
  finish : before.finishRequested=true → after.finishRequested=true ∧ later=accepted
  /-- With nothing cancelled, what is accepted is queued. -/
  flow : after.cancelRequested=false → before.cancelRequested=false ∧
    ∃ pcm, later.flatten=accepted.flatten++pcm ∧ after.queue.flatten=before.queue.flatten++pcm

/-- A step that accepts nothing and leaves calls, queue and result. -/
theorem ownerMove_of_eq {before after : Shared} {accepted later : List (List Int16)}
    (hlater : later=accepted) (hcalls : received after.calls=received before.calls)
    (hsuccess : after.success=before.success)
    (hfinish : before.finishRequested=true → after.finishRequested=true)
    (hflow : after.cancelRequested=false →
      before.cancelRequested=false ∧ after.queue=before.queue) :
    OwnerMove before after accepted later := by
  refine ⟨hcalls,hsuccess,fun h => ⟨hfinish h,hlater⟩,?_⟩
  intro hrunning
  obtain ⟨hbefore,hqueue⟩ := hflow hrunning
  refine ⟨hbefore,[],?_,?_⟩
  · rw [hlater,List.append_nil]
  · rw [hqueue,List.append_nil]

/-- A push is refused, overflows or is queued. -/
theorem ownerMove_push (pcm : List Int16) (shared : Shared) (accepted : List (List Int16)) :
    OwnerMove shared (pushAudioLocked pcm shared).1 accepted
      (accepted++(if (pushAudioLocked pcm shared).2=.pushed true "" then some pcm
        else none).toList) := by
  unfold pushAudioLocked
  split
  · exact ownerMove_of_eq (List.append_nil _) rfl rfl id fun hrunning => ⟨hrunning,rfl⟩
  · rename_i hopen
    split
    · exact ownerMove_of_eq (List.append_nil _) rfl rfl id nofun
    · have hfinish : shared.finishRequested=false := by
        simp only [Bool.or_eq_true,not_or,Bool.not_eq_true] at hopen
        exact hopen.1.2
      have hflatten : (accepted++[pcm]).flatten=accepted.flatten++pcm := by
        rw [List.flatten_append,List.flatten_cons,List.flatten_nil,List.append_nil]
      split
      · rename_i hnothing
        refine ⟨rfl,rfl,fun h => absurd (hfinish.symm.trans h) Bool.false_ne_true,?_⟩
        intro hrunning
        exact ⟨hrunning,pcm,hflatten,by rw [hnothing,List.append_nil]⟩
      · refine ⟨rfl,rfl,fun h => absurd (hfinish.symm.trans h) Bool.false_ne_true,?_⟩
        intro hrunning
        refine ⟨hrunning,pcm,hflatten,?_⟩
        dsimp only
        rw [List.flatten_append,List.flatten_cons,List.flatten_nil,List.append_nil]

theorem ownerMove_cancel (destroys : Bool) (shared : Shared) (accepted : List (List Int16)) :
    OwnerMove shared (cancelBegins destroys shared).1 accepted (accepted++[]) := by
  unfold cancelBegins
  split
  · exact ownerMove_of_eq (List.append_nil _) rfl rfl id fun hrunning => ⟨hrunning,rfl⟩
  · exact ownerMove_of_eq (List.append_nil _) rfl rfl id nofun

/-- A thread outside the worker. -/
def ofOwner : Pc → Bool
  | .worker _ => false
  | _ => true

/-- Every step of an owner is such a move. -/
theorem ownerMove_next {pc : Pc} (howner : ofOwner pc=true) (oracle : Oracle) (shared : Shared)
    (accepted : List (List Int16)) :
    OwnerMove shared (next oracle shared pc).1 accepted
      (accepted++(acceptedChunk oracle shared pc).toList) := by
  have hkeeps : ∀ after : Shared, after.calls=shared.calls → after.success=shared.success →
      (shared.finishRequested=true → after.finishRequested=true) →
      after.cancelRequested=shared.cancelRequested → after.queue=shared.queue →
      OwnerMove shared after accepted (accepted++[]) := by
    intro after hcalls hsuccess hfinish hcancel hqueue
    refine ownerMove_of_eq (List.append_nil _) (by rw [hcalls]) hsuccess hfinish ?_
    intro hrunning
    exact ⟨hcancel.symm.trans hrunning,hqueue⟩
  cases pc with
  | ready last =>
    dsimp only [next,acceptedChunk]
    cases oracle.call with
    | pushAudio pcm => exact ownerMove_push pcm shared accepted
    | finish =>
      dsimp only [begin,finishLocked]
      split
      · exact hkeeps _ rfl rfl (fun _ => rfl) rfl rfl
      · split <;> exact hkeeps _ rfl rfl id rfl rfl
    | cancel => exact ownerMove_cancel false shared accepted
    | destroy => exact ownerMove_cancel true shared accepted
    | _ => exact hkeeps _ rfl rfl id rfl rfl
  | finishing =>
    dsimp only [next]
    split <;> exact hkeeps _ rfl rfl id rfl rfl
  | interrupting destroys =>
    exact ownerMove_of_eq (List.append_nil _) (received_interrupt shared) rfl id
      fun hrunning => ⟨hrunning,rfl⟩
  | joining =>
    dsimp only [next]
    split <;> exact hkeeps _ rfl rfl id rfl rfl
  | worker point => cases howner

section Moves

variable {before after : Shared} {accepted later : List (List Int16)}

/-- A move of the owner keeps what the backend received. -/
theorem OwnerMove.receives (move : OwnerMove before after accepted later)
    {chunks : List (List Int16)} {last : List BackendCall} (h : Received before chunks last) :
    Received after chunks last :=
  move.received.trans h

theorem OwnerMove.feeds (move : OwnerMove before after accepted later) {held : List Int16}
    (h : Feeding before accepted held) : Feeding after later held := by
  obtain ⟨chunks,hreceived,hflow⟩ := h
  refine ⟨chunks,move.receives hreceived,?_⟩
  intro hrunning
  obtain ⟨hbefore,pcm,hlater,hqueue⟩ := move.flow hrunning
  rw [hlater,hqueue,← hflow hbefore]
  simp only [List.append_assoc]

theorem OwnerMove.passes (move : OwnerMove before after accepted later)
    (h : Passed before accepted) : Passed after later := by
  obtain ⟨hfinish,chunks,hreceived,hall⟩ := h
  obtain ⟨hafter,hlater⟩ := move.finish hfinish
  exact ⟨hafter,chunks,move.receives hreceived,hlater ▸ hall⟩

theorem OwnerMove.oneTerminal (move : OwnerMove before after accepted later)
    (h : OneTerminal before) : OneTerminal after := by
  obtain ⟨chunks,last,hreceived,hlast⟩ := h
  exact ⟨chunks,last,move.receives hreceived,hlast⟩

theorem OwnerMove.unterminated (move : OwnerMove before after accepted later)
    (h : Unterminated before) : Unterminated after := by
  obtain ⟨chunks,hreceived⟩ := h
  exact ⟨chunks,move.receives hreceived⟩

theorem OwnerMove.knownAfter (move : OwnerMove before after accepted later) {point : After}
    (h : KnownAfter before accepted point) : KnownAfter after later point := by
  cases point with
  | loop => exact move.feeds h
  | failing => exact move.unterminated h
  | broke => exact move.unterminated h
  | finished ok error => exact move.passes h
  | cancelled =>
    obtain ⟨chunks,hreceived⟩ := h
    exact ⟨chunks,move.receives hreceived⟩

/-- Every step of an owner keeps what the worker knows. -/
theorem OwnerMove.known (move : OwnerMove before after accepted later) {point : WorkerPoint}
    (h : Known before accepted point) : Known after later point := by
  cases point with
  | wait => exact move.feeds h
  | push chunk => exact move.feeds h
  | poll after => exact move.knownAfter h
  | append events after => exact move.knownAfter h
  | wake after => exact move.knownAfter h
  | finish =>
    obtain ⟨hfinish,chunks,hreceived,hall⟩ := h
    obtain ⟨hafter,hlater⟩ := move.finish hfinish
    exact ⟨hafter,chunks,move.receives hreceived,hlater ▸ hall⟩
  | readError =>
    obtain ⟨chunks,hreceived⟩ := h
    exact ⟨chunks,move.receives hreceived⟩
  | complete success error =>
    exact ⟨fun hsuccess => move.passes (h.1 hsuccess),move.oneTerminal h.2⟩
  | done =>
    refine ⟨?_,move.oneTerminal h.2⟩
    intro hsuccess
    exact move.passes (h.1 (move.success ▸ hsuccess))
  | _ => exact move.unterminated h

end Moves

/-- Invariant of the session. -/
structure SessionInv (pair : System×List (List Int16)) : Prop where
  /-- Thread zero is the worker and knows where it is. -/
  worker : ∃ point, pair.1.pcs 0=.worker point ∧ Known pair.1.shared pair.2 point ∧
    (pair.1.shared.success=true → point=.done)
  /-- The other threads are owners. -/
  owners : ∀ t, t≠0 → ofOwner (pair.1.pcs t)=true
  /-- A reply of success is the result of the worker. -/
  replied : ∀ t error, pair.1.pcs t=.ready (some (.finished true error)) →
    pair.1.shared.success=true

/-- Owners stay owners. -/
theorem ofOwner_next {pc : Pc} (h : ofOwner pc=true) (oracle : Oracle) (shared : Shared) :
    ofOwner (next oracle shared pc).2=true := by
  cases pc with
  | ready last =>
    dsimp only [next]
    cases oracle.call <;> dsimp only [begin,finishLocked,cancelBegins,cancelEnds] <;>
      (repeat' split) <;> rfl
  | finishing =>
    dsimp only [next]
    split <;> rfl
  | interrupting destroys => cases destroys <;> rfl
  | joining =>
    dsimp only [next]
    split <;> rfl
  | worker point => cases h

/-- `Finish` returns the result of the worker. -/
theorem reply_next {pc : Pc} {oracle : Oracle} {shared : Shared} {error : String}
    (h : (next oracle shared pc).2=.ready (some (.finished true error))) :
    shared.success=true := by
  have hreply : finishReply shared=.finished true error → shared.success=true := by
    intro hfinish
    unfold finishReply at hfinish
    exact (Reply.finished.inj hfinish).1
  cases pc with
  | ready last =>
    dsimp only [next] at h
    cases hcall : oracle.call with
    | pushAudio pcm =>
      rw [hcall] at h
      dsimp only [begin,pushAudioLocked] at h
      (repeat' split at h) <;> cases h
    | finish =>
      rw [hcall] at h
      dsimp only [begin,finishLocked] at h
      split at h
      · cases h
      · split at h
        · exact hreply (Option.some.inj (Pc.ready.inj h))
        · cases h
    | cancel =>
      rw [hcall] at h
      dsimp only [begin,cancelBegins,cancelEnds] at h
      (repeat' split at h) <;> cases h
    | destroy =>
      rw [hcall] at h
      dsimp only [begin,cancelBegins,cancelEnds] at h
      (repeat' split at h) <;> cases h
    | _ =>
      rw [hcall] at h
      cases h
  | finishing =>
    dsimp only [next] at h
    split at h
    · exact hreply (Option.some.inj (Pc.ready.inj h))
    · cases h
  | interrupting destroys => cases destroys <;> cases h
  | joining =>
    dsimp only [next] at h
    split at h <;> cases h
  | worker point => cases h

/-- The worker reports success only in its last region. -/
theorem success_worker {oracle : Oracle} {shared : Shared} {point : WorkerPoint}
    (hbefore : shared.success=true → point=.done)
    (h : (nextWorker oracle shared point).1.success=true) :
    (nextWorker oracle shared point).2=.done := by
  have hearly : shared.success=true → (nextWorker oracle shared point).2=.done := by
    intro hsuccess
    rw [hbefore hsuccess]
    rfl
  cases point with
  | wait =>
    refine hearly ?_
    dsimp only [nextWorker,waitLocked] at h
    (repeat' split at h) <;> exact h
  | append events after =>
    refine hearly ?_
    dsimp only [nextWorker] at h
    split at h <;> exact h
  | wake after =>
    refine hearly ?_
    dsimp only [nextWorker] at h
    split at h <;> exact h
  | complete success error => rfl
  | done => rfl
  | _ => exact hearly h

/-- Every step keeps the invariant. -/
theorem machine_session (pair : System×List (List Int16)) (label : ℕ×Oracle)
    (inv : SessionInv pair) : SessionInv (observed machine observeAccepted pair label) := by
  obtain ⟨pool,accepted⟩ := pair
  obtain ⟨thread,oracle⟩ := label
  obtain ⟨point,hpoint,hknown,hdone⟩ := inv.worker
  have hpoint : pool.pcs 0=.worker point := hpoint
  by_cases hthread : thread=0
  · subst hthread
    have haccepted : observeAccepted accepted pool (0,oracle)=accepted := by
      unfold observeAccepted
      rw [hpoint]
      exact List.append_nil accepted
    have hshared : (machine pool (0,oracle)).shared=(nextWorker oracle pool.shared point).1 := by
      rw [Pool.step_shared,hpoint]
      rfl
    have hself : (machine pool (0,oracle)).pcs 0=.worker (nextWorker oracle pool.shared point).2 := by
      rw [Pool.step_pcs_self,hpoint]
      rfl
    refine ⟨⟨_,hself,?_,?_⟩,?_,?_⟩
    · dsimp only [observed]
      rw [hshared,haccepted]
      exact known_worker oracle hknown
    · dsimp only [observed]
      rw [hshared]
      exact success_worker hdone
    · intro t ht
      have hother : (machine pool (0,oracle)).pcs t=pool.pcs t := Pool.step_pcs_of_ne ht
      exact hother ▸ inv.owners t ht
    · intro t error hreply
      dsimp only [observed] at hreply ⊢
      have ht : t≠0 := by
        intro ht
        rw [ht,hself] at hreply
        cases hreply
      rw [Pool.step_pcs_of_ne ht] at hreply
      have hsuccess : pool.shared.success=true := inv.replied t error hreply
      rw [hshared,hdone hsuccess]
      exact hsuccess
  · have howner : ofOwner (pool.pcs thread)=true := inv.owners thread hthread
    have hzero : (machine pool (thread,oracle)).pcs 0=pool.pcs 0 :=
      Pool.step_pcs_of_ne (Ne.symm hthread)
    have hmove := ownerMove_next howner oracle pool.shared accepted
    refine ⟨⟨point,hzero.trans hpoint,hmove.known hknown,?_⟩,?_,?_⟩
    · intro hsuccess
      exact hdone (hmove.success ▸ hsuccess)
    · intro t ht
      by_cases hself : t=thread
      · subst hself
        have hnext : (machine pool (t,oracle)).pcs t=(next oracle pool.shared (pool.pcs t)).2 :=
          Pool.step_pcs_self pool t oracle
        exact hnext ▸ ofOwner_next howner oracle pool.shared
      · have hother : (machine pool (thread,oracle)).pcs t=pool.pcs t :=
          Pool.step_pcs_of_ne hself
        exact hother ▸ inv.owners t ht
    · intro t error hreply
      refine hmove.success.trans ?_
      dsimp only [observed] at hreply
      by_cases hself : t=thread
      · subst hself
        rw [Pool.step_pcs_self] at hreply
        exact reply_next hreply
      · rw [Pool.step_pcs_of_ne hself] at hreply
        exact inv.replied t error hreply

/-- A new session has accepted and delivered nothing. -/
theorem startup_session (maxQueuedSamples : ℕ) : SessionInv (startup maxQueuedSamples,[]) := by
  refine ⟨⟨.wait,rfl,⟨[],rfl,fun _ => rfl⟩,nofun⟩,?_,?_⟩
  · intro t ht
    dsimp only [startup]
    rw [if_neg ht]
    rfl
  · intro t error hreply
    dsimp only [startup] at hreply
    split at hreply <;> cases hreply

/-- In every interleaving of the owners with the worker and for every
backend, delivery is all or nothing. -/
theorem delivery_all_or_nothing (maxQueuedSamples : ℕ) (schedule : List (ℕ×Oracle)) :
    AllOrNothing (run (observed machine observeAccepted) (startup maxQueuedSamples,[])
      schedule) := by
  have inv := run_invariant machine_session schedule (startup_session maxQueuedSamples)
  obtain ⟨point,_,hknown,hdone⟩ := inv.worker
  refine ⟨?_,oneTerminal_of_known hknown⟩
  intro thread error hreply
  have hsuccess := inv.replied thread error hreply
  rw [hdone hsuccess] at hknown
  exact (hknown.1 hsuccess).2

/-- One owner pushes two chunks and finishes while the worker runs. -/
def pushTwiceThenFinish : List (ℕ×Oracle) :=
  does 1 (.pushAudio [1,2])::goesOn 0 2++does 1 (.pushAudio [3])::does 1 .finish::goesOn 0 11++
    goesOn 1 1

example : (run machine (startup 4) pushTwiceThenFinish).pcs 1=.ready (some (.finished true "")) ∧
    (run machine (startup 4) pushTwiceThenFinish).shared.calls=
      [.pushAudio [1,2],.pushAudio [3],.finish] := by
  decide +kernel

end Vinput.AsyncDelivery
