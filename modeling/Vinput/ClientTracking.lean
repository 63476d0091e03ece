import Vinput.TrackedProcesses

/-!
# Tracked clients

A start of a client reserves its id before it spawns, so that no two starts
of one id are under way and no tracked session is replaced. The pid file is
not covered by the reservation: whoever detached an earlier session removes
the file later, whosever it is by then.
-/

namespace Vinput.ClientTracking

open InterleavedRuns TrackedProcesses

section Reservation

/-- A start that is past its reservation and has not given it back. -/
def reserved (id : String) : Pc → Bool
  | .start _ .reserve => false
  | .start other _ => decide (other=id)
  | _ => false

variable {oracle : Oracle} {shared : Shared} {pc : Pc} {id : String}

/-- A query leaves a start before its reservation. -/
theorem reserved_answer (found : Option PidRecord) (other : String) (asker : Asker) :
    reserved id (answer clientManager other found asker)=false := by
  cases asker with
  | caller => rfl
  | start =>
    cases found with
    | none => rfl
    | some record => rfl

/-- A start past its reservation touches neither map until it leaves. -/
theorem reserved_stay (h : reserved id pc=true)
    (hnext : reserved id (next clientManager oracle shared pc).2=true) :
    (next clientManager oracle shared pc).1.pending=shared.pending ∧
      (next clientManager oracle shared pc).1.sessions=shared.sessions := by
  cases pc with
  | start other point =>
    cases point with
    | reserve => cases h
    | insert child => cases hnext
    | release result => cases hnext
    | _ =>
      dsimp only [next,nextStart]
      (repeat' split) <;> exact ⟨rfl,rfl⟩
  | _ => cases h

/-- A start that leaves has given its reservation back. -/
theorem reserved_leave (h : reserved id pc=true)
    (hnext : reserved id (next clientManager oracle shared pc).2=false) :
    id∉(next clientManager oracle shared pc).1.pending := by
  cases pc with
  | start other point =>
    cases point with
    | reserve => cases h
    | insert child =>
      obtain rfl : other=id := of_decide_eq_true h
      obtain ⟨exited,hframe⟩ := trackLocked_frame other child shared
      dsimp only [next,nextStart]
      rw [hframe]
      exact Finset.notMem_erase other shared.pending
    | release result =>
      obtain rfl : other=id := of_decide_eq_true h
      exact Finset.notMem_erase other shared.pending
    | _ =>
      have hid : decide (other=id)=true := h
      dsimp only [next,nextStart] at hnext
      (repeat' split at hnext) <;> cases hid.symm.trans hnext
  | _ => cases h

/-- A start enters its reservation when nothing is in its way. -/
theorem reserved_enter (h : reserved id pc=false)
    (hnext : reserved id (next clientManager oracle shared pc).2=true) :
    id∉shared.pending ∧ shared.sessions.lookup id=none ∧
      id∈(next clientManager oracle shared pc).1.pending ∧
      (next clientManager oracle shared pc).1.sessions=shared.sessions := by
  cases pc with
  | ready last =>
    dsimp only [next] at hnext
    cases hcall : oracle.call <;> rw [hcall] at hnext <;> dsimp only [begin] at hnext <;>
      (repeat' split at hnext) <;> cases hnext
  | query asker other point =>
    have hanswer : ∀ found, reserved id (answer clientManager other found asker)≠true := by
      intro found
      rw [reserved_answer]
      exact Bool.false_ne_true
    cases point <;> dsimp only [next,nextQuery] at hnext <;> (repeat' split at hnext) <;>
      first | cases hnext | exact absurd hnext (hanswer _)
  | start other point =>
    cases point with
    | reserve =>
      dsimp only [next,nextStart] at hnext ⊢
      split at hnext
      · cases hnext
      · rename_i hfree
        rw [if_neg hfree]
        obtain rfl : other=id := of_decide_eq_true hnext
        rw [Bool.or_eq_true,not_or] at hfree
        refine ⟨fun hpending => hfree.2 (decide_eq_true hpending),?_,
          Finset.mem_insert_self other shared.pending,rfl⟩
        exact Option.not_isSome_iff_eq_none.mp hfree.1
    | insert child => cases hnext
    | release result => cases hnext
    | _ =>
      have hid : decide (other=id)=false := h
      dsimp only [next,nextStart] at hnext
      (repeat' split at hnext) <;> cases hid.symm.trans hnext
  | stop other point =>
    cases point with
    | terminate record =>
      dsimp only [next,nextStop] at hnext
      cases hcall : (terminateGracefully oracle shared record).2 <;> rw [hcall] at hnext <;>
        cases hnext
    | _ =>
      dsimp only [next,nextStop] at hnext
      (repeat' split at hnext) <;> cases hnext
  | broadcast line => cases hnext
  | shutdown point =>
    cases point with
    | remove rest all => cases rest <;> cases hnext
    | _ => cases hnext

/-- What a step does to the reservations. -/
theorem pending_next (oracle : Oracle) (shared : Shared) (pc : Pc) :
    (next clientManager oracle shared pc).1.pending=shared.pending ∨
      (∃ id, (next clientManager oracle shared pc).1.pending=insert id shared.pending ∧
        reserved id (next clientManager oracle shared pc).2=true) ∨
      ∃ id, (next clientManager oracle shared pc).1.pending=shared.pending.erase id ∧
        reserved id pc=true := by
  cases pc with
  | ready last =>
    left
    dsimp only [next]
    cases oracle.call <;> dsimp only [begin] <;> (repeat' split) <;> rfl
  | query asker other point =>
    left
    cases point <;> dsimp only [next,nextQuery] <;> (repeat' split) <;> rfl
  | start other point =>
    cases point with
    | reserve =>
      dsimp only [next,nextStart]
      split
      · exact .inl rfl
      · exact .inr (.inl ⟨other,rfl,decide_eq_true rfl⟩)
    | insert child =>
      obtain ⟨exited,hframe⟩ := trackLocked_frame other child shared
      dsimp only [next,nextStart]
      rw [hframe]
      exact .inr (.inr ⟨other,rfl,decide_eq_true rfl⟩)
    | release result => exact .inr (.inr ⟨other,rfl,decide_eq_true rfl⟩)
    | _ =>
      left
      dsimp only [next,nextStart]
      (repeat' split) <;> rfl
  | stop other point =>
    left
    cases point with
    | terminate record =>
      obtain ⟨exited,hframe⟩ := terminateGracefully_frame oracle shared record
      show (terminateGracefully oracle shared record).1.pending=_
      rw [hframe]
    | enter =>
      dsimp only [next,nextStop]
      split <;> rfl
    | _ => rfl
  | broadcast line => exact .inl rfl
  | shutdown point =>
    left
    cases point with
    | enter => rfl
    | remove rest all => cases rest <;> rfl
    | destroy all =>
      obtain ⟨exited,hframe⟩ := destroyAll_frame all shared
      dsimp only [next,nextShutdown]
      rw [hframe]

/-- Nobody else takes a reservation away. -/
theorem pending_kept (h : reserved id pc=false) (hpending : id∈shared.pending) :
    id∈(next clientManager oracle shared pc).1.pending := by
  rcases pending_next oracle shared pc with hsame | ⟨other,hinsert,_⟩ | ⟨other,herase,hother⟩
  · rw [hsame]
    exact hpending
  · rw [hinsert]
    exact Finset.mem_insert_of_mem hpending
  · rw [herase]
    refine Finset.mem_erase.mpr ⟨?_,hpending⟩
    rintro rfl
    exact Bool.false_ne_true (h.symm.trans hother)

/-- A reservation is there because it was, or because its start has just
made it. -/
theorem pending_of_next (h : id∈(next clientManager oracle shared pc).1.pending) :
    id∈shared.pending ∨ reserved id (next clientManager oracle shared pc).2=true := by
  rcases pending_next oracle shared pc with hsame | ⟨other,hinsert,hother⟩ | ⟨other,herase,_⟩
  · rw [hsame] at h
    exact .inl h
  · rw [hinsert] at h
    rcases Finset.mem_insert.mp h with rfl | hbefore
    · exact .inr hother
    · exact .inl hbefore
  · rw [herase] at h
    exact .inl (Finset.mem_of_mem_erase h)

end Reservation

section Exclusion

/-- Invariant of the reservations. -/
structure ReservationInv (pool : System) : Prop where
  /-- One start of an id at a time is past its reservation. -/
  exclusive : ∀ t u id, reserved id (pool.pcs t)=true → reserved id (pool.pcs u)=true → t=u
  /-- It is marked, and nothing is tracked for its id. -/
  marked : ∀ t id, reserved id (pool.pcs t)=true →
    id∈pool.shared.pending ∧ pool.shared.sessions.lookup id=none
  /-- Every mark belongs to a start. -/
  owed : ∀ id∈pool.shared.pending, ∃ t, reserved id (pool.pcs t)=true

variable {pool : System} {thread : ℕ} {oracle : Oracle}

/-- A thread past the reservation after a step. -/
theorem reserved_step {t : ℕ} {id : String}
    (h : reserved id ((machine clientManager pool (thread,oracle)).pcs t)=true) :
    (t=thread ∧ reserved id (next clientManager oracle pool.shared (pool.pcs thread)).2=true) ∨
      (t≠thread ∧ reserved id (pool.pcs t)=true) := by
  by_cases hself : t=thread
  · subst hself
    rw [Pool.step_pcs_self] at h
    exact .inl ⟨rfl,h⟩
  · rw [Pool.step_pcs_of_ne hself] at h
    exact .inr ⟨hself,h⟩

/-- A start cannot enter a reservation that another one holds. -/
theorem held_alone (inv : ReservationInv pool) {t : ℕ} {id : String} (hother : t≠thread)
    (h : reserved id (pool.pcs t)=true) :
    reserved id (next clientManager oracle pool.shared (pool.pcs thread)).2=false := by
  refine Bool.eq_false_of_not_eq_true fun hnext => ?_
  by_cases hself : reserved id (pool.pcs thread)=true
  · exact hother (inv.exclusive t thread id h hself)
  · exact (reserved_enter (Bool.eq_false_of_not_eq_true hself) hnext).1 (inv.marked t id h).1

/-- Every step keeps the reservations. -/
theorem machine_reservation (pool : System) (label : ℕ×Oracle) (inv : ReservationInv pool) :
    ReservationInv (machine clientManager pool label) := by
  obtain ⟨thread,oracle⟩ := label
  refine ⟨?_,?_,?_⟩
  · intro t u id ht hu
    rcases reserved_step ht with ⟨rfl,hself⟩ | ⟨hother,hbefore⟩
    · rcases reserved_step hu with ⟨rfl,_⟩ | ⟨hother,hbefore⟩
      · rfl
      · cases hself.symm.trans (held_alone inv hother hbefore)
    · rcases reserved_step hu with ⟨rfl,hself⟩ | ⟨_,hheld⟩
      · cases hself.symm.trans (held_alone inv hother hbefore)
      · exact inv.exclusive t u id hbefore hheld
  · intro t id ht
    rw [Pool.step_shared]
    rcases reserved_step ht with ⟨rfl,hself⟩ | ⟨hother,hbefore⟩
    · by_cases hheld : reserved id (pool.pcs t)=true
      · obtain ⟨hpending,hsessions⟩ := reserved_stay hheld hself
        dsimp only
        rw [hpending,hsessions]
        exact inv.marked t id hheld
      · obtain ⟨_,hnone,hpending,hsessions⟩ :=
          reserved_enter (Bool.eq_false_of_not_eq_true hheld) hself
        dsimp only
        rw [hsessions]
        exact ⟨hpending,hnone⟩
    · obtain ⟨hpending,hnone⟩ := inv.marked t id hbefore
      have hfree : reserved id (pool.pcs thread)=false :=
        Bool.eq_false_of_not_eq_true fun hheld => hother (inv.exclusive t thread id hbefore hheld)
      refine ⟨pending_kept hfree hpending,Option.eq_none_iff_forall_ne_some.mpr fun child hchild => ?_⟩
      rcases tracked_next hchild with htracked | hinsert
      · cases hnone.symm.trans htracked
      · dsimp only at hinsert
        rw [hinsert] at hfree
        exact of_decide_eq_false hfree rfl
  · intro id hpending
    rcases pending_of_next hpending with hbefore | hself
    · obtain ⟨t,ht⟩ := inv.owed id hbefore
      by_cases hself : t=thread
      · subst hself
        refine ⟨t,?_⟩
        rw [Pool.step_pcs_self]
        refine Bool.eq_true_of_not_eq_false fun hleft => ?_
        exact reserved_leave ht hleft hpending
      · refine ⟨t,?_⟩
        rw [Pool.step_pcs_of_ne hself]
        exact ht
    · refine ⟨thread,?_⟩
      rw [Pool.step_pcs_self]
      exact hself

/-- At the start nothing is reserved. -/
theorem startup_reservation (files : String → Option PidRecord) :
    ReservationInv (startup files) := by
  refine ⟨?_,?_,?_⟩
  · intro t u id h
    cases h
  · intro t id h
    cases h
  · intro id h
    cases Finset.notMem_empty id h

/-- What a reservation is for. -/
structure ReservationKept (pool : System) (label : ℕ×Oracle) : Prop where
  /-- One start of an id at a time is past its reservation. -/
  exclusive : ∀ t u id, reserved id (pool.pcs t)=true → reserved id (pool.pcs u)=true → t=u
  /-- A session that is put into the map replaces none. -/
  fresh : ∀ id child, pool.pcs label.1=.start id (.insert child) →
    pool.shared.sessions.lookup id=none
  /-- A start that leaves has given its reservation back. -/
  released : ∀ id, reserved id (pool.pcs label.1)=true →
    reserved id ((machine clientManager pool label).pcs label.1)=false →
    id∉(machine clientManager pool label).shared.pending
  /-- There are no others. -/
  owed : ∀ id∈pool.shared.pending, ∃ t, reserved id (pool.pcs t)=true

/-- In every run starts of one client exclude each other, replace no session
and leave no reservation behind. -/
theorem reservation_kept_of_run (files : String → Option PidRecord)
    (schedule : List (ℕ×Oracle)) :
    Along (machine clientManager) ReservationKept (startup files) schedule := by
  have hfree : Along (machine clientManager) (fun _ _ => True) (startup files) schedule :=
    along_of_labels (fun _ _ _ => trivial) (startup files)
  refine hfree.everyStep (fun pool label inv _ => machine_reservation pool label inv) ?_
    (startup_reservation files)
  intro pool label inv _
  refine ⟨inv.exclusive,?_,?_,inv.owed⟩
  · intro id child hpc
    refine (inv.marked label.1 id ?_).2
    rw [hpc]
    exact decide_eq_true rfl
  · intro id hheld hleft
    obtain ⟨thread,oracle⟩ := label
    rw [Pool.step_pcs_self] at hleft
    exact reserved_leave hheld hleft

end Exclusion

section Files

variable {pool : System} {thread : ℕ} {oracle : Oracle}

/-- A start that writes its file has the id for itself. -/
theorem writesAlone (inv : ReservationInv pool) (thread : ℕ) : WritesAlone pool thread := by
  intro id child hpc
  have hheld : reserved id (pool.pcs thread)=true := by
    rw [hpc]
    exact decide_eq_true rfl
  refine ⟨(inv.marked thread id hheld).2,fun t hother inserted ht => ?_⟩
  refine hother (inv.exclusive t thread id ?_ hheld)
  rw [ht]
  exact decide_eq_true rfl

/-- Invariant of the clients and their files. -/
structure ClientInv (pool : System) : Prop where
  reservations : ReservationInv pool
  files : FileInv pool

/-- Every guarded step keeps the invariant of the clients. -/
theorem machine_clients (pool : System) (label : ℕ×Oracle) (inv : ClientInv pool)
    (guarded : keepsFile clientManager pool label) :
    ClientInv (machine clientManager pool label) :=
  ⟨machine_reservation pool label inv.reservations,
    file_step inv.files (writesAlone inv.reservations label.1) guarded⟩

/-- A client that runs has its pid file while no call on it is in progress. -/
def FileKept (pool : System) : Prop :=
  ∀ id child, pool.shared.sessions.lookup id=some child → pool.shared.exited child=false →
    (∀ t, concerns id (pool.pcs t)=false) → pool.shared.pidFiles id=some (.child child)

/-- A running client keeps its pid file in every run in which nobody removes
the file of a running child that is tracked or about to be. -/
theorem file_kept_of_apart_run (files : String → Option PidRecord) (schedule : List (ℕ×Oracle))
    (guarded : Along (machine clientManager) (keepsFile clientManager) (startup files) schedule) :
    FileKept (run (machine clientManager) (startup files) schedule) := by
  have hinv : ClientInv (run (machine clientManager) (startup files) schedule) :=
    guarded.invariant machine_clients ⟨startup_reservation files,startup_file files⟩
  intro id child htracked hrunning _
  exact hinv.files id child ⟨hrunning,.inl htracked⟩

/-- A client is started. -/
def started (thread : ℕ) : List (ℕ×Oracle) := arrives thread (.start "mic")::goesOn thread 8

/-- A stop has detached the session of a client and its child has exited when
the client is started again; then the stop removes the pid file. -/
def startDuringStop : List (ℕ×Oracle) :=
  started 1++arrives 2 (.stop "mic")::goesOn 2 1++arrives 3 (.childExits 0)::started 1++goesOn 2 2

/-- The pid file of a running client can be missing: the stop of the earlier
child removed it. -/
theorem file_lost_after_stop :
    ¬∀ (files : String → Option PidRecord) (schedule : List (ℕ×Oracle)),
      FileKept (run (machine clientManager) (startup files) schedule) := by
  intro h
  have hquiet : ∀ t, concerns "mic" ((run (machine clientManager) (startup fun _ => none)
      startDuringStop).pcs t)=false := by
    intro t
    by_cases ht : t<4
    · have hfew : ∀ t<4, concerns "mic" ((run (machine clientManager) (startup fun _ => none)
          startDuringStop).pcs t)=false := by
        decide +kernel
      exact hfew t ht
    · have hlabels : ∀ label∈startDuringStop, label.1<4 := by decide
      have hunused : ∀ label∈startDuringStop, label.1≠t := by
        intro label hlabel hsame
        exact ht (hsame ▸ hlabels label hlabel)
      rw [Pool.run_pcs_of_unused hunused]
      rfl
  have hkept := h (fun _ => none) startDuringStop "mic" 1 (by decide +kernel) (by decide +kernel)
    hquiet
  exact absurd hkept (by decide +kernel)

/-- A client that was started keeps its file while it is asked for. -/
theorem file_kept_while_running :
    FileKept (run (machine clientManager) (startup fun _ => none)
      (started 1++arrives 2 (.getPid "mic")::goesOn 2 1)) := by
  refine file_kept_of_apart_run (fun _ => none) _ ?_
  have hnone : Along (machine clientManager) (fun pool label =>
      removes clientManager pool.shared (pool.pcs label.1)=none) (startup fun _ => none)
      (started 1++arrives 2 (.getPid "mic")::goesOn 2 1) := by
    decide +kernel
  refine hnone.mono fun pool label hquiet id hremoves => ?_
  cases hquiet.symm.trans hremoves

end Files

end Vinput.ClientTracking
