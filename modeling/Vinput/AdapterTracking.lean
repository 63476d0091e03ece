import Vinput.TrackedProcesses

/-!
# Tracked adapters

A running child is in the map or in the hands of a call, and every call ends
with nothing in its hands. Starts of adapters reserve nothing: when they do
not take turns, the later of two insertions replaces the session of the
other, and the pid file names whichever child was written last.
-/

namespace Vinput.AdapterTracking

open InterleavedRuns TrackedProcesses

section Custody

/-- The sessions a thread has in its hands, with their ids. -/
def hands : Pc → List (String×ℕ)
  | .start id (.probe child) => [(id,child)]
  | .start id (.write child) => [(id,child)]
  | .start id (.unwritten child _) => [(id,child)]
  | .start id (.insert child) => [(id,child)]
  | .stop id (.remove child) => [(id,child)]
  | .stop id (.destroy child) => [(id,child)]
  | .shutdown (.remove _ all) => all
  | .shutdown (.destroy all) => all
  | _ => []

variable {manager : Manager} {oracle : Oracle} {shared : Shared} {pc : Pc} {id : String}
  {child : ℕ}

theorem hands_answer (found : Option PidRecord) (asker : Asker) :
    hands (answer manager id found asker)=[] := by
  cases asker with
  | caller => rfl
  | start =>
    unfold answer
    (repeat' split) <;> rfl

theorem hands_leaveStart (result : Result) : hands (leaveStart manager id result)=[] := by
  unfold leaveStart
  split <;> rfl

theorem hands_stopOutcome (outcome : TerminateOutcome) :
    hands (stopOutcome manager id outcome)=[] := by
  cases outcome <;> rfl

/-- Sessions of the map as `Shutdown` lists them. -/
theorem mem_entries : (id,child)∈shared.sessions.entries.map (fun entry => (entry.1,entry.2)) ↔
    shared.sessions.lookup id=some child := by
  rw [List.mem_map]
  constructor
  · rintro ⟨⟨other,found⟩,hentry,hpair⟩
    obtain ⟨rfl,rfl⟩ := Prod.mk.inj hpair
    exact AList.mem_lookup_iff.mpr hentry
  · intro h
    exact ⟨⟨id,child⟩,AList.mem_lookup_iff.mp h,rfl⟩

/-- A session is in the hands of a thread because it was, because it has been
taken out of the map, or because it has just been started. -/
theorem hands_next (h : (id,child)∈hands (next manager oracle shared pc).2) :
    (id,child)∈hands pc ∨ shared.sessions.lookup id=some child ∨
      (pc=.start id .spawn ∧ child=shared.spawned ∧ oracle.spawn=.started) := by
  cases pc with
  | ready last =>
    dsimp only [next] at h
    cases hcall : oracle.call <;> rw [hcall] at h <;> dsimp only [begin] at h <;>
      (repeat' split at h) <;> cases h
  | query asker other point =>
    cases point <;> dsimp only [next,nextQuery] at h <;> (repeat' split at h) <;>
      first | cases h | (rw [hands_answer] at h; cases h)
  | start other point =>
    cases point with
    | spawn =>
      dsimp only [next,nextStart] at h
      cases hspawn : oracle.spawn with
      | started =>
        rw [hspawn] at h
        obtain ⟨rfl,rfl⟩ := Prod.mk.inj (List.mem_singleton.mp h)
        exact .inr (.inr ⟨rfl,rfl,rfl⟩)
      | failed error =>
        rw [hspawn] at h
        dsimp only at h
        rw [hands_leaveStart] at h
        cases h
      | thrown =>
        rw [hspawn] at h
        dsimp only at h
        rw [hands_leaveStart] at h
        cases h
    | probe watched =>
      dsimp only [next,nextStart] at h
      split at h
      · rw [hands_leaveStart] at h
        cases h
      · exact .inl h
    | write written =>
      dsimp only [next,nextStart] at h
      split at h <;> exact .inl h
    | unwritten unwritten error =>
      dsimp only [next,nextStart] at h
      rw [hands_leaveStart] at h
      cases h
    | reserve =>
      dsimp only [next,nextStart] at h
      split at h <;> cases h
    | _ => cases h
  | stop other point =>
    cases point with
    | enter =>
      dsimp only [next,nextStop] at h
      cases hlookup : shared.sessions.lookup other with
      | none =>
        rw [hlookup] at h
        cases h
      | some found =>
        rw [hlookup] at h
        obtain ⟨rfl,rfl⟩ := Prod.mk.inj (List.mem_singleton.mp h)
        exact .inr (.inl hlookup)
    | remove stopped => exact .inl h
    | terminate record =>
      dsimp only [next,nextStop] at h
      rw [hands_stopOutcome] at h
      cases h
    | _ => cases h
  | broadcast line => cases h
  | shutdown point =>
    cases point with
    | enter => exact .inr (.inl (mem_entries.mp h))
    | remove rest all => cases rest <;> exact .inl h
    | destroy all => cases h

/-- Every child that is destroyed has exited. -/
theorem exited_of_mem_destroyAll {all : List (String×ℕ)} (h : (id,child)∈all) (shared : Shared) :
    (all.foldl (fun shared entry => destroy entry.2 shared) shared).exited child=true := by
  induction all generalizing shared with
  | nil => cases h
  | cons entry rest ih =>
    rcases List.mem_cons.mp h with rfl | hrest
    · exact exited_destroyAll rest (destroy_self child shared)
    · exact ih hrest _

/-- A tracked session whose child runs stays in the map or comes into the
hands of the thread. -/
theorem tracked_kept (h : shared.sessions.lookup id=some child)
    (hrunning : (next manager oracle shared pc).1.exited child=false) :
    (next manager oracle shared pc).1.sessions.lookup id=some child ∨
      (id,child)∈hands (next manager oracle shared pc).2 := by
  have huntracked : ∀ other, other≠id → (untrack other shared).sessions.lookup id=some child :=
    fun other hother => (AList.lookup_erase_ne hother.symm).trans h
  cases pc with
  | ready last =>
    left
    dsimp only [next]
    cases oracle.call <;> dsimp only [begin] <;> (repeat' split) <;> exact h
  | query asker other point =>
    left
    cases point with
    | enter =>
      by_cases hother : other=id
      · subst hother
        dsimp only [next,nextQuery] at hrunning ⊢
        rw [h] at hrunning ⊢
        dsimp only at hrunning ⊢
        by_cases hexited : shared.exited child=true
        · rw [if_pos hexited] at hrunning
          split at hrunning <;> cases hexited.symm.trans hrunning
        · rw [if_neg hexited]
          exact h
      · dsimp only [next,nextQuery]
        (repeat' split) <;> first | exact h | exact huntracked other hother
    | _ => exact h
  | start other point =>
    left
    cases point with
    | insert inserted =>
      dsimp only [next,nextStart,trackLocked] at hrunning ⊢
      by_cases hother : other=id
      · subst hother
        rw [h] at hrunning
        cases (destroy_self child shared).symm.trans hrunning
      · obtain ⟨exited,hframe⟩ := trackLocked_frame other inserted shared
        show (trackLocked other inserted shared).sessions.lookup id=some child
        rw [hframe]
        exact (AList.lookup_insert_ne (Ne.symm hother)).trans h
    | unwritten unwritten error => exact h
    | release result => exact h
    | _ =>
      dsimp only [next,nextStart]
      (repeat' split) <;> exact h
  | stop other point =>
    cases point with
    | enter =>
      by_cases hother : other=id
      · subst hother
        dsimp only [next,nextStop]
        rw [h]
        exact .inr (List.mem_singleton.mpr rfl)
      · left
        dsimp only [next,nextStop]
        split
        · exact huntracked other hother
        · exact h
    | terminate record =>
      left
      obtain ⟨exited,hframe⟩ := terminateGracefully_frame oracle shared record
      show (terminateGracefully oracle shared record).1.sessions.lookup id=_
      rw [hframe]
      exact h
    | _ => exact .inl h
  | broadcast line => exact .inl h
  | shutdown point =>
    cases point with
    | enter => exact .inr (mem_entries.mpr h)
    | remove rest all => cases rest <;> exact .inl h
    | destroy all =>
      left
      obtain ⟨exited,hframe⟩ := destroyAll_frame all shared
      dsimp only [next,nextShutdown]
      rw [hframe]
      exact h

/-- A session in the hands of a thread stays there or comes into the map
while its child runs. -/
theorem held_kept (h : (id,child)∈hands pc)
    (hrunning : (next manager oracle shared pc).1.exited child=false) :
    (next manager oracle shared pc).1.sessions.lookup id=some child ∨
      (id,child)∈hands (next manager oracle shared pc).2 := by
  cases pc with
  | start other point =>
    cases point with
    | probe watched =>
      obtain ⟨rfl,rfl⟩ := Prod.mk.inj (List.mem_singleton.mp h)
      dsimp only [next,nextStart] at hrunning ⊢
      split at hrunning
      · rename_i hexited
        cases hexited.symm.trans hrunning
      · rename_i hruns
        rw [if_neg hruns]
        exact .inr h
    | write written =>
      right
      dsimp only [next,nextStart]
      split <;> exact h
    | unwritten unwritten error =>
      obtain ⟨rfl,rfl⟩ := Prod.mk.inj (List.mem_singleton.mp h)
      cases (destroy_self child shared).symm.trans hrunning
    | insert inserted =>
      obtain ⟨rfl,rfl⟩ := Prod.mk.inj (List.mem_singleton.mp h)
      left
      obtain ⟨exited,hframe⟩ := trackLocked_frame id child shared
      show (trackLocked id child shared).sessions.lookup id=some child
      rw [hframe]
      exact AList.lookup_insert shared.sessions
    | _ => cases h
  | stop other point =>
    cases point with
    | remove stopped => exact .inr h
    | destroy stopped =>
      obtain ⟨rfl,rfl⟩ := Prod.mk.inj (List.mem_singleton.mp h)
      cases (destroy_self child shared).symm.trans hrunning
    | _ => cases h
  | shutdown point =>
    cases point with
    | enter => cases h
    | remove rest all => cases rest <;> exact .inr h
    | destroy all => cases (exited_of_mem_destroyAll h shared).symm.trans hrunning
  | _ => cases h

/-- Children are numbered as they are started. -/
theorem spawned_next (manager : Manager) (oracle : Oracle) (shared : Shared) (pc : Pc) :
    ((next manager oracle shared pc).1.spawned=shared.spawned ∧
        (next manager oracle shared pc).1.owner=shared.owner) ∨
      ∃ id, pc=.start id .spawn ∧ oracle.spawn=.started ∧
        (next manager oracle shared pc).1.spawned=shared.spawned+1 ∧
        (next manager oracle shared pc).1.owner=Function.update shared.owner shared.spawned id ∧
        (id,shared.spawned)∈hands (next manager oracle shared pc).2 := by
  cases pc with
  | ready last =>
    left
    dsimp only [next]
    cases oracle.call <;> dsimp only [begin] <;> (repeat' split) <;> exact ⟨rfl,rfl⟩
  | query asker other point =>
    left
    cases point <;> dsimp only [next,nextQuery] <;> (repeat' split) <;> exact ⟨rfl,rfl⟩
  | start other point =>
    cases point with
    | spawn =>
      dsimp only [next,nextStart]
      cases oracle.spawn with
      | started => exact .inr ⟨other,rfl,rfl,rfl,rfl,List.mem_singleton.mpr rfl⟩
      | failed error => exact .inl ⟨rfl,rfl⟩
      | thrown => exact .inl ⟨rfl,rfl⟩
    | insert inserted =>
      left
      obtain ⟨exited,hframe⟩ := trackLocked_frame other inserted shared
      dsimp only [next,nextStart]
      rw [hframe]
      exact ⟨rfl,rfl⟩
    | unwritten unwritten error => exact .inl ⟨rfl,rfl⟩
    | release result => exact .inl ⟨rfl,rfl⟩
    | _ =>
      left
      dsimp only [next,nextStart]
      (repeat' split) <;> exact ⟨rfl,rfl⟩
  | stop other point =>
    left
    cases point with
    | enter =>
      dsimp only [next,nextStop]
      split <;> exact ⟨rfl,rfl⟩
    | terminate record =>
      obtain ⟨exited,hframe⟩ := terminateGracefully_frame oracle shared record
      dsimp only [next,nextStop]
      rw [hframe]
      exact ⟨rfl,rfl⟩
    | _ => exact ⟨rfl,rfl⟩
  | broadcast line => exact .inl ⟨rfl,rfl⟩
  | shutdown point =>
    left
    cases point with
    | enter => exact ⟨rfl,rfl⟩
    | remove rest all => cases rest <;> exact ⟨rfl,rfl⟩
    | destroy all =>
      obtain ⟨exited,hframe⟩ := destroyAll_frame all shared
      dsimp only [next,nextShutdown]
      rw [hframe]
      exact ⟨rfl,rfl⟩

/-- The child was started for the id. -/
def OwnedBy (shared : Shared) (id : String) (child : ℕ) : Prop :=
  child<shared.spawned ∧ shared.owner child=id

/-- Steps of others keep the owner of a child. -/
theorem OwnedBy.next (h : OwnedBy shared id child) (manager : Manager) (oracle : Oracle) (pc : Pc) :
    OwnedBy (next manager oracle shared pc).1 id child := by
  obtain ⟨hlt,howner⟩ := h
  rcases spawned_next manager oracle shared pc with
    ⟨hspawned,hsame⟩ | ⟨other,_,_,hspawned,hupdate,_⟩
  · unfold OwnedBy
    rw [hspawned,hsame]
    exact ⟨hlt,howner⟩
  · unfold OwnedBy
    rw [hspawned,hupdate,Function.update_of_ne (Nat.ne_of_lt hlt)]
    exact ⟨Nat.lt_succ_of_lt hlt,howner⟩

end Custody

section Owners

/-- Invariant of the children and who has them. -/
structure OwnerInv (pool : System) : Prop where
  /-- A tracked session belongs to its id. -/
  tracked : ∀ id child, pool.shared.sessions.lookup id=some child → OwnedBy pool.shared id child
  /-- So does one in the hands of a thread. -/
  held : ∀ t id child, (id,child)∈hands (pool.pcs t) → OwnedBy pool.shared id child
  /-- A running child is in the map or in some hands. -/
  kept : ∀ id child, OwnedBy pool.shared id child → pool.shared.exited child=false →
    pool.shared.sessions.lookup id=some child ∨ ∃ t, (id,child)∈hands (pool.pcs t)

variable {manager : Manager} {pool : System} {thread : ℕ} {oracle : Oracle}

/-- A session has come into the hands of a thread. -/
theorem held_step (inv : OwnerInv pool) {id : String} {child : ℕ}
    (h : (id,child)∈hands (next manager oracle pool.shared (pool.pcs thread)).2) :
    OwnedBy (next manager oracle pool.shared (pool.pcs thread)).1 id child := by
  rcases hands_next h with hheld | htracked | ⟨hpc,rfl,hspawn⟩
  · exact (inv.held thread id child hheld).next manager oracle _
  · exact (inv.tracked id child htracked).next manager oracle _
  · rw [hpc]
    dsimp only [next,nextStart]
    rw [hspawn]
    exact ⟨Nat.lt_succ_self _,Function.update_self _ _ _⟩

theorem machine_owners (pool : System) (label : ℕ×Oracle) (inv : OwnerInv pool) :
    OwnerInv (machine manager pool label) := by
  obtain ⟨thread,oracle⟩ := label
  refine ⟨?_,?_,?_⟩
  · intro id child htracked
    rcases tracked_next htracked with hbefore | hinsert
    · exact (inv.tracked id child hbefore).next manager oracle _
    · have hheld : (id,child)∈hands (pool.pcs thread) := by
        dsimp only at hinsert
        rw [hinsert]
        exact List.mem_singleton.mpr rfl
      exact (inv.held thread id child hheld).next manager oracle _
  · intro t id child hheld
    by_cases hself : t=thread
    · subst hself
      rw [Pool.step_pcs_self] at hheld
      exact held_step inv hheld
    · rw [Pool.step_pcs_of_ne hself] at hheld
      exact (inv.held t id child hheld).next manager oracle _
  · intro id child howned hrunning
    have hplace : ∀ hpc : (machine manager pool (thread,oracle)).shared.sessions.lookup id=
        some child ∨ (id,child)∈hands (next manager oracle pool.shared (pool.pcs thread)).2,
        (machine manager pool (thread,oracle)).shared.sessions.lookup id=some child ∨
          ∃ t, (id,child)∈hands ((machine manager pool (thread,oracle)).pcs t) := by
      rintro (htracked | hheld)
      · exact .inl htracked
      · refine .inr ⟨thread,?_⟩
        rw [Pool.step_pcs_self]
        exact hheld
    have hruns : pool.shared.exited child=false := by
      refine Bool.eq_false_of_not_eq_true fun hexited => ?_
      cases (exited_next manager oracle (pool.pcs thread) hexited).symm.trans hrunning
    have hearlier : OwnedBy pool.shared id child →
        (machine manager pool (thread,oracle)).shared.sessions.lookup id=some child ∨
          ∃ t, (id,child)∈hands ((machine manager pool (thread,oracle)).pcs t) := by
      intro hbefore
      rcases inv.kept id child hbefore hruns with htracked | ⟨t,hheld⟩
      · exact hplace (tracked_kept htracked hrunning)
      · by_cases hself : t=thread
        · subst hself
          exact hplace (held_kept hheld hrunning)
        · refine .inr ⟨t,?_⟩
          rw [Pool.step_pcs_of_ne hself]
          exact hheld
    obtain ⟨hlt,howner⟩ := howned
    rw [Pool.step_shared] at hlt howner
    rcases spawned_next manager oracle pool.shared (pool.pcs thread) with
      ⟨hspawned,hsame⟩ | ⟨other,_,_,hspawned,hupdate,hheld⟩
    · dsimp only at hlt howner
      rw [hspawned] at hlt
      rw [hsame] at howner
      exact hearlier ⟨hlt,howner⟩
    · dsimp only at hlt howner
      rw [hspawned] at hlt
      rw [hupdate] at howner
      rcases Nat.lt_succ_iff_lt_or_eq.mp hlt with hold | rfl
      · rw [Function.update_of_ne (Nat.ne_of_lt hold)] at howner
        exact hearlier ⟨hold,howner⟩
      · rw [Function.update_self] at howner
        subst howner
        exact hplace (.inr hheld)

theorem startup_owners (files : String → Option PidRecord) : OwnerInv (startup files) := by
  refine ⟨?_,?_,?_⟩
  · intro id child h
    cases h
  · intro t id child h
    cases h
  · intro id child h
    cases h.1

end Owners

section Turns

/-- A start that has begun its running check. -/
def inStart (id : String) : Pc → Bool
  | .query .start _ .enter => false
  | .query .start other _ => decide (other=id)
  | .start other _ => decide (other=id)
  | _ => false

/-- Starts of one id take turns: one begins its running check while no other
is past it. -/
def startsAlone (pool : System) (label : ℕ×Oracle) : Prop :=
  ∀ id, pool.pcs label.1=.query .start id .enter → ∀ t, t≠label.1 → inStart id (pool.pcs t)=false

variable {manager : Manager} {oracle : Oracle} {shared : Shared} {pc : Pc} {id : String}

/-- An answer stays in a start only for its own identity. -/
theorem inStart_answer {other : String} {found : Option PidRecord} {asker : Asker}
    (h : inStart id (answer manager other found asker)=true) : asker=.start ∧ other=id := by
  cases asker with
  | caller => cases h
  | start =>
    unfold answer at h
    (repeat' split at h) <;> first | cases h | exact ⟨rfl,of_decide_eq_true h⟩

/-- An answer with a process leaves the start. -/
theorem inStart_answer_some {other : String} {record : PidRecord} {asker : Asker} :
    inStart id (answer manager other (some record) asker)=false := by
  cases asker <;> rfl

/-- Leaving a start is about its own identity. -/
theorem inStart_leaveStart {other : String} {result : Result}
    (h : inStart id (leaveStart manager other result)=true) : other=id := by
  unfold leaveStart at h
  split at h
  · exact of_decide_eq_true h
  · cases h

/-- A start is past its running check because it was, or because it has found
nothing tracked. -/
theorem inStart_next (h : inStart id (next manager oracle shared pc).2=true) :
    inStart id pc=true ∨ (pc=.query .start id .enter ∧
      (next manager oracle shared pc).1.sessions.lookup id=none) := by
  cases pc with
  | ready last =>
    dsimp only [next] at h
    cases hcall : oracle.call <;> rw [hcall] at h <;> dsimp only [begin] at h <;>
      (repeat' split at h) <;> cases h
  | query asker other point =>
    cases point with
    | enter =>
      right
      dsimp only [next,nextQuery] at h ⊢
      cases hlookup : shared.sessions.lookup other with
      | none =>
        rw [hlookup] at h
        cases asker with
        | caller => cases h
        | start =>
          obtain rfl : other=id := of_decide_eq_true h
          exact ⟨rfl,hlookup⟩
      | some child =>
        rw [hlookup] at h
        dsimp only at h ⊢
        split at h
        · rename_i hexited
          rw [if_pos hexited]
          split at h
          · rename_i hlocked
            obtain ⟨rfl,rfl⟩ := inStart_answer h
            rw [if_pos hlocked]
            exact ⟨rfl,AList.lookup_erase other shared.sessions⟩
          · rename_i hlocked
            rw [if_neg hlocked]
            cases asker with
            | caller => cases h
            | start =>
              obtain rfl : other=id := of_decide_eq_true h
              exact ⟨rfl,AList.lookup_erase other shared.sessions⟩
        · rw [inStart_answer_some] at h
          cases h
    | read =>
      left
      cases asker with
      | caller => cases h
      | start => exact h
    | remove =>
      obtain ⟨rfl,rfl⟩ := inStart_answer h
      exact .inl (decide_eq_true rfl)
    | identify record =>
      obtain ⟨rfl,rfl⟩ := inStart_answer h
      exact .inl (decide_eq_true rfl)
  | start other point =>
    left
    refine decide_eq_true ?_
    cases point with
    | insert inserted => cases h
    | release result => cases h
    | unwritten unwritten error => exact inStart_leaveStart h
    | _ =>
      dsimp only [next,nextStart] at h
      (repeat' split at h) <;>
        first | cases h | exact of_decide_eq_true h | exact inStart_leaveStart h
  | stop other point =>
    cases point with
    | enter =>
      dsimp only [next,nextStop] at h
      split at h <;> cases h
    | terminate record =>
      dsimp only [next,nextStop] at h
      cases houtcome : (terminateGracefully oracle shared record).2 <;> rw [houtcome] at h <;>
        cases h
    | _ => cases h
  | broadcast line => cases h
  | shutdown point =>
    cases point with
    | remove rest all => cases rest <;> cases h
    | _ => cases h

/-- Invariant of starts that take turns. -/
structure TurnInv (pool : System) : Prop where
  /-- One start of an id at a time is past its running check. -/
  exclusive : ∀ t u id, inStart id (pool.pcs t)=true → inStart id (pool.pcs u)=true → t=u
  /-- Nothing is tracked for it. -/
  clear : ∀ t id, inStart id (pool.pcs t)=true → pool.shared.sessions.lookup id=none

variable {pool : System} {thread : ℕ}

/-- Every guarded step keeps the turns. -/
theorem machine_turns (pool : System) (label : ℕ×Oracle) (inv : TurnInv pool)
    (guarded : startsAlone pool label) : TurnInv (machine manager pool label) := by
  obtain ⟨thread,oracle⟩ := label
  have halone : ∀ t id, t≠thread → inStart id (pool.pcs t)=true →
      inStart id (next manager oracle pool.shared (pool.pcs thread)).2=false := by
    intro t id hother ht
    refine Bool.eq_false_of_not_eq_true fun hself => ?_
    rcases inStart_next hself with hbefore | ⟨henter,_⟩
    · exact hother (inv.exclusive t thread id ht hbefore)
    · cases ht.symm.trans (guarded id henter t hother)
  have hclear : ∀ t id, inStart id (pool.pcs t)=true →
      ((machine manager pool (thread,oracle)).shared.sessions.lookup id≠none → t=thread ∧
        inStart id (next manager oracle pool.shared (pool.pcs thread)).2=false) := by
    intro t id ht htracked
    obtain ⟨child,hchild⟩ := Option.ne_none_iff_exists'.mp htracked
    rcases tracked_next hchild with hbefore | hinsert
    · cases (inv.clear t id ht).symm.trans hbefore
    · dsimp only at hinsert
      refine ⟨inv.exclusive t thread id ht ?_,?_⟩
      · rw [hinsert]
        exact decide_eq_true rfl
      · rw [hinsert]
        rfl
  constructor
  · intro t u id ht hu
    by_cases htself : t=thread
    · by_cases huself : u=thread
      · exact htself.trans huself.symm
      · rw [Pool.step_pcs_of_ne huself] at hu
        subst htself
        rw [Pool.step_pcs_self] at ht
        cases ht.symm.trans (halone u id huself hu)
    · rw [Pool.step_pcs_of_ne htself] at ht
      by_cases huself : u=thread
      · subst huself
        rw [Pool.step_pcs_self] at hu
        cases hu.symm.trans (halone t id htself ht)
      · rw [Pool.step_pcs_of_ne huself] at hu
        exact inv.exclusive t u id ht hu
  · intro t id ht
    by_contra htracked
    by_cases hself : t=thread
    · subst hself
      rw [Pool.step_pcs_self] at ht
      rcases inStart_next ht with hbefore | ⟨_,hnone⟩
      · cases ht.symm.trans (hclear t id hbefore htracked).2
      · exact htracked hnone
    · rw [Pool.step_pcs_of_ne hself] at ht
      exact hself (hclear t id ht htracked).1

theorem startup_turns (files : String → Option PidRecord) : TurnInv (startup files) := by
  refine ⟨?_,?_⟩
  · intro t u id h
    cases h
  · intro t id h
    cases h

/-- A start that writes its file has the id for itself. -/
theorem writesAlone (inv : TurnInv pool) (thread : ℕ) : WritesAlone pool thread := by
  intro id child hpc
  have hself : inStart id (pool.pcs thread)=true := by
    rw [hpc]
    exact decide_eq_true rfl
  refine ⟨inv.clear thread id hself,fun t hother inserted ht => ?_⟩
  refine hother (inv.exclusive t thread id ?_ hself)
  rw [ht]
  exact decide_eq_true rfl

end Turns

section Runs

/-- While no call on an id is in progress, its running children are the one
that is tracked, which the pid file names. A session that is put into the
map replaces none that runs. -/
structure AdapterKept (pool : System) (label : ℕ×Oracle) : Prop where
  /-- A running child is tracked and recorded. -/
  running : ∀ id, (∀ t, concerns id (pool.pcs t)=false) → ∀ child,
    OwnedBy pool.shared id child → pool.shared.exited child=false →
    pool.shared.sessions.lookup id=some child ∧ pool.shared.pidFiles id=some (.child child)
  /-- There is one at most. -/
  unique : ∀ id, (∀ t, concerns id (pool.pcs t)=false) → ∀ left right,
    OwnedBy pool.shared id left → pool.shared.exited left=false →
    OwnedBy pool.shared id right → pool.shared.exited right=false → left=right
  /-- No running session is replaced. -/
  fresh : ∀ id child old, pool.pcs label.1=.start id (.insert child) →
    pool.shared.sessions.lookup id=some old → pool.shared.exited old=true

/-- Invariant of the adapters. -/
structure AdapterInv (pool : System) : Prop where
  owners : OwnerInv pool
  turns : TurnInv pool
  files : FileInv pool

/-- Starts take turns, and no pid file of a running child is removed. -/
def adaptersApart (pool : System) (label : ℕ×Oracle) : Prop :=
  startsAlone pool label ∧ keepsFile adapterManager pool label

/-- Every guarded step keeps the invariant of the adapters. -/
theorem machine_adapters (pool : System) (label : ℕ×Oracle) (inv : AdapterInv pool)
    (guarded : adaptersApart pool label) : AdapterInv (machine adapterManager pool label) :=
  ⟨machine_owners pool label inv.owners,machine_turns pool label inv.turns guarded.1,
    file_step inv.files (writesAlone inv.turns label.1) guarded.2⟩

/-- A call that holds a child concerns its identity. -/
theorem concerns_of_hands {pc : Pc} {id : String} {child : ℕ} (h : (id,child)∈hands pc) :
    concerns id pc=true := by
  have hsingle : ∀ other found, (id,child)∈[(other,found)] → decide (other=id)=true := by
    intro other found hmem
    exact decide_eq_true (Prod.mk.inj (List.mem_singleton.mp hmem)).1.symm
  cases pc with
  | start other point => cases point <;> first | exact hsingle other _ h | cases h
  | stop other point => cases point <;> first | exact hsingle other _ h | cases h
  | shutdown point => rfl
  | _ => cases h

theorem kept_of_inv {pool : System} {label : ℕ×Oracle} (inv : AdapterInv pool) :
    AdapterKept pool label := by
  have hrunning : ∀ id, (∀ t, concerns id (pool.pcs t)=false) → ∀ child,
      OwnedBy pool.shared id child → pool.shared.exited child=false →
      pool.shared.sessions.lookup id=some child := by
    intro id hquiet child howned hruns
    rcases inv.owners.kept id child howned hruns with htracked | ⟨t,hheld⟩
    · exact htracked
    · cases (concerns_of_hands hheld).symm.trans (hquiet t)
  refine ⟨?_,?_,?_⟩
  · intro id hquiet child howned hruns
    have htracked := hrunning id hquiet child howned hruns
    exact ⟨htracked,inv.files id child ⟨hruns,.inl htracked⟩⟩
  · intro id hquiet left right hleft hleftRuns hright hrightRuns
    have htracked := hrunning id hquiet left hleft hleftRuns
    exact Option.some.inj (htracked.symm.trans (hrunning id hquiet right hright hrightRuns))
  · intro id child old hpc htracked
    have hself : inStart id (pool.pcs label.1)=true := by
      rw [hpc]
      exact decide_eq_true rfl
    cases (inv.turns.clear label.1 id hself).symm.trans htracked

/-- In every run in which starts of one adapter take turns and nobody removes
the pid file of a running child, each adapter runs at most once, tracked and
recorded. -/
theorem adapter_kept_of_apart_run (files : String → Option PidRecord)
    (schedule : List (ℕ×Oracle))
    (guarded : Along (machine adapterManager) adaptersApart (startup files) schedule) :
    Along (machine adapterManager) AdapterKept (startup files) schedule :=
  guarded.everyStep machine_adapters (fun _ _ inv _ => kept_of_inv inv)
    ⟨startup_owners files,startup_turns files,startup_file files⟩

/-- Two starts pass their running check before either has spawned; the one
that wrote its file first is the last to track its session. -/
def twoStarts : List (ℕ×Oracle) :=
  arrives 1 (.start "local")::goesOn 1 3++arrives 2 (.start "local")::goesOn 2 3++goesOn 1 3++
    goesOn 2 4++goesOn 1 1

/-- A session that is put into the map replaces none that runs. -/
def replacesNone (pool : System) (label : ℕ×Oracle) : Bool :=
  match pool.pcs label.1 with
  | .start id (.insert _) =>
    match pool.shared.sessions.lookup id with
    | some old => pool.shared.exited old
    | none => true
  | _ => true

/-- A step that keeps the adapter replaces none. -/
theorem replacesNone_of_kept {pool : System} {label : ℕ×Oracle} (h : AdapterKept pool label) :
    replacesNone pool label=true := by
  unfold replacesNone
  split
  · rename_i id child hpc
    split
    · rename_i old htracked
      exact h.fresh id child old hpc htracked
    · rfl
  · rfl

/-- A running session can be replaced: two starts overlap. -/
theorem running_session_replaced :
    ¬∀ (files : String → Option PidRecord) (schedule : List (ℕ×Oracle)),
      Along (machine adapterManager) AdapterKept (startup files) schedule := by
  intro h
  have hreplaces := (h (fun _ => none) twoStarts).mono fun _ _ => replacesNone_of_kept
  exact absurd hreplaces (by decide +kernel)

/-- What a step of one of a few threads needs to keep apart, when it removes
nothing. -/
def apartBelow (bound : ℕ) (pool : System) (label : ℕ×Oracle) : Bool :=
  decide (removes adapterManager pool.shared (pool.pcs label.1)=none) &&
    match pool.pcs label.1 with
    | .query .start id .enter =>
      (List.range bound).all fun t => decide (t=label.1) || !inStart id (pool.pcs t)
    | _ => true

/-- The guard only has to be tested at threads that run. -/
theorem adaptersApart_of_below {bound : ℕ} {pool : System} {label : ℕ×Oracle}
    (hquiet : ∀ t, bound≤t → pool.pcs t=.ready none) (h : apartBelow bound pool label=true) :
    adaptersApart pool label := by
  obtain ⟨hremoves,hstart⟩ := Bool.and_eq_true_iff.mp h
  constructor
  · intro id hpc t hother
    rw [hpc] at hstart
    by_cases ht : t<bound
    · have hfew := List.all_eq_true.mp hstart t (List.mem_range.mpr ht)
      rcases Bool.or_eq_true_iff.mp hfew with hself | hfree
      · exact absurd (of_decide_eq_true hself) hother
      · exact Bool.not_eq_true' _ ▸ hfree
    · rw [hquiet t (by omega)]
      rfl
  · intro id hremoved
    cases (of_decide_eq_true hremoves).symm.trans hremoved

/-- An adapter is started, asked for and started again in vain. -/
def startedOnce : List (ℕ×Oracle) :=
  arrives 1 (.start "local")::goesOn 1 7++arrives 2 (.getPid "local")::goesOn 2 1++
    arrives 2 (.start "local")::goesOn 2 1

/-- An adapter that was started alone is tracked and recorded. -/
theorem adapter_kept_after_start :
    Along (machine adapterManager) AdapterKept (startup fun _ => none) startedOnce := by
  have hguard : Along (observed (machine adapterManager) fun (_ : Unit) _ _ => ())
      (fun pair label => adaptersApart pair.1 label) (startup fun _ => none,()) startedOnce :=
    Pool.along_bounded 3 (.ready none) (fun pair label => apartBelow 3 pair.1 label=true)
      (fun _ _ => adaptersApart_of_below) (by decide) (fun _ _ => rfl) (by decide +kernel)
  exact adapter_kept_of_apart_run (fun _ => none) startedOnce
    ((along_observed adaptersApart).mp hguard)

end Runs

end Vinput.AdapterTracking
