import Vinput.ClientEvents
import Vinput.LineSplitting
import Vinput.InterleavedRuns
import Vinput.TrackedProcesses

/-!
# What the clients hear

Events are broadcast to the sessions in the map while its mutex is held. However
starts, stops, queries and broadcasts interleave, a child is offered each event
from the moment it is tracked until it is not, each once and in one order for
all children. What its bounded input takes of them is read back line by line.
-/

namespace Vinput.ClientBroadcast

open InterleavedRuns SinglePlaces TrackedProcesses
open AsrSettings (bytesOf)
open ClientEvents
open ProcessLines (Bytes newline)

section Steps

/-- The child a start has in its hands. -/
def inHand : Pc → Option ℕ
  | .start _ (.probe child) => some child
  | .start _ (.write child) => some child
  | .start _ (.insert child) => some child
  | _ => none

variable {manager : Manager} {oracle : Oracle} {shared : Shared} {pc : Pc}

/-- What a step does to the children. -/
inductive Does (shared : Shared) (pc : Pc) (after : Shared×Pc) : Prop
  | broadcast {line : String} (at_pc : pc=.broadcast line)
      (offered : after.1.offered=shared.offered++
        shared.sessions.entries.map fun entry => (entry.2,line++"\n"))
      (sessions : after.1.sessions=shared.sessions) (spawned : after.1.spawned=shared.spawned)
      (hand : inHand after.2=none)
  | spawn (hand : inHand after.2=some shared.spawned) (spawned : after.1.spawned=shared.spawned+1)
      (offered : after.1.offered=shared.offered) (sessions : after.1.sessions=shared.sessions)
  | insert {id : String} {child : ℕ} (at_pc : pc=.start id (.insert child))
      (sessions : after.1.sessions=shared.sessions.insert id child)
      (offered : after.1.offered=shared.offered) (spawned : after.1.spawned=shared.spawned)
      (hand : inHand after.2=none)
  | other (offered : after.1.offered=shared.offered) (spawned : after.1.spawned=shared.spawned)
      (hand : inHand after.2=inHand pc ∨ inHand after.2=none)
      (sessions : ∀ id child,after.1.sessions.lookup id=some child →
        shared.sessions.lookup id=some child)

theorem inHand_answer (id : String) (found : Option PidRecord) (asker : Asker) :
    inHand (answer manager id found asker)=none := by
  cases asker with
  | caller => rfl
  | start =>
    unfold answer
    (repeat' split) <;> rfl

theorem inHand_leaveStart (id : String) (result : Result) :
    inHand (leaveStart manager id result)=none := by
  unfold leaveStart
  split <;> rfl

theorem inHand_stopOutcome (id : String) (outcome : TerminateOutcome) :
    inHand (stopOutcome manager id outcome)=none := by
  cases outcome <;> rfl

/-- A step that leaves the lines and the children alone. -/
theorem does_other (hpc : ∀ id child,pc≠.start id (.insert child))
    (offered : (next manager oracle shared pc).1.offered=shared.offered)
    (spawned : (next manager oracle shared pc).1.spawned=shared.spawned)
    (hand : inHand (next manager oracle shared pc).2=inHand pc ∨
      inHand (next manager oracle shared pc).2=none) :
    Does shared pc (next manager oracle shared pc) :=
  .other offered spawned hand fun id child hlookup =>
    (tracked_next hlookup).resolve_right (hpc id child)

/-- Every step does one of the things listed. -/
theorem does_next (manager : Manager) (oracle : Oracle) (shared : Shared) (pc : Pc) :
    Does shared pc (next manager oracle shared pc) := by
  cases pc with
  | ready last =>
    refine does_other (fun _ _ => by simp) ?_ ?_ (.inr ?_) <;>
      (dsimp only [next]; cases oracle.call <;> dsimp only [begin] <;> (repeat' split) <;> rfl)
  | query asker id point =>
    cases point with
    | remove => exact does_other (fun _ _ => by simp) rfl rfl (.inr (inHand_answer _ _ _))
    | read => exact does_other (fun _ _ => by simp) rfl rfl (.inr rfl)
    | identify record => exact does_other (fun _ _ => by simp) rfl rfl (.inr (inHand_answer _ _ _))
    | enter =>
      refine does_other (fun _ _ => by simp) ?_ ?_ (.inr ?_) <;>
        (dsimp only [next,nextQuery]; (repeat' split) <;> first | rfl | exact inHand_answer _ _ _)
  | start id point =>
    cases point with
    | insert child =>
      obtain ⟨exited,hframe⟩ := trackLocked_frame id child shared
      have hnext : (next manager oracle shared (.start id (.insert child))).1=
          {shared with
            sessions := shared.sessions.insert id child
            pending := shared.pending.erase id
            exited := exited} := hframe
      exact .insert rfl (by rw [hnext]) (by rw [hnext]) (by rw [hnext]) rfl
    | spawn =>
      cases hspawn : oracle.spawn with
      | started =>
        have hnext : next manager oracle shared (.start id .spawn)=
            ({shared with
              spawned := shared.spawned+1
              owner := Function.update shared.owner shared.spawned id},
              .start id (.probe shared.spawned)) := by
          simp [next,nextStart,hspawn]
        exact .spawn (by rw [hnext]; rfl) (by rw [hnext]) (by rw [hnext]) (by rw [hnext])
      | failed error =>
        refine does_other (fun _ _ => by simp) ?_ ?_ (.inr ?_) <;>
          simp only [next,nextStart,hspawn,inHand_leaveStart]
      | thrown =>
        refine does_other (fun _ _ => by simp) ?_ ?_ (.inr ?_) <;>
          simp only [next,nextStart,hspawn,inHand_leaveStart]
    | reserve =>
      refine does_other (fun _ _ => by simp) ?_ ?_ (.inr ?_) <;>
        (dsimp only [next,nextStart]; split <;> rfl)
    | probe child =>
      refine does_other (fun _ _ => by simp) ?_ ?_ ?_ <;> dsimp only [next,nextStart] <;> split <;>
        first | rfl | exact .inl rfl | exact .inr (inHand_leaveStart _ _)
    | write child =>
      refine does_other (fun _ _ => by simp) ?_ ?_ ?_ <;> dsimp only [next,nextStart] <;> split <;>
        first | rfl | exact .inl rfl | exact .inr rfl
    | unwritten child error =>
      exact does_other (fun _ _ => by simp) rfl rfl (.inr (inHand_leaveStart _ _))
    | release result => exact does_other (fun _ _ => by simp) rfl rfl (.inr rfl)
  | stop id point =>
    cases point with
    | enter =>
      refine does_other (fun _ _ => by simp) ?_ ?_ (.inr ?_) <;>
        (dsimp only [next,nextStop]; split <;> rfl)
    | remove child => exact does_other (fun _ _ => by simp) rfl rfl (.inr rfl)
    | destroy child => exact does_other (fun _ _ => by simp) rfl rfl (.inr rfl)
    | read => exact does_other (fun _ _ => by simp) rfl rfl (.inr rfl)
    | terminate record =>
      obtain ⟨exited,hframe⟩ := terminateGracefully_frame oracle shared record
      have hnext : (next manager oracle shared (.stop id (.terminate record))).1=
          {shared with exited := exited} := hframe
      exact does_other (fun _ _ => by simp) (by rw [hnext]) (by rw [hnext])
        (.inr (inHand_stopOutcome _ _))
    | removeRecord result => exact does_other (fun _ _ => by simp) rfl rfl (.inr rfl)
  | broadcast line => exact .broadcast rfl rfl rfl rfl rfl
  | shutdown point =>
    cases point with
    | enter => exact does_other (fun _ _ => by simp) rfl rfl (.inr rfl)
    | remove rest all =>
      cases rest <;> exact does_other (fun _ _ => by simp) rfl rfl (.inr rfl)
    | destroy all =>
      obtain ⟨exited,hframe⟩ := destroyAll_frame all shared
      have hnext : (next manager oracle shared (.shutdown (.destroy all))).1=
          {shared with exited := exited} := hframe
      exact does_other (fun _ _ => by simp) (by rw [hnext]) (by rw [hnext]) (.inr rfl)

end Steps

section Hearing

/-- The lines that a child was offered. -/
def linesOf (offered : List (ℕ×String)) (child : ℕ) : List String :=
  offered.filterMap fun entry => if entry.1=child then some entry.2 else none

/-- A line that was broadcast, with the children that were tracked then. -/
structure Heard where
  line : String
  children : List ℕ

/-- The lines that were broadcast, with their newlines, in the order of the
regions. -/
def hear (log : List Heard) (pool : System) (label : ℕ×Oracle) : List Heard :=
  match pool.pcs label.1 with
  | .broadcast line => log++[⟨line++"\n",pool.shared.sessions.entries.map Sigma.snd⟩]
  | _ => log

/-- All lines. -/
def broadcasts (log : List Heard) : List String := log.map Heard.line

/-- The lines that were broadcast while a child was tracked. -/
def whileTracked (child : ℕ) (log : List Heard) : List String :=
  (log.filter fun heard => decide (child∈heard.children)).map Heard.line

/-- The manager with what was broadcast. -/
def heardStep : System×List Heard → ℕ×Oracle → System×List Heard :=
  observed (machine clientManager) hear

/-- Children in the hands of threads and in the map. -/
def hold (pool : System) : ℕ⊕String → List ℕ
  | .inl thread => (inHand (pool.pcs thread)).toList
  | .inr id => (pool.shared.sessions.lookup id).toList

/-- Every child is in one place and hears what is broadcast while it is
tracked. -/
structure Hears (pool : System) (log : List Heard) : Prop where
  single : Single (hold pool)
  born : ∀ place,∀ child∈hold pool place,child<pool.shared.spawned
  quiet : ∀ child,(∃ thread,inHand (pool.pcs thread)=some child) ∨ pool.shared.spawned≤child →
    linesOf pool.shared.offered child=[]
  tracked : ∀ id child,pool.shared.sessions.lookup id=some child →
    linesOf pool.shared.offered child<:+broadcasts log
  heard : ∀ child,linesOf pool.shared.offered child<:+:broadcasts log
  exact : ∀ child,linesOf pool.shared.offered child=whileTracked child log

variable {pool : System} {log : List Heard} {thread : ℕ} {oracle : Oracle} {child : ℕ}
  {id line : String}

/-- Lines of two logs follow each other. -/
theorem linesOf_append (first second : List (ℕ×String)) (child : ℕ) :
    linesOf (first++second) child=linesOf first child++linesOf second child :=
  List.filterMap_append

/-- A child in hand is held by its thread. -/
theorem mem_hand (h : inHand (pool.pcs thread)=some child) : child∈hold pool (.inl thread) :=
  Option.mem_toList.mpr h

/-- A tracked child is held by the map. -/
theorem mem_map (h : pool.shared.sessions.lookup id=some child) : child∈hold pool (.inr id) :=
  Option.mem_toList.mpr h

/-- A line is offered as often as the child is in the map. -/
theorem linesOf_entries (entries : List (Sigma fun _ : String => ℕ)) (line : String)
    (child : ℕ) : linesOf (entries.map fun entry => (entry.2,line)) child=
      List.replicate (entries.countP fun entry => entry.2=child) line := by
  unfold linesOf
  induction entries with
  | nil => rfl
  | cons entry rest ih =>
    rw [List.map_cons,List.filterMap_cons,List.countP_cons]
    by_cases hentry : entry.2=child
    · simp [hentry,ih,List.replicate_succ]
    · simp [hentry,ih]

/-- A child in the map is there once. -/
theorem linesOf_tracked (single : Single (hold pool))
    (h : pool.shared.sessions.lookup id=some child) (line : String) :
    linesOf (pool.shared.sessions.entries.map fun entry => (entry.2,line)) child=[line] := by
  have hmem : (⟨id,child⟩ : Sigma fun _ : String => ℕ)∈pool.shared.sessions.entries :=
    AList.mem_lookup_iff.mp h
  have hnodup : pool.shared.sessions.entries.Nodup := pool.shared.sessions.nodupKeys.nodup
  have hcount : pool.shared.sessions.entries.countP (fun entry => entry.2=child)=
      pool.shared.sessions.entries.count ⟨id,child⟩ := by
    refine List.countP_congr fun entry hentry => ?_
    have hlookup : pool.shared.sessions.lookup entry.1=some entry.2 :=
      AList.mem_lookup_iff.mpr hentry
    constructor
    · intro hchild
      have hsame : entry.2=child := of_decide_eq_true hchild
      have hplace := single.alone (.inr entry.1) (.inr id) child
        (mem_map (hsame ▸ hlookup)) (mem_map h)
      have hkey : entry.1=id := Sum.inr.inj hplace
      exact beq_iff_eq.mpr (Sigma.ext hkey (heq_of_eq hsame))
    · intro hentry
      have heq : entry=⟨id,child⟩ := beq_iff_eq.mp hentry
      exact decide_eq_true (by rw [heq])
  rw [linesOf_entries,hcount,List.count_eq_one_of_mem hnodup hmem]
  rfl

/-- A child that is not tracked gets no line. -/
theorem linesOf_untracked (h : ∀ id,pool.shared.sessions.lookup id≠some child) (line : String) :
    linesOf (pool.shared.sessions.entries.map fun entry => (entry.2,line)) child=[] := by
  have hzero : pool.shared.sessions.entries.countP (fun entry => entry.2=child)=0 := by
    refine List.countP_eq_zero.mpr fun entry hentry hchild => h entry.1 ?_
    have hsame : entry.2=child := of_decide_eq_true hchild
    rw [←hsame]
    exact AList.mem_lookup_iff.mpr hentry
  rw [linesOf_entries,hzero]
  rfl

theorem once_hold (pool : System) (place : ℕ⊕String) : (hold pool place).Nodup := by
  have hoption : ∀ held : Option ℕ,held.toList.Nodup := by
    intro held
    cases held <;> simp
  cases place with
  | inl thread => exact hoption _
  | inr id => exact hoption _

/-- A step that offers no line. -/
theorem Hears.still {after : System} (h : Hears pool log)
    (offered : after.shared.offered=pool.shared.offered) (single : Single (hold after))
    (born : ∀ place,∀ child∈hold after place,child<after.shared.spawned)
    (quiet : ∀ child,(∃ thread,inHand (after.pcs thread)=some child) ∨ after.shared.spawned≤child →
      (∃ thread,inHand (pool.pcs thread)=some child) ∨ pool.shared.spawned≤child)
    (tracked : ∀ id child,after.shared.sessions.lookup id=some child →
      pool.shared.sessions.lookup id=some child ∨ ∃ thread,inHand (pool.pcs thread)=some child) :
    Hears after log := by
  refine ⟨single,born,?_,?_,?_,?_⟩
  · intro child hchild
    rw [offered]
    exact h.quiet child (quiet child hchild)
  · intro id child hlookup
    rw [offered]
    rcases tracked id child hlookup with hbefore | hhand
    · exact h.tracked id child hbefore
    · rw [h.quiet child (.inl hhand)]
      exact List.nil_suffix
  · rw [offered]
    exact h.heard
  · rw [offered]
    exact h.exact

/-- The children are those that are tracked. -/
theorem mem_children : child∈pool.shared.sessions.entries.map Sigma.snd ↔
    ∃ id,pool.shared.sessions.lookup id=some child := by
  constructor
  · intro hmem
    obtain ⟨entry,hentry,rfl⟩ := List.mem_map.mp hmem
    exact ⟨entry.1,AList.mem_lookup_iff.mpr hentry⟩
  · rintro ⟨id,hlookup⟩
    exact List.mem_map.mpr ⟨⟨id,child⟩,AList.mem_lookup_iff.mp hlookup,rfl⟩

/-- What was heard while tracked follows each other. -/
theorem whileTracked_append (child : ℕ) (first second : List Heard) :
    whileTracked child (first++second)=whileTracked child first++whileTracked child second := by
  unfold whileTracked
  rw [List.filter_append,List.map_append]

/-- A line is broadcast. -/
theorem Hears.broadcast (h : Hears pool log) (hpc : pool.pcs thread=.broadcast line) :
    Hears (machine clientManager pool (thread,oracle))
      (log++[⟨line++"\n",pool.shared.sessions.entries.map Sigma.snd⟩]) := by
  have hnext : next clientManager oracle pool.shared (pool.pcs thread)=
      ({pool.shared with offered := pool.shared.offered++
        pool.shared.sessions.entries.map fun entry => (entry.2,line++"\n")},.ready none) := by
    rw [hpc]
    rfl
  have hhand : ∀ other,inHand ((machine clientManager pool (thread,oracle)).pcs other)=
      inHand (pool.pcs other) := by
    intro other
    by_cases hother : other=thread
    · rw [hother,Pool.step_pcs_self,hnext,hpc]
      rfl
    · rw [Pool.step_pcs_of_ne hother]
  have hsessions : (machine clientManager pool (thread,oracle)).shared.sessions=
      pool.shared.sessions := congrArg (fun after => after.1.sessions) hnext
  have hspawned : (machine clientManager pool (thread,oracle)).shared.spawned=
      pool.shared.spawned := congrArg (fun after => after.1.spawned) hnext
  have hhold : hold (machine clientManager pool (thread,oracle))=hold pool := by
    funext place
    cases place with
    | inl other =>
      dsimp only [hold]
      rw [hhand]
    | inr id =>
      dsimp only [hold]
      rw [hsessions]
  have hlines : ∀ child,linesOf (machine clientManager pool (thread,oracle)).shared.offered child=
      linesOf pool.shared.offered child++
        linesOf (pool.shared.sessions.entries.map fun entry => (entry.2,line++"\n")) child := by
    intro child
    have hoffered := congrArg (fun after => after.1.offered) hnext
    rw [←linesOf_append]
    exact congrArg (fun offered => linesOf offered child) hoffered
  have hall : broadcasts (log++[⟨line++"\n",pool.shared.sessions.entries.map Sigma.snd⟩])=
      broadcasts log++[line++"\n"] := List.map_append
  refine ⟨hhold ▸ h.single,?_,?_,?_,?_,?_⟩
  · rw [hhold,hspawned]
    exact h.born
  · intro child hchild
    simp only [hhand,hspawned] at hchild
    have huntracked : ∀ id,pool.shared.sessions.lookup id≠some child := by
      intro id hlookup
      rcases hchild with ⟨other,hother⟩ | hunborn
      · exact absurd (h.single.alone (.inl other) (.inr id) child (mem_hand hother)
          (mem_map hlookup)) (by simp)
      · exact absurd (h.born (.inr id) child (mem_map hlookup)) (Nat.not_lt.mpr hunborn)
    rw [hlines,h.quiet child hchild,linesOf_untracked huntracked]
    rfl
  · intro id child hlookup
    rw [hsessions] at hlookup
    rw [hlines,linesOf_tracked h.single hlookup,hall]
    exact (List.suffix_append_inj_of_length_eq rfl).mpr ⟨h.tracked id child hlookup,rfl⟩
  · intro child
    rw [hlines,hall]
    by_cases htracked : ∃ id,pool.shared.sessions.lookup id=some child
    · obtain ⟨id,hlookup⟩ := htracked
      rw [linesOf_tracked h.single hlookup]
      obtain ⟨front,hfront⟩ := h.tracked id child hlookup
      exact ⟨front,[],by rw [←hfront]; simp⟩
    · have huntracked : ∀ id,pool.shared.sessions.lookup id≠some child :=
        fun id hlookup => htracked ⟨id,hlookup⟩
      rw [linesOf_untracked huntracked,List.append_nil]
      exact (h.heard child).trans (List.prefix_append (broadcasts log) _).isInfix
  · intro child
    rw [hlines,whileTracked_append,h.exact]
    by_cases htracked : child∈pool.shared.sessions.entries.map Sigma.snd
    · obtain ⟨id,hlookup⟩ := mem_children.mp htracked
      rw [linesOf_tracked h.single hlookup]
      simp [whileTracked,mem_children.mpr ⟨id,hlookup⟩]
    · have huntracked : ∀ id,pool.shared.sessions.lookup id≠some child :=
        fun id hlookup => htracked (mem_children.mpr ⟨id,hlookup⟩)
      rw [linesOf_untracked huntracked]
      unfold whileTracked
      rw [List.filter_cons_of_neg (by simpa using htracked)]
      rfl

theorem hear_quiet (h : ∀ line,pool.pcs thread≠.broadcast line) (log : List Heard) :
    hear log pool (thread,oracle)=log := by
  unfold hear
  split
  · rename_i line hline
    exact absurd hline (h line)
  · rfl

/-- A thread holds what it held, or what its step gives it. -/
theorem hand_step {other : ℕ}
    (h : inHand ((machine clientManager pool (thread,oracle)).pcs other)=some child) :
    (other=thread ∧ inHand (next clientManager oracle pool.shared (pool.pcs thread)).2=some child) ∨
      (other≠thread ∧ inHand (pool.pcs other)=some child) := by
  by_cases hother : other=thread
  · rw [hother,Pool.step_pcs_self] at h
    exact .inl ⟨hother,h⟩
  · rw [Pool.step_pcs_of_ne hother] at h
    exact .inr ⟨hother,h⟩

/-- A new child is in the hands of its start. -/
theorem Hears.spawn (h : Hears pool log)
    (hand : inHand (next clientManager oracle pool.shared (pool.pcs thread)).2=
      some pool.shared.spawned)
    (spawned : (next clientManager oracle pool.shared (pool.pcs thread)).1.spawned=
      pool.shared.spawned+1)
    (offered : (next clientManager oracle pool.shared (pool.pcs thread)).1.offered=
      pool.shared.offered)
    (sessions : (next clientManager oracle pool.shared (pool.pcs thread)).1.sessions=
      pool.shared.sessions) :
    Hears (machine clientManager pool (thread,oracle)) log := by
  have hheld : ∀ place,∀ child∈hold (machine clientManager pool (thread,oracle)) place,
      child=pool.shared.spawned ∧ place=.inl thread ∨ child∈hold pool place := by
    intro place child hchild
    cases place with
    | inl other =>
      rcases hand_step (Option.mem_toList.mp hchild) with ⟨rfl,hnew⟩ | ⟨-,hold⟩
      · exact .inl ⟨Option.some.inj (hnew.symm.trans hand),rfl⟩
      · exact .inr (mem_hand hold)
    | inr id =>
      have hlookup := Option.mem_toList.mp hchild
      rw [Pool.step_shared,sessions] at hlookup
      exact .inr (mem_map hlookup)
  refine h.still offered ?_ ?_ ?_ ?_
  · refine h.single.moved pool.shared.spawned (.inl thread) (once_hold _) ?_ ?_
    · intro place child hchild hne
      exact (hheld place child hchild).resolve_left fun hnew => hne hnew.1
    · intro place hchild
      rcases hheld place _ hchild with ⟨-,hplace⟩ | hbefore
      · exact hplace
      · exact absurd (h.born place _ hbefore) (Nat.lt_irrefl _)
  · intro place child hchild
    rw [Pool.step_shared,spawned]
    rcases hheld place child hchild with ⟨rfl,-⟩ | hbefore
    · exact Nat.lt_succ_self _
    · exact Nat.lt_succ_of_lt (h.born place child hbefore)
  · rintro child (⟨other,hother⟩ | hunborn)
    · rcases hand_step hother with ⟨-,hnew⟩ | ⟨-,hold⟩
      · exact .inr (Option.some.inj (hand.symm.trans hnew)).le
      · exact .inl ⟨other,hold⟩
    · rw [Pool.step_shared,spawned] at hunborn
      exact .inr (Nat.le_of_succ_le hunborn)
  · intro id child hlookup
    rw [Pool.step_shared,sessions] at hlookup
    exact .inl hlookup

/-- A child goes from the hands of its start to the map. -/
theorem Hears.insert (h : Hears pool log) (hpc : pool.pcs thread=.start id (.insert child))
    (hand : inHand (next clientManager oracle pool.shared (pool.pcs thread)).2=none)
    (spawned : (next clientManager oracle pool.shared (pool.pcs thread)).1.spawned=
      pool.shared.spawned)
    (offered : (next clientManager oracle pool.shared (pool.pcs thread)).1.offered=
      pool.shared.offered)
    (sessions : (next clientManager oracle pool.shared (pool.pcs thread)).1.sessions=
      pool.shared.sessions.insert id child) :
    Hears (machine clientManager pool (thread,oracle)) log := by
  have hchild : inHand (pool.pcs thread)=some child := by
    rw [hpc]
    rfl
  have hheld : ∀ place,∀ other∈hold (machine clientManager pool (thread,oracle)) place,
      (other=child ∧ place=.inr id) ∨ (other∈hold pool place ∧ place≠.inl thread) := by
    intro place other hother
    cases place with
    | inl thread' =>
      rcases hand_step (Option.mem_toList.mp hother) with ⟨-,hnew⟩ | ⟨hne,hold⟩
      · exact absurd (hand.symm.trans hnew) (by simp)
      · exact .inr ⟨mem_hand hold,fun hsame => hne (Sum.inl.inj hsame)⟩
    | inr id' =>
      have hlookup := Option.mem_toList.mp hother
      rw [Pool.step_shared,sessions] at hlookup
      by_cases hid : id'=id
      · subst hid
        rw [AList.lookup_insert] at hlookup
        exact .inl ⟨(Option.some.inj hlookup).symm,rfl⟩
      · rw [AList.lookup_insert_ne hid] at hlookup
        exact .inr ⟨mem_map hlookup,by simp⟩
  refine h.still offered ?_ ?_ ?_ ?_
  · refine h.single.moved child (.inr id) (once_hold _) ?_ ?_
    · intro place other hother hne
      rcases hheld place other hother with ⟨hsame,-⟩ | ⟨hbefore,-⟩
      · exact absurd hsame hne
      · exact hbefore
    · intro place hother
      rcases hheld place child hother with ⟨-,hplace⟩ | ⟨hbefore,hplace⟩
      · exact hplace
      · exact absurd (h.single.alone place (.inl thread) child hbefore (mem_hand hchild)) hplace
  · intro place other hother
    rw [Pool.step_shared,spawned]
    rcases hheld place other hother with ⟨rfl,-⟩ | ⟨hbefore,-⟩
    · exact h.born (.inl thread) _ (mem_hand hchild)
    · exact h.born place other hbefore
  · rintro other (⟨thread',hother⟩ | hunborn)
    · rcases hand_step hother with ⟨-,hnew⟩ | ⟨-,hold⟩
      · exact absurd (hand.symm.trans hnew) (by simp)
      · exact .inl ⟨thread',hold⟩
    · rw [Pool.step_shared,spawned] at hunborn
      exact .inr hunborn
  · intro id' other hlookup
    rw [Pool.step_shared,sessions] at hlookup
    by_cases hid : id'=id
    · subst hid
      rw [AList.lookup_insert] at hlookup
      exact .inr ⟨thread,hchild.trans hlookup⟩
    · rw [AList.lookup_insert_ne hid] at hlookup
      exact .inl hlookup

/-- Children are given up, or nothing changes for them. -/
theorem Hears.other (h : Hears pool log)
    (offered : (next clientManager oracle pool.shared (pool.pcs thread)).1.offered=
      pool.shared.offered)
    (spawned : (next clientManager oracle pool.shared (pool.pcs thread)).1.spawned=
      pool.shared.spawned)
    (hand : inHand (next clientManager oracle pool.shared (pool.pcs thread)).2=
        inHand (pool.pcs thread) ∨
      inHand (next clientManager oracle pool.shared (pool.pcs thread)).2=none)
    (sessions : ∀ id child,
      (next clientManager oracle pool.shared (pool.pcs thread)).1.sessions.lookup id=some child →
      pool.shared.sessions.lookup id=some child) :
    Hears (machine clientManager pool (thread,oracle)) log := by
  have hhand : ∀ other child,
      inHand ((machine clientManager pool (thread,oracle)).pcs other)=some child →
      inHand (pool.pcs other)=some child := by
    intro other child hother
    rcases hand_step hother with ⟨rfl,hnew⟩ | ⟨-,hold⟩
    · rcases hand with hsame | hnone
      · exact hsame.symm.trans hnew
      · exact absurd (hnone.symm.trans hnew) (by simp)
    · exact hold
  have hheld : ∀ place,∀ child∈hold (machine clientManager pool (thread,oracle)) place,
      child∈hold pool place := by
    intro place child hchild
    cases place with
    | inl other => exact mem_hand (hhand other child (Option.mem_toList.mp hchild))
    | inr id => exact mem_map (sessions id child (Option.mem_toList.mp hchild))
  refine h.still offered (h.single.mono (once_hold _) hheld) ?_ ?_ ?_
  · intro place child hchild
    rw [Pool.step_shared,spawned]
    exact h.born place child (hheld place child hchild)
  · rintro child (⟨other,hother⟩ | hunborn)
    · exact .inl ⟨other,hhand other child hother⟩
    · rw [Pool.step_shared,spawned] at hunborn
      exact .inr hunborn
  · exact fun id child hlookup => .inl (sessions id child hlookup)

/-- Every step keeps what was heard in line with what was offered. -/
theorem hears_step (pair : System×List Heard) (label : ℕ×Oracle) (h : Hears pair.1 pair.2) :
    Hears (heardStep pair label).1 (heardStep pair label).2 := by
  obtain ⟨pool,log⟩ := pair
  obtain ⟨thread,oracle⟩ := label
  by_cases hbroadcast : ∃ line,pool.pcs thread=.broadcast line
  · obtain ⟨line,hpc⟩ := hbroadcast
    have hlog : (heardStep (pool,log) (thread,oracle)).2=
        log++[⟨line++"\n",pool.shared.sessions.entries.map Sigma.snd⟩] := by
      simp [heardStep,observed,hear,hpc]
    rw [hlog]
    exact h.broadcast hpc
  · have hquiet : ∀ line,pool.pcs thread≠.broadcast line :=
      fun line hline => hbroadcast ⟨line,hline⟩
    have hlog : (heardStep (pool,log) (thread,oracle)).2=log := hear_quiet hquiet log
    rw [hlog]
    cases does_next clientManager oracle pool.shared (pool.pcs thread) with
    | broadcast at_pc => exact absurd at_pc (hquiet _)
    | spawn hand spawned offered sessions => exact h.spawn hand spawned offered sessions
    | insert at_pc sessions offered spawned hand =>
      exact h.insert at_pc hand spawned offered sessions
    | other offered spawned hand sessions => exact h.other offered spawned hand sessions

theorem hears_run (files : String → Option PidRecord) (schedule : List (ℕ×Oracle)) :
    Hears (run heardStep (startup files,[]) schedule).1
      (run heardStep (startup files,[]) schedule).2 := by
  have hempty : ∀ place,hold (startup files) place=[] := by
    intro place
    cases place <;> rfl
  have hstart : Hears (startup files) [] := by
    refine ⟨⟨once_hold _,?_⟩,?_,fun _ _ => rfl,?_,fun _ => List.infix_rfl,fun _ => rfl⟩
    · intro place other child hchild
      rw [hempty] at hchild
      exact absurd hchild List.not_mem_nil
    · intro place child hchild
      rw [hempty] at hchild
      exact absurd hchild List.not_mem_nil
    · intro id child hlookup
      exact absurd hlookup (by simp [startup])
  exact @run_invariant _ _ heardStep (fun pair => Hears pair.1 pair.2) hears_step
    (startup files,[]) schedule hstart

end Hearing

section Lines

/-- The bytes of lines that were taken. -/
def stdinOf (lines : List String) : Bytes := lines.flatMap bytesOf

/-- The events that a child reads, line by line. -/
def eventsIn (text : Bytes) : List (Option Event) :=
  (LineSplitting.splitAtNewlines newline text).1.map readEvent

/-- Lines of these events, with their newlines. -/
def Tell (lines : List String) (events : List Event) : Prop :=
  lines.map bytesOf=events.map fun event => serialize event++[newline]

/-- Events are read from their lines. -/
theorem eventsIn_lines {events : List Event} (h : ∀ event∈events,Sourced event) :
    eventsIn (LineSplitting.joinLines newline (events.map serialize))=
      events.map (some ∘ sanitized) := by
  have hclean : ∀ line∈events.map serialize,newline∉line := by
    intro line hline
    obtain ⟨event,hevent,rfl⟩ := List.mem_map.mp hline
    exact newline_notMem_serialize (h event hevent)
  have hsplits : LineSplitting.Splits newline
      (LineSplitting.joinLines newline (events.map serialize)) (events.map serialize) [] :=
    ⟨(List.append_nil _).symm,hclean,List.not_mem_nil⟩
  have hlines := ((LineSplitting.splits_splitAtNewlines newline _).unique hsplits).1
  unfold eventsIn
  rw [hlines,List.map_map]
  exact List.map_congr_left fun event hevent => readEvent_serialize (h event hevent)

/-- A child reads the events of its lines. -/
theorem eventsIn_stdinOf {lines : List String} {events : List Event} (h : Tell lines events)
    (hsourced : ∀ event∈events,Sourced event) :
    eventsIn (stdinOf lines)=events.map (some ∘ sanitized) := by
  have htext : stdinOf lines=LineSplitting.joinLines newline (events.map serialize) := by
    unfold stdinOf LineSplitting.joinLines
    rw [List.flatMap_def,h,List.map_map]
    rfl
  rw [htext,eventsIn_lines hsourced]

/-- What a child has of all events: it is offered the lines that were broadcast
while it was tracked and no others. These tell a connected part of all events in
their order, up to the last one as long as it is tracked. Whatever its input
takes of them is read line by line as these events, without the characters that
cannot be written. -/
def Follows (final : System×List Heard) (child : ℕ) (events : List Event) : Prop :=
  let lines := linesOf final.1.shared.offered child
  lines=whileTracked child final.2 ∧ ∃ heard,Tell lines heard ∧ heard<:+:events ∧
    (∀ id,final.1.shared.sessions.lookup id=some child → heard<:+events) ∧
    ∀ taken,taken.Sublist lines → ∃ seen : List Event,seen.Sublist heard ∧
      seen.length=taken.length ∧ eventsIn (stdinOf taken)=seen.map (some ∘ sanitized)

/-- However starts, stops, queries and broadcasts interleave, every child
follows the events. -/
theorem child_reads (files : String → Option PidRecord) (schedule : List (ℕ×Oracle))
    {events : List Event} (hsourced : ∀ event∈events,Sourced event)
    (htell : Tell (broadcasts (run heardStep (startup files,[]) schedule).2) events)
    (child : ℕ) : Follows (run heardStep (startup files,[]) schedule) child events := by
  have hhears := hears_run files schedule
  refine ⟨hhears.exact child,?_⟩
  obtain ⟨heard,hpart,hrest,hlines⟩ : ∃ heard,heard<:+:events ∧
      (∀ id,(run heardStep (startup files,[]) schedule).1.shared.sessions.lookup id=some child →
        heard<:+events) ∧
      Tell (linesOf (run heardStep (startup files,[]) schedule).1.shared.offered child) heard := by
    by_cases htracked : ∃ id,
        (run heardStep (startup files,[]) schedule).1.shared.sessions.lookup id=some child
    · obtain ⟨id,hlookup⟩ := htracked
      have hlog := (hhears.tracked id child hlookup).map bytesOf
      rw [htell] at hlog
      obtain ⟨heard,hheard,hsame⟩ := List.suffix_map_iff.mp hlog
      exact ⟨heard,hheard.isInfix,fun _ _ => hheard,hsame⟩
    · have hlog := (hhears.heard child).map bytesOf
      rw [htell] at hlog
      obtain ⟨heard,hheard,hsame⟩ := List.infix_map_iff.mp hlog
      exact ⟨heard,hheard,fun id hlookup => absurd ⟨id,hlookup⟩ htracked,hsame⟩
  refine ⟨heard,hlines,hpart,hrest,fun taken htaken => ?_⟩
  have hmap := htaken.map bytesOf
  rw [hlines] at hmap
  obtain ⟨seen,hseen,hsame⟩ := List.sublist_map_iff.mp hmap
  have hlength := congrArg List.length hsame
  rw [List.length_map,List.length_map] at hlength
  refine ⟨seen,hseen,hlength.symm,eventsIn_stdinOf hsame fun event hevent => ?_⟩
  exact hsourced event (hpart.subset (hseen.subset hevent))

/-- A client is started, told of a status and told of a text. -/
def sampleSchedule : List (ℕ×Oracle) :=
  arrives 0 (.start "mic")::goesOn 0 9++
    arrives 1 (.broadcast
      "\x7b\"type\":\"status\",\"status\":\"idle\",\"ime\":true\x7d")::goesOn 1 1

/-- The daemon is idle. -/
def sampleEvent : Event := .status (CompactJson.word "idle") true

/-- A tracked child reads that event. -/
theorem child_reads_sample :
    Follows (run heardStep (startup fun _ => none,[]) sampleSchedule) 0 [sampleEvent] ∧
      linesOf (run heardStep (startup fun _ => none,[]) sampleSchedule).1.shared.offered 0=
        ["\x7b\"type\":\"status\",\"status\":\"idle\",\"ime\":true\x7d\n"] := by
  have hsourced : ∀ event∈[sampleEvent],Sourced event := by
    intro event hevent
    rw [List.mem_singleton.mp hevent]
    trivial
  have htell : Tell (broadcasts (run heardStep (startup fun _ => none,[]) sampleSchedule).2)
      [sampleEvent] := by
    unfold Tell
    decide +kernel
  exact ⟨child_reads (fun _ => none) sampleSchedule hsourced htell 0,by decide +kernel⟩

end Lines

end Vinput.ClientBroadcast
