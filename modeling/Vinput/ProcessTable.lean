import Mathlib.Data.List.Basic
import Mathlib.Logic.Function.Basic

/-!
# Process numbers and process instances

A process number names one instance after another: an instance starts under
a free number, exits, and frees the number when it is reaped. A number
together with a start time names one instance for good. The table keeps
every pair that was ever started, so a pair that lost its number never gets
it back.
-/

namespace Vinput.ProcessTable

/-- What holds the numbers now, and which instances there ever were. -/
structure Table (Pid Start : Type*) where
  /-- The instance that holds a number, and whether it still runs. -/
  occupant : Pid → Option (Start×Bool)
  /-- Every instance that was ever started. -/
  born : List (Pid×Start)
  /-- What holds a number was started. -/
  started : ∀ {pid start running}, occupant pid=some (start,running) → (pid,start)∈born

/-- What may happen to processes. -/
inductive Event (Pid Start : Type*) where
  /-- The holder of a number exits and waits to be reaped. -/
  | exits (pid : Pid)
  /-- An exited holder is reaped and the number is free. -/
  | reaped (pid : Pid)
  /-- A new instance takes a free number. -/
  | spawned (pid : Pid) (start : Start)

variable {Pid Start : Type*}

namespace Table

section Instances

/-- The instance holds its number, running or waiting to be reaped. -/
def Owns (table : Table Pid Start) (pid : Pid) (start : Start) : Prop :=
  ∃ running, table.occupant pid=some (start,running)

/-- The instance runs. -/
def Running (table : Table Pid Start) (pid : Pid) (start : Start) : Prop :=
  table.occupant pid=some (start,true)

/-- The instance was started and has exited. -/
def Ended (table : Table Pid Start) (pid : Pid) (start : Start) : Prop :=
  (pid,start)∈table.born ∧ ¬table.Running pid start

/-- The instance was started and has lost its number. -/
def Gone (table : Table Pid Start) (pid : Pid) (start : Start) : Prop :=
  (pid,start)∈table.born ∧ ¬table.Owns pid start

variable {table : Table Pid Start} {pid : Pid} {start : Start}

/-- A running instance owns its identity. -/
theorem Running.owns (h : table.Running pid start) : table.Owns pid start := ⟨true,h⟩

theorem Owns.born (h : table.Owns pid start) : (pid,start)∈table.born := by
  obtain ⟨running,hoccupant⟩ := h
  exact table.started hoccupant

/-- An instance that is gone has ended. -/
theorem Gone.ended (h : table.Gone pid start) : table.Ended pid start :=
  ⟨h.1,fun hrunning => h.2 hrunning.owns⟩

/-- A number is held by one instance at a time. -/
theorem Owns.unique {other : Start} (h : table.Owns pid start) (hother : table.Owns pid other) :
    start=other := by
  obtain ⟨running,hoccupant⟩ := h
  obtain ⟨state,hsecond⟩ := hother
  rw [hoccupant] at hsecond
  simp only [Option.some.injEq,Prod.mk.injEq] at hsecond
  exact hsecond.1

end Instances

section Events

variable [DecidableEq Pid] [DecidableEq Start]

/-- The table with one instance that keeps its number and changes its state. -/
def settle (table : Table Pid Start) (pid : Pid) (start : Start) (running : Bool)
    (h : (pid,start)∈table.born) : Table Pid Start where
  occupant := Function.update table.occupant pid (some (start,running))
  born := table.born
  started := by
    intro other begin state hother
    by_cases heq : other=pid
    · subst heq
      rw [Function.update_self] at hother
      simp only [Option.some.injEq,Prod.mk.injEq] at hother
      exact hother.1 ▸ h
    · rw [Function.update_of_ne heq] at hother
      exact table.started hother

/-- The table with a number set free. -/
def release (table : Table Pid Start) (pid : Pid) : Table Pid Start where
  occupant := Function.update table.occupant pid none
  born := table.born
  started := by
    intro other begin state hother
    by_cases heq : other=pid
    · subst heq
      rw [Function.update_self] at hother
      cases hother
    · rw [Function.update_of_ne heq] at hother
      exact table.started hother

/-- The table with one more instance on record. -/
def record (table : Table Pid Start) (pid : Pid) (start : Start) : Table Pid Start where
  occupant := table.occupant
  born := (pid,start)::table.born
  started := fun hother => List.mem_cons_of_mem _ (table.started hother)

/-- What an event makes of the table; events that cannot happen change
nothing. -/
def apply (table : Table Pid Start) : Event Pid Start → Table Pid Start
  | .exits pid =>
    match h : table.occupant pid with
    | some (start,true) => table.settle pid start false (table.started h)
    | _ => table
  | .reaped pid =>
    match table.occupant pid with
    | some (_,false) => table.release pid
    | _ => table
  | .spawned pid start =>
    if table.occupant pid=none ∧ (pid,start)∉table.born then
      (table.record pid start).settle pid start true List.mem_cons_self
    else table

instance (table : Table Pid Start) (pid : Pid) (start : Start) :
    Decidable (table.Owns pid start) :=
  decidable_of_iff ((table.occupant pid).map Prod.fst=some start) (by simp [Owns])

instance (table : Table Pid Start) (pid : Pid) (start : Start) :
    Decidable (table.Running pid start) :=
  inferInstanceAs (Decidable (table.occupant pid=some (start,true)))

variable {table : Table Pid Start} {pid : Pid} {start : Start}

/-- What one event can do. -/
theorem apply_cases (table : Table Pid Start) (event : Event Pid Start) :
    table.apply event=table ∨
      (∃ pid start h, table.Running pid start ∧
        table.apply event=table.settle pid start false h) ∨
      (∃ pid start, table.occupant pid=some (start,false) ∧
        table.apply event=table.release pid) ∨
      ∃ pid start h, table.occupant pid=none ∧ (pid,start)∉table.born ∧
        table.apply event=(table.record pid start).settle pid start true h := by
  cases event with
  | exits pid =>
    simp only [apply]
    split
    · next start h => exact .inr (.inl ⟨pid,start,table.started h,h,rfl⟩)
    · exact .inl rfl
  | reaped pid =>
    simp only [apply]
    split
    · next start h => exact .inr (.inr (.inl ⟨pid,start,h,rfl⟩))
    · exact .inl rfl
  | spawned pid start =>
    simp only [apply]
    split
    · next h => exact .inr (.inr (.inr ⟨pid,start,List.mem_cons_self,h.1,h.2,rfl⟩))
    · exact .inl rfl

theorem born_apply (h : (pid,start)∈table.born) (event : Event Pid Start) :
    (pid,start)∈(table.apply event).born := by
  obtain heq | ⟨_,_,_,-,heq⟩ | ⟨_,_,-,heq⟩ | ⟨_,_,_,-,-,heq⟩ := table.apply_cases event <;>
    rw [heq]
  · exact h
  · exact h
  · exact h
  · exact List.mem_cons_of_mem _ h

/-- Who holds a number after an event and was started before it held the
number before; who runs ran. -/
theorem occupant_apply {running : Bool} (hborn : (pid,start)∈table.born) {event : Event Pid Start}
    (h : (table.apply event).occupant pid=some (start,running)) :
    table.occupant pid=some (start,running) ∨
      running=false ∧ table.occupant pid=some (start,true) := by
  obtain heq | ⟨holder,begin,_,hrunning,heq⟩ | ⟨holder,begin,-,heq⟩ |
    ⟨holder,begin,_,-,hfresh,heq⟩ := table.apply_cases event <;> rw [heq] at h
  · exact .inl h
  · by_cases hsame : pid=holder
    · subst hsame
      simp only [settle,Function.update_self,Option.some.injEq,Prod.mk.injEq] at h
      obtain ⟨hstart,hstate⟩ := h
      exact .inr ⟨hstate.symm,hstart ▸ hrunning⟩
    · simp only [settle,Function.update_of_ne hsame] at h
      exact .inl h
  · by_cases hsame : pid=holder
    · subst hsame
      simp only [release,Function.update_self] at h
      cases h
    · simp only [release,Function.update_of_ne hsame] at h
      exact .inl h
  · by_cases hsame : pid=holder
    · subst hsame
      simp only [settle,Function.update_self,Option.some.injEq,Prod.mk.injEq] at h
      exact absurd (h.1 ▸ hborn) hfresh
    · simp only [settle,record,Function.update_of_ne hsame] at h
      exact .inl h

/-- A lost number does not come back. -/
theorem Gone.apply (h : table.Gone pid start) (event : Event Pid Start) :
    (table.apply event).Gone pid start := by
  refine ⟨born_apply h.1 event,?_⟩
  rintro ⟨running,hoccupant⟩
  obtain hbefore | ⟨-,hbefore⟩ := occupant_apply h.1 hoccupant
  · exact h.2 ⟨running,hbefore⟩
  · exact h.2 ⟨true,hbefore⟩

/-- What has exited does not run again. -/
theorem Ended.apply (h : table.Ended pid start) (event : Event Pid Start) :
    (table.apply event).Ended pid start := by
  refine ⟨born_apply h.1 event,fun hrunning => ?_⟩
  obtain hbefore | ⟨-,hbefore⟩ := occupant_apply h.1 hrunning
  · exact h.2 hbefore
  · exact h.2 hbefore

end Events

end Table

end Vinput.ProcessTable
