import Mathlib.Data.List.Basic
import Mathlib.Data.List.Nodup
import Mathlib.Logic.Function.Basic

/-!
# Runs of interleaved threads over shared memory

A machine is a total step function and a schedule is a list of labels, so
every interleaving is one list and every reached state is one fold. A guard
is checked in the state before each step; invariants are proved for guarded
schedules. History variables observe a machine without steering it. A pool
of threads steps one program counter at a time; its rules reduce a global
invariant to what a single step of a single thread does.
-/

namespace Vinput.InterleavedRuns

section Runs

variable {State Label : Type*} (step : State → Label → State)

/-- The state reached from a start state by a whole schedule. -/
def run (start : State) (schedule : List Label) : State := schedule.foldl step start

/-- Every label of the schedule is taken in a state that allows it. -/
def Along (guard : State → Label → Prop) : State → List Label → Prop
  | _,[] => True
  | state,label::rest => guard state label ∧ Along guard (step state label) rest

@[simp] theorem run_nil (start : State) : run step start []=start := rfl

/-- A run starts with its first label. -/
@[simp] theorem run_cons (start : State) (label : Label) (rest : List Label) :
    run step start (label::rest)=run step (step start label) rest := rfl

/-- A schedule may be cut at any point. -/
theorem run_append (start : State) (first second : List Label) :
    run step start (first++second)=run step (run step start first) second :=
  List.foldl_append

instance decidableAlong (guard : State → Label → Prop) [∀ s l, Decidable (guard s l)] :
    ∀ (start : State) (schedule : List Label), Decidable (Along step guard start schedule)
  | _,[] => isTrue trivial
  | state,label::rest =>
    have : Decidable (Along step guard (step state label) rest) :=
      decidableAlong guard (step state label) rest
    inferInstanceAs (Decidable (guard state label ∧ Along step guard (step state label) rest))

variable {step} {guard prop : State → Label → Prop} {Inv : State → Prop}

/-- What one guarded step keeps, a whole guarded schedule keeps. -/
theorem Along.invariant (preserve : ∀ s l, Inv s → guard s l → Inv (step s l))
    {start : State} {schedule : List Label} (hguard : Along step guard start schedule)
    (hstart : Inv start) : Inv (run step start schedule) := by
  induction schedule generalizing start with
  | nil => exact hstart
  | cons label rest ih => exact ih hguard.2 (preserve start label hstart hguard.1)

/-- What every step keeps, every schedule keeps. -/
theorem run_invariant (preserve : ∀ s l, Inv s → Inv (step s l)) {start : State}
    (schedule : List Label) (hstart : Inv start) : Inv (run step start schedule) := by
  induction schedule generalizing start with
  | nil => exact hstart
  | cons label rest ih => exact ih (preserve start label hstart)

/-- A property of single steps holds all along a schedule whose states
keep an invariant that implies it. -/
theorem Along.everyStep (preserve : ∀ s l, Inv s → guard s l → Inv (step s l))
    (holds : ∀ s l, Inv s → guard s l → prop s l) {start : State} {schedule : List Label}
    (hguard : Along step guard start schedule) (hstart : Inv start) :
    Along step prop start schedule := by
  induction schedule generalizing start with
  | nil => trivial
  | cons label rest ih =>
    exact ⟨holds start label hstart hguard.1,
      ih hguard.2 (preserve start label hstart hguard.1)⟩

/-- A stronger guard allows fewer schedules. -/
theorem Along.mono (weaker : ∀ s l, guard s l → prop s l) {start : State}
    {schedule : List Label} (hguard : Along step guard start schedule) :
    Along step prop start schedule := by
  induction schedule generalizing start with
  | nil => trivial
  | cons label rest ih => exact ⟨weaker start label hguard.1,ih hguard.2⟩

/-- A guard that every label of a schedule meets anywhere. -/
theorem along_of_labels {schedule : List Label} (h : ∀ label∈schedule, ∀ s, guard s label)
    (start : State) : Along step guard start schedule := by
  induction schedule generalizing start with
  | nil => trivial
  | cons label rest ih =>
    exact ⟨h label List.mem_cons_self start,
      ih (fun other hother => h other (List.mem_cons_of_mem _ hother)) (step start label)⟩

/-- Two guards hold along a schedule when their conjunction does. -/
theorem along_and {start : State} {schedule : List Label} :
    Along step (fun s l => guard s l ∧ prop s l) start schedule ↔
      Along step guard start schedule ∧ Along step prop start schedule := by
  induction schedule generalizing start with
  | nil => exact ⟨fun _ => ⟨trivial,trivial⟩,fun _ => trivial⟩
  | cons label rest ih =>
    dsimp only [Along]
    rw [ih]
    constructor
    · rintro ⟨⟨hg,hp⟩,hgs,hps⟩
      exact ⟨⟨hg,hgs⟩,hp,hps⟩
    · rintro ⟨⟨hg,hgs⟩,hp,hps⟩
      exact ⟨⟨hg,hp⟩,hgs,hps⟩

/-- A trap that is entered by unguarded steps only, and never left, is
avoided exactly by the guarded schedules. -/
theorem along_iff_of_trap {trap : State → Prop} (preserve : ∀ s l, Inv s → Inv (step s l))
    (stays : ∀ s l, trap s → trap (step s l))
    (enters : ∀ s l, Inv s → ¬trap s → (guard s l ↔ ¬trap (step s l))) {start : State}
    (schedule : List Label) (hstart : Inv start) (hfree : ¬trap start) :
    Along step guard start schedule ↔ ¬trap (run step start schedule) := by
  induction schedule generalizing start with
  | nil => exact ⟨fun _ => hfree,fun _ => trivial⟩
  | cons label rest ih =>
    have hnext := preserve start label hstart
    by_cases htrap : trap (step start label)
    · have hfinal : trap (run step (step start label) rest) := run_invariant stays rest htrap
      constructor
      · intro h
        exact absurd htrap ((enters start label hstart hfree).mp h.1)
      · intro h
        exact absurd hfinal h
    · rw [run_cons,← ih hnext htrap]
      exact and_iff_right ((enters start label hstart hfree).mpr htrap)

end Runs

section History

variable {State Label Ghost : Type*}

/-- A machine with a history variable. The history reads the state before
each step and the label; the machine never reads the history. -/
def observed (step : State → Label → State) (observe : Ghost → State → Label → Ghost) :
    State×Ghost → Label → State×Ghost :=
  fun pair label => (step pair.1 label,observe pair.2 pair.1 label)

/-- Observation does not change what the machine does. -/
theorem run_observed_fst (step : State → Label → State)
    (observe : Ghost → State → Label → Ghost) (start : State×Ghost) (schedule : List Label) :
    (run (observed step observe) start schedule).1=run step start.1 schedule := by
  induction schedule generalizing start with
  | nil => rfl
  | cons label rest ih => exact ih (observed step observe start label)

/-- A guard that reads only the machine is the same guard with a history. -/
theorem along_observed {step : State → Label → State} {observe : Ghost → State → Label → Ghost}
    (guard : State → Label → Prop) {start : State×Ghost} {schedule : List Label} :
    Along (observed step observe) (fun pair label => guard pair.1 label) start schedule ↔
      Along step guard start.1 schedule := by
  induction schedule generalizing start with
  | nil => exact Iff.rfl
  | cons label rest ih => exact and_congr_right fun _ => ih

end History

/-- Shared memory and one program counter for every thread. -/
structure Pool (Shared Pc : Type*) where
  /-- Memory every thread reads and writes. -/
  shared : Shared
  /-- The next instruction of each thread, with its local variables. -/
  pcs : ℕ → Pc

section Pools

variable {Shared Pc Oracle : Type*} (next : Oracle → Shared → Pc → Shared×Pc)

/-- One atomic step of one thread; the oracle supplies what the
environment decides in that step. -/
def Pool.step (pool : Pool Shared Pc) (label : ℕ×Oracle) : Pool Shared Pc :=
  ⟨(next label.2 pool.shared (pool.pcs label.1)).1,
    Function.update pool.pcs label.1 (next label.2 pool.shared (pool.pcs label.1)).2⟩

/-- Some thread is at an instruction of the given kind. -/
def Pool.Some (pool : Pool Shared Pc) (kind : Pc → Bool) : Prop :=
  ∃ thread, kind (pool.pcs thread)=true

/-- Some thread other than the given one is at such an instruction. -/
def Pool.Other (pool : Pool Shared Pc) (thread : ℕ) (kind : Pc → Bool) : Prop :=
  ∃ other, other≠thread ∧ kind (pool.pcs other)=true

variable {next} {pool : Pool Shared Pc} {thread : ℕ} {oracle : Oracle} {kind : Pc → Bool}

/-- The shared state after a step of a thread. -/
@[simp] theorem Pool.step_shared (pool : Pool Shared Pc) (label : ℕ×Oracle) :
    (pool.step next label).shared=(next label.2 pool.shared (pool.pcs label.1)).1 := rfl

/-- The acting thread moves to the instruction its step computes. -/
@[simp] theorem Pool.step_pcs_self (pool : Pool Shared Pc) (thread : ℕ) (oracle : Oracle) :
    (pool.step next (thread,oracle)).pcs thread=
      (next oracle pool.shared (pool.pcs thread)).2 :=
  Function.update_self thread _ pool.pcs

/-- Every other thread stays where it is. -/
theorem Pool.step_pcs_of_ne {other : ℕ} (h : other≠thread) :
    (pool.step next (thread,oracle)).pcs other=pool.pcs other :=
  Function.update_of_ne h _ pool.pcs

/-- A thread of a kind is the acting thread or another one. -/
theorem Pool.Some.self_or_other (h : pool.Some kind) (thread : ℕ) :
    kind (pool.pcs thread)=true ∨ pool.Other thread kind := by
  obtain ⟨other,ho⟩ := h
  by_cases he : other=thread
  · exact .inl (he ▸ ho)
  · exact .inr ⟨other,he,ho⟩

theorem Pool.Other.some (h : pool.Other thread kind) : pool.Some kind := by
  obtain ⟨other,_,ho⟩ := h
  exact ⟨other,ho⟩

theorem Pool.Other.mono {wider : Pc → Bool} (h : pool.Other thread kind)
    (weaker : ∀ pc, kind pc=true → wider pc=true) : pool.Other thread wider := by
  obtain ⟨other,hne,ho⟩ := h
  exact ⟨other,hne,weaker _ ho⟩

/-- Threads that do not act keep their kind. -/
theorem Pool.Other.step (h : pool.Other thread kind) :
    (pool.step next (thread,oracle)).Some kind := by
  obtain ⟨other,hne,ho⟩ := h
  exact ⟨other,by rw [Pool.step_pcs_of_ne hne]; exact ho⟩

/-- After a step, a thread of a kind is the actor or an unmoved one. -/
theorem Pool.some_step_cases (h : (pool.step next (thread,oracle)).Some kind) :
    kind (next oracle pool.shared (pool.pcs thread)).2=true ∨ pool.Other thread kind := by
  obtain ⟨other,ho⟩ := h
  by_cases he : other=thread
  · subst he
    rw [Pool.step_pcs_self] at ho
    exact .inl ho
  · rw [Pool.step_pcs_of_ne he] at ho
    exact .inr ⟨other,he,ho⟩

/-- Debt rule. A need of the shared memory is always owed by some thread
when each step that leaves the need open either owes it itself, or did not
owe it and found it open, or leaves another thread that owes it. -/
theorem Pool.debt_step (need : Shared → Prop) (before : need pool.shared → pool.Some kind)
    (here : need (next oracle pool.shared (pool.pcs thread)).1 →
      kind (next oracle pool.shared (pool.pcs thread)).2=true ∨
        (need pool.shared ∧ kind (pool.pcs thread)=false) ∨ pool.Other thread kind) :
    need (pool.step next (thread,oracle)).shared →
      (pool.step next (thread,oracle)).Some kind := by
  intro hneed
  rcases here hneed with hself | ⟨hopen,hnot⟩ | hother
  · exact ⟨thread,by rw [Pool.step_pcs_self]; exact hself⟩
  · rcases (before hopen).self_or_other thread with hself | hother
    · rw [hnot] at hself
      cases hself
    · exact hother.step
  · exact hother.step

/-- Local rule. A fact about the shared memory and one program counter
holds of every thread when the actor reestablishes it and no step breaks
it for the others. -/
theorem Pool.local_step (fact : Shared → ℕ → Pc → Prop)
    (before : ∀ t, fact pool.shared t (pool.pcs t))
    (self : fact (next oracle pool.shared (pool.pcs thread)).1 thread
      (next oracle pool.shared (pool.pcs thread)).2)
    (others : ∀ t, t≠thread → fact pool.shared t (pool.pcs t) →
      fact (next oracle pool.shared (pool.pcs thread)).1 t (pool.pcs t)) :
    ∀ t, fact (pool.step next (thread,oracle)).shared t
      ((pool.step next (thread,oracle)).pcs t) := by
  intro t
  by_cases ht : t=thread
  · subst ht
    rw [Pool.step_pcs_self]
    exact self
  · rw [Pool.step_pcs_of_ne ht]
    exact others t ht (before t)

/-- Threads outside a schedule never move. -/
theorem Pool.run_pcs_of_unused {schedule : List (ℕ×Oracle)} {other : ℕ}
    (unused : ∀ label∈schedule, label.1≠other) (pool : Pool Shared Pc) :
    (run (Pool.step next) pool schedule).pcs other=pool.pcs other := by
  induction schedule generalizing pool with
  | nil => rfl
  | cons label rest ih =>
    rw [run_cons,ih (fun l hl => unused l (List.mem_cons_of_mem _ hl))]
    exact Pool.step_pcs_of_ne (unused label List.mem_cons_self).symm

/-- A step of the triggering kind is taken only while no other thread is
at an instruction of the given kind. -/
def Pool.Alone (trigger : Oracle → Shared → Pc → Bool) (kind : Pc → Bool)
    (pool : Pool Shared Pc) (label : ℕ×Oracle) : Prop :=
  trigger label.2 pool.shared (pool.pcs label.1)=true → ¬pool.Other label.1 kind

/-- On a schedule of finitely many threads a guard has to be checked on
these only: threads above the bound keep the program counter they start
with. The guard may read a history. -/
theorem Pool.along_bounded {Ghost : Type*} {observe : Ghost → Pool Shared Pc → ℕ×Oracle → Ghost}
    {guard : Pool Shared Pc×Ghost → ℕ×Oracle → Prop} (bound : ℕ) (quiet : Pc)
    (bounded : Pool Shared Pc×Ghost → ℕ×Oracle → Prop)
    (sound : ∀ pair label, (∀ t, bound≤t → pair.1.pcs t=quiet) → bounded pair label →
      guard pair label)
    {schedule : List (ℕ×Oracle)} (threads : ∀ label∈schedule, label.1<bound)
    {start : Pool Shared Pc×Ghost} (hstart : ∀ t, bound≤t → start.1.pcs t=quiet)
    (h : Along (observed (Pool.step next) observe) bounded start schedule) :
    Along (observed (Pool.step next) observe) guard start schedule := by
  induction schedule generalizing start with
  | nil => trivial
  | cons label rest ih =>
    refine ⟨sound start label hstart h.1,
      ih (fun l hl => threads l (List.mem_cons_of_mem _ hl)) ?_ h.2⟩
    intro t ht
    have hlt := threads label List.mem_cons_self
    exact (Pool.step_pcs_of_ne (by omega)).trans (hstart t ht)

/-- A step taken alone needs a look at finitely many threads when the rest
keep a harmless program counter. -/
theorem Pool.along_alone {trigger : Oracle → Shared → Pc → Bool} (bound : ℕ) (quiet : Pc)
    (harmless : kind quiet=false) {schedule : List (ℕ×Oracle)}
    (threads : ∀ label∈schedule, label.1<bound) {start : Pool Shared Pc}
    (hstart : ∀ t, bound≤t → start.pcs t=quiet)
    (h : Along (Pool.step next)
      (fun pool label => trigger label.2 pool.shared (pool.pcs label.1)=true →
        ∀ t<bound, t≠label.1 → kind (pool.pcs t)=false) start schedule) :
    Along (Pool.step next) (Pool.Alone trigger kind) start schedule := by
  have unwatched : ∀ guard : Pool Shared Pc → ℕ×Oracle → Prop,
      Along (observed (Pool.step next) fun (_ : Unit) _ _ => ())
        (fun pair label => guard pair.1 label) (start,()) schedule ↔
      Along (Pool.step next) guard start schedule := fun guard => along_observed guard
  refine (unwatched _).mp (Pool.along_bounded bound quiet _ ?_ threads hstart ((unwatched _).mpr h))
  intro pair label hquiet hbounded htrigger hother
  obtain ⟨other,hne,hkind⟩ := hother
  by_cases hlt : other<bound
  · rw [hbounded htrigger other hlt hne] at hkind
    cases hkind
  · rw [hquiet other (by omega),harmless] at hkind
    cases hkind

end Pools

end Vinput.InterleavedRuns

/-!
# Tokens that are in one place at a time

Every place holds a list of tokens. When one token moves, is made or is given
up, no token is in two places if none was before.
-/

namespace Vinput.SinglePlaces

variable {Place Token : Type*}

/-- No token is held twice, by one place or by two. -/
structure Single (hold : Place → List Token) : Prop where
  once : ∀ place, (hold place).Nodup
  alone : ∀ place other token, token∈hold place → token∈hold other → place=other

variable {hold held : Place → List Token}

/-- Two places hold different tokens. -/
theorem Single.ne (h : Single hold) {place other : Place} {token token' : Token}
    (hplace : place≠other) (hmem : token∈hold place) (hmem' : token'∈hold other) :
    token≠token' := by
  intro heq
  exact hplace (h.alone place other token hmem (heq ▸ hmem'))

/-- One token moves, is made or is given up; the rest stays or is given up. -/
theorem Single.moved (h : Single hold) (token : Token) (home : Place)
    (once : ∀ place, (held place).Nodup)
    (rest : ∀ place, ∀ other∈held place, other≠token → other∈hold place)
    (only : ∀ place, token∈held place → place=home) : Single held := by
  refine ⟨once,?_⟩
  intro place place' other hmem hmem'
  by_cases hother : other=token
  · subst hother
    rw [only place hmem,only place' hmem']
  · exact h.alone place place' other (rest place other hmem hother) (rest place' other hmem' hother)

/-- Tokens are given up only. -/
theorem Single.mono (h : Single hold) (once : ∀ place, (held place).Nodup)
    (rest : ∀ place, ∀ other∈held place, other∈hold place) : Single held :=
  ⟨once,fun place place' other hmem hmem' =>
    h.alone place place' other (rest place other hmem) (rest place' other hmem')⟩

end Vinput.SinglePlaces
