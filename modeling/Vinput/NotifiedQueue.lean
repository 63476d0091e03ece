import Vinput.InterleavedRuns

/-!
# A queue with a counter that wakes its consumer

Producers append an item under a lock and raise a counter after it. The
consumer sleeps while the counter is zero; when it wakes it first lowers the
counter and then takes the whole queue, so an item that comes in between has
its own raise still ahead.
-/

namespace Vinput.NotifiedQueue

open InterleavedRuns

section Machine

variable {α : Type*}

/-- Where the consumer is. -/
inductive Consumer (α : Type*) where
  | waiting
  /-- The counter is read, the queue not yet taken. -/
  | lowered
  | handling (items : List α)

/-- What the consumer has taken and not yet handled. -/
def Consumer.taken : Consumer α → List α
  | .handling items => items
  | _ => []

/-- A queue with its counter and its consumer. -/
structure State (α : Type*) where
  queue : List α := []
  counter : ℕ := 0
  /-- The producer has appended and not yet raised. -/
  raising : ℕ → Bool := fun _ => false
  consumer : Consumer α := .waiting
  /-- Every item handled so far. -/
  handled : List α := []
  /-- Every item appended so far. -/
  pushed : List α := []

/-- What can happen. -/
inductive Label (α : Type*) where
  | push (producer : ℕ) (item : α)
  | raise (producer : ℕ)
  | consume

/-- The largest value of the counter; a raise at this value is refused. -/
def kMaxCounter : ℕ := 18446744073709551614

/-- The consumer's next step. -/
def consume (state : State α) : State α :=
  match state.consumer with
  | .waiting => if 0< state.counter then {state with counter := 0, consumer := .lowered} else state
  | .lowered => {state with queue := [], consumer := .handling state.queue}
  | .handling [] => {state with consumer := .waiting}
  | .handling (item::items) =>
    {state with consumer := .handling items, handled := state.handled++[item]}

/-- One step of a producer or of the consumer. -/
def step (state : State α) : Label α → State α
  | .push producer item =>
    if state.raising producer=true then state
    else {state with
      queue := state.queue++[item]
      raising := Function.update state.raising producer true
      pushed := state.pushed++[item]}
  | .raise producer =>
    if state.raising producer=true then
      {state with
        counter := if state.counter<kMaxCounter then state.counter+1 else state.counter
        raising := Function.update state.raising producer false}
    else state
  | .consume => consume state

end Machine

section Invariant

variable {α : Type*} {state : State α}

/-- Somebody is about to wake the consumer, or it is awake and about to look. -/
def Noticed (state : State α) : Prop :=
  0< state.counter ∨ (∃ producer, state.raising producer=true) ∨ state.consumer=.lowered

/-- Every item is handled once and in order, and none waits unnoticed. -/
structure Inv (state : State α) : Prop where
  order : state.pushed=state.handled++(state.consumer.taken++state.queue)
  noticed : state.queue≠[] → Noticed state

theorem inv_consume (h : Inv state) : Inv (consume state) := by
  have horder := h.order
  unfold consume
  cases hconsumer : state.consumer with
  | waiting =>
    dsimp only
    rw [hconsumer] at horder
    split
    · exact ⟨horder,fun _ => .inr (.inr rfl)⟩
    · exact h
  | lowered =>
    rw [hconsumer] at horder
    refine ⟨?_,fun hqueue => absurd rfl hqueue⟩
    rw [horder]
    simp only [Consumer.taken,List.nil_append,List.append_nil]
  | handling items =>
    rw [hconsumer] at horder
    have hnoticed : state.queue≠[] →
        0< state.counter ∨ ∃ producer, state.raising producer=true := by
      intro hqueue
      rcases h.noticed hqueue with hcounter | hraising | hlowered
      · exact .inl hcounter
      · exact .inr hraising
      · rw [hconsumer] at hlowered
        cases hlowered
    have hleft : ∀ consumer handled, state.queue≠[] →
        Noticed {state with consumer := consumer, handled := handled} := by
      intro consumer handled hqueue
      rcases hnoticed hqueue with hcounter | hraising
      · exact .inl hcounter
      · exact .inr (.inl hraising)
    cases items with
    | nil => exact ⟨horder,hleft _ _⟩
    | cons item items =>
      refine ⟨?_,hleft _ _⟩
      rw [horder]
      simp only [Consumer.taken,List.append_assoc,List.cons_append,List.nil_append]

theorem inv_step (label : Label α) (h : Inv state) : Inv (step state label) := by
  cases label with
  | consume => exact inv_consume h
  | push producer item =>
    dsimp only [step]
    split
    · exact h
    · refine ⟨?_,fun _ => .inr (.inl ⟨producer,Function.update_self ..⟩)⟩
      dsimp only
      rw [h.order]
      simp only [List.append_assoc]
  | raise producer =>
    dsimp only [step]
    split
    · refine ⟨h.order,fun _ => .inl ?_⟩
      dsimp only
      split
      · exact Nat.succ_pos _
      · next hfull =>
        have hmax : 0<kMaxCounter := by decide
        omega
    · exact h

theorem inv_start : Inv ({} : State α) := ⟨rfl,fun hqueue => absurd rfl hqueue⟩

/-- Every schedule keeps the invariant. -/
theorem inv_run (schedule : List (Label α)) : Inv (run step ({} : State α) schedule) :=
  run_invariant (fun _ label h => inv_step label h) schedule inv_start

end Invariant

section Delivery

variable {α : Type*} {state : State α}

/-- Steps of the consumer alone. -/
def consumes (state : State α) (count : ℕ) : State α :=
  run step state (List.replicate count .consume)

theorem consumes_succ (state : State α) (count : ℕ) :
    consumes state (count+1)=consumes (consume state) count := rfl

theorem consumes_add (state : State α) (first second : ℕ) :
    consumes state (first+second)=consumes (consumes state first) second := by
  unfold consumes
  rw [List.replicate_add,run_append]

/-- What is taken is handled. -/
theorem handling_finishes (items : List α) (state : State α)
    (h : state.consumer=.handling items) :
    consumes state (items.length+1)=
      {state with consumer := .waiting, handled := state.handled++items} := by
  induction items generalizing state with
  | nil =>
    rw [List.length_nil,consumes_succ]
    unfold consume
    rw [h,List.append_nil]
    rfl
  | cons item items ih =>
    have hnext : consume state=
        {state with consumer := .handling items, handled := state.handled++[item]} := by
      unfold consume
      rw [h]
    rw [List.length_cons,consumes_succ,hnext,ih _ rfl,List.append_assoc]
    rfl

/-- A consumer that looks handles the whole queue. -/
theorem lowered_finishes (h : state.consumer=.lowered) :
    consumes state (state.queue.length+2)={state with
      queue := []
      consumer := .waiting
      handled := state.handled++state.queue} := by
  have hnext : consume state={state with queue := [], consumer := .handling state.queue} := by
    unfold consume
    rw [h]
  rw [consumes_succ,hnext]
  exact handling_finishes state.queue _ rfl

/-- A consumer that waits handles what has been noticed. -/
theorem waiting_finishes (h : Inv state) (hquiet : ∀ producer, state.raising producer=false)
    (hwait : state.consumer=.waiting) : ∃ count, (consumes state count).handled=state.pushed ∧
      (consumes state count).queue=[] ∧ (consumes state count).consumer=.waiting := by
  have horder := h.order
  rw [hwait] at horder
  by_cases hqueue : state.queue=[]
  · refine ⟨0,?_,hqueue,hwait⟩
    rw [horder,hqueue]
    exact (List.append_nil _).symm
  · have hcounter : 0< state.counter := by
      rcases h.noticed hqueue with hcounter | ⟨producer,hraising⟩ | hlowered
      · exact hcounter
      · rw [hquiet producer] at hraising
        cases hraising
      · rw [hwait] at hlowered
        cases hlowered
    have hnext : consume state={state with counter := 0, consumer := .lowered} := by
      unfold consume
      rw [hwait]
      exact if_pos hcounter
    refine ⟨state.queue.length+3,?_⟩
    rw [consumes_succ,hnext,
      @lowered_finishes _ {state with counter := 0, consumer := .lowered} rfl]
    exact ⟨horder.symm,rfl,rfl⟩

/-- Once no producer is between its two steps, the consumer alone handles
every item; it never sleeps over one. -/
theorem delivers (h : Inv state) (hquiet : ∀ producer, state.raising producer=false) :
    ∃ count, (consumes state count).handled=state.pushed ∧ (consumes state count).queue=[] ∧
      (consumes state count).consumer=.waiting := by
  have horder := h.order
  cases hconsumer : state.consumer with
  | waiting => exact waiting_finishes h hquiet hconsumer
  | lowered =>
    refine ⟨state.queue.length+2,?_⟩
    rw [lowered_finishes hconsumer]
    rw [hconsumer] at horder
    exact ⟨horder.symm,rfl,rfl⟩
  | handling items =>
    have hfinish := handling_finishes items state hconsumer
    have hkeeps : Inv (consumes state (items.length+1)) :=
      run_invariant (fun _ label h => inv_step label h) _ h
    rw [hfinish] at hkeeps
    obtain ⟨count,hcount⟩ := waiting_finishes hkeeps hquiet rfl
    refine ⟨items.length+1+count,?_⟩
    rw [consumes_add,hfinish]
    exact hcount

end Delivery

end Vinput.NotifiedQueue
