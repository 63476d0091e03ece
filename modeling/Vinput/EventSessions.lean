import Mathlib.Data.List.Induction
import Vinput.InterleavedRuns

/-!
# Sessions that tell events

A session takes input until it is finished or cancelled, and its owner polls
the events whenever it likes. A protocol says what a session tells while it
listens and what it tells once it is finished. From its rules for single calls
follows what any sequence of calls tells: the script in order, and after a
cancel what was polled before it and the word that the session is over.
-/

namespace Vinput.EventSessions

open InterleavedRuns

/-- A call on a session. -/
inductive Call (A : Type*) where
  | push (input : A)
  | finish
  | cancel
  | poll

/-- What can be called on a session, and the events that wait in it. -/
structure Machine (S A ε : Type*) where
  push : A → S → S
  finish : S → S
  cancel : S → S
  poll : S → S×List ε
  events : S → List ε

/-- A session and what its owner has polled from it. -/
structure Owned (S ε : Type*) where
  session : S
  polled : List ε := []

variable {S A ε : Type*} (machine : Machine S A ε)

/-- One call of the owner. -/
def perform (owned : Owned S ε) : Call A → Owned S ε
  | .push input => {owned with session := machine.push input owned.session}
  | .finish => {owned with session := machine.finish owned.session}
  | .cancel => {owned with session := machine.cancel owned.session}
  | .poll => ⟨(machine.poll owned.session).1,owned.polled++(machine.poll owned.session).2⟩

/-- What the owner has been told and what waits for its next poll. -/
def told (owned : Owned S ε) : List ε := owned.polled++machine.events owned.session

/-- The input before the first Finish or Cancel, and whether Finish came first. -/
def beforeEnd : List (Call A) → List A×Option Bool
  | [] => ([],none)
  | .push input::rest => (input::(beforeEnd rest).1,(beforeEnd rest).2)
  | .poll::rest => beforeEnd rest
  | .finish::_ => ([],some true)
  | .cancel::_ => ([],some false)

/-- What a session has to tell, by what it tells while it listens and what it
tells in all. -/
def script (lines whole : List A → List ε) (calls : List (Call A)) : List ε :=
  match (beforeEnd calls).2 with
  | some true => whole (beforeEnd calls).1
  | _ => lines (beforeEnd calls).1

/-- The session and what was polled, after a run of calls. -/
def after (start : S) (calls : List (Call A)) : Owned S ε := run (perform machine) ⟨start,[]⟩ calls

/-- What a session tells, for every sequence of calls. -/
structure Tells (start : S) (closed : ε) (lines whole : List A → List ε) : Prop where
  /-- Without a cancel it is the script. -/
  uncut : ∀ calls, (∀ call∈calls, call≠.cancel) →
    told machine (after machine start calls)=script lines whole calls
  /-- A cancel puts the word that the session is over in the place of all that
  waits, and nothing is told behind it. -/
  cancelled : ∀ before later, (∀ call∈later, call≠.cancel) →
    told machine (after machine start (before++.cancel::later))=
      (after machine start before).polled++[closed]
  /-- Nothing is handed out without a poll. -/
  unpolled : ∀ calls, (∀ call∈calls, call≠.poll) → (after machine start calls).polled=[]
  /-- A poll hands out what was told until then. -/
  polled : ∀ before later, (∀ call∈later, call≠.poll) →
    (after machine start (before++.poll::later)).polled=told machine (after machine start before)

section Protocols

/-- The rules a session keeps, call by call. -/
structure Protocol (machine : Machine S A ε) (start : S) (closed : ε)
    (lines whole : List A → List ε) where
  finished : S → Prop
  /-- The session has taken this input and can take more. -/
  listens : List A → S → Prop
  started : listens [] start ∧ machine.events start=[] ∧ lines []=[]
  push_listens : ∀ inputs input s, listens inputs s →
    listens (inputs++[input]) (machine.push input s) ∧ ∃ more,
      machine.events (machine.push input s)=machine.events s++more ∧
      lines (inputs++[input])=lines inputs++more
  finish_listens : ∀ inputs s, listens inputs s → finished (machine.finish s) ∧
    ∃ more, machine.events (machine.finish s)=machine.events s++more ∧
      whole inputs=lines inputs++more
  poll_listens : ∀ inputs s, listens inputs s → listens inputs (machine.poll s).1
  push_finished : ∀ input s, finished s → machine.push input s=s
  finish_finished : ∀ s, finished s → machine.finish s=s
  poll_finished : ∀ s, finished s → finished (machine.poll s).1
  poll_events : ∀ s, (machine.poll s).2=machine.events s ∧ machine.events (machine.poll s).1=[]
  cancel_finished : ∀ s, finished (machine.cancel s) ∧ machine.events (machine.cancel s)=[closed]

variable {machine} {start : S} {closed : ε} {lines whole : List A → List ε}
  {owned : Owned S ε} {inputs : List A}

/-- A poll hands on what waits. -/
theorem told_poll (protocol : Protocol machine start closed lines whole) :
    told machine (perform machine owned .poll)=told machine owned := by
  obtain ⟨hpolled,hleft⟩ := protocol.poll_events owned.session
  dsimp only [told,perform]
  rw [hpolled,hleft,List.append_nil]

variable (protocol : Protocol machine start closed lines whole)

/-- A session that takes input, having told its lines. -/
structure Listening (owned : Owned S ε) (inputs : List A) : Prop where
  listens : protocol.listens inputs owned.session
  told : told machine owned=lines inputs

/-- A session that is over, having told all this. -/
structure Ended (all : List ε) (owned : Owned S ε) : Prop where
  finished : protocol.finished owned.session
  told : told machine owned=all

variable {protocol}

theorem Listening.push (h : Listening protocol owned inputs) (input : A) :
    Listening protocol (perform machine owned (.push input)) (inputs++[input]) := by
  obtain ⟨hlistens,more,hmore,hlines⟩ := protocol.push_listens _ input _ h.listens
  refine ⟨hlistens,?_⟩
  dsimp only [EventSessions.told,perform]
  rw [hmore,←List.append_assoc,hlines,←h.told]
  rfl

theorem Listening.poll (h : Listening protocol owned inputs) :
    Listening protocol (perform machine owned .poll) inputs :=
  ⟨protocol.poll_listens _ _ h.listens,(told_poll protocol).trans h.told⟩

theorem Listening.finish (h : Listening protocol owned inputs) :
    Ended protocol (whole inputs) (perform machine owned .finish) := by
  obtain ⟨hfinished,more,hmore,hwhole⟩ := protocol.finish_listens _ _ h.listens
  refine ⟨hfinished,?_⟩
  dsimp only [EventSessions.told,perform]
  rw [hmore,←List.append_assoc,hwhole,←h.told]
  rfl

/-- A cancel ends a session, whatever it has told so far. -/
theorem ended_cancel (protocol : Protocol machine start closed lines whole) (owned : Owned S ε) :
    Ended protocol (owned.polled++[closed]) (perform machine owned .cancel) := by
  obtain ⟨hfinished,hevents⟩ := protocol.cancel_finished owned.session
  refine ⟨hfinished,?_⟩
  dsimp only [EventSessions.told,perform]
  rw [hevents]

/-- A session that is over tells nothing more, until it is cancelled. -/
theorem Ended.perform {all : List ε} {call : Call A} (h : Ended protocol all owned)
    (hcall : call≠.cancel) : Ended protocol all (perform machine owned call) := by
  cases call with
  | push input =>
    have hsame := protocol.push_finished input _ h.finished
    dsimp only [EventSessions.perform]
    rw [hsame]
    exact h
  | finish =>
    have hsame := protocol.finish_finished _ h.finished
    dsimp only [EventSessions.perform]
    rw [hsame]
    exact h
  | poll => exact ⟨protocol.poll_finished _ h.finished,(told_poll protocol).trans h.told⟩
  | cancel => exact absurd rfl hcall

/-- Calls after the end. -/
theorem Ended.run {all : List ε} {calls : List (Call A)} (h : Ended protocol all owned)
    (hcalls : ∀ call∈calls, call≠.cancel) :
    Ended protocol all (run (EventSessions.perform machine) owned calls) := by
  induction calls generalizing owned with
  | nil => exact h
  | cons call rest ih =>
    have hrest : ∀ other∈rest, other≠.cancel :=
      fun other hother => hcalls other (List.mem_cons_of_mem _ hother)
    exact ih (h.perform (hcalls call List.mem_cons_self)) hrest

/-- A session that takes input, and calls other than a cancel from there. -/
theorem Listening.run {calls : List (Call A)} (h : Listening protocol owned inputs)
    (hcalls : ∀ call∈calls, call≠.cancel) :
    EventSessions.told machine (run (EventSessions.perform machine) owned calls)=
      script (fun later => lines (inputs++later)) (fun later => whole (inputs++later)) calls := by
  induction calls generalizing owned inputs with
  | nil =>
    dsimp only [script,beforeEnd]
    rw [List.append_nil]
    exact h.told
  | cons call rest ih =>
    have hrest : ∀ other∈rest, other≠.cancel :=
      fun other hother => hcalls other (List.mem_cons_of_mem _ hother)
    rw [run_cons]
    cases call with
    | push input =>
      have hmore := ih (h.push input) hrest
      simp only [List.append_assoc,List.singleton_append] at hmore
      exact hmore
    | poll => exact ih h.poll hrest
    | finish =>
      dsimp only [script,beforeEnd]
      rw [List.append_nil]
      exact (h.finish.run hrest).told
    | cancel => exact absurd rfl (hcalls _ List.mem_cons_self)

/-- Calls other than a poll hand out nothing. -/
theorem polled_run {calls : List (Call A)} (hcalls : ∀ call∈calls, call≠.poll)
    (owned : Owned S ε) :
    (run (EventSessions.perform machine) owned calls).polled=owned.polled := by
  induction calls generalizing owned with
  | nil => rfl
  | cons call rest ih =>
    have hrest : ∀ other∈rest, other≠.poll :=
      fun other hother => hcalls other (List.mem_cons_of_mem _ hother)
    rw [run_cons,ih hrest]
    cases call with
    | push input => rfl
    | finish => rfl
    | cancel => rfl
    | poll => exact absurd rfl (hcalls _ List.mem_cons_self)

/-- A session that keeps these rules tells its script, whatever is called on it
and in which order. -/
theorem tells (protocol : Protocol machine start closed lines whole) :
    Tells machine start closed lines whole where
  uncut := by
    intro calls hcalls
    obtain ⟨hlistens,hevents,hlines⟩ := protocol.started
    have hstart : Listening protocol ⟨start,[]⟩ [] := by
      refine ⟨hlistens,?_⟩
      dsimp only [told]
      rw [hevents,hlines]
      rfl
    exact hstart.run hcalls
  cancelled := by
    intro before later hlater
    unfold after
    rw [run_append,run_cons]
    exact ((ended_cancel protocol _).run hlater).told
  unpolled := fun calls hcalls => polled_run hcalls _
  polled := by
    intro before later hlater
    unfold after
    rw [run_append,run_cons,polled_run hlater]
    dsimp only [perform,told]
    rw [(protocol.poll_events _).1]

/-- Input that is only pushed is all taken. -/
theorem pushed (protocol : Protocol machine start closed lines whole) (inputs : List A) :
    protocol.listens inputs (run (perform machine) ⟨start,[]⟩ (inputs.map .push)).session := by
  induction inputs using List.reverseRecOn with
  | nil => exact protocol.started.1
  | append_singleton inputs input ih =>
    rw [List.map_append,run_append]
    exact (protocol.push_listens _ input _ ih).1

end Protocols

end Vinput.EventSessions
