import Mathlib.Data.List.Basic
import Mathlib.Data.Nat.Basic

/-!
# The gate of the status poll

One status query may be on its way at a time. A ticket remembers the request
and the generation it was issued in; a reply counts when its request is the
active one and nothing has made it stale.
-/

namespace Vinput.StatusPollGate

/-- What a query carries until its reply. -/
structure Ticket where
  id : ℕ
  generation : ℕ
deriving DecidableEq

/-- The gate's counters and whether a query is on its way. -/
structure Gate where
  generation : ℕ := 0
  requestId : ℕ := 0
  active : Bool := false
deriving DecidableEq

/-- Start a query unless one is on its way. -/
def tryBegin (gate : Gate) : Option (Ticket×Gate) :=
  if gate.active then none
  else some (⟨gate.requestId+1,gate.generation⟩,
    {gate with active := true, requestId := gate.requestId+1})

/-- Make the reply on its way stale. -/
def invalidate (gate : Gate) : Gate := {gate with generation := gate.generation+1}

/-- The ticket's request is the one on its way. -/
def isActive (gate : Gate) (ticket : Ticket) : Bool :=
  gate.active && decide (gate.requestId=ticket.id)

/-- Take a reply; the flag tells whether it counts. -/
def complete (gate : Gate) (ticket : Ticket) : Gate×Bool :=
  if isActive gate ticket then
    ({gate with active := false},decide (ticket.generation=gate.generation))
  else (gate,false)

/-- Give the query up. -/
def cancel (gate : Gate) : Gate :=
  ⟨gate.generation+1,gate.requestId+1,false⟩

/-- The reply of this ticket would count. -/
def accepts (gate : Gate) (ticket : Ticket) : Bool :=
  isActive gate ticket && decide (ticket.generation=gate.generation)

/-- A reply counts exactly when the gate accepts its ticket. -/
theorem complete_snd (gate : Gate) (ticket : Ticket) :
    (complete gate ticket).2=accepts gate ticket := by
  unfold complete accepts
  cases isActive gate ticket <;> rfl

end Vinput.StatusPollGate

/-!
# Status replies over whole runs

The gate is driven by queries, signals, replies and cancellations in any order,
and a reply may come late or more than once. What it does with a reply is told
by the history since the ticket of the reply was issued.
-/

namespace Vinput.StatusPollRuns

open StatusPollGate

section Since

variable {α : Type*} {stays : α → Prop} {start last : α} {events : List α}

/-- Something happened, and all that happened since is of one kind. -/
def Since (stays : α → Prop) (start : α) (events : List α) : Prop :=
  ∃ before after, events=before++start::after ∧ ∀ event∈after, stays event

theorem not_since_nil : ¬Since stays start [] := by
  rintro ⟨before,after,h,-⟩
  exact List.append_ne_nil_of_right_ne_nil before (List.cons_ne_nil start after) h.symm

/-- One more event keeps what holds since an event, or is the event. -/
theorem since_concat :
    Since stays start (events++[last]) ↔ last=start ∨ Since stays start events ∧ stays last := by
  constructor
  · rintro ⟨before,after,h,hstays⟩
    rcases List.eq_nil_or_concat after with hnil | ⟨front,final,hconcat⟩
    · rw [hnil] at h
      exact Or.inl (List.singleton_inj.mp (List.append_inj' h rfl).2)
    · rw [List.concat_eq_append] at hconcat
      rw [hconcat,←List.cons_append,←List.append_assoc] at h
      obtain ⟨hevents,hlast⟩ := List.append_inj' h rfl
      rw [List.singleton_inj.mp hlast]
      refine Or.inr ⟨⟨before,front,hevents,?_⟩,?_⟩
      · exact fun event hevent => hstays event (hconcat ▸ List.mem_append_left _ hevent)
      · exact hstays final (hconcat ▸ List.mem_append_right _ (List.mem_singleton_self _))
  · rintro (hlast | ⟨⟨before,after,h,hstays⟩,hlast⟩)
    · rw [hlast]
      exact ⟨events,[],rfl,fun _ hevent => absurd hevent List.not_mem_nil⟩
    · refine ⟨before,after++[last],?_,?_⟩
      · rw [h,List.append_assoc]
        rfl
      · intro event hevent
        rcases List.mem_append.mp hevent with hbefore | hlastEvent
        · exact hstays event hbefore
        · rw [List.mem_singleton.mp hlastEvent]
          exact hlast

end Since

section Runs

/-- What is asked of the gate. -/
inductive Operation where
  | tryBegin
  | invalidate
  | complete (ticket : Ticket)
  | cancel

/-- What the gate was asked, and what it answered. -/
inductive Event where
  | began (ticket : Option Ticket)
  | invalidated
  | completed (ticket : Ticket) (counts : Bool)
  | cancelled
deriving DecidableEq

/-- One operation and what it shows. -/
def perform (gate : Gate) : Operation → Gate×Event
  | .tryBegin =>
    match tryBegin gate with
    | none => (gate,.began none)
    | some (ticket,next) => (next,.began (some ticket))
  | .invalidate => (invalidate gate,.invalidated)
  | .complete ticket =>
    let result := complete gate ticket
    (result.1,.completed ticket result.2)
  | .cancel => (cancel gate,.cancelled)

/-- The ticket that an event hands out. -/
def Event.ticket : Event → Option Ticket
  | .began ticket => ticket
  | _ => none

/-- Tickets handed out so far. -/
def issued (events : List Event) : List Ticket := events.filterMap Event.ticket

/-- The gate and its history; replies carry tickets that were handed out before. -/
inductive Run : Gate → List Event → Prop where
  | start : Run {} []
  | step {gate events} (operation : Operation) : Run gate events →
    (∀ ticket, operation=.complete ticket → ticket∈issued events) →
    Run (perform gate operation).1 (events++[(perform gate operation).2])

/-- The query of a ticket is on its way: there was neither a reply to it nor a
cancellation since it began. -/
def Active (events : List Event) (ticket : Ticket) : Prop :=
  Since (fun event => event≠.cancelled ∧ ∀ counts, event≠.completed ticket counts)
    (.began (some ticket)) events

/-- There was no newer signal and no cancellation since a query began. -/
def Fresh (events : List Event) (ticket : Ticket) : Prop :=
  Since (fun event => event≠.invalidated ∧ event≠.cancelled) (.began (some ticket)) events

/-- The gate tells by its counters what the history tells. -/
structure Tells (gate : Gate) (events : List Event) : Prop where
  ids : ∀ ticket∈issued events, ticket.id ≤ gate.requestId
  generations : ∀ ticket∈issued events, ticket.generation ≤ gate.generation
  unique : ∀ first∈issued events, ∀ second∈issued events, first.id=second.id → first=second
  active : ∀ ticket, Active events ticket ↔ ticket∈issued events ∧ isActive gate ticket=true
  fresh : ∀ ticket, Fresh events ticket ↔
    ticket∈issued events ∧ ticket.generation=gate.generation
  replied : ∀ ticket counts, .completed ticket counts∈events → ticket∈issued events
  done : ∀ ticket, .completed ticket true∈events → ¬Active events ticket
  once : ∀ ticket, events.count (.completed ticket true) ≤ 1

variable {gate : Gate} {events : List Event} {ticket : Ticket} {last : Event}

/-- The last event may issue a ticket. -/
theorem issued_concat : issued (events++[last])=issued events++last.ticket.toList := by
  unfold issued
  rw [List.filterMap_append]
  cases hticket : last.ticket with
  | none => rw [List.filterMap_cons_none hticket]; rfl
  | some ticket => rw [List.filterMap_cons_some hticket]; rfl

/-- The last event may start, cancel or complete a ticket. -/
theorem active_concat : Active (events++[last]) ticket ↔ last=.began (some ticket) ∨
    Active events ticket ∧ last≠.cancelled ∧ ∀ counts, last≠.completed ticket counts :=
  since_concat

/-- The last event may make a ticket fresh or stale. -/
theorem fresh_concat : Fresh (events++[last]) ticket ↔ last=.began (some ticket) ∨
    Fresh events ticket ∧ last≠.invalidated ∧ last≠.cancelled :=
  since_concat

/-- A ticket is active by its number. -/
theorem isActive_iff : isActive gate ticket=true ↔ gate.active=true ∧ gate.requestId=ticket.id := by
  unfold isActive
  rw [Bool.and_eq_true,decide_eq_true_eq]

/-- A new gate tells that nothing has happened. -/
theorem tells_start : Tells {} [] := by
  have hnone : ∀ ticket : Ticket, ticket∉issued [] := fun _ h => List.not_mem_nil h
  refine ⟨?_,?_,?_,?_,?_,?_,?_,?_⟩
  · exact fun ticket h => absurd h (hnone ticket)
  · exact fun ticket h => absurd h (hnone ticket)
  · exact fun first h => absurd h (hnone first)
  · exact fun ticket => iff_of_false not_since_nil fun h => hnone ticket h.1
  · exact fun ticket => iff_of_false not_since_nil fun h => hnone ticket h.1
  · exact fun ticket counts h => absurd h List.not_mem_nil
  · exact fun ticket h => absurd h List.not_mem_nil
  · exact fun ticket => Nat.zero_le 1

/-- An event that hands out no ticket adds none. -/
theorem issued_quiet (hticket : last.ticket=none) : issued (events++[last])=issued events := by
  rw [issued_concat,hticket]
  exact List.append_nil _

/-- A query that is active after an event without a ticket was active before. -/
theorem active_before (hticket : last.ticket=none) (h : Active (events++[last]) ticket) :
    Active events ticket := by
  rcases active_concat.mp h with hbegan | ⟨hbefore,-⟩
  · rw [hbegan] at hticket
    cases hticket
  · exact hbefore

/-- An event that is no reply keeps what is known of tickets and replies. -/
theorem tells_quiet {next : Gate} (h : Tells gate events) (hticket : last.ticket=none)
    (hreply : ∀ ticket counts, last≠.completed ticket counts)
    (hid : gate.requestId ≤ next.requestId) (hgeneration : gate.generation ≤ next.generation)
    (active : ∀ ticket, Active (events++[last]) ticket ↔
      ticket∈issued events ∧ isActive next ticket=true)
    (fresh : ∀ ticket, Fresh (events++[last]) ticket ↔
      ticket∈issued events ∧ ticket.generation=next.generation) : Tells next (events++[last]) := by
  have hissued : issued (events++[last])=issued events := issued_quiet hticket
  have hmem : ∀ ticket counts, .completed ticket counts∈events++[last] →
      .completed ticket counts∈events := by
    intro ticket counts hmem
    rcases List.mem_append.mp hmem with hold | hlast
    · exact hold
    · exact absurd (List.mem_singleton.mp hlast).symm (hreply ticket counts)
  refine ⟨?_,?_,?_,?_,?_,?_,?_,?_⟩
  · rw [hissued]
    exact fun ticket hold => Nat.le_trans (h.ids ticket hold) hid
  · rw [hissued]
    exact fun ticket hold => Nat.le_trans (h.generations ticket hold) hgeneration
  · rw [hissued]
    exact h.unique
  · rw [hissued]
    exact active
  · rw [hissued]
    exact fresh
  · rw [hissued]
    exact fun ticket counts hnew => h.replied ticket counts (hmem ticket counts hnew)
  · intro ticket hnew hactive
    exact h.done ticket (hmem ticket true hnew) (active_before hticket hactive)
  · intro ticket
    rw [List.count_append,List.count_singleton,beq_false_of_ne (hreply ticket true)]
    exact h.once ticket

/-- A query that is not begun changes nothing. -/
theorem tells_refused (h : Tells gate events) : Tells gate (events++[.began none]) := by
  refine tells_quiet h rfl nofun (Nat.le_refl _) (Nat.le_refl _) ?_ ?_
  · intro ticket
    rw [active_concat,←h.active]
    simp
  · intro ticket
    rw [fresh_concat,←h.fresh]
    simp

/-- A ticket of an earlier generation is stale. -/
theorem stale_of_later {later : ℕ} (h : Tells gate events) (hlater : gate.generation<later) :
    ¬(ticket∈issued events ∧ ticket.generation=later) := by
  rintro ⟨hmem,hgeneration⟩
  have hle := h.generations ticket hmem
  rw [hgeneration] at hle
  exact absurd hle (Nat.not_le_of_lt hlater)

/-- A newer signal makes the tickets stale. -/
theorem tells_invalidate (h : Tells gate events) :
    Tells (invalidate gate) (events++[.invalidated]) := by
  refine tells_quiet h rfl nofun (Nat.le_refl _) (Nat.le_succ _) ?_ ?_
  · intro ticket
    have hsame : isActive (invalidate gate) ticket=isActive gate ticket := rfl
    rw [active_concat,hsame,←h.active]
    simp
  · intro ticket
    rw [fresh_concat]
    exact iff_of_false (by simp) (stale_of_later h (Nat.lt_succ_self _))

/-- A cancellation ends the query on its way and makes the tickets stale. -/
theorem tells_cancel (h : Tells gate events) : Tells (cancel gate) (events++[.cancelled]) := by
  refine tells_quiet h rfl nofun (Nat.le_succ _) (Nat.le_succ _) ?_ ?_
  · intro ticket
    rw [active_concat,isActive_iff]
    refine iff_of_false (by simp) ?_
    rintro ⟨-,hactive,-⟩
    exact Bool.false_ne_true hactive
  · intro ticket
    rw [fresh_concat]
    exact iff_of_false (by simp) (stale_of_later h (Nat.lt_succ_self _))

/-- The next ticket has a number of its own. -/
theorem id_ne_next (h : Tells gate events) (hmem : ticket∈issued events) :
    ticket.id≠gate.requestId+1 :=
  Nat.ne_of_lt (Nat.lt_succ_of_le (h.ids ticket hmem))

/-- A query that is begun has the newest ticket. -/
theorem tells_began (h : Tells gate events) (hactive : gate.active=false) :
    Tells {gate with active := true, requestId := gate.requestId+1}
      (events++[.began (some ⟨gate.requestId+1,gate.generation⟩)]) := by
  set newest : Ticket := ⟨gate.requestId+1,gate.generation⟩ with hnewest
  have hissued : ∀ ticket, ticket∈issued (events++[.began (some newest)]) ↔
      ticket∈issued events ∨ ticket=newest := by
    intro ticket
    rw [issued_concat,List.mem_append]
    exact or_congr_right List.mem_singleton
  have hnew : newest∉issued events := fun hmem => id_ne_next h hmem rfl
  refine ⟨?_,?_,?_,?_,?_,?_,?_,?_⟩
  · intro ticket hmem
    rcases (hissued ticket).mp hmem with hold | rfl
    · exact Nat.le_succ_of_le (h.ids ticket hold)
    · exact Nat.le_refl _
  · intro ticket hmem
    rcases (hissued ticket).mp hmem with hold | rfl
    · exact h.generations ticket hold
    · exact Nat.le_refl _
  · intro first hfirst second hsecond hid
    rcases (hissued first).mp hfirst with holdFirst | rfl <;>
      rcases (hissued second).mp hsecond with holdSecond | rfl
    · exact h.unique first holdFirst second holdSecond hid
    · exact absurd hid (id_ne_next h holdFirst)
    · exact absurd hid.symm (id_ne_next h holdSecond)
    · rfl
  · intro ticket
    have hidle : ¬Active events ticket := by
      rw [h.active,isActive_iff,hactive]
      exact fun hcontra => Bool.false_ne_true hcontra.2.1
    rw [active_concat,hissued,isActive_iff]
    constructor
    · rintro (hbegan | ⟨hold,-⟩)
      · cases hbegan
        exact ⟨Or.inr rfl,rfl,rfl⟩
      · exact absurd hold hidle
    · rintro ⟨hold | rfl,-,hid⟩
      · exact absurd hid.symm (id_ne_next h hold)
      · exact Or.inl rfl
  · intro ticket
    rw [fresh_concat,hissued,h.fresh]
    constructor
    · rintro (hbegan | ⟨⟨hold,hgeneration⟩,-⟩)
      · cases hbegan
        exact ⟨Or.inr rfl,rfl⟩
      · exact ⟨Or.inl hold,hgeneration⟩
    · rintro ⟨hold | rfl,hgeneration⟩
      · exact Or.inr ⟨⟨hold,hgeneration⟩,nofun,nofun⟩
      · exact Or.inl rfl
  · intro ticket counts hmem
    rw [hissued]
    exact Or.inl (h.replied ticket counts (by simpa using hmem))
  · intro ticket hmem hactive
    have hold : .completed ticket true∈events := by simpa using hmem
    rcases active_concat.mp hactive with hbegan | ⟨hbefore,-⟩
    · cases hbegan
      exact hnew (h.replied newest true hold)
    · exact h.done ticket hold hbefore
  · intro ticket
    rw [List.count_append]
    simpa using h.once ticket

/-- A reply that is not expected changes nothing. -/
theorem tells_unexpected (h : Tells gate events) (hmem : ticket∈issued events)
    (hactive : isActive gate ticket=false) : Tells gate (events++[.completed ticket false]) := by
  have hissued : issued (events++[.completed ticket false])=issued events := issued_quiet rfl
  refine ⟨?_,?_,?_,?_,?_,?_,?_,?_⟩
  · rw [hissued]
    exact h.ids
  · rw [hissued]
    exact h.generations
  · rw [hissued]
    exact h.unique
  · intro other
    rw [hissued,active_concat,←h.active]
    constructor
    · rintro (hbegan | ⟨hold,-⟩)
      · cases hbegan
      · exact hold
    · intro hold
      refine Or.inr ⟨hold,nofun,?_⟩
      rintro counts hsame
      cases hsame
      have htrue := ((h.active ticket).mp hold).2
      rw [hactive] at htrue
      cases htrue
  · intro other
    rw [hissued,fresh_concat,←h.fresh]
    simp
  · intro other counts hreply
    rw [hissued]
    rcases List.mem_append.mp hreply with hold | hlast
    · exact h.replied other counts hold
    · cases List.mem_singleton.mp hlast
      exact hmem
  · intro other hreply hother
    rcases List.mem_append.mp hreply with hold | hlast
    · exact h.done other hold (active_before rfl hother)
    · cases List.mem_singleton.mp hlast
  · intro other
    rw [List.count_append]
    simpa using h.once other

/-- A reply to the query on its way ends it. -/
theorem tells_completed (h : Tells gate events) (hmem : ticket∈issued events)
    (hactive : isActive gate ticket=true) (counts : Bool) :
    Tells {gate with active := false} (events++[.completed ticket counts]) := by
  have hissued : issued (events++[.completed ticket counts])=issued events := issued_quiet rfl
  have hcurrent : Active events ticket := (h.active ticket).mpr ⟨hmem,hactive⟩
  refine ⟨?_,?_,?_,?_,?_,?_,?_,?_⟩
  · rw [hissued]
    exact h.ids
  · rw [hissued]
    exact h.generations
  · rw [hissued]
    exact h.unique
  · intro other
    rw [hissued,isActive_iff]
    refine iff_of_false ?_ fun hcontra => Bool.false_ne_true hcontra.2.1
    intro hother
    rcases active_concat.mp hother with hbegan | ⟨hold,-,hreply⟩
    · cases hbegan
    · obtain ⟨hotherMem,hotherActive⟩ := (h.active other).mp hold
      have hid : ticket.id=other.id :=
        (isActive_iff.mp hactive).2.symm.trans (isActive_iff.mp hotherActive).2
      have hsame := h.unique ticket hmem other hotherMem hid
      exact hreply counts (by rw [hsame])
  · intro other
    rw [hissued,fresh_concat,←h.fresh]
    simp
  · intro other flag hreply
    rw [hissued]
    rcases List.mem_append.mp hreply with hold | hlast
    · exact h.replied other flag hold
    · cases List.mem_singleton.mp hlast
      exact hmem
  · intro other hreply hother
    rcases active_concat.mp hother with hbegan | ⟨hold,-,hnot⟩
    · cases hbegan
    · rcases List.mem_append.mp hreply with hbefore | hlast
      · exact h.done other hbefore hold
      · exact hnot true (List.mem_singleton.mp hlast).symm
  · intro other
    rw [List.count_append]
    by_cases hsame : other=ticket
    · have hnone : events.count (.completed ticket true)=0 :=
        List.count_eq_zero.mpr fun hbefore => h.done ticket hbefore hcurrent
      rw [hsame,hnone,Nat.zero_add]
      exact List.count_le_length
    · have hlast : [Event.completed ticket counts].count (.completed other true)=0 := by
        rw [List.count_eq_zero,List.mem_singleton]
        rintro hcontra
        cases hcontra
        exact hsame rfl
      rw [hlast]
      exact h.once other

/-- What the gate does with a ticket that was handed out. -/
theorem complete_eq (gate : Gate) (ticket : Ticket) :
    complete gate ticket=if isActive gate ticket=true then
      ({gate with active := false},decide (ticket.generation=gate.generation)) else (gate,false) :=
  rfl

/-- Every operation keeps the gate telling. -/
theorem tells_perform (h : Tells gate events) (operation : Operation)
    (hticket : ∀ ticket, operation=.complete ticket → ticket∈issued events) :
    Tells (perform gate operation).1 (events++[(perform gate operation).2]) := by
  cases operation with
  | tryBegin =>
    unfold perform tryBegin
    cases hactive : gate.active with
    | true => exact tells_refused h
    | false => exact tells_began h hactive
  | invalidate => exact tells_invalidate h
  | complete ticket =>
    have hmem := hticket ticket rfl
    unfold perform
    dsimp only
    rw [complete_eq]
    cases hactive : isActive gate ticket with
    | true => exact tells_completed h hmem hactive _
    | false => exact tells_unexpected h hmem hactive
  | cancel => exact tells_cancel h

theorem tells_run (h : Run gate events) : Tells gate events := by
  induction h with
  | start => exact tells_start
  | step operation _ hticket ih => exact tells_perform ih operation hticket

/-- In every run at most one query is on its way. A reply counts exactly when its
query is on its way and nothing made it stale since it began; otherwise, if the
query is not on its way, the reply changes nothing. No ticket counts twice. -/
theorem replies_current (h : Run gate events) :
    (∀ first second, Active events first → Active events second → first=second) ∧
      (∀ ticket∈issued events,
        ((complete gate ticket).2=true ↔ Active events ticket ∧ Fresh events ticket) ∧
        (¬Active events ticket → complete gate ticket=(gate,false))) ∧
      ∀ ticket, events.count (.completed ticket true) ≤ 1 := by
  have tells := tells_run h
  refine ⟨?_,?_,tells.once⟩
  · intro first second hfirst hsecond
    obtain ⟨hfirstMem,hfirstActive⟩ := (tells.active first).mp hfirst
    obtain ⟨hsecondMem,hsecondActive⟩ := (tells.active second).mp hsecond
    refine tells.unique first hfirstMem second hsecondMem ?_
    exact (isActive_iff.mp hfirstActive).2.symm.trans (isActive_iff.mp hsecondActive).2
  · intro ticket hmem
    rw [tells.active,tells.fresh,complete_eq]
    refine ⟨?_,?_⟩
    · split
      · rename_i hactive
        rw [decide_eq_true_eq]
        exact ⟨fun hgeneration => ⟨⟨hmem,hactive⟩,hmem,hgeneration⟩,fun hboth => hboth.2.2⟩
      · rename_i hactive
        exact iff_of_false Bool.false_ne_true fun hboth => hactive hboth.1.2
    · intro hidle
      rw [if_neg fun hactive => hidle ⟨hmem,hactive⟩]

/-- A query is cancelled, another begins, and both replies come. -/
theorem late_run : Run ⟨1,3,false⟩ [.began (some ⟨1,0⟩),.cancelled,.began (some ⟨3,1⟩),
    .completed ⟨1,0⟩ false,.completed ⟨3,1⟩ true] := by
  have began : Run ⟨0,1,true⟩ [.began (some ⟨1,0⟩)] := Run.start.step .tryBegin nofun
  have cancelled : Run ⟨1,2,false⟩ [.began (some ⟨1,0⟩),.cancelled] := began.step .cancel nofun
  have again : Run ⟨1,3,true⟩ [.began (some ⟨1,0⟩),.cancelled,.began (some ⟨3,1⟩)] :=
    cancelled.step .tryBegin nofun
  have late : Run ⟨1,3,true⟩ [.began (some ⟨1,0⟩),.cancelled,.began (some ⟨3,1⟩),
      .completed ⟨1,0⟩ false] := by
    refine again.step (.complete ⟨1,0⟩) ?_
    intro ticket hticket
    cases hticket
    exact List.mem_cons_self
  refine late.step (.complete ⟨3,1⟩) ?_
  intro ticket hticket
  cases hticket
  exact List.mem_cons_of_mem _ List.mem_cons_self

/-- Of two replies the late one does not count. -/
theorem replies_current_late :
    [Event.began (some ⟨1,0⟩),.cancelled,.began (some ⟨3,1⟩),.completed ⟨1,0⟩ false,
      .completed ⟨3,1⟩ true].count (.completed ⟨3,1⟩ true) ≤ 1 :=
  (replies_current late_run).2.2 ⟨3,1⟩

end Runs

end Vinput.StatusPollRuns
