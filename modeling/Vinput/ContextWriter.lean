import Mathlib.Data.Int.Notation
import Mathlib.Tactic.Ring
import Vinput.InterleavedRuns

/-!
# Writing the context in the background

Callers queue lines under a lock, and one thread takes them out and appends
them to a file. The queue is bounded in its entries and in its bytes: a line
that finds it full pushes the oldest ones out. Each region under the lock is
one step. Sizes are numbers modulo the number of values of a size.
-/

namespace Vinput.ContextWriter

open InterleavedRuns

section Writer

/-- The most bytes that wait. -/
def kMaxPendingBytes : ℕ := 4*1024*1024

/-- The most entries that wait. -/
def kMaxPendingEntries : ℕ := 1024

/-- Number of values of a size. -/
def sizeValues : ℕ := 2^64

/-- A line on its way to the file. -/
structure ContextWriteTask where
  jsonLine : List UInt8
  maxLines : ℤ
deriving DecidableEq

/-- How a line leaves the queue. -/
inductive Departure where
  /-- The writer takes it. -/
  | taken
  /-- A newer line pushes it out. -/
  | evicted
deriving DecidableEq

/-- Members of the writer, with what became of the lines. -/
structure Shared where
  pending : List ContextWriteTask := []
  pendingBytes : ℕ := 0
  /-- Lines that were discarded; the counter of the source wraps at `2^64`. -/
  dropped : ℕ := 0
  writing : Bool := false
  stopping : Bool := false
  /-- Lines that were queued, oldest first. -/
  accepted : List ContextWriteTask := []
  /-- Lines that left the queue, oldest first. -/
  departed : List (ContextWriteTask×Departure) := []
  /-- Lines that are too large for the queue. -/
  refused : List ContextWriteTask := []
  /-- Lines that were handed to `Persist`, oldest first. -/
  persisted : List ContextWriteTask := []

/-- Points of `Run`. -/
inductive WriterPoint where
  /-- Before the wait for a line. -/
  | wait
  /-- Before a line is persisted. -/
  | persist (task : ContextWriteTask)
  /-- Before the end of the write is noted. -/
  | finish
  /-- The thread has ended. -/
  | done
deriving DecidableEq

/-- Points of the destructor. -/
inductive OwnerPoint where
  /-- Before it begins. -/
  | alive
  /-- Before the thread is joined. -/
  | join
  /-- It has run. -/
  | destroyed
deriving DecidableEq

/-- A call of `Enqueue`. -/
structure Call where
  jsonLine : List UInt8
  maxLines : ℤ

/-- Whose step it is. -/
inductive Label where
  | writer
  | owner
  | enqueue (call : Call)

/-- A writer, its thread and its destructor. -/
structure System where
  shared : Shared := {}
  writer : WriterPoint := .wait
  owner : OwnerPoint := .alive

/-- Subtraction of sizes. -/
def subtract (bytes size : ℕ) : ℕ := (bytes+sizeValues-size)%sizeValues

/-- Lines are pushed out until a new one has room; the flag tells that one
was. -/
def makeRoom (size : ℕ) : List ContextWriteTask → Shared×Bool → Shared×Bool
  | [],(shared,lostEntries) => ({shared with pending := []},lostEntries)
  | first::rest,(shared,lostEntries) =>
    if kMaxPendingEntries≤(first::rest).length ∨ kMaxPendingBytes-size< shared.pendingBytes then
      makeRoom size rest ({shared with
        pendingBytes := subtract shared.pendingBytes first.jsonLine.length
        dropped := shared.dropped+1
        departed := shared.departed++[(first,.evicted)]},true)
    else ({shared with pending := first::rest},lostEntries)

/-- `Enqueue`. -/
def enqueue (call : Call) (shared : Shared) : Shared×Bool :=
  let task : ContextWriteTask := ⟨call.jsonLine,call.maxLines⟩
  if call.maxLines≤0 ∨ call.jsonLine=[] then (shared,true)
  else if shared.stopping then (shared,false)
  else if kMaxPendingBytes<call.jsonLine.length then
    ({shared with dropped := shared.dropped+1,refused := shared.refused++[task]},false)
  else
    let room := makeRoom call.jsonLine.length shared.pending (shared,false)
    ({room.1 with
      pendingBytes := (room.1.pendingBytes+call.jsonLine.length)%sizeValues
      pending := room.1.pending++[task]
      accepted := room.1.accepted++[task]},!room.2)

/-- Steps of `Run`. -/
def nextWriter (shared : Shared) : WriterPoint → Shared×WriterPoint
  | .wait =>
    match shared.pending with
    | [] => (shared,if shared.stopping then .done else .wait)
    | task::rest =>
      ({shared with
        pending := rest
        pendingBytes := subtract shared.pendingBytes task.jsonLine.length
        writing := true
        departed := shared.departed++[(task,.taken)]},.persist task)
  | .persist task => ({shared with persisted := shared.persisted++[task]},.finish)
  | .finish => ({shared with writing := false},.wait)
  | .done => (shared,.done)

/-- Steps of the destructor. -/
def nextOwner (shared : Shared) (writer : WriterPoint) : OwnerPoint → Shared×OwnerPoint
  | .alive => ({shared with stopping := true},.join)
  | .join => (shared,match writer with
    | .done => .destroyed
    | _ => .join)
  | .destroyed => (shared,.destroyed)

/-- One step of one thread. -/
def step (system : System) : Label → System
  | .writer =>
    {system with
      shared := (nextWriter system.shared system.writer).1
      writer := (nextWriter system.shared system.writer).2}
  | .owner =>
    {system with
      shared := (nextOwner system.shared system.writer system.owner).1
      owner := (nextOwner system.shared system.writer system.owner).2}
  | .enqueue call => {system with shared := (enqueue call system.shared).1}

/-- A new writer. -/
def startup : System := {}

end Writer

section Accounting

/-- Bytes of lines. -/
def totalSize (tasks : List ContextWriteTask) : ℕ :=
  (tasks.map fun task => task.jsonLine.length).sum

/-- Lines that left the queue in one of the two ways. -/
def gone (how : Departure) (departed : List (ContextWriteTask×Departure)) :
    List ContextWriteTask :=
  (departed.filter fun entry => decide (entry.2=how)).map Prod.fst

theorem totalSize_cons (task : ContextWriteTask) (tasks : List ContextWriteTask) :
    totalSize (task::tasks)=task.jsonLine.length+totalSize tasks := List.sum_cons

theorem totalSize_concat (tasks : List ContextWriteTask) (task : ContextWriteTask) :
    totalSize (tasks++[task])=totalSize tasks+task.jsonLine.length := by
  unfold totalSize
  rw [List.map_append,List.sum_append,List.map_singleton,List.sum_singleton]

/-- The last departure counts for its kind. -/
theorem gone_concat (how : Departure) (departed : List (ContextWriteTask×Departure))
    (task : ContextWriteTask) (other : Departure) :
    gone how (departed++[(task,other)])=gone how departed++if other=how then [task] else [] := by
  unfold gone
  rw [List.filter_append,List.map_append]
  by_cases h : other=how
  · rw [List.filter_singleton,decide_eq_true h,if_pos h]
    rfl
  · rw [List.filter_singleton,decide_eq_false h,if_neg h]
    rfl

/-- A subtraction of what was added before does not wrap. -/
theorem subtract_of_le {bytes size : ℕ} (h : size≤bytes) (hbytes : bytes≤kMaxPendingBytes) :
    subtract bytes size=bytes-size := by
  have hlarge : kMaxPendingBytes< sizeValues := by decide
  unfold subtract
  rw [Nat.sub_add_comm h,Nat.add_mod_right,Nat.mod_eq_of_lt (by omega)]

/-- Account of a queue. -/
structure QueueInv (queue : List ContextWriteTask) (shared : Shared) : Prop where
  bytes : shared.pendingBytes=totalSize queue
  bounded : totalSize queue≤kMaxPendingBytes
  entries : queue.length≤kMaxPendingEntries
  /-- A queued line left the queue in its turn or is there. -/
  order : shared.accepted=shared.departed.map Prod.fst++queue
  dropped : shared.dropped=(gone .evicted shared.departed).length+shared.refused.length

/-- A line leaves the queue at its front. -/
theorem QueueInv.leave {first : ContextWriteTask} {rest : List ContextWriteTask} {shared : Shared}
    (inv : QueueInv (first::rest) shared) (how : Departure) {after : Shared}
    (hbytes : after.pendingBytes=subtract shared.pendingBytes first.jsonLine.length)
    (haccepted : after.accepted=shared.accepted)
    (hdeparted : after.departed=shared.departed++[(first,how)])
    (hdropped : after.dropped=(gone .evicted after.departed).length+after.refused.length) :
    QueueInv rest after := by
  have hbefore := inv.bytes
  have hbounded := inv.bounded
  have hentries := inv.entries
  rw [totalSize_cons] at hbefore hbounded
  rw [List.length_cons] at hentries
  refine ⟨?_,by omega,by omega,?_,hdropped⟩
  · rw [hbytes,subtract_of_le (by omega) (by omega)]
    omega
  · rw [haccepted,hdeparted,inv.order,List.map_append,List.append_assoc]
    rfl

/-- A line is pushed out. -/
theorem QueueInv.evict {first : ContextWriteTask} {rest : List ContextWriteTask} {shared : Shared}
    (inv : QueueInv (first::rest) shared) :
    QueueInv rest {shared with
      pendingBytes := subtract shared.pendingBytes first.jsonLine.length
      dropped := shared.dropped+1
      departed := shared.departed++[(first,.evicted)]} := by
  refine inv.leave .evicted rfl rfl rfl ?_
  dsimp only
  rw [gone_concat,if_pos rfl,List.length_append,inv.dropped,List.length_singleton]
  omega

/-- What making room for a line of some size leads to. -/
structure RoomMade (size : ℕ) (before after : Shared×Bool) : Prop where
  inv : QueueInv after.1.pending after.1
  bytes : totalSize after.1.pending+size≤kMaxPendingBytes
  entries : after.1.pending.length<kMaxPendingEntries
  taken : gone .taken after.1.departed=gone .taken before.1.departed
  persisted : after.1.persisted=before.1.persisted
  stopping : after.1.stopping=before.1.stopping
  /-- Nothing is lost without the flag. -/
  kept : after.2=false → before.2=false ∧ after.1.departed=before.1.departed ∧
    after.1.dropped=before.1.dropped

/-- Room is made beyond a line that was pushed out, whatever the counter says
then. -/
theorem RoomMade.ofEvicted {size bytes : ℕ} {shared : Shared} {first : ContextWriteTask}
    {lostEntries : Bool} {after : Shared×Bool}
    (made : RoomMade size ({shared with
      pendingBytes := bytes
      dropped := shared.dropped+1
      departed := shared.departed++[(first,.evicted)]},true) after) :
    RoomMade size (shared,lostEntries) after := by
  refine ⟨made.inv,made.bytes,made.entries,?_,made.persisted,made.stopping,?_⟩
  · refine made.taken.trans ?_
    dsimp only
    rw [gone_concat,if_neg (by decide),List.append_nil]
  · intro hlost
    exact absurd (made.kept hlost).1 nofun

/-- Room is made by dropping the oldest entries. -/
theorem makeRoom_spec {size : ℕ} (hsize : size≤kMaxPendingBytes)
    (queue : List ContextWriteTask) (before : Shared×Bool) (inv : QueueInv queue before.1) :
    RoomMade size before (makeRoom size queue before) := by
  induction queue generalizing before with
  | nil =>
    have hbytes : totalSize []+size≤kMaxPendingBytes := by
      change 0+size≤_
      omega
    have hentries : ([] : List ContextWriteTask).length<kMaxPendingEntries := by decide
    exact ⟨⟨inv.bytes,inv.bounded,inv.entries,inv.order,inv.dropped⟩,hbytes,hentries,rfl,rfl,rfl,
      fun h => ⟨h,rfl,rfl⟩⟩
  | cons first rest ih =>
    obtain ⟨shared,lostEntries⟩ := before
    dsimp only at inv
    rw [makeRoom]
    split
    · exact (ih (_,true) inv.evict).ofEvicted
    · rename_i hfits
      have hbytes := inv.bytes
      refine ⟨⟨inv.bytes,inv.bounded,inv.entries,inv.order,inv.dropped⟩,?_,?_,rfl,rfl,rfl,
        fun h => ⟨h,rfl,rfl⟩⟩
      · dsimp only
        omega
      · dsimp only
        omega

/-- What a call of `Enqueue` keeps, and what it answers. -/
structure Enqueued (before after : Shared) (answer : Bool) : Prop where
  inv : QueueInv after.pending after
  taken : gone .taken after.departed=gone .taken before.departed
  persisted : after.persisted=before.persisted
  stopping : after.stopping=before.stopping
  /-- Nothing is queued behind the stop. -/
  closed : before.stopping=true → after.pending=before.pending
  /-- Whoever is told that all is well has pushed nothing out. -/
  kept : answer=true → after.departed=before.departed ∧ after.dropped=before.dropped

/-- What a call does with its entry and with older ones. -/
theorem enqueue_spec (call : Call) {shared : Shared} (inv : QueueInv shared.pending shared) :
    Enqueued shared (enqueue call shared).1 (enqueue call shared).2 := by
  unfold enqueue
  dsimp only
  split
  · exact ⟨inv,rfl,rfl,rfl,fun _ => rfl,fun _ => ⟨rfl,rfl⟩⟩
  · split
    · exact ⟨inv,rfl,rfl,rfl,fun _ => rfl,fun _ => ⟨rfl,rfl⟩⟩
    · rename_i hopen
      split
      · refine ⟨⟨inv.bytes,inv.bounded,inv.entries,inv.order,?_⟩,rfl,rfl,rfl,fun _ => rfl,nofun⟩
        dsimp only
        rw [List.length_append,List.length_singleton,inv.dropped]
        omega
      · rename_i hlarge
        have made := makeRoom_spec (Nat.le_of_not_lt hlarge) shared.pending (shared,false) inv
        have hbytes := made.bytes
        have hentries := made.entries
        have hvalues : kMaxPendingBytes< sizeValues := by decide
        refine ⟨⟨?_,?_,?_,?_,made.inv.dropped⟩,made.taken,made.persisted,made.stopping,
          fun h => absurd h hopen,?_⟩
        · dsimp only
          rw [totalSize_concat,made.inv.bytes,Nat.mod_eq_of_lt (by omega)]
        · rw [totalSize_concat]
          exact hbytes
        · dsimp only
          rw [List.length_append,List.length_singleton]
          omega
        · dsimp only
          rw [made.inv.order,List.append_assoc]
        · intro hanswer
          rw [Bool.not_eq_true'] at hanswer
          exact (made.kept hanswer).2

end Accounting

section Runs

/-- The line in the hands of the writer. -/
def inHand : WriterPoint → List ContextWriteTask
  | .persist task => [task]
  | _ => []

/-- What holds of a writer at all times. -/
structure WriterInv (system : System) : Prop where
  queue : QueueInv system.shared.pending system.shared
  /-- A line that was taken is persisted or about to be. -/
  persisted : system.shared.persisted++inHand system.writer=
    gone .taken system.shared.departed
  ended : system.writer=.done → system.shared.stopping=true ∧ system.shared.pending=[]
  joined : system.owner=.destroyed → system.writer=.done

variable {system : System}

/-- A step of the thread keeps the invariant. -/
theorem WriterInv.writer (inv : WriterInv system) : WriterInv (step system .writer) := by
  obtain ⟨shared,writer,owner⟩ := system
  obtain ⟨queue,persisted,ended,joined⟩ := inv
  dsimp only at queue persisted ended joined
  cases writer with
  | wait =>
    dsimp only [step,nextWriter]
    split
    · rename_i hpending
      by_cases hstop : shared.stopping=true
      · rw [if_pos hstop]
        exact ⟨queue,persisted,fun _ => ⟨hstop,hpending⟩,fun _ => rfl⟩
      · rw [if_neg hstop]
        exact ⟨queue,persisted,nofun,joined⟩
    · rename_i task rest hpending
      rw [hpending] at queue
      refine ⟨queue.leave .taken rfl rfl rfl ?_,?_,nofun,fun howner => absurd (joined howner) nofun⟩
      · dsimp only
        rw [gone_concat,if_neg (by decide),List.append_nil]
        exact queue.dropped
      · dsimp only
        have hnone : inHand .wait=[] := rfl
        rw [hnone,List.append_nil] at persisted
        rw [gone_concat,if_pos rfl,←persisted]
        rfl
  | persist task =>
    refine ⟨⟨queue.bytes,queue.bounded,queue.entries,queue.order,queue.dropped⟩,?_,nofun,
      fun howner => absurd (joined howner) nofun⟩
    exact (List.append_nil _).trans persisted
  | finish =>
    exact ⟨⟨queue.bytes,queue.bounded,queue.entries,queue.order,queue.dropped⟩,persisted,nofun,
      fun howner => absurd (joined howner) nofun⟩
  | done => exact ⟨queue,persisted,ended,joined⟩

/-- A step of the destructor keeps the invariant. -/
theorem WriterInv.owner (inv : WriterInv system) : WriterInv (step system .owner) := by
  obtain ⟨shared,writer,owner⟩ := system
  obtain ⟨queue,persisted,ended,joined⟩ := inv
  dsimp only at queue persisted ended joined
  cases owner with
  | alive =>
    exact ⟨⟨queue.bytes,queue.bounded,queue.entries,queue.order,queue.dropped⟩,persisted,
      fun hdone => ⟨rfl,(ended hdone).2⟩,nofun⟩
  | join =>
    dsimp only [step,nextOwner]
    split
    · exact ⟨queue,persisted,ended,fun _ => rfl⟩
    · exact ⟨queue,persisted,ended,nofun⟩
  | destroyed => exact ⟨queue,persisted,ended,joined⟩

/-- A call keeps the invariant. -/
theorem WriterInv.enqueue (inv : WriterInv system) (call : Call) :
    WriterInv (step system (.enqueue call)) := by
  have enqueued := enqueue_spec call inv.queue
  refine ⟨enqueued.inv,?_,?_,inv.joined⟩
  · exact (congrArg (·++inHand system.writer) enqueued.persisted).trans
      (inv.persisted.trans enqueued.taken.symm)
  · intro hdone
    obtain ⟨hstop,hpending⟩ := inv.ended hdone
    exact ⟨enqueued.stopping.trans hstop,(enqueued.closed hstop).trans hpending⟩

/-- The invariant holds in every run. -/
theorem run_inv (schedule : List Label) : WriterInv (run step startup schedule) := by
  have hstart : WriterInv startup :=
    ⟨⟨rfl,Nat.zero_le _,Nat.zero_le _,rfl,rfl⟩,rfl,nofun,nofun⟩
  refine run_invariant ?_ schedule hstart
  intro system label inv
  cases label with
  | writer => exact inv.writer
  | owner => exact inv.owner
  | enqueue call => exact inv.enqueue call

/-- In every run the counter is the size of the queue and within its bound, the
lines leave the queue in the order of their calls, those that were not pushed
out go to the file, the dropped lines are the ones pushed out and the ones too
large, and the destructor leaves none behind. -/
theorem lines_accounted (schedule : List Label) :
    let system := run step startup schedule
    (system.shared.pendingBytes=totalSize system.shared.pending ∧
      totalSize system.shared.pending≤kMaxPendingBytes) ∧
      system.shared.accepted=system.shared.departed.map Prod.fst++system.shared.pending ∧
      system.shared.persisted++inHand system.writer=gone .taken system.shared.departed ∧
      system.shared.dropped=
        (gone .evicted system.shared.departed).length+system.shared.refused.length ∧
      (∀ call, (enqueue call system.shared).2=true →
        (enqueue call system.shared).1.departed=system.shared.departed) ∧
      (system.owner=.destroyed →
        system.shared.pending=[] ∧
          system.shared.persisted=gone .taken system.shared.departed) := by
  intro system
  have inv : WriterInv system := run_inv schedule
  refine ⟨⟨inv.queue.bytes,inv.queue.bounded⟩,inv.queue.order,inv.persisted,inv.queue.dropped,
    ?_,?_⟩
  · intro call hanswer
    exact ((enqueue_spec call inv.queue).kept hanswer).1
  · intro howner
    have hdone := inv.joined howner
    have hpersisted := inv.persisted
    have hnone : inHand .done=[] := rfl
    rw [hdone,hnone,List.append_nil] at hpersisted
    exact ⟨(inv.ended hdone).2,hpersisted⟩

/-- A line that is larger than the queue. -/
def tooLarge : Call := ⟨List.replicate (kMaxPendingBytes+1) 120,30⟩

/-- A line that was never queued is counted as dropped. -/
theorem refused_line_dropped :
    ¬∀ schedule, (run step startup schedule).shared.dropped=
      (gone .evicted (run step startup schedule).shared.departed).length := by
  intro h
  have hline : tooLarge.jsonLine.length=kMaxPendingBytes+1 := List.length_replicate
  have hempty : tooLarge.jsonLine≠[] := by
    intro hnil
    rw [hnil] at hline
    cases hline
  have hcall : enqueue tooLarge {}=
      ({dropped := 1,refused := [⟨tooLarge.jsonLine,30⟩]},false) := by
    have hpositive : ¬(tooLarge.maxLines≤0 ∨ tooLarge.jsonLine=[]) := by
      rintro (hlines | hnil)
      · exact absurd hlines (by decide)
      · exact hempty hnil
    unfold enqueue
    dsimp only
    rw [if_neg hpositive,if_neg Bool.false_ne_true,if_pos (by omega)]
    rfl
  have hdropped := h [.enqueue tooLarge]
  have hsystem : run step startup [.enqueue tooLarge]=
      {shared := {dropped := 1,refused := [⟨tooLarge.jsonLine,30⟩]}} := by
    change ({shared := (enqueue tooLarge {}).1} : System)=_
    rw [hcall]
  rw [hsystem] at hdropped
  cases hdropped

end Runs

end Vinput.ContextWriter
