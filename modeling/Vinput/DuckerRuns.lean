import Vinput.OutputDucker

/-!
# Runs of the ducker

What the sink is asked forms a list of episodes: a volume is read, lowered
and at last written back. The two flags and the saved volume tell where in an
episode the worker is. Tasks leave the queue in their order, and one of them
may be in the hands of the worker while the queue is empty.
-/

namespace Vinput.DuckerRuns

open InterleavedRuns OutputDucker

section Episodes

variable {V : Type*}

/-- A volume is lowered. -/
def isLowering : SinkCall V → Bool
  | .lowered _ _ => true
  | _ => false

/-- Calls that follow one episode after the other, with the volume that has to
be written back. -/
inductive Episodes : List (SinkCall V) → Option V → Prop
  | start : Episodes [] none
  | skipped {calls : List (SinkCall V)} (before : Episodes calls none) :
    Episodes (calls++[.read none]) none
  | opened {calls : List (SinkCall V)} (before : Episodes calls none) (volume : V) :
    Episodes (calls++[.read (some volume)]) (some volume)
  | lowered {calls : List (SinkCall V)} {volume : V} (before : Episodes calls (some volume))
    (target : V) (ok : Bool) : Episodes (calls++[.lowered target ok]) (some volume)
  | closed {calls : List (SinkCall V)} {volume : V} (before : Episodes calls (some volume))
    (ok : Bool) : Episodes (calls++[.restored volume ok]) none

variable {calls : List (SinkCall V)} {owed : Option V}

/-- An open episode begins with a read, and nothing but its lowering
follows. -/
theorem Episodes.opening {volume : V} (episodes : Episodes calls (some volume)) :
    ∃ before between, calls=before++.read (some volume)::between ∧
      ∀ call∈between, isLowering call=true := by
  generalize howed : some volume=owed at episodes
  induction episodes with
  | start => cases howed
  | skipped before ih => cases howed
  | @opened calls before volume' ih =>
    cases howed
    exact ⟨calls,[],rfl,fun _ h => absurd h List.not_mem_nil⟩
  | @lowered calls volume' before target ok ih =>
    obtain ⟨earlier,between,hcalls,hbetween⟩ := ih howed
    refine ⟨earlier,between++[.lowered target ok],?_,?_⟩
    · rw [hcalls,List.append_assoc]
      rfl
    · intro call hcall
      rcases List.mem_append.mp hcall with hold | hnew
      · exact hbetween call hold
      · rw [List.mem_singleton.mp hnew]
        rfl
  | closed before ok ih => cases howed

/-- A place in a list with one more element is the last one or an earlier
one. -/
theorem concat_eq_split {α : Type*} {front before after : List α} {last middle : α}
    (h : front++[last]=before++middle::after) :
    (after=[] ∧ front=before ∧ last=middle) ∨
      ∃ rest, after=rest++[last] ∧ front=before++middle::rest := by
  rcases List.eq_nil_or_concat after with hnil | ⟨rest,other,hafter⟩
  · subst hnil
    obtain ⟨hfront,hlast⟩ := List.append_inj' h rfl
    exact Or.inl ⟨rfl,hfront,(List.cons.inj hlast).1⟩
  · rw [hafter,List.concat_eq_append,←List.cons_append,←List.append_assoc] at h
    obtain ⟨hfront,hlast⟩ := List.append_inj' h rfl
    refine Or.inr ⟨rest,?_,hfront⟩
    rw [hafter,List.concat_eq_append,(List.cons.inj hlast).1]

/-- Each volume written back is the one read last, with no other write back
since. -/
theorem Episodes.restored_read (episodes : Episodes calls owed) {before after : List (SinkCall V)}
    {volume : V} {ok : Bool} (h : calls=before++.restored volume ok::after) :
    ∃ earlier between, before=earlier++.read (some volume)::between ∧
      ∀ call∈between, isLowering call=true := by
  induction episodes generalizing after with
  | start => exact absurd h.symm (List.append_ne_nil_of_right_ne_nil _ (List.cons_ne_nil _ _))
  | skipped _ ih =>
    rcases concat_eq_split h with ⟨-,-,hlast⟩ | ⟨rest,-,hfront⟩
    · cases hlast
    · exact ih hfront
  | opened _ _ ih =>
    rcases concat_eq_split h with ⟨-,-,hlast⟩ | ⟨rest,-,hfront⟩
    · cases hlast
    · exact ih hfront
  | lowered _ _ _ ih =>
    rcases concat_eq_split h with ⟨-,-,hlast⟩ | ⟨rest,-,hfront⟩
    · cases hlast
    · exact ih hfront
  | closed earlier _ ih =>
    rcases concat_eq_split h with ⟨-,hfront,hlast⟩ | ⟨rest,-,hfront⟩
    · cases hlast
      exact hfront ▸ earlier.opening
    · exact ih hfront

/-- A volume is written back, and nothing but its lowering comes before
that. -/
def WrittenBack (volume : V) (calls : List (SinkCall V)) : Prop :=
  ∃ between ok rest, calls=between++.restored volume ok::rest ∧
    ∀ call∈between, isLowering call=true

/-- What was written back stays so when more follows. -/
theorem WrittenBack.append {volume : V} (h : WrittenBack volume calls)
    (more : List (SinkCall V)) : WrittenBack volume (calls++more) := by
  obtain ⟨between,ok,rest,hcalls,hbetween⟩ := h
  refine ⟨between,ok,rest++more,?_,hbetween⟩
  rw [hcalls,List.append_assoc]
  rfl

/-- Each volume read is written back before anything but its lowering, or it
still has to be. -/
theorem Episodes.read_restored (episodes : Episodes calls owed) {before after : List (SinkCall V)}
    {volume : V} (h : calls=before++.read (some volume)::after) :
    WrittenBack volume after ∨ (owed=some volume ∧ ∀ call∈after, isLowering call=true) := by
  induction episodes generalizing after with
  | start => exact absurd h.symm (List.append_ne_nil_of_right_ne_nil _ (List.cons_ne_nil _ _))
  | skipped _ ih =>
    rcases concat_eq_split h with ⟨-,-,hlast⟩ | ⟨rest,hafter,hfront⟩
    · cases hlast
    · rcases ih hfront with hback | ⟨howed,-⟩
      · exact Or.inl (hafter ▸ hback.append _)
      · cases howed
  | opened _ last ih =>
    rcases concat_eq_split h with ⟨hafter,-,hlast⟩ | ⟨rest,hafter,hfront⟩
    · cases hlast
      exact Or.inr ⟨rfl,fun call hcall => absurd (hafter ▸ hcall) List.not_mem_nil⟩
    · rcases ih hfront with hback | ⟨howed,-⟩
      · exact Or.inl (hafter ▸ hback.append _)
      · cases howed
  | lowered _ target ok ih =>
    rcases concat_eq_split h with ⟨-,-,hlast⟩ | ⟨rest,hafter,hfront⟩
    · cases hlast
    · rcases ih hfront with hback | ⟨howed,hlowers⟩
      · exact Or.inl (hafter ▸ hback.append _)
      · refine Or.inr ⟨howed,?_⟩
        intro call hcall
        rw [hafter] at hcall
        rcases List.mem_append.mp hcall with hold | hnew
        · exact hlowers call hold
        · rw [List.mem_singleton.mp hnew]
          rfl
  | closed _ ok ih =>
    rcases concat_eq_split h with ⟨-,-,hlast⟩ | ⟨rest,hafter,hfront⟩
    · cases hlast
    · rcases ih hfront with hback | ⟨howed,hlowers⟩
      · exact Or.inl (hafter ▸ hback.append _)
      · cases howed
        exact Or.inl ⟨rest,ok,[],hafter,hlowers⟩

end Episodes

section Alternation

variable {V : Type*}

/-- The kind of each task ever queued: duck, restore and so on. -/
def alternating (count : ℕ) : List DuckerAction :=
  (List.range count).map fun index => if index%2=0 then .duck else .restore

/-- Tasks alternate, and the flag tells which comes next. -/
structure Alternates (shared : Shared V) : Prop where
  actions : shared.tasks.map DuckerTask.action=alternating shared.tasks.length
  flag : shared.logicalDucked=decide (shared.tasks.length%2=1)

theorem alternating_succ (count : ℕ) :
    alternating (count+1)=alternating count++[if count%2=0 then .duck else .restore] := by
  unfold alternating
  rw [List.range_succ,List.map_append]
  rfl

/-- The next task has the kind that the flag asks for. -/
theorem Alternates.push {shared : Shared V} (alternates : Alternates shared) (task : DuckerTask V)
    (h : task.action=if shared.logicalDucked then .restore else .duck) :
    Alternates (push task {shared with logicalDucked := !shared.logicalDucked}) := by
  have hflag := alternates.flag
  have hlength : (shared.tasks++[task]).length=shared.tasks.length+1 := List.length_append
  constructor
  · change (shared.tasks++[task]).map DuckerTask.action=alternating (shared.tasks++[task]).length
    rw [hlength,alternating_succ,List.map_append,alternates.actions,List.map_singleton,h,hflag]
    by_cases heven : shared.tasks.length%2=0
    · rw [decide_eq_false (by omega),if_pos heven]
      rfl
    · rw [decide_eq_true (by omega),if_neg heven]
      rfl
  · change (!shared.logicalDucked)=decide ((shared.tasks++[task]).length%2=1)
    rw [hlength,hflag,←decide_not,decide_eq_decide]
    omega

variable (arithmetic : Arithmetic V)

/-- A caller queues tasks in turn and touches nothing else. -/
theorem nextCaller_alternates (oracle : Oracle V) {shared : Shared V}
    (alternates : Alternates shared) (point : CallerPoint) :
    Alternates (nextCaller arithmetic oracle shared point).1 := by
  cases point with
  | flushing count => exact alternates
  | ready =>
    dsimp only [nextCaller]
    split
    · dsimp only [duck]
      split
      · exact alternates
      · rename_i scale _ hflag
        rw [Bool.not_eq_true] at hflag
        have hpushed := alternates.push {action := .duck,scale := scale} (by rw [hflag]; rfl)
        rw [hflag] at hpushed
        exact hpushed
    · dsimp only [restore]
      split
      · exact alternates
      · rename_i _ hflag
        rw [Bool.not_eq_true,Bool.not_eq_false'] at hflag
        have hpushed := alternates.push {action := .restore,scale := arithmetic.one}
          (by rw [hflag]; rfl)
        rw [hflag] at hpushed
        exact hpushed
    · exact alternates
    · exact alternates

end Alternation

section Invariant

variable {V : Type*}

/-- The task in the hands of the worker. -/
def inHand : WorkerPoint V → List (DuckerTask V)
  | .process task => [task]
  | .read task => [task]
  | .lower task _ => [task]
  | .raise task _ => [task]
  | _ => []

/-- The worker stands between a look at its flag and the next write of it. -/
def unducked : WorkerPoint V → Bool
  | .read _ => true
  | .lower _ _ => true
  | .raise _ _ => true
  | _ => false

/-- The volume that the worker has to write back. -/
def workerOwes (shared : Shared V) : WorkerPoint V → Option V
  | .lower _ current => some current
  | .raise _ volume => some volume
  | _ => if shared.workerDucked then some shared.savedVolume else none

/-- The volume that has to be written back, after the worker by the
destructor. -/
def owes (shared : Shared V) (worker : WorkerPoint V) : OwnerPoint V → Option V
  | .raise volume => some volume
  | _ => workerOwes shared worker

/-- The destructor has joined the worker. -/
def pastJoin : OwnerPoint V → Bool
  | .calls _ => false
  | .join => false
  | _ => true

/-- The destructor has taken care of the flag. -/
def pastRestore : OwnerPoint V → Bool
  | .raise _ => true
  | .destroyed => true
  | _ => false

/-- Number of tasks that a caller in `Flush` found queued. -/
def awaits : CallerPoint → ℕ
  | .ready => 0
  | .flushing count => count

/-- The same for the thread that destroys the ducker. -/
def ownerAwaits : OwnerPoint V → ℕ
  | .calls point => awaits point
  | _ => 0

/-- What holds of a ducker at all times. -/
structure DuckerInv (system : System V) : Prop where
  alternates : Alternates system.shared
  /-- A queued task is finished, in the hands of the worker or in the
  queue. -/
  ledger : system.shared.tasks=
    system.shared.finished++inHand system.worker++system.shared.queue
  episodes : Episodes system.shared.calls (owes system.shared system.worker system.owner)
  clear : unducked system.worker=true → system.shared.workerDucked=false
  joined : pastJoin system.owner=true → system.worker=.done
  restored : pastRestore system.owner=true → system.shared.workerDucked=false
  flushing : ∀ thread, awaits (system.callers thread)≤ system.shared.tasks.length
  ownerFlushing : ownerAwaits system.owner≤ system.shared.tasks.length

variable (arithmetic : Arithmetic V)

/-- What a step of the worker keeps. -/
structure WorkerKeeps (before after : Shared V) (point later : WorkerPoint V) : Prop where
  tasks : after.tasks=before.tasks
  flag : after.logicalDucked=before.logicalDucked
  ledger : after.finished++inHand later++after.queue=before.finished++inHand point++before.queue
  clear : unducked later=true → after.workerDucked=false
  episodes : Episodes before.calls (workerOwes before point) →
    Episodes after.calls (workerOwes after later)

/-- A step of the worker keeps what it owes. -/
theorem processStep_keeps (task : DuckerTask V) (shared : Shared V) :
    WorkerKeeps shared (processStep arithmetic task shared).1 (.process task)
      (processStep arithmetic task shared).2 := by
  have hfinished : WorkerKeeps shared (finish task shared) (.process task) .notify := by
    refine ⟨rfl,rfl,?_,nofun,id⟩
    change shared.finished++[task]++[]++shared.queue=_
    rw [List.append_nil]
    rfl
  unfold processStep
  split
  · split
    · exact hfinished
    · rename_i hflag
      exact ⟨rfl,rfl,rfl,fun _ => Bool.not_eq_true _ ▸ hflag,id⟩
  · split
    · exact hfinished
    · rename_i hflag
      have hducked : shared.workerDucked=true := by
        rw [Bool.not_eq_true,Bool.not_eq_false'] at hflag
        exact hflag
      refine ⟨rfl,rfl,rfl,fun _ => rfl,?_⟩
      intro episodes
      have howes : workerOwes shared (.process task)=some shared.savedVolume := if_pos hducked
      rw [howes] at episodes
      exact episodes

/-- A step of the worker keeps the tasks in their order and the calls of the
sink in their episodes. -/
theorem nextWorker_keeps (oracle : Oracle V) (shared : Shared V) (point : WorkerPoint V)
    (clear : unducked point=true → shared.workerDucked=false) :
    WorkerKeeps shared (nextWorker arithmetic oracle shared point).1 point
      (nextWorker arithmetic oracle shared point).2 := by
  have hunducked : ∀ later : WorkerPoint V, shared.workerDucked=false →
      (∀ task current, later≠.lower task current) → (∀ task volume, later≠.raise task volume) →
      workerOwes shared later=none := by
    intro later hflag hlower hraise
    cases later with
    | lower task current => exact absurd rfl (hlower task current)
    | raise task volume => exact absurd rfl (hraise task volume)
    | _ =>
      dsimp only [workerOwes]
      rw [hflag]
      rfl
  cases point with
  | wait =>
    dsimp only [nextWorker]
    split
    · split
      · exact ⟨rfl,rfl,rfl,nofun,id⟩
      · exact ⟨rfl,rfl,rfl,nofun,id⟩
    · rename_i task rest hqueue
      refine ⟨rfl,rfl,?_,nofun,id⟩
      rw [hqueue]
      change shared.finished++[task]++rest=shared.finished++[]++task::rest
      rw [List.append_nil,List.append_assoc]
      rfl
  | process task => exact processStep_keeps arithmetic task shared
  | read task =>
    have hflag := clear rfl
    have howes := hunducked (.read task) hflag nofun nofun
    dsimp only [nextWorker]
    split
    · refine ⟨rfl,rfl,?_,nofun,?_⟩
      · change shared.finished++[task]++[]++shared.queue=_
        rw [List.append_nil]
        rfl
      · intro episodes
        rw [howes] at episodes
        have hlater : workerOwes (finish task (ask (.read none) shared)) .notify=none :=
          hunducked .notify hflag nofun nofun
        rw [hlater]
        exact episodes.skipped
    · rename_i current _
      refine ⟨rfl,rfl,rfl,fun _ => hflag,?_⟩
      intro episodes
      rw [howes] at episodes
      exact episodes.opened current
  | lower task current =>
    refine ⟨rfl,rfl,?_,nofun,fun episodes => episodes.lowered _ _⟩
    change shared.finished++[task]++[]++shared.queue=_
    rw [List.append_nil]
    rfl
  | raise task volume =>
    have hflag := clear rfl
    refine ⟨rfl,rfl,?_,nofun,?_⟩
    · change shared.finished++[task]++[]++shared.queue=_
      rw [List.append_nil]
      rfl
    · intro episodes
      have hlater : workerOwes (finish task (ask (.restored volume oracle.ok) shared)) .notify=
          none := hunducked .notify hflag nofun nofun
      dsimp only [nextWorker]
      rw [hlater]
      exact episodes.closed oracle.ok
  | notify => exact ⟨rfl,rfl,rfl,nofun,id⟩
  | done => exact ⟨rfl,rfl,rfl,nofun,id⟩

/-- What a step of a caller keeps. -/
structure CallerKeeps (before after : Shared V) (point later : CallerPoint) : Prop where
  queued : ∃ more, after.tasks=before.tasks++more ∧ after.queue=before.queue++more
  finished : after.finished=before.finished
  calls : after.calls=before.calls
  workerDucked : after.workerDucked=before.workerDucked
  savedVolume : after.savedVolume=before.savedVolume
  awaits_le : awaits point≤before.tasks.length → awaits later≤before.tasks.length

/-- A caller that only goes on keeps the queue. -/
theorem CallerKeeps.same {shared : Shared V} {point later : CallerPoint}
    (h : awaits point≤ shared.tasks.length → awaits later≤ shared.tasks.length) :
    CallerKeeps shared shared point later :=
  ⟨⟨[],(List.append_nil _).symm,(List.append_nil _).symm⟩,rfl,rfl,rfl,rfl,h⟩

/-- Every step of a caller keeps the queue or extends it. -/
theorem nextCaller_keeps (oracle : Oracle V) (shared : Shared V) (point : CallerPoint) :
    CallerKeeps shared (nextCaller arithmetic oracle shared point).1 point
      (nextCaller arithmetic oracle shared point).2 := by
  cases point with
  | ready =>
    dsimp only [nextCaller]
    split
    · rename_i scale _
      dsimp only [duck]
      split
      · exact .same id
      · exact ⟨⟨[_],rfl,rfl⟩,rfl,rfl,rfl,rfl,id⟩
    · dsimp only [restore]
      split
      · exact .same id
      · exact ⟨⟨[_],rfl,rfl⟩,rfl,rfl,rfl,rfl,id⟩
    · exact .same fun _ => Nat.le_refl _
    · exact .same id
  | flushing count =>
    dsimp only [nextCaller]
    split
    · exact .same fun _ => Nat.zero_le _
    · exact .same id

/-- A caller does not change what is owed. -/
theorem CallerKeeps.owes_eq {before after : Shared V} {point later : CallerPoint}
    (keeps : CallerKeeps before after point later) (worker : WorkerPoint V)
    (owner : OwnerPoint V) : owes after worker owner=owes before worker owner := by
  have hworker : workerOwes after worker=workerOwes before worker := by
    cases worker <;> dsimp only [workerOwes] <;> rw [keeps.workerDucked,keeps.savedVolume]
  cases owner with
  | raise volume => rfl
  | _ => exact hworker

/-- A caller keeps the ledger of the tasks. -/
theorem CallerKeeps.ledger {before after : Shared V} {point later : CallerPoint}
    (keeps : CallerKeeps before after point later) {worker : WorkerPoint V}
    (ledger : before.tasks=before.finished++inHand worker++before.queue) :
    after.tasks=after.finished++inHand worker++after.queue ∧
      before.tasks.length≤after.tasks.length := by
  obtain ⟨more,htasks,hqueue⟩ := keeps.queued
  constructor
  · rw [htasks,hqueue,keeps.finished,ledger,List.append_assoc]
  · rw [htasks,List.length_append]
    exact Nat.le_add_right _ _

variable {arithmetic} {system : System V}

/-- A step of the worker keeps the invariant. -/
theorem DuckerInv.worker (inv : DuckerInv system) (oracle : Oracle V) :
    DuckerInv (step arithmetic system (.worker oracle)) := by
  have keeps := nextWorker_keeps arithmetic oracle system.shared system.worker inv.clear
  have htasks : (step arithmetic system (.worker oracle)).shared.tasks=system.shared.tasks :=
    keeps.tasks
  refine ⟨⟨?_,?_⟩,?_,?_,keeps.clear,?_,?_,?_,?_⟩
  · rw [htasks]
    exact inv.alternates.actions
  · rw [htasks]
    exact keeps.flag.trans inv.alternates.flag
  · rw [htasks]
    exact inv.ledger.trans keeps.ledger.symm
  · have hepisodes := inv.episodes
    by_cases hpast : pastJoin system.owner=true
    · have hdone := inv.joined hpast
      have hsame : step arithmetic system (.worker oracle)=system := by
        dsimp only [step]
        rw [hdone]
        dsimp only [nextWorker]
        rw [←hdone]
      rw [hsame]
      exact hepisodes
    · change Episodes _ (owes _ _ system.owner)
      cases howner : system.owner with
      | raise volume =>
        rw [howner] at hpast
        exact absurd rfl hpast
      | _ =>
        rw [howner] at hepisodes
        exact keeps.episodes hepisodes
  · intro hpast
    have hdone := inv.joined hpast
    dsimp only [step]
    rw [hdone]
    rfl
  · intro hpast
    have hjoined : pastJoin system.owner=true := by
      change pastRestore system.owner=true at hpast
      cases howner : system.owner with
      | calls point => rw [howner] at hpast; cases hpast
      | join => rw [howner] at hpast; cases hpast
      | _ => rfl
    have hdone := inv.joined hjoined
    dsimp only [step]
    rw [hdone]
    exact inv.restored hpast
  · rw [htasks]
    exact inv.flushing
  · rw [htasks]
    exact inv.ownerFlushing

/-- A step of a caller keeps the invariant. -/
theorem DuckerInv.caller (inv : DuckerInv system) (thread : ℕ) (oracle : Oracle V) :
    DuckerInv (step arithmetic system (.caller thread oracle)) := by
  have keeps := nextCaller_keeps arithmetic oracle system.shared (system.callers thread)
  obtain ⟨hledger,hlength⟩ := keeps.ledger inv.ledger
  refine ⟨nextCaller_alternates arithmetic oracle inv.alternates _,hledger,?_,?_,inv.joined,?_,?_,?_⟩
  · have howes := keeps.owes_eq system.worker system.owner
    change Episodes (nextCaller arithmetic oracle system.shared (system.callers thread)).1.calls
      (owes (nextCaller arithmetic oracle system.shared (system.callers thread)).1 system.worker
        system.owner)
    rw [howes,keeps.calls]
    exact inv.episodes
  · intro hworker
    exact keeps.workerDucked.trans (inv.clear hworker)
  · intro hpast
    exact keeps.workerDucked.trans (inv.restored hpast)
  · intro other
    change awaits (Function.update system.callers thread _ other)≤_
    by_cases hother : other=thread
    · rw [hother,Function.update_self]
      exact Nat.le_trans (keeps.awaits_le (inv.flushing thread)) hlength
    · rw [Function.update_of_ne hother]
      exact Nat.le_trans (inv.flushing other) hlength
  · exact Nat.le_trans inv.ownerFlushing hlength

/-- A step of the thread that destroys the ducker keeps the invariant. -/
theorem DuckerInv.owner (inv : DuckerInv system) (oracle : Oracle V) :
    DuckerInv (step arithmetic system (.owner oracle)) := by
  obtain ⟨shared,worker,owner,callers⟩ := system
  obtain ⟨alternates,ledger,episodes,clear,joined,restored,flushing,ownerFlushing⟩ := inv
  dsimp only at alternates ledger episodes clear joined restored flushing ownerFlushing
  cases owner with
  | calls point =>
    dsimp only [step,nextOwner]
    split
    · exact ⟨⟨alternates.actions,alternates.flag⟩,ledger,episodes,clear,nofun,nofun,flushing,
        Nat.zero_le _⟩
    · have keeps := nextCaller_keeps arithmetic oracle shared point
      obtain ⟨hledger,hlength⟩ := keeps.ledger ledger
      have howes := keeps.owes_eq worker (.calls (nextCaller arithmetic oracle shared point).2)
      refine ⟨nextCaller_alternates arithmetic oracle alternates _,hledger,?_,?_,nofun,nofun,?_,?_⟩
      · dsimp only
        rw [howes,keeps.calls]
        exact episodes
      · intro hworker
        exact keeps.workerDucked.trans (clear hworker)
      · exact fun thread => Nat.le_trans (flushing thread) hlength
      · exact Nat.le_trans (keeps.awaits_le ownerFlushing) hlength
  | join =>
    dsimp only [step,nextOwner]
    split
    · exact ⟨alternates,ledger,episodes,clear,fun _ => rfl,nofun,flushing,Nat.zero_le _⟩
    · exact ⟨alternates,ledger,episodes,clear,nofun,nofun,flushing,Nat.zero_le _⟩
  | joined =>
    have hdone : worker=.done := joined rfl
    subst hdone
    dsimp only [step,nextOwner]
    split
    · rename_i hflag
      have howes : owes shared .done .joined=some shared.savedVolume := if_pos hflag
      rw [howes] at episodes
      exact ⟨⟨alternates.actions,alternates.flag⟩,ledger,episodes,nofun,fun _ => rfl,fun _ => rfl,
        flushing,Nat.zero_le _⟩
    · rename_i hflag
      rw [Bool.not_eq_true] at hflag
      exact ⟨alternates,ledger,episodes,nofun,fun _ => rfl,fun _ => hflag,flushing,Nat.zero_le _⟩
  | raise volume =>
    have hdone : worker=.done := joined rfl
    have hflag : shared.workerDucked=false := restored rfl
    subst hdone
    refine ⟨⟨alternates.actions,alternates.flag⟩,ledger,?_,nofun,fun _ => rfl,fun _ => hflag,
      flushing,Nat.zero_le _⟩
    have howes : owes (ask (.restored volume oracle.ok) shared) .done .destroyed=none :=
      if_neg (Bool.eq_false_iff.mp hflag)
    dsimp only [step,nextOwner]
    rw [howes]
    exact episodes.closed oracle.ok
  | destroyed => exact ⟨alternates,ledger,episodes,clear,joined,restored,flushing,ownerFlushing⟩

/-- Every step keeps the invariant. -/
theorem DuckerInv.step (inv : DuckerInv system) (label : Label V) :
    DuckerInv (step arithmetic system label) := by
  cases label with
  | worker oracle => exact inv.worker oracle
  | owner oracle => exact inv.owner oracle
  | caller thread oracle => exact inv.caller thread oracle

/-- The invariant holds at the start. -/
theorem startup_inv (arithmetic : Arithmetic V) : DuckerInv (startup arithmetic) :=
  ⟨⟨rfl,rfl⟩,rfl,.start,nofun,nofun,nofun,fun _ => Nat.le_refl _,Nat.le_refl _⟩

end Invariant

section Runs

variable {V : Type*}

theorem run_inv (arithmetic : Arithmetic V) (schedule : List (Label V)) :
    DuckerInv (run (step arithmetic) (startup arithmetic) schedule) :=
  run_invariant (fun _ label inv => inv.step label) schedule (startup_inv arithmetic)

/-- In every run tasks alternate, each write of `ProcessRestore` is the volume
read last, each volume read is written back before the next one, at the latest
by the destructor, and then the sink is no longer ducked. -/
theorem restores_ducked (arithmetic : Arithmetic V) (schedule : List (Label V)) :
    let system := run (step arithmetic) (startup arithmetic) schedule
    system.shared.tasks.map DuckerTask.action=alternating system.shared.tasks.length ∧
      (∀ before volume ok after, system.shared.calls=before++.restored volume ok::after →
        ∃ earlier between, before=earlier++.read (some volume)::between ∧
          ∀ call∈between, isLowering call=true) ∧
      (∀ before volume after, system.shared.calls=before++.read (some volume)::after →
        WrittenBack volume after ∨
          (system.owner≠.destroyed ∧ ∀ call∈after, isLowering call=true)) ∧
      (system.owner=.destroyed → system.shared.workerDucked=false) := by
  intro system
  have inv : DuckerInv system := run_inv arithmetic schedule
  have hdestroyed : system.owner=.destroyed → system.shared.workerDucked=false := by
    intro howner
    exact inv.restored (by rw [howner]; rfl)
  refine ⟨inv.alternates.actions,?_,?_,hdestroyed⟩
  · intro before volume ok after hcalls
    exact inv.episodes.restored_read hcalls
  · intro before volume after hcalls
    refine (inv.episodes.read_restored hcalls).imp_right ?_
    rintro ⟨howes,hlowers⟩
    refine ⟨?_,hlowers⟩
    intro howner
    have hdone : system.worker=.done := inv.joined (by rw [howner]; rfl)
    rw [howner,hdone] at howes
    have hnone : owes system.shared .done .destroyed=none :=
      if_neg (Bool.eq_false_iff.mp (hdestroyed howner))
    rw [hnone] at howes
    cases howes

/-- The caller of a step, if it is one. -/
def callerOf (system : System V) : Label V → Option CallerPoint
  | .worker _ => none
  | .owner _ => match system.owner with
    | .calls point => some point
    | _ => none
  | .caller thread _ => some (system.callers thread)

/-- The number of tasks queued before the `Flush` that returns in this
step. -/
def flushReturns (system : System V) (label : Label V) : Option ℕ :=
  match callerOf system label with
  | some (.flushing count) => if system.shared.queue.isEmpty then some count else none
  | _ => none

/-- A `Flush` that returns leaves no task behind that was queued before it was
called. -/
def FlushesAll (system : System V) (label : Label V) : Prop :=
  ∀ count∈flushReturns system label, system.shared.tasks.take count <+: system.shared.finished

/-- A `Flush` that finds the queue empty does so while the worker is outside
of the processing of a task, or of one that was queued since. -/
def FlushesApart (system : System V) (label : Label V) : Prop :=
  ∀ count∈flushReturns system label,
    inHand system.worker≠[] → count< system.shared.tasks.length

/-- A flush returns at an empty queue. -/
theorem flushReturns_spec {system : System V} (inv : DuckerInv system) {label : Label V} {count : ℕ}
    (h : count∈flushReturns system label) :
    system.shared.queue=[] ∧ count≤ system.shared.tasks.length := by
  have hcaller : callerOf system label=some (.flushing count) ∧ system.shared.queue=[] := by
    unfold flushReturns at h
    split at h
    · rename_i other hcaller
      split at h
      · rename_i hempty
        cases h
        exact ⟨hcaller,List.isEmpty_iff.mp hempty⟩
      · cases h
    · cases h
  refine ⟨hcaller.2,?_⟩
  have hflushing := hcaller.1
  cases label with
  | worker oracle => cases hflushing
  | owner oracle =>
    have howner := inv.ownerFlushing
    dsimp only [callerOf] at hflushing
    split at hflushing
    · rename_i point hcalls
      rw [hcalls,Option.some.inj hflushing] at howner
      exact howner
    · cases hflushing
  | caller thread oracle =>
    have hthread := inv.flushing thread
    rw [Option.some.inj hflushing] at hthread
    exact hthread

/-- The worker has one task in hand at most. -/
theorem length_inHand_le (worker : WorkerPoint V) : (inHand worker).length≤1 := by
  cases worker <;> first | exact Nat.zero_le _ | exact Nat.le_refl _

/-- A `Flush` waits for everything exactly when it returns apart from the
worker. -/
theorem flushesAll_iff {system : System V} (inv : DuckerInv system) (label : Label V) :
    FlushesAll system label ↔ FlushesApart system label := by
  have hhand := length_inHand_le system.worker
  refine forall₂_congr fun count hcount => ?_
  obtain ⟨hqueue,hcount⟩ := flushReturns_spec inv hcount
  have hledger := inv.ledger
  rw [hqueue,List.append_nil] at hledger
  have hlength : system.shared.tasks.length=
      system.shared.finished.length+(inHand system.worker).length := by
    rw [hledger,List.length_append]
  constructor
  · intro hall hbusy
    have hle := hall.length_le
    rw [List.length_take] at hle
    have hpositive := List.length_pos_iff.mpr hbusy
    omega
  · intro hapart
    have hle : count≤ system.shared.finished.length := by
      by_cases hbusy : inHand system.worker=[]
      · rw [hbusy,List.length_nil] at hlength
        omega
      · have hlt := hapart hbusy
        omega
    rw [hledger,List.take_append_of_le_length hle]
    exact List.take_prefix ..

/-- In a run every `Flush` waits for all tasks queued before it if and only if
each of them finds the queue empty while no such task is in the hands of the
worker. -/
theorem flush_waits (arithmetic : Arithmetic V) (schedule : List (Label V)) :
    Along (step arithmetic) FlushesAll (startup arithmetic) schedule ↔
      Along (step arithmetic) FlushesApart (startup arithmetic) schedule := by
  have hkeeps : ∀ system label, DuckerInv system → DuckerInv (step arithmetic system label) :=
    fun _ label inv => inv.step label
  constructor
  · intro hall
    exact hall.everyStep (fun system label inv _ => hkeeps system label inv)
      (fun system label inv hflush => (flushesAll_iff inv label).mp hflush) (startup_inv arithmetic)
  · intro hapart
    exact hapart.everyStep (fun system label inv _ => hkeeps system label inv)
      (fun system label inv hflush => (flushesAll_iff inv label).mpr hflush)
      (startup_inv arithmetic)

/-- Volumes in parts of a hundred. -/
def percent : Arithmetic ℕ := ⟨0,100,fun x y => decide (x<y),fun x y => x*y/100⟩

/-- A caller ducks, the worker takes the task out, and the caller flushes. -/
def flushEarly : List (Label ℕ) :=
  [.caller 0 {call := .duck 50},.worker {},.caller 0 {call := .flush},.caller 0 {}]

/-- A `Flush` returns while the only task is being processed. -/
theorem flush_returns_early :
    ¬Along (step percent) FlushesAll (startup percent) flushEarly := by
  intro h
  have hearlier : [({action := .duck,scale := 50} : DuckerTask ℕ)] <+: [] :=
    h.2.2.2.1 1 rfl
  exact absurd hearlier.length_le (by decide)

end Runs

end Vinput.DuckerRuns
