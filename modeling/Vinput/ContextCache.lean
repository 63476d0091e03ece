import Mathlib.Data.List.DropRight
import Vinput.ContextWriter
import Vinput.LineSplitting
import Vinput.LineDraining

/-!
# The context cache

The writer appends each line to the cache file and, now and then, replaces the
file by its last lines. The daemon reads the last lines of the file for the
prompt of a language model. Every access to the file may fail, and of a line only
a part may be written, which the next line is glued to. The file is replaced in
one step, so that a reader meets the old lines or the new ones.
-/

namespace Vinput.ContextCache

open ContextWriter (ContextWriteTask)
open InterleavedRuns
open LineSplitting (Splits joinLines joinLines_append splitAtNewlines splits_joinLines
  splits_splitAtNewlines)
open ProcessLines (Bytes newline)

section Tails

variable {α : Type*} {n m : ℕ} {first second : List α}

/-- The last of the last elements. -/
theorem rtake_rtake (h : n ≤ m) (l : List α) : (l.rtake m).rtake n=l.rtake n := by
  simp only [List.rtake_eq_reverse_take_reverse,List.reverse_reverse,List.take_take,min_eq_left h]

/-- The last elements of two lists stay the same when both grow alike. -/
theorem rtake_append_congr (h : first.rtake n=second.rtake n) (more : List α) :
    (first++more).rtake n=(second++more).rtake n := by
  simp only [List.rtake_eq_reverse_take_reverse,List.reverse_inj] at h
  have hshort : ∀ k ≤ n,first.reverse.take k=second.reverse.take k := by
    intro k hk
    have htake := congrArg (List.take k) h
    rwa [List.take_take,List.take_take,min_eq_left hk] at htake
  simp only [List.rtake_eq_reverse_take_reverse,List.reverse_append,List.take_append,
    hshort (n-more.reverse.length) (Nat.sub_le _ _)]

end Tails

section Writing

/-- How many lines are written between two truncations. -/
def kTruncateInterval : ℕ := 100

/-- What becomes of the accesses of one call. -/
structure Access where
  /-- The file is opened for appending, at once or after its directory is made. -/
  opened : Bool := true
  /-- Bytes at the end of the line and its newline that are not written. -/
  lost : ℕ := 0
  readable : Bool := true
  tempOpened : Bool := true
  tempWritten : Bool := true
  renamed : Bool := true

/-- The writer and its file. -/
structure Cache where
  file : Option Bytes := none
  writeCount : ℕ := 0

/-- A line that is not empty. -/
def filled (line : Bytes) : Bool := decide (line≠[])

/-- What a reader of the file finds, line by line, without empty lines. -/
def readLines (content : Bytes) : List Bytes := (content.splitOn newline).filter filled

/-- What is written of a line and its newline. -/
def written (task : ContextWriteTask) (access : Access) : Bytes :=
  (task.jsonLine++[newline]).take (task.jsonLine.length+1-access.lost)

/-- A line is appended. -/
def append (cache : Cache) (task : ContextWriteTask) (access : Access) : Cache :=
  {cache with file := some (cache.file.getD []++written task access)}

/-- The file is replaced. -/
def isReplaced (content : Bytes) (maxLines : ℕ) (access : Access) : Bool :=
  access.readable && decide (maxLines<(readLines content).length) && access.tempOpened &&
    access.tempWritten && access.renamed

/-- The file is replaced by its last lines. -/
def truncate (cache : Cache) (maxLines : ℕ) (access : Access) : Cache :=
  let content := cache.file.getD []
  if isReplaced content maxLines access then
    {cache with file := some (joinLines newline ((readLines content).rtake maxLines))}
  else cache

/-- After so many lines the file is shortened. -/
def isDue (cache : Cache) (task : ContextWriteTask) : Prop :=
  0< task.maxLines ∧ kTruncateInterval ≤ cache.writeCount+1

instance (cache : Cache) (task : ContextWriteTask) : Decidable (isDue cache task) :=
  inferInstanceAs (Decidable (0< task.maxLines ∧ kTruncateInterval ≤ cache.writeCount+1))

/-- A line is written; every so often the file is shortened. -/
def Persist (cache : Cache) (task : ContextWriteTask) (access : Access) : Cache :=
  if access.opened=false then cache
  else
    let cache := append cache task access
    if isDue cache task then
      truncate {cache with writeCount := 0} task.maxLines.toNat access
    else if task.maxLines ≤ 0 then cache
    else {cache with writeCount := cache.writeCount+1}

end Writing

section Lines

variable {n : ℕ} {content log : Bytes}

/-- An unfinished last line is ended. -/
def ended (content : Bytes) : Bytes :=
  if (splitAtNewlines newline content).2=[] then content else content++[newline]

/-- A reader finds the lines and the unfinished one behind them. -/
theorem readLines_splits {lines : List Bytes} {tail : Bytes}
    (h : Splits newline content lines tail) : readLines content=(lines++[tail]).filter filled := by
  obtain ⟨rfl,hclean,htail⟩ := h
  unfold readLines
  induction lines with
  | nil =>
    have hwhole : tail.splitOn newline=[tail] := List.splitOn_eq_singleton htail
    exact congrArg (List.filter filled) hwhole
  | cons line rest ih =>
    obtain ⟨hline,hrest⟩ := List.forall_mem_cons.mp hclean
    have hsplit := List.splitOn_append_cons_self_of_not_mem hline (joinLines newline rest++tail)
    rw [LineSplitting.joinLines_cons,List.append_assoc,List.cons_append,hsplit,List.cons_append,
      List.filter_cons,List.filter_cons,ih hrest]

/-- A content that is ended has whole lines only. -/
theorem ended_splits {lines : List Bytes} {tail : Bytes} (h : Splits newline content lines tail) :
    Splits newline (ended content) (lines++[tail].filter filled) [] := by
  have htail : (splitAtNewlines newline content).2=tail :=
    ((splits_splitAtNewlines newline content).unique h).2
  unfold ended
  rw [htail]
  by_cases hempty : tail=[]
  · subst hempty
    rw [if_pos rfl,show [([] : Bytes)].filter filled=[] from rfl,List.append_nil]
    exact h
  · have hfilled : [tail].filter filled=[tail] :=
      List.filter_cons_of_pos (decide_eq_true hempty)
    rw [if_neg hempty,hfilled]
    refine h.append ⟨?_,?_,List.not_mem_nil⟩
    · simp [LineSplitting.joinLines]
    · intro line hline
      exact List.mem_singleton.mp hline ▸ h.tail_clean

/-- Both texts end with the same lines and the same unfinished one. -/
def Recent (n : ℕ) (content log : Bytes) : Prop :=
  ∃ lines lines' tail,Splits newline content lines tail ∧ Splits newline log lines' tail ∧
    (lines.filter filled).rtake n=(lines'.filter filled).rtake n

/-- A content is its own recent part. -/
theorem Recent.refl (n : ℕ) (content : Bytes) : Recent n content content :=
  ⟨_,_,_,splits_splitAtNewlines newline content,splits_splitAtNewlines newline content,rfl⟩

/-- What is appended goes on with the same unfinished line. -/
theorem Recent.more (h : Recent n content log) (more : Bytes) :
    Recent n (content++more) (log++more) := by
  obtain ⟨lines,lines',tail,hcontent,hlog,hsame⟩ := h
  have hmore := splits_splitAtNewlines newline (tail++more)
  refine ⟨_,_,_,hcontent.append hmore,hlog.append hmore,?_⟩
  rw [List.filter_append,List.filter_append]
  exact rtake_append_congr hsame _

/-- A recent part has the same last lines. -/
theorem Recent.lines (h : Recent n content log) :
    (readLines content).rtake n=(readLines log).rtake n := by
  obtain ⟨lines,lines',tail,hcontent,hlog,hsame⟩ := h
  rw [readLines_splits hcontent,readLines_splits hlog,List.filter_append,List.filter_append]
  exact rtake_append_congr hsame _

/-- Enough lines are left when the file is shortened, which ends the last one. -/
theorem Recent.shortened (h : Recent n content log) {maxLines : ℕ} (hwide : n ≤ maxLines) :
    Recent n (joinLines newline ((readLines content).rtake maxLines)) (ended log) := by
  have hlines := h.lines
  obtain ⟨lines,lines',tail,hcontent,hlog,-⟩ := h
  have hread := readLines_splits hcontent
  have hclean : ∀ line∈(readLines content).rtake maxLines,newline∉line := by
    intro line hline
    have hmem := List.mem_of_mem_drop hline
    rw [hread] at hmem
    rcases List.mem_append.mp (List.mem_filter.mp hmem).1 with hold | hlast
    · exact hcontent.line_clean line hold
    · exact List.mem_singleton.mp hlast ▸ hcontent.tail_clean
  have hfilled : ((readLines content).rtake maxLines).filter filled=
      (readLines content).rtake maxLines := by
    refine List.filter_eq_self.mpr fun line hline => ?_
    have hmem := List.mem_of_mem_drop hline
    rw [hread] at hmem
    exact (List.mem_filter.mp hmem).2
  have hended : (lines'++[tail].filter filled).filter filled=readLines log := by
    rw [readLines_splits hlog,List.filter_append,List.filter_append,List.filter_filter]
    simp only [Bool.and_self]
  refine ⟨_,_,[],splits_joinLines hclean,ended_splits hlog,?_⟩
  rw [hfilled,hended,rtake_rtake hwide]
  exact hlines

/-- A line as it is handed to the writer. -/
def Line (line : Bytes) : Prop := newline∉line ∧ line≠[]

end Lines

section Calls

variable {n : ℕ} {cache : Cache} {log : Bytes}

/-- What a call adds to the file. -/
def reached (task : ContextWriteTask) (access : Access) : Bytes :=
  if access.opened then written task access else []

/-- The call replaces the file. -/
def replaces (cache : Cache) (task : ContextWriteTask) (access : Access) : Bool :=
  access.opened && decide (isDue cache task) &&
    isReplaced ((append cache task access).file.getD []) task.maxLines.toNat access

/-- What has reached the file after a call. -/
def logged (cache : Cache) (log : Bytes) (task : ContextWriteTask) (access : Access) : Bytes :=
  if replaces cache task access then ended (log++reached task access)
  else log++reached task access

/-- The line that a call adds to the file. -/
def addedLine (task : ContextWriteTask) (access : Access) : List Bytes :=
  if access.opened then [task.jsonLine] else []

/-- A call keeps what a reader of the last lines finds. -/
theorem Recent.persist (h : Recent n (cache.file.getD []) log) {task : ContextWriteTask}
    (hwide : 0< task.maxLines → n ≤ task.maxLines.toNat) (access : Access) :
    Recent n ((Persist cache task access).file.getD []) (logged cache log task access) := by
  unfold Persist logged replaces reached
  cases access.opened with
  | false =>
    rw [if_pos rfl,if_neg (by simp),if_neg Bool.false_ne_true,List.append_nil]
    exact h
  | true =>
    have happended : Recent n ((append cache task access).file.getD [])
        (log++written task access) := h.more _
    rw [if_neg Bool.noConfusion,if_pos rfl,Bool.true_and]
    dsimp only
    by_cases hdue : isDue cache task
    · have hdue' : isDue (append cache task access) task := hdue
      rw [if_pos hdue',decide_eq_true hdue,Bool.true_and]
      unfold truncate
      dsimp only
      split
      · exact happended.shortened (hwide hdue.1)
      · exact happended
    · have hdue' : ¬isDue (append cache task access) task := hdue
      rw [if_neg hdue',decide_eq_false hdue,Bool.false_and,if_neg Bool.false_ne_true]
      split
      · exact happended
      · exact happended

end Calls

section Runs

/-- The writer's thread, its queue and its file, with what has reached the file. -/
structure World where
  system : ContextWriter.System := {}
  cache : Cache := {}
  /-- All that has reached the file. Where the file was shortened, its last line was ended. -/
  log : Bytes := []
  /-- The lines that were handed to the open file. -/
  added : List Bytes := []

/-- A step of the writer; a line that is persisted goes to the file. -/
def step (world : World) (label : ContextWriter.Label×Access) : World :=
  let after := {world with system := ContextWriter.step world.system label.1}
  match label.1,world.system.writer with
  | .writer,.persist task =>
    {after with
      cache := Persist world.cache task label.2
      log := logged world.cache world.log task label.2
      added := world.added++addedLine task label.2}
  | _,_ => after

/-- The writer in front of a file. -/
def startup (file : Option Bytes) : World := {cache := {file := file},log := file.getD []}

/-- Lines are queued that keep enough of the file. -/
def Fits (n : ℕ) (label : ContextWriter.Label×Access) : Prop :=
  match label.1 with
  | .enqueue call => 0< call.maxLines → n ≤ call.maxLines.toNat
  | _ => True

/-- Lines without a newline in them are queued, and what is written of a line is all of it. -/
def Whole (label : ContextWriter.Label×Access) : Prop :=
  label.2.lost=0 ∧
    match label.1 with
    | .enqueue call => newline∉call.jsonLine
    | _ => True

/-- Tasks that are queued or in hand. -/
def Queued (good : ContextWriteTask → Prop) (system : ContextWriter.System) : Prop :=
  ∀ task∈system.shared.pending++ContextWriter.inHand system.writer,good task

variable {n : ℕ} {before : List Bytes} {world : World} {good : ContextWriteTask → Prop}

/-- Making room adds nothing to the queue. -/
theorem makeRoom_pending (size : ℕ) (queue : List ContextWriteTask)
    (made : ContextWriter.Shared×Bool) :
    ∀ task∈(ContextWriter.makeRoom size queue made).1.pending,task∈queue := by
  induction queue generalizing made with
  | nil => exact fun task htask => htask
  | cons first rest ih =>
    intro task htask
    obtain ⟨shared,lostEntries⟩ := made
    unfold ContextWriter.makeRoom at htask
    split at htask
    · exact List.mem_cons_of_mem _ (ih _ task htask)
    · exact htask

/-- Only the line of the call joins the queue. -/
theorem enqueue_pending (call : ContextWriter.Call) (shared : ContextWriter.Shared) :
    ∀ task∈(ContextWriter.enqueue call shared).1.pending,
      task∈shared.pending ∨ (task=⟨call.jsonLine,call.maxLines⟩ ∧ call.jsonLine≠[]) := by
  intro task htask
  unfold ContextWriter.enqueue at htask
  dsimp only at htask
  split_ifs at htask with hnothing
  · exact .inl htask
  · exact .inl htask
  · exact .inl htask
  · rcases List.mem_append.mp htask with hold | hnew
    · exact .inl (makeRoom_pending _ _ _ task hold)
    · exact .inr ⟨List.mem_singleton.mp hnew,(not_or.mp hnothing).2⟩

/-- Tasks are as good as the calls that queue them. -/
theorem queued_step {system : ContextWriter.System} (h : Queued good system)
    {label : ContextWriter.Label}
    (hcall : ∀ call,label=.enqueue call → call.jsonLine≠[] →
      good ⟨call.jsonLine,call.maxLines⟩) :
    Queued good (ContextWriter.step system label) := by
  obtain ⟨hpending,hhand⟩ := List.forall_mem_append.mp h
  cases label with
  | enqueue call =>
    refine List.forall_mem_append.mpr ⟨fun task htask => ?_,hhand⟩
    rcases enqueue_pending call system.shared task htask with hold | ⟨rfl,hne⟩
    · exact hpending task hold
    · exact hcall call rfl hne
  | owner =>
    have hsame : (ContextWriter.step system .owner).shared.pending=system.shared.pending := by
      unfold ContextWriter.step ContextWriter.nextOwner
      cases system.owner <;> rfl
    exact List.forall_mem_append.mpr ⟨fun task htask => hpending task (hsame ▸ htask),hhand⟩
  | writer =>
    unfold Queued ContextWriter.step ContextWriter.nextWriter
    cases hpoint : system.writer with
    | wait =>
      cases hqueue : system.shared.pending with
      | nil =>
        dsimp only
        rw [hqueue]
        split <;> exact fun task htask => absurd htask List.not_mem_nil
      | cons first rest =>
        rw [hqueue] at hpending
        obtain ⟨hfirst,hrest⟩ := List.forall_mem_cons.mp hpending
        refine List.forall_mem_append.mpr ⟨hrest,fun task htask => ?_⟩
        exact List.mem_singleton.mp htask ▸ hfirst
    | persist task =>
      exact List.forall_mem_append.mpr
        ⟨hpending,fun other hother => absurd hother List.not_mem_nil⟩
    | finish =>
      exact List.forall_mem_append.mpr
        ⟨hpending,fun other hother => absurd hother List.not_mem_nil⟩
    | done =>
      exact List.forall_mem_append.mpr
        ⟨hpending,fun other hother => absurd hother List.not_mem_nil⟩

/-- A task in the hands of the writer is good. -/
theorem Queued.inHand {system : ContextWriter.System} (h : Queued good system)
    {task : ContextWriteTask} (hpoint : system.writer=.persist task) : good task := by
  refine h task (List.mem_append_right _ ?_)
  rw [hpoint]
  exact List.mem_singleton_self task

/-- A task that keeps enough lines. -/
def Wide (n : ℕ) (task : ContextWriteTask) : Prop :=
  0< task.maxLines → n ≤ task.maxLines.toNat

/-- The file is up to date, and what is on its way to it keeps enough lines. -/
structure Inv (n : ℕ) (world : World) : Prop where
  recent : Recent n (world.cache.file.getD []) world.log
  queued : Queued (Wide n) world.system

/-- Only a line in the hands of the writer changes the file. -/
theorem step_cases (world : World) (label : ContextWriter.Label×Access) :
    (∃ task,world.system.writer=.persist task ∧ step world label=
      {system := ContextWriter.step world.system label.1
       cache := Persist world.cache task label.2
       log := logged world.cache world.log task label.2
       added := world.added++addedLine task label.2}) ∨
    step world label={world with system := ContextWriter.step world.system label.1} := by
  obtain ⟨label,access⟩ := label
  unfold step
  cases label with
  | writer =>
    cases hpoint : world.system.writer with
    | persist task => exact .inl ⟨task,rfl,rfl⟩
    | _ => exact .inr rfl
  | _ => exact .inr rfl

/-- Every write that fits keeps the invariant. -/
theorem inv_step (world : World) (label : ContextWriter.Label×Access) (h : Inv n world)
    (hfits : Fits n label) : Inv n (step world label) := by
  have hqueued : Queued (Wide n) (ContextWriter.step world.system label.1) := by
    refine queued_step h.queued fun call hcall _ => ?_
    unfold Fits at hfits
    rw [hcall] at hfits
    exact hfits
  rcases step_cases world label with ⟨task,hpoint,hstep⟩ | hstep
  · rw [hstep]
    exact ⟨h.recent.persist (h.queued.inHand hpoint) label.2,hqueued⟩
  · rw [hstep]
    exact ⟨h.recent,hqueued⟩

/-- Only lines have reached the file. -/
structure Plain (before : List Bytes) (world : World) : Prop where
  log : world.log=joinLines newline (before++world.added)
  lines : ∀ line∈before++world.added,Line line
  queued : Queued (fun task => Line task.jsonLine) world.system

/-- A line is queued, taken and written. -/
def sampleSchedule : List (ContextWriter.Label×Access) :=
  [(.enqueue ⟨[120],30⟩,{}),(.writer,{}),(.writer,{})]

end Runs

end Vinput.ContextCache
