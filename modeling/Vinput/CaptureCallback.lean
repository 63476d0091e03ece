import Mathlib.Data.List.Basic
import Mathlib.Data.List.Count
import Mathlib.Data.List.Range
import Mathlib.Tactic.Ring

/-!
# Copying a captured buffer

A buffer comes with an offset, a size and the size of its memory, all of 32
bits. Its samples are copied in chunks into a queue, and chunks that the queue
does not take are counted. The bound of the copy is a sum of 32 bits.
-/

namespace Vinput.CaptureCallback

section Callback

/-- A sample of 16 bits, as its bytes in memory. -/
abbrev Sample := UInt8×UInt8

/-- The most samples of a chunk. -/
def kMaxChunkSamples : UInt32 := 2048

/-- What is reported about a buffer. -/
structure Metadata where
  offset : UInt32
  size : UInt32
  maxsize : UInt32

/-- A copy out of the memory of a buffer, and whether the queue took it. -/
structure Attempt where
  start : ℕ
  bytes : ℕ
  chunk : List Sample
  enqueued : Bool
deriving DecidableEq

/-- The queue with what was put in, and what was dropped. -/
structure Capture where
  queue : List (List Sample) := []
  droppedChunks : UInt64 := 0
  droppedSamples : UInt64 := 0
deriving DecidableEq

/-- Samples from a place in memory on. -/
def copied (memory : ℕ → UInt8) (start count : ℕ) : List Sample :=
  (List.range count).map fun sample => (memory (start+2*sample),memory (start+2*sample+1))

/-- Put a chunk into the queue or count it. -/
def Capture.put (capture : Capture) (chunk : List Sample) (enqueued : Bool) : Capture :=
  if enqueued then {capture with queue := capture.queue++[chunk]}
  else {capture with
    droppedChunks := capture.droppedChunks+1
    droppedSamples := capture.droppedSamples+UInt64.ofNat chunk.length}

/-- The smaller of the samples that are left and the size of a chunk. -/
def chunkSize (left : UInt32) : UInt32 := if kMaxChunkSamples<left then kMaxChunkSamples else left

/-- The loop over the samples; each turn copies one sample at least. -/
def copyLoop (memory : ℕ → UInt8) (accepts : ℕ → Bool) (offset nSamples : UInt32) :
    ℕ → UInt32 → ℕ → Capture → List Attempt×Capture
  | 0,_,_,capture => ([],capture)
  | fuel+1,offsetSamples,tries,capture =>
    if offsetSamples<nSamples then
      let toCopy := chunkSize (nSamples-offsetSamples)
      let start := offset.toNat+offsetSamples.toNat*2
      let chunk := copied memory start toCopy.toNat
      let later := copyLoop memory accepts offset nSamples fuel (offsetSamples+toCopy) (tries+1)
        (capture.put chunk (accepts tries))
      (⟨start,toCopy.toNat*2,chunk,accepts tries⟩::later.1,later.2)
    else ([],capture)

/-- Bytes of the memory are counted from the start of the buffer's data. -/
def processCallback (recording : Bool) (metadata : Metadata) (memory : ℕ → UInt8)
    (accepts : ℕ → Bool) (capture : Capture) : List Attempt×Capture :=
  if recording then
    if 0< metadata.size ∧ metadata.offset+metadata.size ≤ metadata.maxsize then
      let nSamples := metadata.size/2
      copyLoop memory accepts metadata.offset nSamples nSamples.toNat 0 0 capture
    else ([],capture)
  else ([],capture)

variable {memory : ℕ → UInt8} {accepts : ℕ → Bool} {offset nSamples offsetSamples : UInt32}
  {capture : Capture} {metadata : Metadata}

/-- Two pieces that are copied follow each other. -/
theorem copied_add (memory : ℕ → UInt8) (start first second : ℕ) :
    copied memory start (first+second)=
      copied memory start first++copied memory (start+2*first) second := by
  unfold copied
  rw [List.range_add,List.map_append,List.map_map]
  refine congrArg _ (List.map_congr_left ?_)
  intro sample _
  have hplace : start+2*(first+sample)=start+2*first+2*sample := by omega
  dsimp only [Function.comp]
  rw [hplace]

/-- As many samples are copied as asked for. -/
theorem length_copied (memory : ℕ → UInt8) (start count : ℕ) :
    (copied memory start count).length=count := by
  unfold copied
  rw [List.length_map,List.length_range]

/-- Chunks that the queue did not take. -/
def refused (attempts : List Attempt) : List (List Sample) :=
  (attempts.filter fun attempt => !attempt.enqueued).map Attempt.chunk

/-- Chunks that the queue took. -/
def taken (attempts : List Attempt) : List (List Sample) :=
  (attempts.filter Attempt.enqueued).map Attempt.chunk

/-- The queue and the counters tell what became of each chunk. -/
structure Accounts (before later : Capture) (attempts : List Attempt) : Prop where
  queue : later.queue=before.queue++taken attempts
  chunks : later.droppedChunks=before.droppedChunks+UInt64.ofNat (refused attempts).length
  samples : later.droppedSamples=
    before.droppedSamples+UInt64.ofNat (refused attempts).flatten.length

/-- Without an attempt nothing changes. -/
theorem accounts_nil (capture : Capture) : Accounts capture capture [] := by
  refine ⟨(List.append_nil _).symm,?_,?_⟩
  · exact (UInt64.add_zero _).symm
  · exact (UInt64.add_zero _).symm

theorem accounts_cons {later : Capture} {attempt : Attempt} {attempts : List Attempt}
    (h : Accounts (capture.put attempt.chunk attempt.enqueued) later attempts) :
    Accounts capture later (attempt::attempts) := by
  obtain ⟨hqueue,hchunks,hsamples⟩ := h
  unfold Capture.put at hqueue hchunks hsamples
  unfold taken at hqueue
  unfold refused at hchunks hsamples
  cases henqueued : attempt.enqueued with
  | true =>
    rw [henqueued,if_pos rfl] at hqueue hchunks hsamples
    refine ⟨?_,?_,?_⟩
    · unfold taken
      rw [hqueue,List.filter_cons_of_pos henqueued,List.map_cons,List.append_assoc]
      rfl
    · unfold refused
      rw [hchunks,List.filter_cons_of_neg (by rw [henqueued]; decide)]
    · unfold refused
      rw [hsamples,List.filter_cons_of_neg (by rw [henqueued]; decide)]
  | false =>
    rw [henqueued,if_neg Bool.false_ne_true] at hqueue hchunks hsamples
    refine ⟨?_,?_,?_⟩
    · unfold taken
      rw [hqueue,List.filter_cons_of_neg (by rw [henqueued]; decide)]
    · unfold refused
      rw [hchunks,List.filter_cons_of_pos (by rw [henqueued]; decide),List.map_cons,
        List.length_cons,Nat.add_comm,UInt64.ofNat_add,←UInt64.add_assoc]
      rfl
    · unfold refused
      rw [hsamples,List.filter_cons_of_pos (by rw [henqueued]; decide),List.map_cons,
        List.flatten_cons,List.length_append,UInt64.ofNat_add,←UInt64.add_assoc]

/-- What the loop copies from a sample on. -/
structure Copies (memory : ℕ → UInt8) (start count : ℕ) (attempts : List Attempt) : Prop where
  samples : (attempts.map Attempt.chunk).flatten=copied memory start count
  within : ∀ attempt∈attempts,
    start ≤ attempt.start ∧ attempt.start+attempt.bytes ≤ start+2*count
  lengths : ∀ attempt∈attempts, attempt.bytes=2*attempt.chunk.length ∧
    0<attempt.chunk.length ∧ attempt.chunk.length ≤ kMaxChunkSamples.toNat
  reaches : 0<count → ∃ attempt∈attempts, attempt.start+attempt.bytes=start+2*count

/-- No samples are copied by no attempt. -/
theorem copies_nil (memory : ℕ → UInt8) (start : ℕ) : Copies memory start 0 [] :=
  ⟨rfl,fun _ h => absurd h List.not_mem_nil,fun _ h => absurd h List.not_mem_nil,
    fun h => absurd h (Nat.lt_irrefl 0)⟩

/-- A chunk in front of what is copied behind it. -/
theorem copies_cons {start first rest : ℕ} {attempts : List Attempt} {enqueued : Bool}
    (hfirst : 0<first) (hmax : first ≤ kMaxChunkSamples.toNat)
    (h : Copies memory (start+2*first) rest attempts) :
    Copies memory start (first+rest)
      (⟨start,first*2,copied memory start first,enqueued⟩::attempts) := by
  obtain ⟨hsamples,hwithin,hlengths,hreaches⟩ := h
  refine ⟨?_,?_,?_,?_⟩
  · rw [List.map_cons,List.flatten_cons,hsamples,copied_add]
  · intro attempt hattempt
    rcases List.mem_cons.mp hattempt with rfl | hlater
    · dsimp only
      omega
    · have hbounds := hwithin attempt hlater
      omega
  · intro attempt hattempt
    rcases List.mem_cons.mp hattempt with rfl | hlater
    · dsimp only
      rw [length_copied]
      exact ⟨Nat.mul_comm _ _,hfirst,hmax⟩
    · exact hlengths attempt hlater
  · intro _
    rcases Nat.eq_zero_or_pos rest with hnone | hsome
    · refine ⟨_,List.mem_cons_self,?_⟩
      dsimp only
      omega
    · obtain ⟨attempt,hattempt,hend⟩ := hreaches hsome
      exact ⟨attempt,List.mem_cons_of_mem _ hattempt,by omega⟩

/-- A chunk takes what is left, up to its limit. -/
theorem toNat_chunkSize (left : UInt32) :
    (chunkSize left).toNat=min left.toNat kMaxChunkSamples.toNat := by
  unfold chunkSize
  split
  · rename_i hless
    rw [UInt32.lt_iff_toNat_lt] at hless
    omega
  · rename_i hless
    rw [UInt32.lt_iff_toNat_lt] at hless
    omega

/-- The loop copies all samples behind those that it has copied, and accounts
for each chunk. -/
theorem copyLoop_spec {fuel tries : ℕ} (hdone : offsetSamples ≤ nSamples)
    (hfuel : nSamples.toNat-offsetSamples.toNat ≤ fuel) :
    Copies memory (offset.toNat+offsetSamples.toNat*2) (nSamples.toNat-offsetSamples.toNat)
        (copyLoop memory accepts offset nSamples fuel offsetSamples tries capture).1 ∧
      Accounts capture (copyLoop memory accepts offset nSamples fuel offsetSamples tries capture).2
        (copyLoop memory accepts offset nSamples fuel offsetSamples tries capture).1 := by
  have hdoneNat := UInt32.le_iff_toNat_le.mp hdone
  induction fuel generalizing offsetSamples tries capture with
  | zero =>
    rw [Nat.le_zero.mp hfuel]
    exact ⟨copies_nil memory _,accounts_nil capture⟩
  | succ fuel ih =>
    rw [copyLoop]
    by_cases hmore : offsetSamples<nSamples
    · rw [if_pos hmore]
      have hmoreNat := UInt32.lt_iff_toNat_lt.mp hmore
      dsimp only
      have hleft : (nSamples-offsetSamples).toNat=nSamples.toNat-offsetSamples.toNat :=
        UInt32.toNat_sub_of_le _ _ hdone
      have hcopy := toNat_chunkSize (nSamples-offsetSamples)
      rw [hleft] at hcopy
      set toCopy := chunkSize (nSamples-offsetSamples)
      have hmax : kMaxChunkSamples.toNat=2048 := rfl
      have hbound := nSamples.toNat_lt
      have hnext : (offsetSamples+toCopy).toNat=offsetSamples.toNat+toCopy.toNat := by
        rw [UInt32.toNat_add]
        exact Nat.mod_eq_of_lt (by omega)
      have hnextDone : offsetSamples+toCopy ≤ nSamples := by
        rw [UInt32.le_iff_toNat_le,hnext]
        omega
      have hnextFuel : nSamples.toNat-(offsetSamples+toCopy).toNat ≤ fuel := by
        rw [hnext]
        omega
      set start := offset.toNat+offsetSamples.toNat*2 with hstart
      set chunk := copied memory start toCopy.toNat
      obtain ⟨hcopies,haccounts⟩ := @ih (offsetSamples+toCopy)
        (capture.put chunk (accepts tries)) (tries+1) hnextDone hnextFuel
        (UInt32.le_iff_toNat_le.mp hnextDone)
      have hplace : offset.toNat+(offsetSamples+toCopy).toNat*2=start+2*toCopy.toNat := by
        rw [hnext,hstart]
        omega
      have hsplit : nSamples.toNat-offsetSamples.toNat=
          toCopy.toNat+(nSamples.toNat-(offsetSamples+toCopy).toNat) := by
        rw [hnext]
        omega
      rw [hplace] at hcopies
      rw [hsplit]
      exact ⟨copies_cons (by omega) (by omega) hcopies,accounts_cons haccounts⟩
    · rw [if_neg hmore]
      have hrest : nSamples.toNat-offsetSamples.toNat=0 := by
        have hnot := mt UInt32.lt_iff_toNat_lt.mpr hmore
        omega
      rw [hrest]
      exact ⟨copies_nil memory _,accounts_nil capture⟩

/-- A buffer that is taken is copied from its offset on. -/
theorem processCallback_taken (hsize : 0< metadata.size)
    (hsum : metadata.offset+metadata.size ≤ metadata.maxsize) :
    Copies memory metadata.offset.toNat (metadata.size.toNat/2)
        (processCallback true metadata memory accepts capture).1 ∧
      Accounts capture (processCallback true metadata memory accepts capture).2
        (processCallback true metadata memory accepts capture).1 := by
  unfold processCallback
  rw [if_pos rfl,if_pos ⟨hsize,hsum⟩]
  dsimp only
  have hcount : (metadata.size/2).toNat=metadata.size.toNat/2 := UInt32.toNat_div _ _
  have hzero : (0 : UInt32) ≤ metadata.size/2 := UInt32.le_iff_toNat_le.mpr (Nat.zero_le _)
  have hspec := @copyLoop_spec memory accepts metadata.offset (metadata.size/2) 0 capture
    (metadata.size/2).toNat 0 hzero (Nat.sub_le _ _)
  have hstart : metadata.offset.toNat+(0 : UInt32).toNat*2=metadata.offset.toNat := rfl
  have hall : (metadata.size/2).toNat-(0 : UInt32).toNat=metadata.size.toNat/2 := hcount
  rw [hstart,hall] at hspec
  exact hspec

/-- Only bytes of the buffer are read, and each of its samples is put into the
queue or counted, in order. -/
structure CopiedWithin (recording : Bool) (metadata : Metadata) (memory : ℕ → UInt8)
    (accepts : ℕ → Bool) (capture : Capture) : Prop where
  within : ∀ attempt∈(processCallback recording metadata memory accepts capture).1,
    metadata.offset.toNat ≤ attempt.start ∧
      attempt.start+attempt.bytes ≤ metadata.offset.toNat+metadata.size.toNat ∧
      attempt.start+attempt.bytes ≤ metadata.maxsize.toNat
  lengths : ∀ attempt∈(processCallback recording metadata memory accepts capture).1,
    attempt.bytes=2*attempt.chunk.length ∧ 0<attempt.chunk.length ∧
      attempt.chunk.length ≤ kMaxChunkSamples.toNat
  samples : (recording=true ∧
        metadata.offset.toNat+metadata.size.toNat ≤ metadata.maxsize.toNat ∨
      (processCallback recording metadata memory accepts capture).1≠[]) →
    ((processCallback recording metadata memory accepts capture).1.map Attempt.chunk).flatten=
      copied memory metadata.offset.toNat (metadata.size.toNat/2)
  accounts : Accounts capture (processCallback recording metadata memory accepts capture).2
    (processCallback recording metadata memory accepts capture).1

/-- A buffer of which nothing is copied. -/
theorem copiedWithin_nothing {recording : Bool}
    (h : processCallback recording metadata memory accepts capture=([],capture))
    (hout : ¬(recording=true ∧
      metadata.offset.toNat+metadata.size.toNat ≤ metadata.maxsize.toNat) ∨ metadata.size=0) :
    CopiedWithin recording metadata memory accepts capture := by
  refine ⟨?_,?_,?_,?_⟩
  · rw [h]
    exact fun _ hmem => absurd hmem List.not_mem_nil
  · rw [h]
    exact fun _ hmem => absurd hmem List.not_mem_nil
  · rw [h]
    rintro (hin | hsome)
    · rcases hout with hnot | hsize
      · exact absurd hin hnot
      · rw [hsize]
        rfl
    · exact absurd rfl hsome
  · rw [h]
    exact accounts_nil capture

/-- A buffer is copied within its bounds exactly if its samples end within the
memory whenever the sum of 32 bits passes the check. -/
theorem copied_within_iff (recording : Bool) (metadata : Metadata) (memory : ℕ → UInt8)
    (accepts : ℕ → Bool) (capture : Capture) :
    CopiedWithin recording metadata memory accepts capture ↔
      (recording=true → metadata.offset+metadata.size ≤ metadata.maxsize →
        metadata.size<2 ∨
          metadata.offset.toNat+2*(metadata.size.toNat/2) ≤ metadata.maxsize.toNat) := by
  have hzero : (0 : UInt32).toNat=0 := rfl
  have htwo : (2 : UInt32).toNat=2 := rfl
  have hhalf : 2*(metadata.size.toNat/2) ≤ metadata.size.toNat := Nat.mul_div_le _ _
  constructor
  · intro h hrecording hsum
    rw [hrecording] at h
    by_cases hsmall : metadata.size<2
    · exact Or.inl hsmall
    · refine Or.inr ?_
      rw [UInt32.lt_iff_toNat_lt,htwo] at hsmall
      have hsize : 0< metadata.size := UInt32.lt_iff_toNat_lt.mpr (by omega)
      obtain ⟨hcopies,-⟩ := @processCallback_taken memory accepts capture metadata hsize hsum
      obtain ⟨attempt,hattempt,hend⟩ := hcopies.reaches (by omega)
      rw [←hend]
      exact (h.within attempt hattempt).2.2
  · intro hcondition
    cases recording with
    | false => exact copiedWithin_nothing rfl (Or.inl fun h => Bool.false_ne_true h.1)
    | true =>
      by_cases htaken : 0< metadata.size ∧ metadata.offset+metadata.size ≤ metadata.maxsize
      · obtain ⟨hcopies,haccounts⟩ :=
          @processCallback_taken memory accepts capture metadata htaken.1 htaken.2
        refine ⟨?_,hcopies.lengths,fun _ => hcopies.samples,haccounts⟩
        intro attempt hattempt
        have hwithin := hcopies.within attempt hattempt
        have hlengths := hcopies.lengths attempt hattempt
        refine ⟨hwithin.1,by omega,?_⟩
        rcases hcondition rfl htaken.2 with hsmall | hfits
        · rw [UInt32.lt_iff_toNat_lt,htwo] at hsmall
          omega
        · omega
      · have hnothing : processCallback true metadata memory accepts capture=([],capture) := by
          unfold processCallback
          rw [if_pos rfl,if_neg htaken]
        refine copiedWithin_nothing hnothing ?_
        by_cases hsize : 0< metadata.size
        · refine Or.inl ?_
          rintro ⟨-,hin⟩
          have hmax := metadata.maxsize.toNat_lt
          have hsum : (metadata.offset+metadata.size).toNat=
              metadata.offset.toNat+metadata.size.toNat := by
            rw [UInt32.toNat_add]
            exact Nat.mod_eq_of_lt (by omega)
          exact htaken ⟨hsize,UInt32.le_iff_toNat_le.mpr (by rw [hsum]; exact hin)⟩
        · rw [UInt32.lt_iff_toNat_lt] at hsize
          refine Or.inr (UInt32.toNat_inj.mp ?_)
          omega

/-- A buffer whose offset and size wrap around. -/
def wrapping : Metadata := ⟨0xFFFFFFF0,32,64⟩

/-- The check of the sum passes, and the copy starts far behind the memory. -/
theorem wrapped_buffer_copied : ¬∀ (recording : Bool) (metadata : Metadata) (memory : ℕ → UInt8)
    (accepts : ℕ → Bool) (capture : Capture),
    CopiedWithin recording metadata memory accepts capture := by
  intro h
  have hwithin := (h true wrapping (fun _ => 0) (fun _ => true) {}).within
  have hattempt : (⟨4294967280,32,List.replicate 16 (0,0),true⟩ : Attempt)∈
      (processCallback true wrapping (fun _ => 0) (fun _ => true) {}).1 := by decide +kernel
  have hmax := (hwithin _ hattempt).2.2
  exact absurd hmax (by decide)

end Callback

end Vinput.CaptureCallback
