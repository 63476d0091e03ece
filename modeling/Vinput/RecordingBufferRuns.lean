import Vinput.InterleavedRuns
import Vinput.RecordingBuffer

/-!
# Conservation of recorded samples

Between two resets the recording buffer is activated at most once. Samples
from before the activation get the gain of the activation, later ones the
gain of their arrival. What was handed out and what is still held are the
samples that arrived, in their order.
-/

namespace Vinput.RecordingBufferRuns

open InterleavedRuns RecordingBuffer

section Recording

/-- A call of the recording buffer. -/
inductive Operation where
  | reset (gain : Gain)
  | appendStartup (pcm : List Int16)
  | setGain (gain : Gain)
  | activate (isBuffered : Bool)
  | append (pcm : List Int16)
  | popStreamingChunk (chunkSize : ℕ)
  | drainStreamingTail
  | takeBufferedPcm
  | clear

/-- The buffer after a call. -/
def machine (buffer : AudioRecordingBuffer) : Operation → AudioRecordingBuffer
  | .reset gain => reset gain buffer
  | .appendStartup pcm => appendStartup pcm buffer
  | .setGain gain => setGain gain buffer
  | .activate isBuffered => activate isBuffered buffer
  | .append pcm => append pcm buffer
  | .popStreamingChunk chunkSize => (popStreamingChunk chunkSize buffer).1
  | .drainStreamingTail => (drainStreamingTail buffer).1
  | .takeBufferedPcm => (takeBufferedPcm buffer).1
  | .clear => clear buffer

/-- A sample that arrived, with the gain that acted on it if one did. -/
structure Taken where
  sample : Int16
  gain : Option Gain

/-- The sample as it is delivered. -/
def Taken.value (taken : Taken) : Int16 := taken.gain.getD unity taken.sample

/-- A gain acts on a sample that has none. -/
def Taken.amplify (gain : Gain) (taken : Taken) : Taken :=
  {taken with gain := some (taken.gain.getD gain)}

/-- What an observer notes since the last reset. -/
structure History where
  /-- Gain in force. -/
  gain : Gain := unity
  /-- The buffer was activated. -/
  activated : Bool := false
  /-- Samples that arrived. -/
  taken : List Taken := []
  /-- Samples that were handed out. -/
  handed : List Int16 := []
  /-- Popped chunks with the size that was asked for, in the whole run. -/
  popped : List (ℕ×List Int16) := []

/-- Samples arrive. -/
def History.arrive (history : History) (pcm : List Int16) : History :=
  {history with
    taken := history.taken++pcm.map fun sample =>
      ⟨sample,if history.activated then some history.gain else none⟩}

/-- Samples are handed out. -/
def History.hand (history : History) (pcm : List Int16) : History :=
  {history with handed := history.handed++pcm}

/-- What is noted of a call and of what it returns. -/
def observe (history : History) (buffer : AudioRecordingBuffer) : Operation → History
  | .reset gain => {gain := gain,popped := history.popped}
  | .appendStartup pcm => history.arrive pcm
  | .setGain gain => {history with gain := gain}
  | .activate _ =>
    {history with activated := true,taken := history.taken.map (Taken.amplify history.gain)}
  | .append pcm => history.arrive pcm
  | .popStreamingChunk chunkSize =>
    match (popStreamingChunk chunkSize buffer).2 with
    | some chunk => {history.hand chunk with popped := history.popped++[(chunkSize,chunk)]}
    | none => history
  | .drainStreamingTail => history.hand (drainStreamingTail buffer).2
  | .takeBufferedPcm => history.hand (takeBufferedPcm buffer).2
  | .clear => {popped := history.popped}

/-- A buffer is not activated again before a reset. -/
def OneActivation (pair : AudioRecordingBuffer×History) : Operation → Prop
  | .activate _ => pair.2.activated=false
  | _ => True

/-- Samples that the buffer still holds. -/
def held (buffer : AudioRecordingBuffer) : List Int16 := pending buffer++buffer.startupPcm

/-- Nothing is lost, repeated or reordered, and every sample is counted. -/
structure Conserved (pair : AudioRecordingBuffer×History) : Prop where
  samples : pair.2.handed++held pair.1=pair.2.taken.map Taken.value
  chunks : ∀ chunk∈pair.2.popped, chunk.2.length=chunk.1
  total : pair.1.totalSamples=pair.2.taken.length

end Recording

section Steps

variable {buffer : AudioRecordingBuffer} {history : History}

/-- Where the buffer stands: it waits with samples as they arrived, or it is
live and every sample has its gain. -/
def Standing (buffer : AudioRecordingBuffer) (history : History) : Prop :=
  if history.activated then ∃ isBuffered, Live isBuffered buffer
  else Waiting buffer ∧ history.handed=[] ∧ ∀ taken∈history.taken, taken.gain=none

/-- What every call keeps. -/
structure BufferInv (pair : AudioRecordingBuffer×History) : Prop where
  conserved : Conserved pair
  gain : pair.1.gain=pair.2.gain
  standing : Standing pair.1 pair.2

/-- After the activation the buffer holds what is pending. -/
theorem held_live {isBuffered : Bool} (h : Live isBuffered buffer) : held buffer=pending buffer := by
  rw [held,h.startup,List.append_nil]

/-- Before it the buffer holds the audio of the start. -/
theorem held_waiting (h : Waiting buffer) : held buffer=buffer.startupPcm := by
  rw [held,pending,h.buffered,h.streaming]
  simp

/-- A gain applies to what was taken without one. -/
theorem value_amplify {gain : Gain} {taken : List Taken} (h : ∀ one∈taken, one.gain=none) :
    (taken.map (Taken.amplify gain)).map Taken.value=
      applyGain gain (taken.map Taken.value) := by
  induction taken with
  | nil => rfl
  | cons one rest ih =>
    have hone := h one List.mem_cons_self
    have hrest := ih fun other hother => h other (List.mem_cons_of_mem _ hother)
    simp only [applyGain] at hrest
    simp [applyGain,Taken.value,Taken.amplify,hone,hrest,unity]

/-- Before the activation nothing was handed out. -/
theorem standing_waiting (hwaits : history.activated=false) (h : Standing buffer history) :
    Waiting buffer ∧ history.handed=[] ∧ ∀ taken∈history.taken, taken.gain=none := by
  simpa [Standing,hwaits] using h

theorem standing_live (hactive : history.activated=true) (h : Standing buffer history) :
    ∃ isBuffered, Live isBuffered buffer := by
  simpa [Standing,hactive] using h

/-- What arrives is taken with the gain of the moment. -/
theorem arrive_taken (history : History) (pcm : List Int16) :
    (history.arrive pcm).taken.map Taken.value=history.taken.map Taken.value++
      if history.activated then applyGain history.gain pcm else pcm := by
  by_cases hactive : history.activated=true
  · simp [History.arrive,hactive,Taken.value,applyGain,Function.comp_def]
  · simp [History.arrive,hactive,Taken.value,unity,Function.comp_def]

/-- Both ways of taking samples in do the same. -/
theorem append_eq_appendStartup (pcm : List Int16) (buffer : AudioRecordingBuffer) :
    append pcm buffer=appendStartup pcm buffer := rfl

/-- Audio of the start is counted and keeps the gain. -/
theorem appendStartup_counts (pcm : List Int16) (buffer : AudioRecordingBuffer) :
    (appendStartup pcm buffer).gain=buffer.gain ∧
      (appendStartup pcm buffer).totalSamples=buffer.totalSamples+pcm.length := by
  rw [appendStartup]
  split_ifs with hempty hactive
  · simp [hempty]
  · rw [appendActivated]
    split_ifs <;> simp
  · simp [appendWaiting]

/-- Samples that arrive go behind those that are held. -/
theorem inv_arrive (inv : BufferInv (buffer,history)) (pcm : List Int16) :
    BufferInv (appendStartup pcm buffer,history.arrive pcm) := by
  obtain ⟨⟨hsamples,hchunks,htotal⟩,hgain,hstanding⟩ := inv
  dsimp only at hsamples hchunks htotal hgain hstanding
  obtain ⟨hkept,hcount⟩ := appendStartup_counts pcm buffer
  have htaken := arrive_taken history pcm
  have hlength : (history.arrive pcm).taken.length=history.taken.length+pcm.length := by
    simp [History.arrive]
  have hhanded : (history.arrive pcm).handed=history.handed := rfl
  have hmode : (history.arrive pcm).activated=history.activated := rfl
  by_cases hactive : history.activated=true
  · obtain ⟨isBuffered,hlive⟩ := standing_live hactive hstanding
    obtain ⟨hnext,hpending,_⟩ := live_append hlive pcm
    rw [append_eq_appendStartup] at hnext hpending
    refine ⟨⟨?_,hchunks,?_⟩,?_,?_⟩
    · dsimp only
      rw [hhanded,htaken,if_pos hactive,held_live hnext,hpending,← hgain,← List.append_assoc,
        ← held_live hlive,hsamples]
    · dsimp only
      omega
    · exact hkept.trans hgain
    · have hstands : ∃ mode, Live mode (appendStartup pcm buffer) := ⟨isBuffered,hnext⟩
      simpa [Standing,hmode,hactive] using hstands
  · have hwaits : history.activated=false := by simpa using hactive
    obtain ⟨hwaiting,hnone,hraw⟩ := standing_waiting hwaits hstanding
    obtain ⟨hnext,hstartup⟩ := waiting_appendStartup hwaiting pcm
    refine ⟨⟨?_,hchunks,?_⟩,?_,?_⟩
    · dsimp only
      rw [hhanded,htaken,if_neg hactive,held_waiting hnext,hstartup,← List.append_assoc,
        ← held_waiting hwaiting,hsamples]
    · dsimp only
      omega
    · exact hkept.trans hgain
    · have hlater : ∀ taken∈(history.arrive pcm).taken, taken.gain=none := by
        intro taken hmem
        rcases List.mem_append.mp hmem with hold | hnew
        · exact hraw taken hold
        · obtain ⟨sample,_,rfl⟩ := List.mem_map.mp hnew
          simp [hwaits]
      simpa [Standing,hmode,hwaits] using ⟨hnext,hnone,hlater⟩

/-- The activation gives every sample the gain in force. -/
theorem inv_activate (inv : BufferInv (buffer,history)) (hwaits : history.activated=false)
    (isBuffered : Bool) :
    BufferInv (activate isBuffered buffer,observe history buffer (.activate isBuffered)) := by
  obtain ⟨⟨hsamples,hchunks,htotal⟩,hgain,hstanding⟩ := inv
  dsimp only at hsamples hchunks htotal hgain hstanding
  obtain ⟨hwaiting,hnone,hraw⟩ := standing_waiting hwaits hstanding
  obtain ⟨hlive,hpending,hkept⟩ := live_activate hwaiting isBuffered buffer.gain
  have hsame : setGain buffer.gain buffer=buffer := rfl
  rw [hsame] at hlive hpending hkept
  have hstartup : buffer.startupPcm=history.taken.map Taken.value := by
    rw [← held_waiting hwaiting,← hsamples,hnone,List.nil_append]
  have hcount : (activate isBuffered buffer).totalSamples=buffer.totalSamples := by
    rw [activate]
    split_ifs <;> rfl
  refine ⟨⟨?_,hchunks,?_⟩,?_,?_⟩
  · dsimp only [observe]
    rw [hnone,List.nil_append,held_live hlive,hpending,hstartup,value_amplify hraw,hgain]
  · dsimp only [observe]
    rw [hcount,htotal,List.length_map]
  · exact hkept.trans hgain
  · have hstands : ∃ mode, Live mode (activate isBuffered buffer) := ⟨isBuffered,hlive⟩
    simpa [Standing,observe] using hstands

/-- What is handed out comes from the front of what is held. -/
theorem inv_hand (inv : BufferInv (buffer,history)) {other : AudioRecordingBuffer}
    {pcm : List Int16} (hfront : pcm++held other=held buffer) (hgain : other.gain=buffer.gain)
    (htotal : other.totalSamples=buffer.totalSamples)
    (hlive : ∀ isBuffered, Live isBuffered buffer → Live isBuffered other)
    (hwaiting : Waiting buffer → Waiting other ∧ pcm=[]) :
    BufferInv (other,history.hand pcm) := by
  obtain ⟨⟨hsamples,hchunks,hcount⟩,hforce,hstanding⟩ := inv
  dsimp only at hsamples hchunks hcount hforce hstanding
  refine ⟨⟨?_,hchunks,htotal.trans hcount⟩,hgain.trans hforce,?_⟩
  · dsimp only [History.hand]
    rw [List.append_assoc,hfront,hsamples]
  · by_cases hactive : history.activated=true
    · obtain ⟨isBuffered,hbefore⟩ := standing_live hactive hstanding
      have hstands : ∃ mode, Live mode other := ⟨isBuffered,hlive isBuffered hbefore⟩
      simpa [Standing,History.hand,hactive] using hstands
    · have hwaits : history.activated=false := by simpa using hactive
      obtain ⟨hbefore,hnone,hraw⟩ := standing_waiting hwaits hstanding
      obtain ⟨hafter,hempty⟩ := hwaiting hbefore
      have hstill : history.handed++pcm=[] := by
        rw [hnone,hempty]
        rfl
      simpa [Standing,History.hand,hwaits] using ⟨hafter,List.append_eq_nil_iff.mp hstill,hraw⟩

/-- A popped chunk has the size that was asked for. -/
theorem popStreamingChunk_cases (chunkSize : ℕ) (buffer : AudioRecordingBuffer) :
    popStreamingChunk chunkSize buffer=(buffer,none) ∨
      (chunkSize ≤ buffer.streamingPcm.length ∧ chunkSize≠0 ∧
        popStreamingChunk chunkSize buffer=
          ({buffer with streamingPcm := buffer.streamingPcm.drop chunkSize},
            some (buffer.streamingPcm.take chunkSize))) := by
  by_cases hshort : chunkSize=0 ∨ buffer.streamingPcm.length<chunkSize
  · left
    rw [popStreamingChunk,if_pos hshort]
  · right
    obtain ⟨hsize,hlong⟩ := not_or.mp hshort
    exact ⟨by omega,hsize,by rw [popStreamingChunk,if_neg hshort]⟩

/-- A chunk that is taken keeps the account. -/
theorem inv_popStreamingChunk (inv : BufferInv (buffer,history)) (chunkSize : ℕ) :
    BufferInv ((popStreamingChunk chunkSize buffer).1,
      observe history buffer (.popStreamingChunk chunkSize)) := by
  obtain hnone | ⟨hlong,hsize,hpop⟩ := popStreamingChunk_cases chunkSize buffer
  · simp only [observe,hnone]
    exact inv
  · have hlive : ∀ isBuffered, Live isBuffered buffer →
        Live isBuffered (popStreamingChunk chunkSize buffer).1 ∧
          buffer.streamingPcm.take chunkSize++pending (popStreamingChunk chunkSize buffer).1=
            pending buffer := by
      intro isBuffered hbefore
      obtain ⟨hafter,hfront,_⟩ := live_popStreamingChunk hbefore chunkSize
      refine ⟨hafter,?_⟩
      rw [hpop] at hfront ⊢
      exact hfront
    have hidle : ¬Waiting buffer := by
      intro hwaiting
      rw [hwaiting.streaming,List.length_nil] at hlong
      omega
    have hfront : buffer.streamingPcm.take chunkSize++held (popStreamingChunk chunkSize buffer).1=
        held buffer := by
      by_cases hactive : history.activated=true
      · obtain ⟨isBuffered,hbefore⟩ := standing_live hactive inv.standing
        obtain ⟨hafter,hpending⟩ := hlive isBuffered hbefore
        rw [held_live hafter,held_live hbefore,hpending]
      · exact absurd (standing_waiting (by simpa using hactive) inv.standing).1 hidle
    have hkept := inv_hand inv hfront (by rw [hpop]) (by rw [hpop])
      (fun isBuffered hbefore => (hlive isBuffered hbefore).1) (fun hwaits => absurd hwaits hidle)
    obtain ⟨⟨hsamples,hchunks,htotal⟩,hgain,hstanding⟩ := hkept
    simp only [observe,hpop] at hsamples htotal hgain hstanding ⊢
    refine ⟨⟨hsamples,?_,htotal⟩,hgain,hstanding⟩
    intro chunk hmem
    rcases List.mem_append.mp hmem with hold | hnew
    · exact hchunks chunk hold
    · rw [List.mem_singleton.mp hnew]
      simp [hlong]

theorem inv_drainStreamingTail (inv : BufferInv (buffer,history)) :
    BufferInv ((drainStreamingTail buffer).1,observe history buffer .drainStreamingTail) := by
  have hlive : ∀ isBuffered, Live isBuffered buffer →
      Live isBuffered (drainStreamingTail buffer).1 := fun isBuffered h =>
    ⟨h.activated,h.mode,h.startup,fun _ => rfl,h.oneSided.2⟩
  have hwaiting : Waiting buffer → Waiting (drainStreamingTail buffer).1 ∧
      (drainStreamingTail buffer).2=[] := fun h => ⟨⟨h.waits,h.buffered,rfl⟩,h.streaming⟩
  refine inv_hand inv ?_ rfl rfl hlive hwaiting
  by_cases hactive : history.activated=true
  · obtain ⟨isBuffered,hbefore⟩ := standing_live hactive inv.standing
    rw [held_live (hlive isBuffered hbefore),held_live hbefore]
    cases isBuffered with
    | true =>
      have hempty : buffer.streamingPcm=[] := hbefore.oneSided.1 rfl
      simp [pending,drainStreamingTail,hempty]
    | false =>
      have hempty : buffer.bufferedPcm=[] := hbefore.oneSided.2 rfl
      simp [pending,drainStreamingTail,hempty]
  · have hbefore := (standing_waiting (by simpa using hactive) inv.standing).1
    obtain ⟨hafter,hempty⟩ := hwaiting hbefore
    rw [held_waiting hafter,held_waiting hbefore,hempty,List.nil_append]
    rfl

theorem inv_takeBufferedPcm (inv : BufferInv (buffer,history)) :
    BufferInv ((takeBufferedPcm buffer).1,observe history buffer .takeBufferedPcm) := by
  have hlive : ∀ isBuffered, Live isBuffered buffer →
      Live isBuffered (takeBufferedPcm buffer).1 := fun isBuffered h =>
    ⟨h.activated,h.mode,h.startup,h.oneSided.1,fun _ => rfl⟩
  have hwaiting : Waiting buffer → Waiting (takeBufferedPcm buffer).1 ∧
      (takeBufferedPcm buffer).2=[] := fun h => ⟨⟨h.waits,rfl,h.streaming⟩,h.buffered⟩
  refine inv_hand inv ?_ rfl rfl hlive hwaiting
  simp [held,pending,takeBufferedPcm]

/-- A reset forgets the samples. -/
theorem inv_fresh (inv : BufferInv (buffer,history)) (gain : Gain) :
    BufferInv ({gain := gain},{gain := gain,popped := history.popped}) := by
  have hchunks := inv.conserved.chunks
  have hwaiting : Waiting ({gain := gain} : AudioRecordingBuffer) := ⟨rfl,rfl,rfl⟩
  refine ⟨⟨rfl,hchunks,rfl⟩,rfl,?_⟩
  simpa [Standing] using hwaiting

end Steps

section Runs

/-- Every call keeps the samples. -/
theorem inv_machine (pair : AudioRecordingBuffer×History) (operation : Operation)
    (inv : BufferInv pair) (once : OneActivation pair operation) :
    BufferInv (observed machine observe pair operation) := by
  obtain ⟨buffer,history⟩ := pair
  cases operation with
  | reset gain => exact inv_fresh inv gain
  | appendStartup pcm => exact inv_arrive inv pcm
  | setGain gain =>
    obtain ⟨⟨hsamples,hchunks,htotal⟩,_,hstanding⟩ := inv
    refine ⟨⟨hsamples,hchunks,htotal⟩,rfl,?_⟩
    by_cases hactive : history.activated=true
    · obtain ⟨isBuffered,hlive⟩ := standing_live hactive hstanding
      have hstands : ∃ mode, Live mode (setGain gain buffer) :=
        ⟨isBuffered,hlive.activated,hlive.mode,hlive.startup,hlive.oneSided⟩
      simpa [Standing,observed,observe,machine,hactive] using hstands
    · have hwaits : history.activated=false := by simpa using hactive
      obtain ⟨hwaiting,hnone,hraw⟩ := standing_waiting hwaits hstanding
      have hstill : Waiting (setGain gain buffer) :=
        ⟨hwaiting.waits,hwaiting.buffered,hwaiting.streaming⟩
      simpa [Standing,observed,observe,machine,hwaits] using ⟨hstill,hnone,hraw⟩
  | activate isBuffered => exact inv_activate inv once isBuffered
  | append pcm => exact inv_arrive inv pcm
  | popStreamingChunk chunkSize => exact inv_popStreamingChunk inv chunkSize
  | drainStreamingTail => exact inv_drainStreamingTail inv
  | takeBufferedPcm => exact inv_takeBufferedPcm inv
  | clear => exact inv_fresh inv unity

theorem inv_initial : BufferInv ({},{}) := by
  have hwaiting : Waiting {} := ⟨rfl,rfl,rfl⟩
  refine ⟨⟨rfl,by simp,rfl⟩,rfl,?_⟩
  simpa [Standing] using hwaiting

/-- In every run with at most one activation between two resets the samples
are conserved. -/
theorem samples_conserved (operations : List Operation)
    (once : Along (observed machine observe) OneActivation ({},{}) operations) :
    Conserved (run (observed machine observe) ({},{}) operations) :=
  (once.invariant inv_machine inv_initial).conserved

/-- A factor of two. -/
def double : Gain := fun sample => 2*sample

/-- Two samples arrive before the activation and three after it. -/
def streamed : List Operation :=
  [.reset unity,.appendStartup [1,2],.setGain double,.activate false,.append [3,4],.setGain unity,
    .popStreamingChunk 3,.append [5],.drainStreamingTail]

/-- Five samples are handed out amplified and in order. -/
theorem streamed_conserved :
    (run (observed machine observe) ({},{}) streamed).2.handed=[2,4,6,8,5] ∧
      Conserved (run (observed machine observe) ({},{}) streamed) := by
  refine ⟨by decide,samples_conserved streamed ?_⟩
  exact ⟨trivial,trivial,trivial,rfl,trivial,trivial,trivial,trivial,trivial,trivial⟩

end Runs

end Vinput.RecordingBufferRuns
