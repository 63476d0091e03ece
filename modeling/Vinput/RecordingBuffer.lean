import Mathlib.Data.List.Basic

/-!
# The audio recording buffer

Samples that arrive before the session is ready are kept as they are;
activation applies the gain to them and fixes the delivery mode; later
samples are amplified on arrival. The gain factor is a floating point
number in the program and only ever acts on single samples, so it is
represented by its action on a sample, unity being the identity.
-/

namespace Vinput.RecordingBuffer

/-- Action of a gain factor on one sample. -/
abbrev Gain := Int16 → Int16

/-- Gain factor one. -/
def unity : Gain := id

/-- Largest number of samples in one captured chunk. -/
def maxChunkSamples : ℕ := 2048

/-- A captured chunk. -/
structure AudioPcmChunk where
  /-- The samples in use. -/
  samples : List Int16
  /-- They fit the fixed storage. -/
  fits : samples.length ≤ maxChunkSamples := by decide

/-- Samples of a pushed streaming chunk. -/
def streamingChunkSamples : ℕ := 800

/-- The buffer of one recording. -/
structure AudioRecordingBuffer where
  /-- Gain for samples from now on. -/
  gain : Gain := unity
  /-- Delivery in one piece. -/
  isBuffered : Bool := false
  /-- The delivery mode is known. -/
  isActivated : Bool := false
  /-- Samples from before activation, not yet amplified. -/
  startupPcm : List Int16 := []
  /-- Amplified samples for delivery in one piece. -/
  bufferedPcm : List Int16 := []
  /-- Amplified samples not yet pushed. -/
  streamingPcm : List Int16 := []
  /-- Samples taken in since the last reset. -/
  totalSamples : ℕ := 0

/-- Fresh buffer with a gain. -/
def reset (gain : Gain) (_ : AudioRecordingBuffer) : AudioRecordingBuffer := {gain := gain}

/-- Change the gain. -/
def setGain (gain : Gain) (buffer : AudioRecordingBuffer) : AudioRecordingBuffer :=
  {buffer with gain := gain}

/-- Back to the idle state. -/
def clear (_ : AudioRecordingBuffer) : AudioRecordingBuffer := {}

/-- Samples under a gain. -/
def applyGain (gain : Gain) (pcm : List Int16) : List Int16 := pcm.map gain

/-- Take in samples that arrive after activation. -/
def appendActivated (pcm : List Int16) (buffer : AudioRecordingBuffer) : AudioRecordingBuffer :=
  if buffer.isBuffered then
    {buffer with
      totalSamples := buffer.totalSamples+pcm.length
      bufferedPcm := buffer.bufferedPcm++applyGain buffer.gain pcm}
  else
    {buffer with
      totalSamples := buffer.totalSamples+pcm.length
      streamingPcm := buffer.streamingPcm++applyGain buffer.gain pcm}

/-- Take in samples that arrive before activation. -/
def appendWaiting (pcm : List Int16) (buffer : AudioRecordingBuffer) : AudioRecordingBuffer :=
  {buffer with
    startupPcm := buffer.startupPcm++pcm
    totalSamples := buffer.totalSamples+pcm.length}

/-- Startup samples; an activated buffer treats them as live ones. -/
def appendStartup (pcm : List Int16) (buffer : AudioRecordingBuffer) : AudioRecordingBuffer :=
  if pcm=[] then buffer
  else if buffer.isActivated then appendActivated pcm buffer
  else appendWaiting pcm buffer

/-- Live samples; a buffer that is not activated treats them as startup. -/
def append (pcm : List Int16) (buffer : AudioRecordingBuffer) : AudioRecordingBuffer :=
  if pcm=[] then buffer
  else if buffer.isActivated then appendActivated pcm buffer
  else appendWaiting pcm buffer

/-- Fix the delivery mode and amplify what has arrived. -/
def activate (isBuffered : Bool) (buffer : AudioRecordingBuffer) : AudioRecordingBuffer :=
  if buffer.startupPcm=[] then {buffer with isActivated := true,isBuffered := isBuffered}
  else if isBuffered then
    {buffer with
      isActivated := true
      isBuffered := true
      bufferedPcm := applyGain buffer.gain buffer.startupPcm
      startupPcm := []}
  else
    {buffer with
      isActivated := true
      isBuffered := false
      streamingPcm := applyGain buffer.gain buffer.startupPcm
      startupPcm := []}

/-- A full streaming chunk, when there is one. -/
def popStreamingChunk (chunkSize : ℕ) (buffer : AudioRecordingBuffer) :
    AudioRecordingBuffer×Option (List Int16) :=
  if chunkSize=0 ∨ buffer.streamingPcm.length<chunkSize then (buffer,none)
  else
    ({buffer with streamingPcm := buffer.streamingPcm.drop chunkSize},
      some (buffer.streamingPcm.take chunkSize))

/-- Whatever streaming samples remain. -/
def drainStreamingTail (buffer : AudioRecordingBuffer) : AudioRecordingBuffer×List Int16 :=
  ({buffer with streamingPcm := []},buffer.streamingPcm)

/-- All buffered samples. -/
def takeBufferedPcm (buffer : AudioRecordingBuffer) : AudioRecordingBuffer×List Int16 :=
  ({buffer with bufferedPcm := []},buffer.bufferedPcm)

/-- Amplified samples that still have to be delivered. -/
def pending (buffer : AudioRecordingBuffer) : List Int16 :=
  buffer.bufferedPcm++buffer.streamingPcm

/-- A buffer before activation has amplified nothing. -/
structure Waiting (buffer : AudioRecordingBuffer) : Prop where
  /-- The delivery mode is not known. -/
  waits : buffer.isActivated=false
  /-- Nothing to deliver in one piece. -/
  buffered : buffer.bufferedPcm=[]
  /-- Nothing to stream. -/
  streaming : buffer.streamingPcm=[]

/-- A buffer after activation uses one side only. -/
structure Live (isBuffered : Bool) (buffer : AudioRecordingBuffer) : Prop where
  /-- The delivery mode is known. -/
  activated : buffer.isActivated=true
  /-- It is the given one. -/
  mode : buffer.isBuffered=isBuffered
  /-- No sample is left without gain. -/
  startup : buffer.startupPcm=[]
  /-- The side of the other mode is empty. -/
  oneSided : (isBuffered=true → buffer.streamingPcm=[]) ∧
    (isBuffered=false → buffer.bufferedPcm=[])

/-- A gain applies to two pieces one after the other. -/
theorem applyGain_append (gain : Gain) (first second : List Int16) :
    applyGain gain (first++second)=applyGain gain first++applyGain gain second :=
  List.map_append

/-- A fresh buffer waits. -/
theorem waiting_reset (gain : Gain) (buffer : AudioRecordingBuffer) :
    Waiting (reset gain buffer) ∧ (reset gain buffer).startupPcm=[] := ⟨⟨rfl,rfl,rfl⟩,rfl⟩

/-- A waiting buffer keeps startup samples as they are. -/
theorem waiting_appendStartup {buffer : AudioRecordingBuffer} (h : Waiting buffer)
    (pcm : List Int16) :
    Waiting (appendStartup pcm buffer) ∧
      (appendStartup pcm buffer).startupPcm=buffer.startupPcm++pcm := by
  unfold appendStartup
  split
  · rename_i hempty
    rw [hempty,List.append_nil]
    exact ⟨h,rfl⟩
  · rw [h.waits,if_neg Bool.false_ne_true]
    exact ⟨⟨h.waits,h.buffered,h.streaming⟩,rfl⟩

/-- Activation makes the startup samples the first to be delivered. -/
theorem live_activate {buffer : AudioRecordingBuffer} (h : Waiting buffer) (isBuffered : Bool)
    (gain : Gain) :
    Live isBuffered (activate isBuffered (setGain gain buffer)) ∧
      pending (activate isBuffered (setGain gain buffer))=applyGain gain buffer.startupPcm ∧
      (activate isBuffered (setGain gain buffer)).gain=gain := by
  unfold activate pending
  split
  · rename_i hstartup
    have hempty : buffer.startupPcm=[] := hstartup
    rw [hempty]
    refine ⟨⟨rfl,rfl,hempty,fun _ => h.streaming,fun _ => h.buffered⟩,?_,rfl⟩
    dsimp only [setGain]
    rw [h.buffered,h.streaming]
    rfl
  · cases isBuffered with
    | true =>
      refine ⟨⟨rfl,rfl,rfl,fun _ => h.streaming,nofun⟩,?_,rfl⟩
      dsimp only [setGain]
      rw [if_pos rfl,h.streaming,List.append_nil]
    | false =>
      refine ⟨⟨rfl,rfl,rfl,nofun,fun _ => h.buffered⟩,?_,rfl⟩
      dsimp only [setGain]
      rw [if_neg Bool.false_ne_true,h.buffered,List.nil_append]

/-- A live buffer puts samples at the end of what is to be delivered. -/
theorem live_append {isBuffered : Bool} {buffer : AudioRecordingBuffer}
    (h : Live isBuffered buffer) (pcm : List Int16) :
    Live isBuffered (append pcm buffer) ∧
      pending (append pcm buffer)=pending buffer++applyGain buffer.gain pcm ∧
      (append pcm buffer).gain=buffer.gain := by
  unfold append
  split
  · rename_i hempty
    rw [hempty]
    exact ⟨h,(List.append_nil _).symm,rfl⟩
  · rw [h.activated,if_pos rfl]
    unfold appendActivated pending
    rw [h.mode]
    cases isBuffered with
    | true =>
      rw [if_pos rfl]
      refine ⟨⟨h.activated,rfl,h.startup,h.oneSided.1,nofun⟩,?_,rfl⟩
      dsimp only
      rw [h.oneSided.1 rfl,List.append_nil,List.append_nil]
    | false =>
      rw [if_neg Bool.false_ne_true]
      refine ⟨⟨h.activated,rfl,h.startup,nofun,h.oneSided.2⟩,?_,rfl⟩
      dsimp only
      rw [List.append_assoc]

/-- A popped chunk is the front of what is to be delivered. A buffer that
delivers in one piece has none. -/
theorem live_popStreamingChunk {isBuffered : Bool} {buffer : AudioRecordingBuffer}
    (h : Live isBuffered buffer) (chunkSize : ℕ) :
    Live isBuffered (popStreamingChunk chunkSize buffer).1 ∧
      (popStreamingChunk chunkSize buffer).2.getD []++
        pending (popStreamingChunk chunkSize buffer).1=pending buffer ∧
      (popStreamingChunk chunkSize buffer).1.gain=buffer.gain := by
  unfold popStreamingChunk
  split
  · exact ⟨h,rfl,rfl⟩
  · rename_i hlong
    cases isBuffered with
    | true =>
      rw [h.oneSided.1 rfl,List.length_nil] at hlong
      omega
    | false =>
      refine ⟨⟨h.activated,h.mode,h.startup,nofun,h.oneSided.2⟩,?_,rfl⟩
      unfold pending
      dsimp only [Option.getD_some]
      rw [h.oneSided.2 rfl,List.nil_append,List.nil_append,List.take_append_drop]

/-- A stop takes everything that is to be delivered. -/
theorem live_take {isBuffered : Bool} {buffer : AudioRecordingBuffer}
    (h : Live isBuffered buffer) :
    (if isBuffered then (takeBufferedPcm buffer).2 else (drainStreamingTail buffer).2)=
      pending buffer := by
  unfold pending
  cases isBuffered with
  | true => exact (by rw [h.oneSided.1 rfl,List.append_nil]; rfl)
  | false => exact (by rw [h.oneSided.2 rfl]; rfl)

end Vinput.RecordingBuffer
