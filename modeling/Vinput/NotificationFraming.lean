import Mathlib.Data.List.TakeWhile
import Vinput.NotificationBridge

/-!
# Notifications do not depend on how a stream is cut

The bridge hands the lines of a stream to its line handler and forwards what
comes of them. The lines are those of the machine that cuts a stream with a
limit, so they are independent of the chunks exactly when every newline in a
full block of 64 KiB ends its block.
-/

namespace Vinput.NotificationFraming

open LineFraming ProcessLines NotificationBridge

section Handling

variable (env : Environment) (defaultTitle : Bytes) {source : String}

/-- What was handled and is on its way before comes first. -/
def prepend (sent : List Notification) (lines : List Bytes) (handling : Handling) : Handling :=
  {handling with
    readyToSend := sent++handling.readyToSend
    handled := lines++handling.handled}

/-- Handling a line does not look at what was handled before. -/
theorem prepend_processLine (sent : List Notification) (lines : List Bytes) (handling : Handling)
    (rawLine : Bytes) :
    prepend sent lines (processLineLocked env defaultTitle handling rawLine)=
      processLineLocked env defaultTitle (prepend sent lines handling) rawLine := by
  unfold processLineLocked prepend
  dsimp only
  rw [List.append_assoc]
  split
  · rfl
  · split
    · split
      · rfl
      · rw [List.append_assoc]
    · rw [List.append_assoc]

/-- The bridge agrees with the machine that goes on from call to call. -/
structure Agrees (source : String) (base bridge : Bridge) (pair : Handling×Bytes) : Prop where
  buffer : (bridge.buffers.lookup source).getD []=pair.2
  cache : bridge.dedupCache=pair.1.dedupCache
  readings : bridge.readings=pair.1.readings
  forwarded : bridge.forwarded=base.forwarded++pair.1.readyToSend
  handled : bridge.handled=base.handled++pair.1.handled

variable {base bridge : Bridge} {pair : Handling×Bytes}

/-- A call starts where the machine stands. -/
theorem Agrees.start (agrees : Agrees source base bridge pair) :
    prepend pair.1.readyToSend pair.1.handled bridge.handling=pair.1 := by
  unfold prepend Bridge.handling
  rw [agrees.cache,agrees.readings,List.append_nil,List.append_nil]

/-- A call that has handled lines agrees again. -/
theorem Agrees.dispatch (agrees : Agrees source base bridge pair) (result : Handling×Bytes) :
    Agrees source base (bridge.dispatch source result)
      (prepend pair.1.readyToSend pair.1.handled result.1,result.2) where
  buffer := by
    dsimp only [Bridge.dispatch]
    rw [AList.lookup_insert]
    rfl
  cache := rfl
  readings := rfl
  forwarded := by
    dsimp only [Bridge.dispatch,prepend]
    rw [agrees.forwarded,List.append_assoc]
  handled := by
    dsimp only [Bridge.dispatch,prepend]
    rw [agrees.handled,List.append_assoc]

/-- A chunk that arrives is a step of the machine. -/
theorem Agrees.feed (agrees : Agrees source base bridge pair) (bytes : Bytes) :
    Agrees source base (feedStderr env source defaultTitle bridge bytes)
      (feed newline stripReturn kMaxSourceBufferSize (processLineLocked env defaultTitle) pair
        bytes) := by
  by_cases hbytes : bytes=[]
  · unfold feedStderr LineFraming.feed
    rw [if_pos hbytes,if_pos hbytes]
    exact agrees
  · have hfeed := feed_view kMaxSourceBufferSize newline stripReturn
      (prepend_processLine env defaultTitle pair.1.readyToSend pair.1.handled) bytes
      bridge.handling pair.2
    rw [agrees.start] at hfeed
    rw [hfeed]
    unfold feedStderr LineFraming.feed
    rw [if_neg hbytes,if_neg hbytes,agrees.buffer]
    exact agrees.dispatch _

/-- The end of the stream is the end of the machine's. -/
theorem Agrees.flush (agrees : Agrees source base bridge pair) :
    Agrees source base (flush env source defaultTitle bridge)
      (LineFraming.flush newline stripReturn (processLineLocked env defaultTitle) pair) := by
  have hflush := flush_view newline stripReturn
    (prepend_processLine env defaultTitle pair.1.readyToSend pair.1.handled) bridge.handling pair.2
  rw [agrees.start] at hflush
  have hbuffer := agrees.buffer
  unfold NotificationBridge.flush
  split
  · rename_i hmissing
    rw [hmissing,Option.getD_none] at hbuffer
    unfold LineFraming.flush
    rw [if_pos hbuffer.symm]
    exact agrees
  · rename_i buffer hfound
    rw [hfound,Option.getD_some] at hbuffer
    by_cases hempty : buffer=[]
    · unfold LineFraming.flush
      rw [if_pos hempty,if_pos (hbuffer ▸ hempty)]
      exact agrees
    · rw [if_neg hempty,hflush]
      unfold LineFraming.flush
      rw [if_neg (hbuffer ▸ hempty),hbuffer]
      exact agrees.dispatch _

/-- Feeding chunks keeps the bridge and the framing in agreement. -/
theorem Agrees.chunks (agrees : Agrees source base bridge pair) (chunks : List Bytes) :
    Agrees source base (chunks.foldl (feedStderr env source defaultTitle) bridge)
      (chunks.foldl (LineFraming.feed newline stripReturn kMaxSourceBufferSize
        (processLineLocked env defaultTitle)) pair) := by
  induction chunks generalizing bridge pair with
  | nil => exact agrees
  | cons chunk rest ih => exact ih (agrees.feed env defaultTitle chunk)

/-- The lines that are cut out of a stream. -/
abbrev linesOf (chunks : List Bytes) : List Bytes :=
  frames newline stripReturn kMaxSourceBufferSize chunks

/-- The bridge handles the lines of a stream and forwards what comes of
them. -/
theorem feedChunks_agrees (hempty : (bridge.buffers.lookup source).getD []=[])
    (chunks : List Bytes) :
    ∃ rest, Agrees source bridge (feedChunks env source defaultTitle bridge chunks)
      ((linesOf chunks).foldl (processLineLocked env defaultTitle) bridge.handling,rest) := by
  have hstart : Agrees source bridge bridge (bridge.handling,[]) :=
    ⟨hempty,rfl,rfl,(List.append_nil _).symm,(List.append_nil _).symm⟩
  have hend := (hstart.chunks env defaultTitle chunks).flush env defaultTitle
  rw [←feedAll_eq_foldl]
  exact ⟨_,hend⟩

/-- A line that is processed is handled. -/
theorem handled_processLine (handling : Handling) (rawLine : Bytes) :
    (processLineLocked env defaultTitle handling rawLine).handled=handling.handled++[rawLine] := by
  unfold processLineLocked
  dsimp only
  split
  · rfl
  · split
    · split <;> rfl
    · rfl

theorem handled_foldl (lines : List Bytes) (handling : Handling) :
    (lines.foldl (processLineLocked env defaultTitle) handling).handled=
      handling.handled++lines := by
  induction lines generalizing handling with
  | nil => exact (List.append_nil _).symm
  | cons line rest ih =>
    rw [List.foldl_cons,ih,handled_processLine,List.append_assoc]
    rfl

/-- A line takes back nothing that is ready to be sent. -/
theorem sent_processLine (handling : Handling) (rawLine : Bytes) :
    handling.readyToSend <+: (processLineLocked env defaultTitle handling rawLine).readyToSend := by
  unfold processLineLocked
  dsimp only
  split
  · exact List.prefix_rfl
  · split
    · split
      · exact List.prefix_rfl
      · exact List.prefix_append ..
    · exact List.prefix_append ..

theorem sent_foldl (lines : List Bytes) (handling : Handling) :
    handling.readyToSend <+:
      (lines.foldl (processLineLocked env defaultTitle) handling).readyToSend := by
  induction lines generalizing handling with
  | nil => exact List.prefix_rfl
  | cons line rest ih => exact (sent_processLine env defaultTitle handling line).trans (ih _)

end Handling

section Framing

/-- A helper whose stream is about to begin, with no line handled yet. -/
structure Fresh (source : String) (bridge : Bridge) : Prop where
  empty : (bridge.buffers.lookup source).getD []=[]
  unhandled : bridge.handled=[]

/-- However a stream is cut, the same lines are handled and the same
notifications forwarded; every complete line shorter than the cap, with its
newline, is a line by itself. -/
def FramingKept (stream : Bytes) : Prop :=
  ∀ (env : Environment) (source : String) (defaultTitle : Bytes) (bridge : Bridge),
    Fresh source bridge →
    (∀ first second : List Bytes, first.flatten=stream → second.flatten=stream →
      (feedChunks env source defaultTitle bridge first).handled=
        (feedChunks env source defaultTitle bridge second).handled ∧
      (feedChunks env source defaultTitle bridge first).forwarded=
        (feedChunks env source defaultTitle bridge second).forwarded) ∧
    ∀ chunks : List Bytes, chunks.flatten=stream → ∀ before line after : Bytes,
      stream=before++(line++newline::after) → (before=[] ∨ ∃ front, before=front++[newline]) →
      newline∉line → line.length+1<kMaxSourceBufferSize →
        stripReturn line∈(feedChunks env source defaultTitle bridge chunks).handled

variable {env : Environment} {source : String} {defaultTitle : Bytes} {bridge : Bridge}

/-- A fresh source has its lines handled. -/
theorem Fresh.handled (fresh : Fresh source bridge) (chunks : List Bytes) :
    (feedChunks env source defaultTitle bridge chunks).handled=linesOf chunks := by
  obtain ⟨_,agrees⟩ := feedChunks_agrees env defaultTitle fresh.empty chunks
  rw [agrees.handled,fresh.unhandled,handled_foldl]
  rfl

/-- The same lines lead to the same notifications. -/
theorem Fresh.same (fresh : Fresh source bridge) {first second : List Bytes}
    (hlines : linesOf first=linesOf second) :
    (feedChunks env source defaultTitle bridge first).handled=
        (feedChunks env source defaultTitle bridge second).handled ∧
      (feedChunks env source defaultTitle bridge first).forwarded=
        (feedChunks env source defaultTitle bridge second).forwarded := by
  obtain ⟨_,left⟩ := feedChunks_agrees env defaultTitle fresh.empty first
  obtain ⟨_,right⟩ := feedChunks_agrees env defaultTitle fresh.empty second
  constructor
  · rw [fresh.handled,fresh.handled,hlines]
  · rw [left.forwarded,right.forwarded,hlines]

theorem kMaxSourceBufferSize_pos : 0<kMaxSourceBufferSize := by decide

/-- What the bridge forwards is independent of the chunks exactly when every
newline in a full block of the stream ends its block. -/
theorem framing_kept_iff (stream : Bytes) :
    FramingKept stream ↔ Aligned newline kMaxSourceBufferSize stream := by
  constructor
  · intro hkept
    refine (frames_eq_iff_aligned kMaxSourceBufferSize_pos length_stripReturn_le stream).mp ?_
    intro first second hfirst hsecond
    let env : Environment := ⟨fun _ => 0,0,fun _ => none,[],id⟩
    have fresh : Fresh "" {} := ⟨rfl,rfl⟩
    have hsame := ((hkept env "" [] {} fresh).1 first second hfirst hsecond).1
    rw [fresh.handled,fresh.handled] at hsame
    exact hsame
  · intro aligned env source defaultTitle bridge fresh
    constructor
    · intro first second hfirst hsecond
      have hlines : linesOf first=linesOf second :=
        (frames_eq_iff_aligned kMaxSourceBufferSize_pos length_stripReturn_le stream).mpr aligned
          first second hfirst hsecond
      exact fresh.same hlines
    · intro chunks hchunks before line after hstream hstart hclean hshort
      subst hchunks
      rw [fresh.handled,linesOf,frames_of_aligned kMaxSourceBufferSize_pos aligned]
      exact mem_alignedFrames kMaxSourceBufferSize_pos aligned hstream hclean hstart hshort

/-- A stream of any length is handled line by line in chunks that do not fill the
buffer together with the line that is open before them. -/
theorem handled_of_uncapped (fresh : Fresh source bridge) {chunks : List Bytes}
    (h : Uncapped newline kMaxSourceBufferSize chunks) :
    (feedChunks env source defaultTitle bridge chunks).handled=
      wholeLines newline stripReturn chunks.flatten := by
  rw [fresh.handled,linesOf,frames_of_uncapped h]

/-- Two such ways to cut a stream give the same notifications, aligned or not. -/
theorem uncapped_chunkings_agree (fresh : Fresh source bridge) {first second : List Bytes}
    (hsame : first.flatten=second.flatten)
    (hfirst : Uncapped newline kMaxSourceBufferSize first)
    (hsecond : Uncapped newline kMaxSourceBufferSize second) :
    (feedChunks env source defaultTitle bridge first).handled=
        (feedChunks env source defaultTitle bridge second).handled ∧
      (feedChunks env source defaultTitle bridge first).forwarded=
        (feedChunks env source defaultTitle bridge second).forwarded := by
  have hlines : linesOf first=linesOf second := by
    rw [linesOf,linesOf,frames_of_uncapped hfirst,frames_of_uncapped hsecond,hsame]
  exact fresh.same hlines

/-- A bridge that reads every line as plain text, at one moment. -/
def plain : Environment :=
  ⟨fun _ => 0,3000,fun _ => none,"Voice Input".toList.map fun letter => letter.toNat.toUInt8,id⟩

/-- The rest of a chunk of 64 KiB after a short line. -/
def filler : Bytes := List.replicate (kMaxSourceBufferSize-2) 120

/-- The filler leaves room for two bytes. -/
theorem length_filler : filler.length=kMaxSourceBufferSize-2 := List.length_replicate

/-- A text that starts with a letter is not blank. -/
theorem trim_cons {byte : UInt8} (h : isSpace byte=false) (rest : Bytes) :
    trim (byte::rest)≠[] := by
  unfold trim
  rw [List.dropWhile_cons_of_neg (by rw [h]; exact Bool.false_ne_true)]
  intro hnil
  have hall := List.dropWhile_eq_nil_iff.mp (List.reverse_eq_nil_iff.mp hnil) byte
    (List.mem_reverse.mpr List.mem_cons_self)
  rw [h] at hall
  cases hall

/-- The first plain line is sent as it is. -/
theorem plain_first {line : Bytes} (h : trim line≠[]) :
    (processLineLocked plain [] ⟨[],0,[],[]⟩ line).readyToSend=
      [⟨fallbackTitle plain [],line,.warning⟩] := by
  have hwire : notificationOf plain [] line=⟨fallbackTitle plain [],line,.warning⟩ := by
    unfold notificationOf
    dsimp only
    have hnone : (if (trim line).head?=some 123 ∧ (trim line).getLast?=some 125 then
        plain.readWire (trim line) else none)=none := by
      split <;> rfl
    rw [hnone]
  unfold processLineLocked
  dsimp only
  rw [if_neg h,hwire]
  rfl

/-- The first line of a stream is the first to be forwarded. -/
theorem forwarded_head {chunks : List Bytes} {line : Bytes} (h : [line] <+: linesOf chunks)
    (hline : trim line≠[]) :
    (feedChunks plain "asr" [] {} chunks).forwarded.head?=
      some ⟨fallbackTitle plain [],line,.warning⟩ := by
  obtain ⟨more,hmore⟩ := h
  have hempty : (({} : Bridge).buffers.lookup "asr").getD []=[] := rfl
  obtain ⟨_,agrees⟩ := feedChunks_agrees plain [] hempty chunks
  have hsent := sent_foldl plain [] more
    (processLineLocked plain [] ⟨[],0,[],[]⟩ line)
  rw [plain_first hline] at hsent
  obtain ⟨later,hlater⟩ := hsent
  rw [agrees.forwarded,←hmore]
  change (([] : List Notification)++(more.foldl (processLineLocked plain [])
    (processLineLocked plain [] ⟨[],0,[],[]⟩ line)).readyToSend).head?=_
  rw [←hlater]
  rfl

/-- A chunk of 64 KiB is handled as one line. -/
theorem linesOf_whole {stream : Bytes} (h : stream.length=kMaxSourceBufferSize) :
    [stream] <+: linesOf [stream] := by
  have hempty : (([],[]) : List Bytes×Bytes).2.length<kMaxSourceBufferSize :=
    kMaxSourceBufferSize_pos
  obtain ⟨blocks,hlines,hcount,-,hcontent,hlength⟩ :=
    push_blocks kMaxSourceBufferSize_pos stream hempty
  dsimp only [List.length_nil] at hcount hlength
  rw [Nat.zero_add,h,Nat.div_self kMaxSourceBufferSize_pos] at hcount
  rw [Nat.zero_add,h,Nat.mod_self] at hlength
  obtain ⟨block,rfl⟩ := List.length_eq_one_iff.mp hcount
  rw [List.eq_nil_of_length_eq_zero hlength,List.append_nil,List.flatten_singleton] at hcontent
  have hstream : stream≠[] := by
    rintro rfl
    cases h
  have hfirst : [stream] <+: (push kMaxSourceBufferSize collect ([],[]) stream).1 := by
    rw [hlines,hcontent]
    exact List.prefix_rfl
  exact (hfirst.trans (drained_lines _)).trans (frames_cons hstream [])

/-- A short line can be swallowed: it arrives in a chunk of 64 KiB. -/
theorem short_line_swallowed :
    [97::newline::filler].flatten=[[97,newline],filler].flatten ∧
      (feedChunks plain "asr" [] {} [97::newline::filler]).forwarded≠
        (feedChunks plain "asr" [] {} [[97,newline],filler]).forwarded := by
  refine ⟨?_,?_⟩
  · rw [List.flatten_singleton,List.flatten_cons,List.flatten_singleton]
    rfl
  · intro hsame
    have hlength : (97::newline::filler).length=kMaxSourceBufferSize := by
      rw [List.length_cons,List.length_cons,length_filler]
      rfl
    have hwhole := forwarded_head (linesOf_whole hlength) (trim_cons (by decide) _)
    have hchunk : ([97,newline] : Bytes)≠[] := List.cons_ne_nil _ _
    have hdrained : (drained newline stripReturn
        (push kMaxSourceBufferSize collect ([],[]) [97,newline])).1=[[97]] := by decide
    have hcut : [[97]] <+: linesOf [[97,newline],filler] := by
      rw [←hdrained]
      exact frames_cons hchunk [filler]
    have hshort := forwarded_head hcut (trim_cons (by decide) _)
    rw [hsame,hshort] at hwhole
    have hline := congrArg List.length (congrArg Notification.body (Option.some.inj hwhole))
    dsimp only at hline
    rw [hlength] at hline
    cases hline

end Framing

end Vinput.NotificationFraming
