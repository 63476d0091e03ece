import Vinput.LineDraining

/-!
# Command lines of a client

What a client prints is put together to lines. Carriage returns are left out,
and a line that grows beyond its limit is dropped up to its newline. The state
between two bytes depends only on the bytes behind the last newline, so the
lines do not depend on how the stream is cut.
-/

namespace Vinput.ClientFraming

open ProcessLines

section Framer

/-- The longest command line. -/
def kMaxCommandLineBytes : ℕ := 64*1024

def carriageReturn : UInt8 := 13

/-- Puts lines together. -/
structure StdoutFramer where
  pending : Bytes := []
  overflow : Bool := false
deriving DecidableEq

/-- One byte, with the lines completed so far. -/
def feedByte (fed : StdoutFramer×List Bytes) (byte : UInt8) : StdoutFramer×List Bytes :=
  let framer := fed.1
  if byte=newline then
    (⟨[],false⟩,if framer.overflow then fed.2 else fed.2++[framer.pending])
  else if byte≠carriageReturn then
    if kMaxCommandLineBytes≤framer.pending.length then (⟨framer.pending,true⟩,fed.2)
    else (⟨framer.pending++[byte],framer.overflow⟩,fed.2)
  else fed

variable {σ : Type*}

/-- A chunk arrives. The lines it completes go to the handler, if there is
one. -/
def feed (handler : Option (σ → Bytes → σ)) (fed : StdoutFramer×σ) (bytes : Bytes) :
    StdoutFramer×σ :=
  let framed := bytes.foldl feedByte (fed.1,[])
  match handler with
  | none => (framed.1,fed.2)
  | some handle => (framed.1,framed.2.foldl handle fed.2)

end Framer

section Segments

/-- A segment without its carriage returns. -/
def kept (segment : Bytes) : Bytes := segment.filter (·≠carriageReturn)

/-- The command lines of a stream: its segments that end with a newline,
without those that are too long. -/
def commandLines (stream : Bytes) : List Bytes :=
  ((stream.splitOn newline).dropLast.map kept).filter (·.length≤kMaxCommandLineBytes)

/-- The state behind the bytes of a segment that has not ended. -/
def within (segment : Bytes) : StdoutFramer :=
  ⟨(kept segment).take kMaxCommandLineBytes,decide (kMaxCommandLineBytes<(kept segment).length)⟩

/-- A new segment begins with nothing. -/
@[simp] theorem within_nil : within []=⟨[],false⟩ := by
  simp [within,kept]

/-- A segment that has not ended is no command line. -/
theorem commandLines_unended {segment : Bytes} (h : newline∉segment) :
    commandLines segment=[] := by
  simp [commandLines,List.splitOn_eq_singleton h]

/-- A segment that ends is a command line unless it is too long. -/
theorem commandLines_ended {segment : Bytes} (h : newline∉segment) (rest : Bytes) :
    commandLines (segment++newline::rest)=
      [kept segment].filter (·.length≤kMaxCommandLineBytes)++commandLines rest := by
  have hsplit := List.splitOn_append_cons_self_of_not_mem h rest
  have hlast := List.dropLast_cons_of_ne_nil (List.splitOn_ne_nil newline rest) (x := segment)
  simp only [commandLines,hsplit,hlast,List.map_cons,List.filter_cons,List.filter_nil]
  split <;> rfl

/-- A byte of a segment. -/
theorem feedByte_within {segment : Bytes} {byte : UInt8} (lines : List Bytes) (h : byte≠newline) :
    feedByte (within segment,lines) byte=(within (segment++[byte]),lines) := by
  by_cases hreturn : byte=carriageReturn
  · have hkept : kept (segment++[byte])=kept segment := by
      simp [kept,hreturn]
    have hsame : ¬byte≠carriageReturn := not_not_intro hreturn
    simp only [feedByte,within,hkept,if_neg h,if_neg hsame]
  · have hkept : kept (segment++[byte])=kept segment++[byte] := by
      simp [kept,hreturn]
    simp only [feedByte,within,hkept,if_neg h,if_pos hreturn,List.length_take,List.length_append,
      List.length_singleton]
    by_cases hfull : kMaxCommandLineBytes≤(kept segment).length
    · have hover : kMaxCommandLineBytes<(kept segment).length+1 := by omega
      simp only [Nat.min_eq_left hfull,Nat.le_refl,if_true,hover,decide_true,
        List.take_append_of_le_length hfull]
    · have hroom : (kept segment++[byte]).length≤kMaxCommandLineBytes := by
        simp only [List.length_append,List.length_singleton]
        omega
      have hshort : (kept segment).length≤kMaxCommandLineBytes := by omega
      have hmin : min kMaxCommandLineBytes (kept segment).length=(kept segment).length := by omega
      have hbelow : ¬kMaxCommandLineBytes<(kept segment).length := by omega
      have hafter : ¬kMaxCommandLineBytes<(kept segment).length+1 := by omega
      simp only [hmin,if_neg hfull,List.take_of_length_le hroom,List.take_of_length_le hshort,
        hbelow,hafter,decide_false]

/-- The newline of a segment. -/
theorem feedByte_newline (segment : Bytes) (lines : List Bytes) :
    feedByte (within segment,lines) newline=
      (within [],lines++[kept segment].filter (·.length≤kMaxCommandLineBytes)) := by
  rw [within_nil]
  by_cases hlong : kMaxCommandLineBytes<(kept segment).length
  · have hnot : ¬(kept segment).length≤kMaxCommandLineBytes := by omega
    simp [feedByte,within,hlong,hnot]
  · have hle : (kept segment).length≤kMaxCommandLineBytes := by omega
    simp [feedByte,within,hlong,hle,List.take_of_length_le hle]

/-- Bytes behind a segment that has not ended. -/
theorem foldl_feedByte {segment : Bytes} (lines : List Bytes) (bytes : Bytes)
    (h : newline∉segment) :
    ∃ rest, newline∉rest ∧ bytes.foldl feedByte (within segment,lines)=
      (within rest,lines++commandLines (segment++bytes)) ∧
      ∀ more, commandLines (segment++bytes++more)=
        commandLines (segment++bytes)++commandLines (rest++more) := by
  induction bytes generalizing segment lines with
  | nil =>
    refine ⟨segment,h,?_,?_⟩
    · simp [commandLines_unended h]
    · simp [commandLines_unended h]
  | cons byte bytes ih =>
    by_cases hbyte : byte=newline
    · subst hbyte
      have hnil : newline∉([] : Bytes) := by simp
      obtain ⟨rest,hrest,hfold,hmore⟩ :=
        ih (lines++[kept segment].filter (·.length≤kMaxCommandLineBytes)) hnil
      refine ⟨rest,hrest,?_,?_⟩
      · rw [List.foldl_cons,feedByte_newline,hfold,commandLines_ended h,List.append_assoc]
        rfl
      · intro more
        rw [List.append_assoc,List.cons_append,commandLines_ended h,commandLines_ended h,
          List.append_assoc]
        congr 1
        exact hmore more
    · have hlonger : newline∉segment++[byte] := by
        simp only [List.mem_append,List.mem_singleton,not_or]
        exact ⟨h,Ne.symm hbyte⟩
      obtain ⟨rest,hrest,hfold,hmore⟩ := ih lines hlonger
      rw [List.append_assoc,List.singleton_append] at hfold hmore
      refine ⟨rest,hrest,?_,hmore⟩
      rw [List.foldl_cons,feedByte_within lines hbyte]
      exact hfold

end Segments

section Chunks

variable {σ : Type*}

/-- Chunks behind a segment that has not ended. -/
theorem foldl_feed (handle : σ → Bytes → σ) {segment : Bytes} (state : σ) (chunks : List Bytes)
    (h : newline∉segment) :
    (chunks.foldl (feed (some handle)) (within segment,state)).2=
      (commandLines (segment++chunks.flatten)).foldl handle state := by
  induction chunks generalizing segment state with
  | nil => simp [commandLines_unended h]
  | cons chunk chunks ih =>
    obtain ⟨rest,hrest,hfold,hmore⟩ := foldl_feedByte [] chunk h
    have hfeed : feed (some handle) (within segment,state) chunk=
        (within rest,(commandLines (segment++chunk)).foldl handle state) := by
      simp only [feed,hfold,List.nil_append]
    rw [List.foldl_cons,hfeed,ih _ hrest,List.flatten_cons,← List.append_assoc,hmore,
      List.foldl_append]

/-- A handler receives the command lines of the stream, in order, however the
stream is cut. -/
theorem foldl_feed_eq_commandLines (handle : σ → Bytes → σ) (state : σ) (chunks : List Bytes) :
    (chunks.foldl (feed (some handle)) (⟨[],false⟩,state)).2=
      (commandLines chunks.flatten).foldl handle state := by
  have hnil : newline∉([] : Bytes) := by simp
  have hfeed := foldl_feed handle state chunks hnil
  rw [within_nil,List.nil_append] at hfeed
  exact hfeed

example : (([[97,13],[10,98],[10,99]] : List Bytes).foldl
    (feed (some fun lines line => lines++[line])) (⟨[],false⟩,[])).2=[[97],[98]] := by decide

end Chunks

end Vinput.ClientFraming
