import Vinput.LineFraming
import Vinput.LineSplitting

/-!
# Lines of a process

What a process prints arrives as bytes in a buffer. Lines end with a newline,
and a carriage return before it does not count.
-/

namespace Vinput.ProcessLines

open LineFraming

/-- A text of a process. -/
abbrev Bytes := List UInt8

/-- Ends a line. -/
def newline : UInt8 := 10

/-- A line without the carriage return before its newline. -/
def stripReturn (line : Bytes) : Bytes := if line.getLast?=some 13 then line.dropLast else line

/-- White space. -/
def isSpace (byte : UInt8) : Bool := decide (byte=32) || decide (9≤byte ∧ byte≤13)

/-- A text without the white space around it. -/
def trim (text : Bytes) : Bytes := ((text.dropWhile isSpace).reverse.dropWhile isSpace).reverse

/-- Take complete lines out of the buffer of a process, and its tail when
that is asked for. The receiver may ask to stop. -/
def drainLinesFromBuffer {σ : Type*} (deliver : σ → Bytes → σ×Bool) (flushTail : Bool) (state : σ)
    (buffer : Bytes) : σ×Bytes :=
  drainLines newline stripReturn deliver flushTail state buffer

theorem length_stripReturn_le (line : Bytes) : (stripReturn line).length≤line.length := by
  unfold stripReturn
  split
  · rw [List.length_dropLast]
    omega
  · exact Nat.le_refl _

end Vinput.ProcessLines

/-!
# Draining the lines of a process

What a callback gets out of the buffer of a process, and what stays in the
buffer.
-/

namespace Vinput.LineDraining

open LineFraming LineSplitting ProcessLines

variable {σ : Type*}

/-- What a callback gets of a buffer with these lines and this tail, and the
rest that stays. -/
inductive Delivers (deliver : σ → Bytes → σ×Bool) (flushTail : Bool) (state : σ)
    (lines : List Bytes) (tail : Bytes) : List Bytes → Bytes → Prop
  /-- The callback asks to stop at a line. -/
  | stopped (before : List Bytes) (line : Bytes) (after : List Bytes)
    (at_line : lines=before++line::after)
    (accepted : Accepts deliver state (before.map stripReturn))
    (refused : (deliver (afterLines deliver state (before.map stripReturn))
      (stripReturn line)).2=false) :
    Delivers deliver flushTail state lines tail (before.map stripReturn++[stripReturn line])
      (joinLines newline after++tail)
  /-- All lines are taken, and the tail stays. -/
  | drained (accepted : Accepts deliver state (lines.map stripReturn))
    (kept : flushTail=false ∨ tail=[]) :
    Delivers deliver flushTail state lines tail (lines.map stripReturn) tail
  /-- The tail is a line, too. -/
  | flushed (accepted : Accepts deliver state (lines.map stripReturn))
    (flushing : flushTail=true) (open_tail : tail≠[]) :
    Delivers deliver flushTail state lines tail (lines.map stripReturn++[stripReturn tail]) []

/-- Lines that are accepted are delivered in order. -/
theorem drain_accepted {deliver : σ → Bytes → σ×Bool} (flushTail : Bool) {state : σ}
    {buffer tail : Bytes} {lines : List Bytes} (splits : Splits newline buffer lines tail)
    (haccepts : Accepts deliver state (lines.map stripReturn)) :
    ∃ given, Delivers deliver flushTail state lines tail given
        (drainLinesFromBuffer deliver flushTail state buffer).2 ∧
      (drainLinesFromBuffer deliver flushTail state buffer).1=afterLines deliver state given := by
  have hdrained : drainFrom newline stripReturn deliver state [] buffer=
      ⟨afterLines deliver state (lines.map stripReturn),tail,false⟩ := by
    rw [splits.text_eq,drainFrom_joinLines splits.line_clean state tail haccepts,
      drainFrom_tail splits.tail_clean]
  unfold drainLinesFromBuffer drainLines
  rw [hdrained]
  dsimp only
  by_cases hflush : flushTail=true ∧ tail≠[]
  · obtain ⟨hflush,htail⟩ := hflush
    have hempty : tail.isEmpty=false := List.isEmpty_eq_false_iff.mpr htail
    rw [hflush,hempty,if_pos (show (true && !false && !false)=true from rfl)]
    refine ⟨lines.map stripReturn++[stripReturn tail],Delivers.flushed haccepts rfl htail,?_⟩
    rw [afterLines_append]
    rfl
  · have hkept : flushTail=false ∨ tail=[] := by
      rcases not_and_or.mp hflush with hflag | htail
      · exact Or.inl (Bool.eq_false_iff.mpr hflag)
      · exact Or.inr (not_not.mp htail)
    rw [if_neg]
    · exact ⟨lines.map stripReturn,Delivers.drained haccepts hkept,rfl⟩
    · rcases hkept with hflag | htail
      · simp [hflag]
      · simp [htail]

/-- The first refused line stops the drain. -/
theorem drain_refused {deliver : σ → Bytes → σ×Bool} (flushTail : Bool) {state : σ}
    {buffer tail line : Bytes} {before after : List Bytes}
    (splits : Splits newline buffer (before++line::after) tail)
    (haccepts : Accepts deliver state (before.map stripReturn))
    (hrefused : (deliver (afterLines deliver state (before.map stripReturn))
      (stripReturn line)).2=false) :
    drainLinesFromBuffer deliver flushTail state buffer=
      (afterLines deliver state (before.map stripReturn++[stripReturn line]),
        joinLines newline after++tail) := by
  have hbefore : ∀ other∈before, newline∉other :=
    fun other hmem => splits.line_clean other (List.mem_append_left _ hmem)
  have hline : newline∉line :=
    splits.line_clean line (List.mem_append_right before List.mem_cons_self)
  have hdrained : drainFrom newline stripReturn deliver state [] buffer=
      ⟨afterLines deliver state (before.map stripReturn++[stripReturn line]),
        joinLines newline after++tail,true⟩ := by
    rw [splits.text_eq,joinLines_append,joinLines_cons,List.append_assoc,
      drainFrom_joinLines hbefore state _ haccepts,List.append_assoc,List.cons_append,
      drainFrom_line hline,hrefused,afterLines_append]
    rfl
  unfold drainLinesFromBuffer drainLines
  rw [hdrained]
  dsimp only
  rw [Bool.not_true,Bool.and_false,Bool.false_and]
  rfl

/-- A drain of lines and a tail, told by what the callback answers. -/
theorem drain_delivers (deliver : σ → Bytes → σ×Bool) (flushTail : Bool) (state : σ)
    {buffer tail : Bytes} {lines : List Bytes} (splits : Splits newline buffer lines tail) :
    ∃ given, Delivers deliver flushTail state lines tail given
        (drainLinesFromBuffer deliver flushTail state buffer).2 ∧
      (drainLinesFromBuffer deliver flushTail state buffer).1=afterLines deliver state given := by
  rcases accepts_or_refused deliver state (lines.map stripReturn) with
    haccepts | ⟨first,last,others,hlines,haccepts,hrefused⟩
  · exact drain_accepted flushTail splits haccepts
  · obtain ⟨before,rest,hsplit,hfirst,hrest⟩ := List.map_eq_append_iff.mp hlines
    obtain ⟨line,after,hcons,hline,-⟩ := List.map_eq_cons_iff.mp hrest
    subst hcons hsplit hfirst hline
    rw [drain_refused flushTail splits haccepts hrefused]
    exact ⟨_,Delivers.stopped before line after rfl haccepts hrefused,rfl⟩

/-- The same for the callback that notes what it is given. -/
theorem delivers_recording {deliver : σ → Bytes → σ×Bool} {flushTail : Bool} {state : σ}
    {lines given : List Bytes} {tail rest : Bytes}
    (delivers : Delivers (recording deliver) flushTail (state,[]) lines tail given rest) :
    Delivers deliver flushTail state lines tail given rest := by
  cases delivers with
  | stopped before line after at_line accepted refused =>
    rw [afterLines_recording] at refused
    exact Delivers.stopped before line after at_line ((accepts_recording _ _).mp accepted) refused
  | drained accepted kept =>
    exact Delivers.drained ((accepts_recording _ _).mp accepted) kept
  | flushed accepted flushing open_tail =>
    exact Delivers.flushed ((accepts_recording _ _).mp accepted) flushing open_tail

/-- A callback gets the lines of the buffer in order, without their endings,
up to the first one after which it asks to stop, and the tail when the buffer
is flushed; the rest stays. Without a stop the chunks of a stream do not
matter. -/
theorem lines_delivered (deliver : σ → Bytes → σ×Bool) (flushTail : Bool) (state : σ)
    (buffer : Bytes) :
    (∃ lines tail given, Splits newline buffer lines tail ∧
      (∀ lines' tail', Splits newline buffer lines' tail' → lines'=lines ∧ tail'=tail) ∧
      Delivers deliver flushTail state lines tail given
        (drainLinesFromBuffer deliver flushTail state buffer).2 ∧
      drainLinesFromBuffer (recording deliver) flushTail (state,[]) buffer=
        (((drainLinesFromBuffer deliver flushTail state buffer).1,given),
          (drainLinesFromBuffer deliver flushTail state buffer).2) ∧
      (drainLinesFromBuffer deliver flushTail state buffer).1=afterLines deliver state given) ∧
    ∀ (process : σ → Bytes → σ) (chunks : List Bytes),
      let fed := chunks.foldl (fun pair chunk =>
        drainLinesFromBuffer (always process) false pair.1 (pair.2++chunk)) (state,buffer)
      drainLinesFromBuffer (always process) true fed.1 fed.2=
        drainLinesFromBuffer (always process) true state (buffer++chunks.flatten) := by
  constructor
  · have splits := splits_splitAtNewlines newline buffer
    obtain ⟨given,delivers,hnoted⟩ := drain_delivers (recording deliver) flushTail (state,[]) splits
    rw [afterLines_recording,List.nil_append] at hnoted
    have hplain : drainLinesFromBuffer deliver flushTail state buffer=
        ((drainLinesFromBuffer (recording deliver) flushTail (state,[]) buffer).1.1,
          (drainLinesFromBuffer (recording deliver) flushTail (state,[]) buffer).2) :=
      drainLines_recording flushTail (state,[]) buffer
    rw [hplain]
    refine ⟨_,_,given,splits,fun _ _ other => other.unique splits,delivers_recording delivers,?_,?_⟩
    · exact Prod.ext (by rw [hnoted]) rfl
    · rw [hnoted]
  · intro process chunks
    exact drainLines_chunks true chunks state buffer

end Vinput.LineDraining
