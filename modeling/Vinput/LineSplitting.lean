import Vinput.LineFraming

/-!
# Splitting a text at its newlines

A text is a list of lines, each with its newline, and a tail without one, in
one way only. What a receiver gets when lines are taken out of a buffer is
fixed by this list and by its own answers.
-/

namespace Vinput.LineSplitting

open LineFraming

section Splits

variable {α : Type*} (newline : α)

/-- A text that holds these lines, each with its newline. -/
def joinLines (lines : List (List α)) : List α := (lines.map (·++[newline])).flatten

/-- The lines and the tail of a text. -/
structure Splits (text : List α) (lines : List (List α)) (tail : List α) : Prop where
  /-- The text is made of them. -/
  text_eq : text=joinLines newline lines++tail
  /-- A line ends at its first newline. -/
  line_clean : ∀ line∈lines, newline∉line
  /-- Nothing ends the tail. -/
  tail_clean : newline∉tail

variable {newline}

theorem joinLines_cons (line : List α) (lines : List (List α)) :
    joinLines newline (line::lines)=line++newline::joinLines newline lines := by
  unfold joinLines
  rw [List.map_cons,List.flatten_cons,List.append_assoc]
  rfl

/-- Two lists of lines are joined one after the other. -/
theorem joinLines_append (first second : List (List α)) :
    joinLines newline (first++second)=joinLines newline first++joinLines newline second := by
  unfold joinLines
  rw [List.map_append,List.flatten_append]

/-- More text goes on with the tail. -/
theorem Splits.append {text tail more tail' : List α} {lines lines' : List (List α)}
    (splits : Splits newline text lines tail)
    (splits' : Splits newline (tail++more) lines' tail') :
    Splits newline (text++more) (lines++lines') tail' where
  text_eq := by
    rw [splits.text_eq,List.append_assoc,splits'.text_eq,joinLines_append,List.append_assoc]
  line_clean := fun line hmem =>
    (List.mem_append.mp hmem).elim (splits.line_clean line) (splits'.line_clean line)
  tail_clean := splits'.tail_clean

/-- Lines alone leave no tail. -/
theorem splits_joinLines {lines : List (List α)} (h : ∀ line∈lines,newline∉line) :
    Splits newline (joinLines newline lines) lines [] :=
  ⟨(List.append_nil _).symm,h,List.not_mem_nil⟩

/-- A line up to its first newline is found in one way only. -/
theorem line_unique {first second rest rest' : List α} (hfirst : newline∉first)
    (hsecond : newline∉second) (h : first++newline::rest=second++newline::rest') :
    first=second ∧ rest=rest' := by
  induction first generalizing second with
  | nil =>
    cases second with
    | nil => exact ⟨rfl,(List.cons.inj h).2⟩
    | cons symbol second =>
      have hsymbol : newline=symbol := (List.cons.inj h).1
      exact absurd (hsymbol ▸ List.mem_cons_self) hsecond
  | cons symbol first ih =>
    cases second with
    | nil =>
      have hsymbol : symbol=newline := (List.cons.inj h).1
      exact absurd (hsymbol ▸ List.mem_cons_self) hfirst
    | cons other second =>
      obtain ⟨hsymbol,hrest⟩ := List.cons.inj h
      have hclean : newline∉first := fun hmem => hfirst (List.mem_cons_of_mem symbol hmem)
      have hclean' : newline∉second := fun hmem => hsecond (List.mem_cons_of_mem other hmem)
      obtain ⟨hline,heq⟩ := ih hclean hclean' hrest
      exact ⟨by rw [hsymbol,hline],heq⟩

/-- A text splits in one way only. -/
theorem Splits.unique {text tail tail' : List α} {lines lines' : List (List α)}
    (splits : Splits newline text lines tail) (splits' : Splits newline text lines' tail') :
    lines=lines' ∧ tail=tail' := by
  have joined : joinLines newline lines++tail=joinLines newline lines'++tail' :=
    splits.text_eq.symm.trans splits'.text_eq
  have hclean := splits.line_clean
  have hclean' := splits'.line_clean
  have htail := splits.tail_clean
  have htail' := splits'.tail_clean
  clear splits splits'
  induction lines generalizing lines' with
  | nil =>
    cases lines' with
    | nil => exact ⟨rfl,joined⟩
    | cons line lines' =>
      refine absurd ?_ htail
      rw [joinLines_cons,List.append_assoc] at joined
      change tail=_ at joined
      rw [joined]
      exact List.mem_append_right line List.mem_cons_self
  | cons line lines ih =>
    cases lines' with
    | nil =>
      refine absurd ?_ htail'
      rw [joinLines_cons,List.append_assoc] at joined
      change _=tail' at joined
      rw [←joined]
      exact List.mem_append_right line List.mem_cons_self
    | cons line' lines' =>
      rw [joinLines_cons,joinLines_cons,List.append_assoc,List.append_assoc] at joined
      obtain ⟨hline,hrest⟩ := line_unique (hclean line List.mem_cons_self)
        (hclean' line' List.mem_cons_self) joined
      obtain ⟨hlines,heq⟩ := ih hrest (fun other hmem => hclean other (List.mem_cons_of_mem line hmem))
        (fun other hmem => hclean' other (List.mem_cons_of_mem line' hmem))
      exact ⟨by rw [hline,hlines],heq⟩

variable [DecidableEq α] (newline)

/-- Split a text at its newlines. -/
def splitAtNewlines : List α → List (List α)×List α
  | [] => ([],[])
  | symbol::rest =>
    let split := splitAtNewlines rest
    if symbol=newline then ([]::split.1,split.2)
    else
      match split.1 with
      | [] => ([],symbol::split.2)
      | line::lines => ((symbol::line)::lines,split.2)

/-- Each text splits. -/
theorem splits_splitAtNewlines (text : List α) :
    Splits newline text (splitAtNewlines newline text).1 (splitAtNewlines newline text).2 := by
  induction text with
  | nil => exact ⟨rfl,fun _ hmem => absurd hmem List.not_mem_nil,List.not_mem_nil⟩
  | cons symbol rest ih =>
    obtain ⟨htext,hclean,htail⟩ := ih
    by_cases hsymbol : symbol=newline
    · rw [splitAtNewlines,if_pos hsymbol]
      refine ⟨?_,?_,htail⟩
      · rw [joinLines_cons,hsymbol,List.nil_append,List.cons_append,←htext]
      · intro line hmem
        rcases List.mem_cons.mp hmem with hline | hline
        · exact hline ▸ List.not_mem_nil
        · exact hclean line hline
    · have hne : newline≠symbol := Ne.symm hsymbol
      rw [splitAtNewlines,if_neg hsymbol]
      cases hlines : (splitAtNewlines newline rest).1 with
      | nil =>
        rw [hlines] at htext
        refine ⟨?_,fun _ hmem => absurd hmem List.not_mem_nil,?_⟩
        · exact congrArg (symbol::·) htext
        · exact List.not_mem_cons_of_ne_of_not_mem hne htail
      | cons line lines =>
        rw [hlines,joinLines_cons] at htext
        refine ⟨?_,?_,htail⟩
        · rw [joinLines_cons]
          exact congrArg (symbol::·) htext
        · intro other hmem
          rcases List.mem_cons.mp hmem with hother | hother
          · rw [hother]
            exact List.not_mem_cons_of_ne_of_not_mem hne
              (hclean line (hlines ▸ List.mem_cons_self))
          · exact hclean other (hlines ▸ List.mem_cons_of_mem line hother)

end Splits

section Receivers

variable {α σ : Type*} (deliver : σ → List α → σ×Bool)

/-- The receiver has asked for more after each of these lines. -/
def Accepts : σ → List (List α) → Prop
  | _,[] => True
  | state,line::lines => (deliver state line).2=true ∧ Accepts (deliver state line).1 lines

/-- The receiver after these lines. -/
def afterLines (state : σ) (lines : List (List α)) : σ :=
  lines.foldl (fun current line => (deliver current line).1) state

/-- The same receiver with a list of what it was given. -/
def recording (pair : σ×List (List α)) (line : List α) : (σ×List (List α))×Bool :=
  (((deliver pair.1 line).1,pair.2++[line]),(deliver pair.1 line).2)

variable {deliver}

/-- Lines are delivered one after another. -/
theorem afterLines_append (state : σ) (first second : List (List α)) :
    afterLines deliver state (first++second)=
      afterLines deliver (afterLines deliver state first) second := by
  exact List.foldl_append ..

/-- Recording lines does not disturb the delivery. -/
theorem afterLines_recording (pair : σ×List (List α)) (lines : List (List α)) :
    afterLines (recording deliver) pair lines=(afterLines deliver pair.1 lines,pair.2++lines) := by
  induction lines generalizing pair with
  | nil => exact Prod.ext rfl (List.append_nil _).symm
  | cons line lines ih =>
    refine (ih _).trans ?_
    refine Prod.ext rfl ?_
    exact List.append_assoc ..

theorem accepts_recording (pair : σ×List (List α)) (lines : List (List α)) :
    Accepts (recording deliver) pair lines ↔ Accepts deliver pair.1 lines := by
  induction lines generalizing pair with
  | nil => exact Iff.rfl
  | cons line lines ih => exact and_congr_right fun _ => ih _

variable (deliver) in
/-- Either all lines are accepted or there is a first one that is not. -/
theorem accepts_or_refused (state : σ) (lines : List (List α)) :
    Accepts deliver state lines ∨ ∃ before line after, lines=before++line::after ∧
      Accepts deliver state before ∧ (deliver (afterLines deliver state before) line).2=false := by
  induction lines generalizing state with
  | nil => exact Or.inl trivial
  | cons line lines ih =>
    cases hanswer : (deliver state line).2 with
    | false => exact Or.inr ⟨[],line,lines,rfl,trivial,hanswer⟩
    | true =>
      rcases ih (deliver state line).1 with haccepts | ⟨before,last,after,hlines,haccepts,hrefused⟩
      · exact Or.inl ⟨hanswer,haccepts⟩
      · exact Or.inr ⟨line::before,last,after,by rw [hlines]; rfl,⟨hanswer,haccepts⟩,hrefused⟩

end Receivers

section Draining

variable {α σ : Type*} [DecidableEq α] {newline : α} {tidy : List α → List α}
  {deliver : σ → List α → σ×Bool}

/-- Symbols of an open line are collected. -/
theorem drainFrom_symbols {symbols : List α} (h : newline∉symbols) (state : σ)
    (line rest : List α) :
    drainFrom newline tidy deliver state line (symbols++rest)=
      drainFrom newline tidy deliver state (line++symbols) rest := by
  induction symbols generalizing line with
  | nil => rw [List.nil_append,List.append_nil]
  | cons symbol symbols ih =>
    obtain ⟨hsymbol,hrest⟩ := not_or.mp fun hmem => h (List.mem_cons.mpr hmem)
    rw [List.cons_append,drainFrom,if_neg (Ne.symm hsymbol),ih hrest,List.append_assoc]
    rfl

/-- A line with its newline is delivered. -/
theorem drainFrom_line {line : List α} (h : newline∉line) (state : σ) (rest : List α) :
    drainFrom newline tidy deliver state [] (line++newline::rest)=
      if (deliver state (tidy line)).2 then
        drainFrom newline tidy deliver (deliver state (tidy line)).1 [] rest
      else ⟨(deliver state (tidy line)).1,rest,true⟩ := by
  rw [drainFrom_symbols h,List.nil_append,drainFrom,if_pos rfl]

/-- Accepted lines are taken out. -/
theorem drainFrom_joinLines {lines : List (List α)} (hclean : ∀ line∈lines, newline∉line)
    (state : σ) (rest : List α) (haccepts : Accepts deliver state (lines.map tidy)) :
    drainFrom newline tidy deliver state [] (joinLines newline lines++rest)=
      drainFrom newline tidy deliver (afterLines deliver state (lines.map tidy)) [] rest := by
  induction lines generalizing state with
  | nil => rfl
  | cons line lines ih =>
    obtain ⟨hanswer,hrest⟩ := haccepts
    rw [joinLines_cons,List.append_assoc,List.cons_append,
      drainFrom_line (hclean line List.mem_cons_self),if_pos hanswer,
      ih (fun other hmem => hclean other (List.mem_cons_of_mem line hmem)) _ hrest]
    rfl

/-- A tail stays. -/
theorem drainFrom_tail {tail : List α} (h : newline∉tail) (state : σ) :
    drainFrom newline tidy deliver state [] tail=⟨state,tail,false⟩ := by
  have hcollected : drainFrom newline tidy deliver state [] (tail++[])=
      drainFrom newline tidy deliver state ([]++tail) [] := drainFrom_symbols h state [] []
  rw [List.append_nil,List.nil_append] at hcollected
  exact hcollected

/-- A receiver that notes what it is given answers like the receiver
itself. -/
theorem drainFrom_recording (pair : σ×List (List α)) (line rest : List α) :
    drainFrom newline tidy deliver pair.1 line rest=
      ⟨(drainFrom newline tidy (recording deliver) pair line rest).state.1,
        (drainFrom newline tidy (recording deliver) pair line rest).rest,
        (drainFrom newline tidy (recording deliver) pair line rest).stopped⟩ := by
  induction rest generalizing pair line with
  | nil => rfl
  | cons symbol rest ih =>
    rw [drainFrom,drainFrom]
    by_cases hsymbol : symbol=newline
    · rw [if_pos hsymbol,if_pos hsymbol]
      dsimp only [recording]
      by_cases haccepted : (deliver pair.1 (tidy line)).2=true
      · rw [if_pos haccepted,if_pos haccepted]
        exact ih (recording deliver pair (tidy line)).1 []
      · rw [if_neg haccepted,if_neg haccepted]
    · rw [if_neg hsymbol,if_neg hsymbol]
      exact ih pair (line++[symbol])

theorem drainLines_recording (flushTail : Bool) (pair : σ×List (List α)) (buffer : List α) :
    drainLines newline tidy deliver flushTail pair.1 buffer=
      ((drainLines newline tidy (recording deliver) flushTail pair buffer).1.1,
        (drainLines newline tidy (recording deliver) flushTail pair buffer).2) := by
  unfold drainLines
  rw [drainFrom_recording pair]
  dsimp only
  split <;> rfl

section Chunks

variable {process : σ → List α → σ}

/-- Draining leaves what draining later goes on with. -/
theorem drainLines_again (flushTail : Bool) (state : σ) (buffer more : List α) :
    drainLines newline tidy (always process) flushTail
        (drainLines newline tidy (always process) false state buffer).1
        ((drainLines newline tidy (always process) false state buffer).2++more)=
      drainLines newline tidy (always process) flushTail state (buffer++more) := by
  have hrest : newline∉(drainFrom newline tidy (always process) state [] buffer).rest :=
    newline_notMem_rest state List.not_mem_nil buffer
  have hdrained : drainFrom newline tidy (always process)
        (drainFrom newline tidy (always process) state [] buffer).state []
        ((drainFrom newline tidy (always process) state [] buffer).rest++more)=
      drainFrom newline tidy (always process) state [] (buffer++more) := by
    rw [drainFrom_symbols hrest,List.nil_append]
    exact (drainFrom_append state [] buffer more).symm
  have hfirst : drainLines newline tidy (always process) false state buffer=
      ((drainFrom newline tidy (always process) state [] buffer).state,
        (drainFrom newline tidy (always process) state [] buffer).rest) := rfl
  rw [hfirst]
  unfold drainLines
  rw [hdrained]

/-- A stream in chunks, drained after each of them, is drained like a whole
one. -/
theorem drainLines_chunks (flushTail : Bool) (chunks : List (List α)) (state : σ)
    (buffer : List α) :
    let fed := chunks.foldl (fun pair chunk =>
      drainLines newline tidy (always process) false pair.1 (pair.2++chunk)) (state,buffer)
    drainLines newline tidy (always process) flushTail fed.1 fed.2=
      drainLines newline tidy (always process) flushTail state (buffer++chunks.flatten) := by
  induction chunks generalizing state buffer with
  | nil => exact congrArg _ (List.append_nil buffer).symm
  | cons chunk chunks ih =>
    refine (ih _ _).trans ?_
    refine (drainLines_again flushTail state (buffer++chunk) chunks.flatten).trans ?_
    rw [List.append_assoc,List.flatten_cons]

end Chunks

end Draining

end Vinput.LineSplitting
