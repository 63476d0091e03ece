import Mathlib.Data.List.Basic
import Mathlib.Data.List.DropRight
import Mathlib.Data.Nat.ModEq

/-!
# Lines of a stream that arrives in chunks

A buffer collects what arrives. Complete lines are taken out of it when a
chunk has been appended; a buffer that reaches its limit while a chunk is
being appended is delivered as it is. What is delivered is independent of the
chunks exactly when every newline in a full block of the stream, counted in
blocks of the limit, ends its block.
-/

namespace Vinput.LineFraming

section Machine

variable {α σ : Type*} [DecidableEq α] (newline : α) (tidy : List α → List α)

/-- What is left after lines have been taken out. -/
structure Drained (σ α : Type*) where
  /-- State of the receiver. -/
  state : σ
  /-- What stays in the buffer. -/
  rest : List α
  /-- The receiver asked to stop. -/
  stopped : Bool

/-- Take complete lines out, behind the start of a line. -/
def drainFrom (deliver : σ → List α → σ×Bool) : σ → List α → List α → Drained σ α
  | state,line,[] => ⟨state,line,false⟩
  | state,line,symbol::rest =>
    if symbol=newline then
      let delivered := deliver state (tidy line)
      if delivered.2 then drainFrom deliver delivered.1 [] rest
      else ⟨delivered.1,rest,true⟩
    else drainFrom deliver state (line++[symbol]) rest

/-- Take complete lines out of a buffer, and its tail when that is asked
for. -/
def drainLines (deliver : σ → List α → σ×Bool) (flushTail : Bool) (state : σ) (buffer : List α) :
    σ×List α :=
  let drained := drainFrom newline tidy deliver state [] buffer
  if flushTail && !drained.stopped && !drained.rest.isEmpty then
    ((deliver drained.state (tidy drained.rest)).1,[])
  else (drained.state,drained.rest)

variable (limit : ℕ) (process : σ → List α → σ)

/-- A receiver that never asks to stop. -/
def always (state : σ) (line : List α) : σ×Bool := (process state line,true)

/-- Append symbols to the buffer; a full buffer is delivered. -/
def push : σ×List α → List α → σ×List α
  | pair,[] => pair
  | pair,symbol::rest =>
    let buffer := pair.2++[symbol]
    if limit≤buffer.length then push (process pair.1 buffer,[]) rest
    else push (pair.1,buffer) rest

/-- A chunk arrives. -/
def feed (pair : σ×List α) (chunk : List α) : σ×List α :=
  if chunk=[] then pair
  else
    let pushed := push limit process pair chunk
    drainLines newline tidy (always process) false pushed.1 pushed.2

/-- The stream has ended. -/
def flush (pair : σ×List α) : σ×List α :=
  if pair.2=[] then pair else drainLines newline tidy (always process) true pair.1 pair.2

/-- A whole stream arrives in chunks. -/
def feedAll (state : σ) (chunks : List (List α)) : σ :=
  (flush newline tidy process (chunks.foldl (feed newline tidy limit process) (state,[]))).1

/-- Collect what is delivered. -/
def collect (lines : List (List α)) (line : List α) : List (List α) := lines++[line]

/-- What is delivered of a stream. -/
def frames (chunks : List (List α)) : List (List α) :=
  feedAll newline tidy limit collect [] chunks

end Machine

section Receivers

/-- What every delivery keeps, taking lines out keeps. -/
theorem drainFrom_invariant {α σ : Type*} [DecidableEq α] {newline : α} {tidy : List α → List α}
    {deliver : σ → List α → σ×Bool} {Inv : σ → Prop}
    (preserve : ∀ state line, Inv state → Inv (deliver state line).1) {state : σ}
    (h : Inv state) (line rest : List α) :
    Inv (drainFrom newline tidy deliver state line rest).state := by
  induction rest generalizing state line with
  | nil => exact h
  | cons symbol rest ih =>
    rw [drainFrom]
    split
    · dsimp only
      split
      · exact ih (preserve state (tidy line) h) []
      · exact preserve state (tidy line) h
    · exact ih h (line++[symbol])

/-- What every delivery keeps, draining a buffer keeps. -/
theorem drainLines_invariant {α σ : Type*} [DecidableEq α] {newline : α} {tidy : List α → List α}
    {deliver : σ → List α → σ×Bool} {Inv : σ → Prop}
    (preserve : ∀ state line, Inv state → Inv (deliver state line).1) (flushTail : Bool)
    {state : σ} (h : Inv state) (buffer : List α) :
    Inv (drainLines newline tidy deliver flushTail state buffer).1 := by
  have hdrained : Inv (drainFrom newline tidy deliver state [] buffer).state :=
    drainFrom_invariant preserve h [] buffer
  unfold drainLines
  dsimp only
  split
  · exact preserve _ _ hdrained
  · exact hdrained

variable {α σ τ : Type*} {limit : ℕ} {process : σ → List α → σ} {inner : τ → List α → τ}
  {view : τ → σ}

/-- Pushing symbols commutes with a view of the state. -/
theorem push_view (compatible : ∀ state line, view (inner state line)=process (view state) line)
    (symbols : List α) (state : τ) (buffer : List α) :
    push limit process (view state,buffer) symbols=
      (view (push limit inner (state,buffer) symbols).1,
        (push limit inner (state,buffer) symbols).2) := by
  induction symbols generalizing state buffer with
  | nil => rfl
  | cons symbol rest ih =>
    dsimp only [push]
    split
    · rw [←compatible]
      exact ih (inner state (buffer++[symbol])) []
    · exact ih state (buffer++[symbol])

/-- One symbol is appended. -/
theorem push_cons (pair : List (List α)×List α) (symbol : α) (rest : List α) :
    push limit collect pair (symbol::rest)=
      push limit collect
        (if limit≤(pair.2++[symbol]).length then (pair.1++[pair.2++[symbol]],[])
        else (pair.1,pair.2++[symbol])) rest := by
  dsimp only [push]
  split <;> rfl

variable [DecidableEq α] {newline : α} {tidy : List α → List α}

theorem drainFrom_newline (state : σ) (line rest : List α) :
    drainFrom newline tidy (always process) state line (newline::rest)=
      drainFrom newline tidy (always process) (process state (tidy line)) [] rest := by
  rw [drainFrom,if_pos rfl]
  rfl

/-- Any other symbol extends the line. -/
theorem drainFrom_of_ne {symbol : α} (h : symbol≠newline) (state : σ) (line rest : List α) :
    drainFrom newline tidy (always process) state line (symbol::rest)=
      drainFrom newline tidy (always process) state (line++[symbol]) rest := by
  rw [drainFrom,if_neg h]

/-- Draining commutes with a view of the state. -/
theorem drainFrom_view (compatible : ∀ state line, view (inner state line)=process (view state) line)
    (state : τ) (line rest : List α) :
    drainFrom newline tidy (always process) (view state) line rest=
      ⟨view (drainFrom newline tidy (always inner) state line rest).state,
        (drainFrom newline tidy (always inner) state line rest).rest,
        (drainFrom newline tidy (always inner) state line rest).stopped⟩ := by
  induction rest generalizing state line with
  | nil => rfl
  | cons symbol rest ih =>
    by_cases hsymbol : symbol=newline
    · subst hsymbol
      rw [drainFrom_newline,drainFrom_newline,←compatible]
      exact ih (inner state (tidy line)) []
    · rw [drainFrom_of_ne hsymbol,drainFrom_of_ne hsymbol]
      exact ih state (line++[symbol])

theorem drainLines_view
    (compatible : ∀ state line, view (inner state line)=process (view state) line)
    (flushTail : Bool) (state : τ) (buffer : List α) :
    drainLines newline tidy (always process) flushTail (view state) buffer=
      (view (drainLines newline tidy (always inner) flushTail state buffer).1,
        (drainLines newline tidy (always inner) flushTail state buffer).2) := by
  unfold drainLines
  rw [drainFrom_view compatible]
  dsimp only
  split
  · dsimp only [always]
    rw [compatible]
  · rfl

variable (newline tidy limit) in
theorem feed_view (compatible : ∀ state line, view (inner state line)=process (view state) line)
    (chunk : List α) (state : τ) (buffer : List α) :
    feed newline tidy limit process (view state,buffer) chunk=
      (view (feed newline tidy limit inner (state,buffer) chunk).1,
        (feed newline tidy limit inner (state,buffer) chunk).2) := by
  unfold feed
  split
  · rfl
  · rw [push_view compatible]
    exact drainLines_view compatible false _ _

theorem foldl_feed_view
    (compatible : ∀ state line, view (inner state line)=process (view state) line)
    (chunks : List (List α)) (state : τ) (buffer : List α) :
    chunks.foldl (feed newline tidy limit process) (view state,buffer)=
      (view (chunks.foldl (feed newline tidy limit inner) (state,buffer)).1,
        (chunks.foldl (feed newline tidy limit inner) (state,buffer)).2) := by
  induction chunks generalizing state buffer with
  | nil => rfl
  | cons chunk rest ih =>
    rw [List.foldl_cons,List.foldl_cons,feed_view limit newline tidy compatible]
    exact ih _ _

variable (newline tidy) in
theorem flush_view (compatible : ∀ state line, view (inner state line)=process (view state) line)
    (state : τ) (buffer : List α) :
    flush newline tidy process (view state,buffer)=
      (view (flush newline tidy inner (state,buffer)).1,
        (flush newline tidy inner (state,buffer)).2) := by
  unfold flush
  split
  · rfl
  · exact drainLines_view compatible true state buffer

/-- What a receiver makes of a stream depends on what is delivered only. -/
theorem feedAll_eq_foldl (state : σ) (chunks : List (List α)) :
    feedAll newline tidy limit process state chunks=
      (frames newline tidy limit chunks).foldl process state := by
  have compatible : ∀ (lines : List (List α)) line,
      (collect lines line).foldl process state=process (lines.foldl process state) line := by
    intro lines line
    exact List.foldl_concat ..
  have hfed : chunks.foldl (feed newline tidy limit process) (state,[])=
      ((chunks.foldl (feed newline tidy limit collect) ([],[])).1.foldl process state,
        (chunks.foldl (feed newline tidy limit collect) ([],[])).2) :=
    foldl_feed_view compatible chunks [] []
  unfold frames feedAll
  rw [hfed,flush_view newline tidy compatible]

end Receivers

section Drained

variable {α σ : Type*} [DecidableEq α] {newline : α} {tidy : List α → List α} {limit : ℕ}
  {process : σ → List α → σ}

/-- A callback that always goes on never stops the drain. -/
theorem stopped_drainFrom (state : σ) (line rest : List α) :
    (drainFrom newline tidy (always process) state line rest).stopped=false := by
  induction rest generalizing state line with
  | nil => rfl
  | cons symbol rest ih =>
    by_cases hsymbol : symbol=newline
    · subst hsymbol
      rw [drainFrom_newline]
      exact ih _ _
    · rw [drainFrom_of_ne hsymbol]
      exact ih _ _

/-- Two texts are drained one after the other. -/
theorem drainFrom_append (state : σ) (line first second : List α) :
    drainFrom newline tidy (always process) state line (first++second)=
      drainFrom newline tidy (always process)
        (drainFrom newline tidy (always process) state line first).state
        (drainFrom newline tidy (always process) state line first).rest second := by
  induction first generalizing state line with
  | nil => rfl
  | cons symbol rest ih =>
    rw [List.cons_append]
    by_cases hsymbol : symbol=newline
    · subst hsymbol
      rw [drainFrom_newline,drainFrom_newline]
      exact ih _ _
    · rw [drainFrom_of_ne hsymbol,drainFrom_of_ne hsymbol]
      exact ih _ _

/-- Without a newline nothing is taken out. -/
theorem drainFrom_of_notMem {rest : List α} (h : newline∉rest) (state : σ) (line : List α) :
    drainFrom newline tidy (always process) state line rest=⟨state,line++rest,false⟩ := by
  induction rest generalizing line with
  | nil => rw [List.append_nil]; rfl
  | cons symbol rest ih =>
    obtain ⟨hsymbol,hrest⟩ := not_or.mp fun hmem => h (List.mem_cons.mpr hmem)
    rw [drainFrom_of_ne (Ne.symm hsymbol),ih hrest,List.append_assoc]
    rfl

theorem newline_notMem_rest (state : σ) {line : List α} (h : newline∉line) (rest : List α) :
    newline∉(drainFrom newline tidy (always process) state line rest).rest := by
  induction rest generalizing state line with
  | nil => exact h
  | cons symbol rest ih =>
    by_cases hsymbol : symbol=newline
    · subst hsymbol
      rw [drainFrom_newline]
      exact ih _ List.not_mem_nil
    · rw [drainFrom_of_ne hsymbol]
      refine ih _ ?_
      intro hmem
      rcases List.mem_append.mp hmem with hline | hlast
      · exact h hline
      · exact hsymbol (List.mem_singleton.mp hlast).symm

/-- What is left is no longer than what was there. -/
theorem length_rest_le (state : σ) (line rest : List α) :
    (drainFrom newline tidy (always process) state line rest).rest.length≤
      line.length+rest.length := by
  induction rest generalizing state line with
  | nil => exact Nat.le_refl _
  | cons symbol rest ih =>
    rw [List.length_cons]
    by_cases hsymbol : symbol=newline
    · subst hsymbol
      rw [drainFrom_newline]
      have hrest := ih (process state (tidy line)) []
      rw [List.length_nil] at hrest
      omega
    · rw [drainFrom_of_ne hsymbol]
      have hrest := ih state (line++[symbol])
      rw [List.length_append,List.length_singleton] at hrest
      omega

variable (newline tidy) in
/-- The lines delivered and the buffer, once complete lines are taken out. -/
def drained (pair : List (List α)×List α) : List (List α)×List α :=
  ((drainFrom newline tidy (always collect) pair.1 [] pair.2).state,
    (drainFrom newline tidy (always collect) pair.1 [] pair.2).rest)

/-- Without a line break nothing is drained. -/
theorem drained_of_notMem {pair : List (List α)×List α} (h : newline∉pair.2) :
    drained newline tidy pair=pair := by
  unfold drained
  rw [drainFrom_of_notMem h,List.nil_append]

theorem drained_drained (pair : List (List α)×List α) :
    drained newline tidy (drained newline tidy pair)=drained newline tidy pair :=
  drained_of_notMem (newline_notMem_rest pair.1 List.not_mem_nil pair.2)

/-- One more symbol in the buffer. -/
theorem drained_concat (lines : List (List α)) (buffer : List α) (symbol : α) :
    drained newline tidy (lines,buffer++[symbol])=
      if symbol=newline then
        ((drained newline tidy (lines,buffer)).1++[tidy (drained newline tidy (lines,buffer)).2],[])
      else ((drained newline tidy (lines,buffer)).1,
        (drained newline tidy (lines,buffer)).2++[symbol]) := by
  unfold drained
  dsimp only
  rw [drainFrom_append]
  split
  · rename_i hsymbol
    rw [hsymbol,drainFrom_newline]
    rfl
  · rename_i hsymbol
    rw [drainFrom_of_ne hsymbol]
    rfl

/-- A chunk is appended, then complete lines are taken out. -/
theorem feed_eq_drained (pair : List (List α)×List α) {chunk : List α} (h : chunk≠[]) :
    feed newline tidy limit collect pair chunk=
      drained newline tidy (push limit collect pair chunk) := by
  unfold feed drainLines drained
  rw [if_neg h]
  rfl

/-- At the end the tail is delivered too. -/
theorem flush_eq_drained (pair : List (List α)×List α) :
    (flush newline tidy collect pair).1=
      if (drained newline tidy pair).2=[] then (drained newline tidy pair).1
      else (drained newline tidy pair).1++[tidy (drained newline tidy pair).2] := by
  unfold flush
  split
  · rename_i hempty
    have hpair : drained newline tidy pair=pair := by
      refine drained_of_notMem ?_
      rw [hempty]
      exact List.not_mem_nil
    rw [hpair,if_pos hempty]
  · unfold drainLines drained
    dsimp only
    rw [stopped_drainFrom]
    cases (drainFrom newline tidy (always collect) pair.1 [] pair.2).rest with
    | nil => rfl
    | cons symbol rest =>
      rw [if_neg (List.cons_ne_nil symbol rest)]
      rfl

end Drained

section Aligned

variable {α : Type*} [DecidableEq α] {newline : α} {tidy : List α → List α} {limit : ℕ}

variable (newline limit) in
/-- Every newline in a full block of the stream ends its block. -/
def Aligned (stream : List α) : Prop :=
  ∀ i, stream[i]?=some newline → i/limit< stream.length/limit → i%limit+1=limit

variable (newline tidy limit) in
/-- What is delivered when each symbol is looked at by itself and a block is
full at a multiple of the limit. -/
def byPosition (position : ℕ) (pair : List (List α)×List α) : List α → List (List α)×List α
  | [] => pair
  | symbol::rest =>
    byPosition (position+1)
      (if (position+1)%limit=0 then (pair.1++[pair.2++[symbol]],[])
      else if symbol=newline then (pair.1++[tidy pair.2],[])
      else (pair.1,pair.2++[symbol])) rest

/-- The next position in the same block. -/
theorem mod_succ_of_lt {position : ℕ} (h : position%limit+1<limit) :
    (position+1)%limit=position%limit+1 ∧ (position+1)/limit=position/limit := by
  have hparts := Nat.mod_add_div position limit
  obtain ⟨hdiv,hmod⟩ := (Nat.div_mod_unique (by omega : 0<limit)).mpr
    (⟨by omega,h⟩ : position%limit+1+limit*(position/limit)=position+1 ∧ position%limit+1<limit)
  exact ⟨hmod,hdiv⟩

/-- The next position in the next block. -/
theorem mod_succ_of_eq {position : ℕ} (h : position%limit+1=limit) :
    (position+1)%limit=0 ∧ (position+1)/limit=position/limit+1 := by
  have hparts := Nat.mod_add_div position limit
  have hnext : limit*(position/limit+1)=limit*(position/limit)+limit := Nat.mul_succ ..
  obtain ⟨hdiv,hmod⟩ := (Nat.div_mod_unique (by omega : 0<limit)).mpr
    (⟨by omega,by omega⟩ : 0+limit*(position/limit+1)=position+1 ∧ 0<limit)
  exact ⟨hmod,hdiv⟩

variable (newline tidy limit) in
/-- The machine after some symbols, against the reference. In a full block
nothing has been taken out of the buffer. -/
structure Tracks (total position : ℕ) (pair spec : List (List α)×List α) : Prop where
  drained : drained newline tidy pair=spec
  short : pair.2.length≤position%limit
  whole : position/limit<total/limit → newline∉pair.2 ∧ pair.2.length=position%limit

variable {stream : List α} {total position : ℕ} {pair spec : List (List α)×List α}

/-- Taking lines out early changes nothing. -/
theorem Tracks.cut (tracks : Tracks newline tidy limit total position pair spec) :
    Tracks newline tidy limit total position (LineFraming.drained newline tidy pair) spec where
  drained := (drained_drained pair).trans tracks.drained
  short := by
    have hrest : (LineFraming.drained newline tidy pair).2.length≤0+pair.2.length :=
      length_rest_le pair.1 [] pair.2
    have hshort := tracks.short
    omega
  whole := by
    intro hfull
    rw [drained_of_notMem (tracks.whole hfull).1]
    exact tracks.whole hfull

/-- One symbol keeps to the reference. -/
theorem Tracks.symbol (positive : 0<limit) (aligned : Aligned newline limit stream) {symbol : α}
    (hat : stream[position]?=some symbol)
    (tracks : Tracks newline tidy limit stream.length position pair spec) :
    Tracks newline tidy limit stream.length (position+1)
      (if limit≤(pair.2++[symbol]).length then (pair.1++[pair.2++[symbol]],[])
      else (pair.1,pair.2++[symbol]))
      (if (position+1)%limit=0 then (spec.1++[spec.2++[symbol]],[])
      else if symbol=newline then (spec.1++[tidy spec.2],[])
      else (spec.1,spec.2++[symbol])) := by
  obtain ⟨lines,buffer⟩ := pair
  have hbound : position< stream.length := (List.getElem?_eq_some_iff.mp hat).1
  have hmod := Nat.mod_lt position positive
  have hshort := tracks.short
  have hwhole := tracks.whole
  have hspec := tracks.drained
  dsimp only at hshort hwhole ⊢
  rw [List.length_append,List.length_singleton]
  by_cases hblock : position%limit+1=limit
  · -- The last symbol of a block fills the buffer, which holds the whole block.
    obtain ⟨hzero,hdiv⟩ := mod_succ_of_eq hblock
    have hfull : position/limit< stream.length/limit := by
      have hle : (position+1)/limit≤ stream.length/limit := Nat.div_le_div_right hbound
      omega
    obtain ⟨hclean,hlength⟩ := hwhole hfull
    rw [drained_of_notMem hclean] at hspec
    rw [if_pos (by omega),if_pos hzero,←hspec]
    refine ⟨drained_of_notMem List.not_mem_nil,Nat.zero_le _,?_⟩
    intro _
    exact ⟨List.not_mem_nil,hzero.symm⟩
  · obtain ⟨hsucc,hdiv⟩ := mod_succ_of_lt (by omega : position%limit+1<limit)
    rw [if_neg (by omega),if_neg (by omega),←hspec]
    refine ⟨drained_concat lines buffer symbol,?_,?_⟩
    · rw [hsucc,List.length_append,List.length_singleton]
      omega
    · intro hfull
      rw [hdiv] at hfull
      obtain ⟨hclean,hlength⟩ := hwhole hfull
      constructor
      · intro hmem
        rcases List.mem_append.mp hmem with hold | hnew
        · exact hclean hold
        · exact hblock (aligned position (hat.trans
            (congrArg some (List.mem_singleton.mp hnew).symm)) hfull)
      · rw [hsucc,List.length_append,List.length_singleton]
        omega

/-- Appending symbols keeps to the reference. -/
theorem Tracks.push (positive : 0<limit) (aligned : Aligned newline limit stream)
    {before symbols after : List α} (hstream : stream=before++(symbols++after))
    (tracks : Tracks newline tidy limit stream.length before.length pair spec) :
    Tracks newline tidy limit stream.length (before.length+symbols.length)
      (push limit collect pair symbols)
      (byPosition newline tidy limit before.length spec symbols) := by
  induction symbols generalizing before pair spec with
  | nil => exact tracks
  | cons symbol rest ih =>
    have hat : stream[before.length]?=some symbol := by
      rw [hstream,List.getElem?_append_right (Nat.le_refl _),Nat.sub_self]
      rfl
    have hnext : stream=(before++[symbol])++(rest++after) := by
      rw [hstream,List.append_assoc]
      rfl
    have hconcat : (before++[symbol]).length=before.length+1 := List.length_append
    have hstep := tracks.symbol positive aligned hat
    rw [←hconcat] at hstep
    have hrest := ih hnext hstep
    rw [hconcat] at hrest
    rw [push_cons,List.length_cons,Nat.add_comm rest.length,←Nat.add_assoc]
    exact hrest

/-- A chunk keeps to the reference. -/
theorem Tracks.feed (positive : 0<limit) (aligned : Aligned newline limit stream)
    {before chunk after : List α} (hstream : stream=before++(chunk++after))
    (tracks : Tracks newline tidy limit stream.length before.length pair spec) :
    Tracks newline tidy limit stream.length (before.length+chunk.length)
      (feed newline tidy limit collect pair chunk)
      (byPosition newline tidy limit before.length spec chunk) := by
  by_cases hchunk : chunk=[]
  · subst hchunk
    exact tracks
  · rw [feed_eq_drained pair hchunk]
    exact (tracks.push positive aligned hstream).cut

/-- Two texts are cut one after the other, the second from where the first ended. -/
theorem byPosition_append (position : ℕ) (pair : List (List α)×List α) (first second : List α) :
    byPosition newline tidy limit position pair (first++second)=
      byPosition newline tidy limit (position+first.length)
        (byPosition newline tidy limit position pair first) second := by
  induction first generalizing position pair with
  | nil => rfl
  | cons symbol rest ih =>
    rw [List.cons_append,List.length_cons,Nat.add_comm rest.length,←Nat.add_assoc]
    exact ih _ _

/-- A stream in chunks keeps to the reference. -/
theorem Tracks.chunks (positive : 0<limit) (aligned : Aligned newline limit stream)
    {chunks : List (List α)} {before : List α} (hstream : stream=before++chunks.flatten)
    (tracks : Tracks newline tidy limit stream.length before.length pair spec) :
    Tracks newline tidy limit stream.length stream.length
      (chunks.foldl (LineFraming.feed newline tidy limit collect) pair)
      (byPosition newline tidy limit before.length spec chunks.flatten) := by
  induction chunks generalizing before pair spec with
  | nil =>
    rw [List.flatten_nil,List.append_nil] at hstream
    subst hstream
    exact tracks
  | cons chunk rest ih =>
    rw [List.flatten_cons] at hstream ⊢
    rw [byPosition_append,List.foldl_cons]
    have hfed := tracks.feed positive aligned hstream
    rw [←List.length_append] at hfed ⊢
    exact ih (hstream.trans (List.append_assoc ..).symm) hfed

variable (newline tidy limit) in
/-- What is delivered of an aligned stream, however it is cut. -/
def alignedFrames (stream : List α) : List (List α) :=
  let last := byPosition newline tidy limit 0 ([],[]) stream
  if last.2=[] then last.1 else last.1++[tidy last.2]

/-- An aligned stream is delivered the same in all chunks. -/
theorem frames_of_aligned (positive : 0<limit) {chunks : List (List α)}
    (aligned : Aligned newline limit chunks.flatten) :
    frames newline tidy limit chunks=alignedFrames newline tidy limit chunks.flatten := by
  have hstart : Tracks newline tidy limit chunks.flatten.length ([] : List α).length ([],[])
      ([],[]) := by
    refine ⟨drained_of_notMem List.not_mem_nil,Nat.zero_le _,?_⟩
    intro _
    exact ⟨List.not_mem_nil,(Nat.zero_mod limit).symm⟩
  have htracks : Tracks newline tidy limit chunks.flatten.length chunks.flatten.length
      (chunks.foldl (feed newline tidy limit collect) ([],[]))
      (byPosition newline tidy limit 0 ([],[]) chunks.flatten) :=
    hstart.chunks positive aligned (List.nil_append _).symm
  unfold frames feedAll alignedFrames
  rw [flush_eq_drained,htracks.drained]

/-- Symbols without a newline and inside a block stay in the buffer. -/
theorem byPosition_open {symbols : List α} (hclean : newline∉symbols) {position : ℕ}
    (hinside : position%limit+symbols.length<limit) (lines : List (List α)) (tail : List α) :
    byPosition newline tidy limit position (lines,tail) symbols=(lines,tail++symbols) := by
  induction symbols generalizing position tail with
  | nil => rw [List.append_nil]; rfl
  | cons symbol rest ih =>
    obtain ⟨hsymbol,hrest⟩ := not_or.mp fun hmem => hclean (List.mem_cons.mpr hmem)
    rw [List.length_cons] at hinside
    obtain ⟨hsucc,-⟩ := mod_succ_of_lt (by omega : position%limit+1<limit)
    dsimp only [byPosition]
    rw [if_neg (by omega),if_neg (Ne.symm hsymbol),ih hrest (by omega),List.append_assoc]
    rfl

theorem byPosition_lines (position : ℕ) (pair : List (List α)×List α) (symbols : List α) :
    pair.1 <+: (byPosition newline tidy limit position pair symbols).1 := by
  induction symbols generalizing position pair with
  | nil => exact List.prefix_rfl
  | cons symbol rest ih =>
    refine List.IsPrefix.trans ?_ (ih (position+1) _)
    split
    · exact List.prefix_append ..
    · split
      · exact List.prefix_append ..
      · exact List.prefix_rfl

/-- Behind a newline the buffer is empty. -/
theorem byPosition_newline (position : ℕ) (pair : List (List α)×List α) (front : List α) :
    (byPosition newline tidy limit position pair (front++[newline])).2=[] := by
  rw [byPosition_append]
  dsimp only [byPosition]
  split
  · rfl
  · rw [if_pos rfl]

omit [DecidableEq α] in
/-- A short line of an aligned stream lies inside one block. -/
theorem Aligned.inside (positive : 0<limit) (aligned : Aligned newline limit stream)
    {before line after : List α} (hstream : stream=before++(line++newline::after))
    (hstart : before=[] ∨ ∃ front, before=front++[newline]) (hshort : line.length+1<limit) :
    before.length%limit+line.length+1<limit := by
  have hlength : stream.length=before.length+(line.length+(after.length+1)) := by
    rw [hstream,List.length_append,List.length_append,List.length_cons]
  have hend : stream[before.length+line.length]?=some newline := by
    rw [hstream,List.getElem?_append_right (by omega),List.getElem?_append_right (by omega),
      show before.length+line.length-before.length-line.length=0 by omega]
    rfl
  have hboundary : before.length/limit< stream.length/limit → before.length%limit=0 := by
    intro hfull
    rcases hstart with hnil | ⟨front,hfront⟩
    · rw [hnil]
      exact Nat.zero_mod limit
    · have hlast : before.length=front.length+1 := by rw [hfront,List.length_append]; rfl
      have hat : stream[front.length]?=some newline := by
        rw [hstream,hfront,List.append_assoc,List.getElem?_append_right (Nat.le_refl _),
          Nat.sub_self]
        rfl
      have hle : front.length/limit≤before.length/limit :=
        Nat.div_le_div_right (by omega : front.length≤before.length)
      rw [hlast]
      exact (mod_succ_of_eq (aligned front.length hat (by omega))).1
  have hbefore := Nat.mod_add_div before.length limit
  have hlast := Nat.mod_add_div (before.length+line.length) limit
  have hmod := Nat.mod_lt (before.length+line.length) positive
  have hle : (before.length+line.length)/limit≤ stream.length/limit :=
    Nat.div_le_div_right (by omega : before.length+line.length≤ stream.length)
  by_cases hfull : before.length/limit< stream.length/limit
  · -- The line starts a full block and its newline would have to end one.
    have hzero := hboundary hfull
    obtain ⟨hdiv,hrest⟩ := (Nat.div_mod_unique positive).mpr
      (⟨by omega,by omega⟩ : line.length+limit*(before.length/limit)=before.length+line.length ∧
        line.length<limit)
    have hends := aligned (before.length+line.length) hend (by omega)
    omega
  · have hbetween : before.length/limit≤(before.length+line.length)/limit :=
      Nat.div_le_div_right (Nat.le_add_right ..)
    have hsame : (before.length+line.length)/limit=before.length/limit := by omega
    have hopen : (before.length+line.length)%limit+1≠limit := by
      intro hends
      have hnext : (before.length+line.length+1)/limit≤ stream.length/limit :=
        Nat.div_le_div_right (by omega : before.length+line.length+1≤ stream.length)
      have hdiv := (mod_succ_of_eq hends).2
      omega
    rw [hsame] at hlast
    omega

/-- A short line of an aligned stream is delivered by itself. -/
theorem mem_alignedFrames (positive : 0<limit) (aligned : Aligned newline limit stream)
    {before line after : List α} (hstream : stream=before++(line++newline::after))
    (hclean : newline∉line) (hstart : before=[] ∨ ∃ front, before=front++[newline])
    (hshort : line.length+1<limit) : tidy line∈alignedFrames newline tidy limit stream := by
  have hinside := aligned.inside positive hstream hstart hshort
  have htail : (byPosition newline tidy limit 0 ([],[]) before).2=[] := by
    rcases hstart with hnil | ⟨front,hfront⟩
    · rw [hnil]
      rfl
    · rw [hfront]
      exact byPosition_newline 0 ([],[]) front
  obtain ⟨lines,hlines⟩ : ∃ lines, byPosition newline tidy limit 0 ([],[]) before=(lines,[]) :=
    ⟨_,Prod.ext rfl htail⟩
  obtain ⟨hsucc,-⟩ := mod_succ_of_lt (by omega : before.length%limit+1<limit)
  have hmod : (before.length+line.length)%limit=before.length%limit+line.length := by
    have hparts := Nat.mod_add_div before.length limit
    exact ((Nat.div_mod_unique positive).mpr (⟨by omega,by omega⟩ :
      before.length%limit+line.length+limit*(before.length/limit)=before.length+line.length ∧
        before.length%limit+line.length<limit)).2
  obtain ⟨hnext,-⟩ := mod_succ_of_lt (by omega : (before.length+line.length)%limit+1<limit)
  have hread : byPosition newline tidy limit 0 ([],[]) stream=
      byPosition newline tidy limit (before.length+line.length+1) (lines++[tidy line],[]) after := by
    rw [hstream,byPosition_append,hlines,byPosition_append,Nat.zero_add,
      byPosition_open hclean (by omega),List.nil_append]
    dsimp only [byPosition]
    rw [if_neg (by omega),if_pos rfl]
  have hkept : lines++[tidy line] <+: (byPosition newline tidy limit 0 ([],[]) stream).1 := by
    rw [hread]
    exact byPosition_lines (before.length+line.length+1) (lines++[tidy line],[]) after
  have hmem : tidy line∈(byPosition newline tidy limit 0 ([],[]) stream).1 :=
    hkept.subset (List.mem_append_right lines List.mem_cons_self)
  unfold alignedFrames
  dsimp only
  split
  · exact hmem
  · exact List.mem_append_left _ hmem

end Aligned

section Uncapped

variable {α : Type*} [DecidableEq α] {newline : α} {tidy : List α → List α} {limit : ℕ}

variable (newline) in
/-- The line at the end of a stream that is not complete yet. -/
def openLine (stream : List α) : List α := stream.rtakeWhile fun symbol => symbol≠newline

variable (newline limit) in
/-- No chunk fills the buffer together with the line that is open before it. -/
def Uncapped (chunks : List (List α)) : Prop :=
  ∀ earlier chunk later, chunks=earlier++chunk::later →
    (openLine newline earlier.flatten).length+chunk.length<limit

variable (newline tidy) in
/-- What is delivered of a stream that is cut at its newlines only. -/
def wholeLines (stream : List α) : List (List α) := (flush newline tidy collect ([],stream)).1

/-- What stays in the buffer is the open line. -/
theorem rest_drained (lines : List (List α)) (stream : List α) :
    (drained newline tidy (lines,stream)).2=openLine newline stream := by
  induction stream using List.reverseRecOn with
  | nil => rfl
  | append_singleton front symbol ih =>
    rw [drained_concat,openLine,List.rtakeWhile_concat]
    by_cases hsymbol : symbol=newline
    · rw [if_pos hsymbol,if_neg (by simp [hsymbol])]
    · rw [if_neg hsymbol,if_pos (by simp [hsymbol]),ih]
      rfl

omit [DecidableEq α] in
/-- A short chunk is appended to the buffer. -/
theorem push_of_short {symbols : List α} {pair : List (List α)×List α}
    (hshort : pair.2.length+symbols.length<limit) :
    push limit collect pair symbols=(pair.1,pair.2++symbols) := by
  induction symbols generalizing pair with
  | nil =>
    rw [List.append_nil]
    rfl
  | cons symbol rest ih =>
    rw [List.length_cons] at hshort
    have hroom : ¬limit≤(pair.2++[symbol]).length := by
      rw [List.length_append,List.length_singleton]
      omega
    rw [push_cons,if_neg hroom,ih]
    · rw [List.append_assoc]
      rfl
    · rw [List.length_append,List.length_singleton]
      omega

/-- Taking lines out early and going on gives the lines of the whole. -/
theorem drained_append (pair : List (List α)×List α) (symbols : List α) :
    drained newline tidy ((drained newline tidy pair).1,(drained newline tidy pair).2++symbols)=
      drained newline tidy (pair.1,pair.2++symbols) := by
  have hclean : newline∉(drained newline tidy pair).2 :=
    newline_notMem_rest pair.1 List.not_mem_nil pair.2
  unfold drained at hclean ⊢
  dsimp only at hclean ⊢
  rw [drainFrom_append,drainFrom_of_notMem hclean,List.nil_append,drainFrom_append]

/-- Chunks that do not fill the buffer are cut at newlines only. -/
theorem foldl_feed_of_uncapped {chunks : List (List α)} (h : Uncapped newline limit chunks) :
    chunks.foldl (feed newline tidy limit collect) ([],[])=
      drained newline tidy ([],chunks.flatten) := by
  induction chunks using List.reverseRecOn with
  | nil => rfl
  | append_singleton earlier chunk ih =>
    have hearlier : Uncapped newline limit earlier := by
      intro front middle later hsplit
      refine h front middle (later++[chunk]) ?_
      rw [hsplit,List.append_assoc]
      rfl
    have hroom : (openLine newline earlier.flatten).length+chunk.length<limit :=
      h earlier chunk [] rfl
    rw [List.foldl_append,ih hearlier,List.foldl_cons,List.foldl_nil,List.flatten_append,
      List.flatten_singleton]
    by_cases hchunk : chunk=[]
    · rw [hchunk,List.append_nil]
      exact if_pos rfl
    · rw [←@rest_drained _ _ newline tidy []] at hroom
      rw [feed_eq_drained _ hchunk,push_of_short hroom,drained_append]

/-- A stream in chunks that do not fill the buffer is delivered line by line. -/
theorem frames_of_uncapped {chunks : List (List α)} (h : Uncapped newline limit chunks) :
    frames newline tidy limit chunks=wholeLines newline tidy chunks.flatten := by
  unfold frames feedAll wholeLines
  rw [foldl_feed_of_uncapped h,flush_eq_drained,flush_eq_drained,drained_drained]

end Uncapped

section Misaligned

variable {α : Type*} {limit : ℕ}

/-- Symbols that are appended in one go fill blocks, newlines or not. -/
theorem push_blocks (positive : 0<limit) (symbols : List α) {pair : List (List α)×List α}
    (hshort : pair.2.length<limit) :
    ∃ blocks, (push limit collect pair symbols).1=pair.1++blocks ∧
      blocks.length=(pair.2.length+symbols.length)/limit ∧
      (∀ block∈blocks, block.length=limit) ∧
      blocks.flatten++(push limit collect pair symbols).2=pair.2++symbols ∧
      (push limit collect pair symbols).2.length=(pair.2.length+symbols.length)%limit := by
  induction symbols generalizing pair with
  | nil =>
    refine ⟨[],(List.append_nil _).symm,(Nat.div_eq_of_lt hshort).symm,?_,
      (List.append_nil _).symm,(Nat.mod_eq_of_lt hshort).symm⟩
    intro block hblock
    cases hblock
  | cons symbol rest ih =>
    obtain ⟨lines,buffer⟩ := pair
    rw [push_cons]
    dsimp only at hshort ⊢
    rw [List.length_append,List.length_singleton]
    by_cases hfull : limit≤buffer.length+1
    · rw [if_pos hfull]
      have hempty : (lines++[buffer++[symbol]],([] : List α)).2.length<limit := positive
      obtain ⟨blocks,hlines,hcount,hlengths,hcontent,hlength⟩ := ih hempty
      have htotal : buffer.length+(symbol::rest).length=limit+rest.length := by
        rw [List.length_cons]
        omega
      dsimp only [List.length_nil] at hlines hcount hcontent hlength
      rw [Nat.zero_add] at hcount hlength
      refine ⟨(buffer++[symbol])::blocks,?_,?_,?_,?_,?_⟩
      · rw [hlines,List.append_assoc]
        rfl
      · rw [List.length_cons,hcount,htotal,Nat.add_div_left _ positive]
      · intro block hblock
        rcases List.mem_cons.mp hblock with hfirst | hrest
        · rw [hfirst,List.length_append,List.length_singleton]
          omega
        · exact hlengths block hrest
      · rw [List.flatten_cons,List.append_assoc,hcontent,List.append_assoc]
        rfl
      · rw [hlength,htotal,Nat.add_mod_left]
    · rw [if_neg hfull]
      have hlonger : (lines,buffer++[symbol]).2.length<limit := by
        rw [List.length_append,List.length_singleton]
        omega
      obtain ⟨blocks,hlines,hcount,hlengths,hcontent,hlength⟩ := ih hlonger
      have htotal : (buffer++[symbol]).length+rest.length=buffer.length+(symbol::rest).length := by
        rw [List.length_append,List.length_singleton,List.length_cons]
        omega
      dsimp only at hlines hcount hcontent hlength
      rw [htotal] at hcount hlength
      refine ⟨blocks,hlines,hcount,hlengths,?_,hlength⟩
      rw [List.append_assoc] at hcontent
      exact hcontent

/-- Pushing keeps the lines that are out. -/
theorem push_lines (symbols : List α) (pair : List (List α)×List α) :
    pair.1 <+: (push limit collect pair symbols).1 := by
  induction symbols generalizing pair with
  | nil => exact List.prefix_rfl
  | cons symbol rest ih =>
    rw [push_cons]
    refine List.IsPrefix.trans ?_ (ih _)
    split
    · exact List.prefix_append ..
    · exact List.prefix_rfl

variable [DecidableEq α] {newline : α} {tidy : List α → List α}

theorem drainFrom_lines (lines : List (List α)) (line rest : List α) :
    lines <+: (drainFrom newline tidy (always collect) lines line rest).state := by
  induction rest generalizing lines line with
  | nil => exact List.prefix_rfl
  | cons symbol rest ih =>
    by_cases hsymbol : symbol=newline
    · subst hsymbol
      rw [drainFrom_newline]
      exact (List.prefix_append ..).trans (ih _ _)
    · rw [drainFrom_of_ne hsymbol]
      exact ih _ _

variable (tidy) in
/-- A newline in the buffer ends a line shorter than the buffer. -/
theorem drainFrom_first {rest : List α} (h : newline∈rest) (lines : List (List α))
    (line : List α) :
    ∃ first, lines++[tidy first] <+:
        (drainFrom newline tidy (always collect) lines line rest).state ∧
      first.length<line.length+rest.length := by
  induction rest generalizing line with
  | nil => cases h
  | cons symbol rest ih =>
    rw [List.length_cons]
    by_cases hsymbol : symbol=newline
    · subst hsymbol
      rw [drainFrom_newline]
      exact ⟨line,drainFrom_lines _ _ _,by omega⟩
    · rw [drainFrom_of_ne hsymbol]
      have hrest : newline∈rest := (List.mem_cons.mp h).resolve_left (Ne.symm hsymbol)
      obtain ⟨first,hfirst,hlength⟩ := ih hrest (line++[symbol])
      rw [List.length_append,List.length_singleton] at hlength
      exact ⟨first,hfirst,by omega⟩

theorem drained_lines (pair : List (List α)×List α) :
    pair.1 <+: (drained newline tidy pair).1 := drainFrom_lines ..

theorem flush_lines (pair : List (List α)×List α) :
    pair.1 <+: (flush newline tidy collect pair).1 := by
  rw [flush_eq_drained]
  split
  · exact drained_lines pair
  · exact (drained_lines pair).trans (List.prefix_append ..)

/-- What has been delivered stays delivered. -/
theorem foldl_feed_lines (chunks : List (List α)) (pair : List (List α)×List α) :
    pair.1 <+: (chunks.foldl (feed newline tidy limit collect) pair).1 := by
  induction chunks generalizing pair with
  | nil => exact List.prefix_rfl
  | cons chunk rest ih =>
    rw [List.foldl_cons]
    refine List.IsPrefix.trans ?_ (ih _)
    by_cases hchunk : chunk=[]
    · subst hchunk
      exact List.prefix_rfl
    · rw [feed_eq_drained pair hchunk]
      exact (push_lines chunk pair).trans (drained_lines _)

/-- The first chunk fixes the first lines that are delivered. -/
theorem frames_cons {chunk : List α} (hchunk : chunk≠[]) (rest : List (List α)) :
    (drained newline tidy (push limit collect ([],[]) chunk)).1 <+:
      frames newline tidy limit (chunk::rest) := by
  unfold frames feedAll
  rw [List.foldl_cons,feed_eq_drained ([],[]) hchunk]
  exact (foldl_feed_lines rest _).trans (flush_lines _)

variable (newline tidy) in
/-- In one chunk, the block around a misaligned newline is delivered as it
is. -/
theorem frames_one_chunk (positive : 0<limit) {stream : List α} {block : ℕ}
    (h : block< stream.length/limit) :
    ∃ line, (frames newline tidy limit [stream])[block]?=some line ∧ line.length=limit := by
  have hstream : stream≠[] := by
    rintro rfl
    rw [List.length_nil,Nat.zero_div] at h
    omega
  obtain ⟨blocks,hlines,hcount,hlengths,-,-⟩ := push_blocks positive stream
    (show (([],[]) : List (List α)×List α).2.length<limit from positive)
  rw [List.nil_append] at hlines
  dsimp only [List.length_nil] at hcount
  rw [Nat.zero_add] at hcount
  have hkept : blocks <+: frames newline tidy limit [stream] :=
    hlines ▸ (drained_lines _).trans (frames_cons hstream [])
  have hbound : block<blocks.length := by omega
  refine ⟨blocks[block],?_,hlengths _ (List.getElem_mem hbound)⟩
  exact List.prefix_iff_getElem?.mp hkept block hbound

/-- A chunk that ends with a misaligned newline delivers a shorter line in
place of its block. -/
theorem frames_cut_chunk (positive : 0<limit) (shrinks : ∀ line, (tidy line).length≤line.length)
    {stream : List α} {i : ℕ} (hat : stream[i]?=some newline) (hopen : i%limit+1<limit) :
    ∃ line, (frames newline tidy limit [stream.take (i+1),stream.drop (i+1)])[i/limit]?=some line ∧
      line.length<limit := by
  have hbound : i< stream.length := (List.getElem?_eq_some_iff.mp hat).1
  have htake : (stream.take (i+1)).length=i+1 := by
    rw [List.length_take]
    omega
  have hfirst : stream.take (i+1)≠[] := by
    intro hnil
    rw [hnil,List.length_nil] at htake
    omega
  obtain ⟨blocks,hlines,hcount,-,hcontent,hlength⟩ := push_blocks positive (stream.take (i+1))
    (show (([],[]) : List (List α)×List α).2.length<limit from positive)
  obtain ⟨hmod,hdiv⟩ := mod_succ_of_lt hopen
  rw [List.nil_append] at hlines hcontent
  dsimp only [List.length_nil] at hcount hlength
  rw [Nat.zero_add,htake,hdiv] at hcount
  rw [Nat.zero_add,htake,hmod] at hlength
  have hlast : (stream.take (i+1)).getLast?=some newline := by
    rw [List.getLast?_eq_getElem?,htake,List.getElem?_take_of_lt (by omega)]
    exact hat
  have hmem : newline∈(push limit collect ([],[]) (stream.take (i+1))).2 := by
    rw [←hcontent,List.getLast?_append_of_ne_nil] at hlast
    · exact List.mem_of_getLast? hlast
    · intro hnil
      rw [hnil,List.length_nil] at hlength
      omega
  obtain ⟨first,hkept,hshorter⟩ := drainFrom_first tidy hmem
    (push limit collect ([],[]) (stream.take (i+1))).1 []
  have hframes : blocks++[tidy first] <+:
      frames newline tidy limit [stream.take (i+1),stream.drop (i+1)] := by
    rw [←hlines]
    exact hkept.trans (frames_cons hfirst _)
  refine ⟨tidy first,?_,?_⟩
  · obtain ⟨more,hmore⟩ := hframes
    rw [←hmore,List.append_assoc,List.getElem?_append_right (by omega),hcount,Nat.sub_self]
    rfl
  · have hshrinks := shrinks first
    rw [List.length_nil,Nat.zero_add,hlength] at hshorter
    omega

/-- A stream is delivered the same in all chunks exactly when it is
aligned. -/
theorem frames_eq_iff_aligned (positive : 0<limit)
    (shrinks : ∀ line, (tidy line).length≤line.length) (stream : List α) :
    (∀ first second : List (List α), first.flatten=stream → second.flatten=stream →
      frames newline tidy limit first=frames newline tidy limit second) ↔
      Aligned newline limit stream := by
  constructor
  · intro hsame i hat hfull
    by_contra hmisaligned
    have hmod := Nat.mod_lt i positive
    obtain ⟨long,hlong,hwhole⟩ := frames_one_chunk newline tidy positive hfull
    obtain ⟨short,hshort,hpart⟩ := frames_cut_chunk positive shrinks hat (by omega)
    have hframes := hsame [stream] [stream.take (i+1),stream.drop (i+1)] (List.flatten_singleton)
      (by rw [List.flatten_cons,List.flatten_singleton,List.take_append_drop])
    rw [hframes,hshort] at hlong
    have hline := Option.some.inj hlong
    rw [hline] at hpart
    omega
  · intro aligned first second hfirst hsecond
    subst hfirst
    rw [frames_of_aligned positive aligned,frames_of_aligned positive (hsecond ▸ aligned),hsecond]

end Misaligned

end Vinput.LineFraming
