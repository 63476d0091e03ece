import Vinput.Segmentation

/-!
# Grapheme clusters and their width

The segmentation and the display width of unicodelib. The tables of Unicode are
parameters; what they say of a full stop is known. A text with full stops put
in the middle is never wider than its parts.
-/

namespace Vinput.GraphemeClusters

open Segmentation

section Tables

/-- What a code point does at the border of a cluster. -/
inductive GraphemeBreak where
  | unassigned | prepend | cr | lf | control | extend | regionalIndicator | spacingMark
  | l | v | t | lv | lvt | zwj
deriving DecidableEq

/-- Whether a code point can be part of a picture. -/
inductive Emoji where
  | unassigned | emoji | emojiPresentation | emojiModifier | emojiModifierBase | emojiComponent
  | extendedPictographic
deriving DecidableEq

/-- The columns a code point takes in East Asian text. -/
inductive EastAsianWidth where
  | neutral | ambiguous | halfwidth | wide | fullwidth | narrow
deriving DecidableEq

/-- The categories the width looks at. -/
inductive GeneralCategory where
  | lu | ll | lt | lm | lo | mn | mc | me | nd | nl | no | pc | pd | ps | pe | pi | pf | po
  | sm | sc | sk | so | zs | zl | zp | cc | cf | cs | co | cn
deriving DecidableEq

/-- The tables, with the rows of the full stop. -/
structure Tables where
  graphemeBreak : UInt32 → GraphemeBreak
  emoji : UInt32 → Emoji
  eastAsianWidth : UInt32 → EastAsianWidth
  generalCategory : UInt32 → GeneralCategory
  isIndicConjunctBreakLinker : UInt32 → Bool
  isIndicConjunctBreakConsonant : UInt32 → Bool
  isIndicConjunctBreakExtend : UInt32 → Bool
  stopBreak : graphemeBreak 0x2E=.unassigned
  stopEmoji : emoji 0x2E=.unassigned
  stopWidth : eastAsianWidth 0x2E=.narrow
  stopCategory : generalCategory 0x2E=.po
  stopLinker : isIndicConjunctBreakLinker 0x2E=false
  stopConsonant : isIndicConjunctBreakConsonant 0x2E=false
  stopExtend : isIndicConjunctBreakExtend 0x2E=false

end Tables

section Boundaries

variable (tables : Tables)

/-- A linker stands before extending characters. -/
def linkerBehind (front : List UInt32) : Bool :=
  (front.dropWhile tables.isIndicConjunctBreakExtend).head?.any tables.isIndicConjunctBreakLinker

/-- A pictograph stands before extending characters. -/
def pictographBehind (front : List UInt32) : Bool :=
  (front.dropWhile fun cp => decide (tables.graphemeBreak cp=.extend)).head?.any
    fun cp => decide (tables.emoji cp=.extendedPictographic)

/-- What is left before pairs of regional indicators. -/
def skipPairs : List UInt32 → List UInt32
  | first::second::rest =>
    if tables.graphemeBreak first=.regionalIndicator ∧
        tables.graphemeBreak second=.regionalIndicator then skipPairs rest
    else first::second::rest
  | front => front

/-- No single regional indicator stands before pairs of them. -/
def pairsBehind (front : List UInt32) : Bool :=
  (skipPairs tables front).head?.all fun cp => decide (tables.graphemeBreak cp≠.regionalIndicator)

/-- A cluster ends in front of a code point; the code points before it are read
backwards. -/
def isGraphemeBoundary (front : List UInt32) (next : UInt32) : Bool :=
  match front with
  | [] => true
  | last::before =>
    let lp := tables.graphemeBreak last
    let rp := tables.graphemeBreak next
    if lp=.cr ∧ rp=.lf then false
    else if lp=.control ∨ lp=.cr ∨ lp=.lf then true
    else if rp=.control ∨ rp=.cr ∨ rp=.lf then true
    else if lp=.l ∧ (rp=.l ∨ rp=.v ∨ rp=.lv ∨ rp=.lvt) then false
    else if (lp=.lv ∨ lp=.v) ∧ (rp=.v ∨ rp=.t) then false
    else if (lp=.lvt ∨ lp=.t) ∧ rp=.t then false
    else if rp=.extend ∨ rp=.zwj then false
    else if rp=.spacingMark then false
    else if lp=.prepend then false
    else if tables.isIndicConjunctBreakConsonant next ∧ linkerBehind tables (last::before) then false
    else if lp=.zwj ∧ tables.emoji next=.extendedPictographic ∧ pictographBehind tables before then
      false
    else if lp=.regionalIndicator ∧ rp=.regionalIndicator ∧ pairsBehind tables before then false
    else true

/-- The clusters of a text. -/
def graphemes (text : List UInt32) : List (List UInt32) :=
  segments (isGraphemeBoundary tables) text

end Boundaries

section Widths

variable (tables : Tables)

/-- Columns of a code point; an ambiguous one has two. -/
def codepointWidth (cp : UInt32) : ℕ :=
  if cp=0 then 0
  else if tables.generalCategory cp=.cc ∨ tables.generalCategory cp=.cf ∨
      tables.generalCategory cp=.mn ∨ tables.generalCategory cp=.me then 0
  else if tables.eastAsianWidth cp=.wide ∨ tables.eastAsianWidth cp=.fullwidth then 2
  else if tables.emoji cp=.emojiPresentation then 2
  else if tables.eastAsianWidth cp=.ambiguous then 2
  else 1

/-- Columns of a cluster. A variation selector or a flag decides them before the
first code point does. -/
def clusterWidth : List UInt32 → ℕ
  | [] => 0
  | first::rest =>
    if 0x1F1E6 ≤ first ∧ first ≤ 0x1F1FF then 2
    else if 0xFE0F∈first::rest then 2
    else if 0xFE0E∈first::rest then 1
    else codepointWidth tables first

/-- Columns of a text. -/
def width (text : List UInt32) : ℕ := total (isGraphemeBoundary tables) (clusterWidth tables) text

end Widths

section FullStops

variable (tables : Tables) {front before : List UInt32} {next : UInt32}

theorem stop_width : codepointWidth tables 0x2E=1 := by
  unfold codepointWidth
  rw [tables.stopCategory,tables.stopWidth,tables.stopEmoji]
  decide

/-- A full stop ends what is dropped. -/
theorem head_dropWhile_stop {property : UInt32 → Bool} (h : property 0x2E=false)
    (more before : List UInt32) :
    ((more++0x2E::before).dropWhile property).head?=((more++[0x2E]).dropWhile property).head? := by
  induction more with
  | nil => simp [h]
  | cons cp more ih =>
    rw [List.cons_append,List.cons_append,List.dropWhile_cons,List.dropWhile_cons]
    split
    · exact ih
    · rfl

/-- What is behind a full stop does not count. -/
theorem any_dropWhile_stop {property chosen : UInt32 → Bool} (h : chosen 0x2E=false)
    (front : List UInt32) :
    ((front++[0x2E]).dropWhile property).head?.any chosen=
      (front.dropWhile property).head?.any chosen := by
  induction front with
  | nil =>
    cases hstop : property 0x2E
    · simp [hstop,h]
    · simp [hstop]
  | cons cp front ih =>
    rw [List.cons_append,List.dropWhile_cons,List.dropWhile_cons]
    split
    · exact ih
    · rfl

/-- A full stop is no part of a flag. -/
theorem stop_not_indicator : tables.graphemeBreak 0x2E≠.regionalIndicator := by
  rw [tables.stopBreak]
  decide

theorem head_skipPairs_stop (more before : List UInt32) :
    (skipPairs tables (more++0x2E::before)).head?=(skipPairs tables (more++[0x2E])).head? := by
  have hstop := stop_not_indicator tables
  fun_induction skipPairs tables more with
  | case1 first second rest hpair ih =>
    rw [List.cons_append,List.cons_append,skipPairs,if_pos hpair,List.cons_append,List.cons_append,
      skipPairs,if_pos hpair]
    exact ih
  | case2 first second rest hpair =>
    rw [List.cons_append,List.cons_append,skipPairs,if_neg hpair,List.cons_append,List.cons_append,
      skipPairs,if_neg hpair]
    rfl
  | case3 front hshort =>
    rcases front with _ | ⟨first,_ | ⟨second,rest⟩⟩
    · cases before <;> simp [skipPairs,hstop]
    · simp [skipPairs,hstop]
    · exact absurd rfl (hshort first second rest)

theorem pairsBehind_stop (front : List UInt32) :
    pairsBehind tables (front++[0x2E])=pairsBehind tables front := by
  have hstop := stop_not_indicator tables
  unfold pairsBehind
  fun_induction skipPairs tables front with
  | case1 first second rest hpair ih =>
    rw [List.cons_append,List.cons_append,skipPairs,if_pos hpair]
    exact ih
  | case2 first second rest hpair =>
    rw [List.cons_append,List.cons_append,skipPairs,if_neg hpair]
    rfl
  | case3 front hshort =>
    rcases front with _ | ⟨first,_ | ⟨second,rest⟩⟩
    · simp [skipPairs,hstop]
    · simp [skipPairs,hstop]
    · exact absurd rfl (hshort first second rest)

/-- A boundary depends on the last code point and on what stands behind it. -/
theorem boundary_congr {last : UInt32} {front other : List UInt32}
    (hlinker : linkerBehind tables (last::front)=linkerBehind tables (last::other))
    (hpictograph : pictographBehind tables front=pictographBehind tables other)
    (hpairs : pairsBehind tables front=pairsBehind tables other) (next : UInt32) :
    isGraphemeBoundary tables (last::front) next=isGraphemeBoundary tables (last::other) next := by
  unfold isGraphemeBoundary
  dsimp only
  rw [hlinker,hpictograph,hpairs]

/-- What stands before a full stop does not matter behind it. -/
theorem boundary_before_stop (before more : List UInt32) (next : UInt32) :
    isGraphemeBoundary tables (more++0x2E::before) next=
      isGraphemeBoundary tables (more++[0x2E]) next := by
  have hextend : decide (tables.graphemeBreak 0x2E=.extend)=false := by
    rw [tables.stopBreak]
    rfl
  cases more with
  | nil =>
    unfold isGraphemeBoundary linkerBehind
    simp [tables.stopBreak,tables.stopExtend,tables.stopLinker]
  | cons last more =>
    apply boundary_congr
    · unfold linkerBehind
      exact congrArg (Option.any _) (head_dropWhile_stop tables.stopExtend (last::more) before)
    · unfold pictographBehind
      exact congrArg (Option.any _) (head_dropWhile_stop hextend more before)
    · unfold pairsBehind
      exact congrArg (Option.all _) (head_skipPairs_stop tables more before)

/-- A full stop in front of a segment does not matter behind its first code point. -/
theorem boundary_behind_stop (first : UInt32) (more : List UInt32) (next : UInt32) :
    isGraphemeBoundary tables (more++[first,0x2E]) next=
      isGraphemeBoundary tables (more++[first]) next := by
  have hemoji : decide (tables.emoji 0x2E=.extendedPictographic)=false := by
    rw [tables.stopEmoji]
    rfl
  have hstop : ∀ last front, isGraphemeBoundary tables (last::(front++[0x2E])) next=
      isGraphemeBoundary tables (last::front) next := by
    intro last front
    apply boundary_congr
    · exact any_dropWhile_stop tables.stopLinker (last::front)
    · exact any_dropWhile_stop hemoji front
    · exact pairsBehind_stop tables front
  cases more with
  | nil => exact hstop first []
  | cons last more =>
    have htext : last::more++[first,0x2E]=last::((more++[first])++[0x2E]) := by simp
    rw [htext]
    exact hstop last (more++[first])

end FullStops

section Junctions

variable (tables : Tables)

theorem stop_not_flag : ¬((0x1F1E6 : UInt32) ≤ 0x2E ∧ (0x2E : UInt32) ≤ 0x1F1FF) := by decide

/-- A variation selector decides the width of a cluster that begins with a full stop. -/
theorem clusterWidth_stop_eq (rest : List UInt32) : clusterWidth tables (0x2E::rest)=
    if 0xFE0F∈rest then 2 else 1 := by
  have hwide : (0xFE0F : UInt32)∈0x2E::rest ↔ 0xFE0F∈rest := by simp
  unfold clusterWidth
  dsimp only
  rw [if_neg stop_not_flag,stop_width,ite_self]
  simp only [hwide]

/-- A cluster of a full stop is one column wide. -/
theorem clusterWidth_stop : clusterWidth tables [0x2E]=1 := by
  rw [clusterWidth_stop_eq,if_neg (by simp)]

/-- A cluster with a picture selector is two columns wide. -/
theorem clusterWidth_of_selector {cluster : List UInt32} (h : 0xFE0F∈cluster) :
    clusterWidth tables cluster=2 := by
  cases cluster with
  | nil => cases h
  | cons first rest =>
    unfold clusterWidth
    dsimp only
    rw [if_pos h,ite_self]

/-- Two clusters that a full stop joins. -/
theorem clusterWidth_join (front behind : List UInt32) (h : front≠[]) :
    clusterWidth tables (front++0x2E::behind) ≤
      clusterWidth tables front+clusterWidth tables (0x2E::behind) := by
  obtain ⟨first,rest,rfl⟩ := List.exists_cons_of_ne_nil h
  have hstop := clusterWidth_stop_eq tables behind
  by_cases hwide : 0xFE0F∈behind
  · rw [clusterWidth_of_selector tables (by simp [hwide]),hstop,if_pos hwide]
    omega
  · have hsame : (0xFE0F : UInt32)∈first::rest++0x2E::behind ↔ 0xFE0F∈first::rest := by
      simp [hwide]
    rw [hstop,if_neg hwide]
    unfold clusterWidth
    rw [List.cons_append]
    rw [List.cons_append] at hsame
    dsimp only
    simp only [hsame]
    by_cases hflag : 0x1F1E6 ≤ first ∧ first ≤ 0x1F1FF
    · simp only [if_pos hflag]
      omega
    · simp only [if_neg hflag]
      by_cases hselector : 0xFE0F∈first::rest
      · simp only [if_pos hselector]
        omega
      · simp only [if_neg hselector]
        by_cases hnarrow : 0xFE0E∈first::rest
        · have hin : 0xFE0E∈first::(rest++0x2E::behind) := by
            rw [←List.cons_append]
            exact List.mem_append_left _ hnarrow
          rw [if_pos hnarrow,if_pos hin]
          omega
        · rw [if_neg hnarrow]
          split <;> omega

/-- A full stop that is joined to the cluster behind it. -/
theorem clusterWidth_stop_cons (first : UInt32) (rest : List UInt32) :
    clusterWidth tables (0x2E::first::rest) ≤ 1+clusterWidth tables (first::rest) := by
  rw [clusterWidth_stop_eq]
  split
  · rename_i hwide
    rw [clusterWidth_of_selector tables hwide]
    omega
  · omega

/-- A full stop starts a cluster of its own, or the width is less. -/
theorem totalFrom_stop {last : List UInt32} (h : last≠[]) (text : List UInt32) :
    totalFrom (isGraphemeBoundary tables) (clusterWidth tables) last (0x2E::text) ≤
      clusterWidth tables last.reverse+
        totalFrom (isGraphemeBoundary tables) (clusterWidth tables) [0x2E] text := by
  cases hcut : isGraphemeBoundary tables last 0x2E with
  | true =>
    rw [totalFrom_cut hcut]
    exact le_rfl
  | false =>
    rw [totalFrom_join hcut]
    refine totalFrom_le (fun more next => boundary_before_stop tables last more next) ?_ text []
    intro more
    rw [List.reverse_append,List.reverse_append,List.reverse_cons,List.append_assoc]
    exact clusterWidth_join tables _ _ (by simpa using h)

/-- A full stop in front of a text adds at most its own width. -/
theorem totalFrom_stop_le (text : List UInt32) :
    totalFrom (isGraphemeBoundary tables) (clusterWidth tables) [0x2E] text ≤
      1+width tables text := by
  cases text with
  | nil =>
    have hstop := clusterWidth_stop tables
    simp [totalFrom,segmentsFrom,hstop]
  | cons first rest =>
    cases hcut : isGraphemeBoundary tables [0x2E] first with
    | true =>
      rw [totalFrom_cut hcut,List.reverse_singleton,clusterWidth_stop]
      exact le_rfl
    | false =>
      rw [totalFrom_join hcut]
      refine totalFrom_le (fun more next => boundary_behind_stop tables first more next) ?_ rest []
      intro more
      rw [List.reverse_append,List.reverse_append]
      exact clusterWidth_stop_cons tables first more.reverse

/-- Three full stops between two texts add at most their own width. -/
theorem width_joined_le (head tail : List UInt32) :
    width tables (head++[0x2E,0x2E,0x2E]++tail) ≤ width tables head+3+width tables tail := by
  have hstops : totalFrom (isGraphemeBoundary tables) (clusterWidth tables) [0x2E]
      (0x2E::0x2E::tail) ≤ 3+width tables tail := by
    have hfirst := totalFrom_stop tables (by simp : [(0x2E : UInt32)]≠[]) (0x2E::tail)
    have hsecond := totalFrom_stop tables (by simp : [(0x2E : UInt32)]≠[]) tail
    have htail := totalFrom_stop_le tables tail
    rw [List.reverse_singleton,clusterWidth_stop] at hfirst hsecond
    omega
  by_cases hhead : head=[]
  · rw [hhead]
    exact hstops.trans (by simp)
  · obtain ⟨sum,last,hlast,htotal,happend⟩ :=
      @total_append _ (isGraphemeBoundary tables) _ hhead (clusterWidth tables)
    have hfirst := totalFrom_stop tables hlast (0x2E::0x2E::tail)
    have hwhole := happend (0x2E::0x2E::0x2E::tail)
    unfold width at hstops ⊢
    rw [List.append_assoc,List.cons_append,List.cons_append,List.singleton_append,hwhole,htotal]
    omega

end Junctions

end Vinput.GraphemeClusters
