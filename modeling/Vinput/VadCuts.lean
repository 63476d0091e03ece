import Vinput.VadSegmentation

/-!
# Padded cuts around speech

Each range of speech is widened by the pad and limited by the cut before it,
by the next range and by the end of the audio. A clamp with its bounds in the
wrong order has no result here. Positions are signed, as in the source.
-/

namespace Vinput.VadCuts

open Vinput.VadSegmentation

section Segment

variable {α : Type*}

/-- Samples from a position up to another. -/
structure Range where
  start : ℤ
  stop : ℤ
deriving DecidableEq

/-- Speech as the detector reports it. -/
structure VadSegment (α : Type*) where
  start : ℤ
  samples : List α

/-- The parameters of the trimming. -/
structure VadTrimParams where
  maxSpeechDuration : Duration
  speechPadMs : Int32

/-- The rate a trimmer was made for and its parameters. -/
structure VadTrimmer where
  sampleRate : Int32
  params : VadTrimParams

/-- Ranges of the segments that hold samples. -/
def detectedRanges (segments : List (VadSegment α)) : List Range :=
  (segments.filter fun segment => !segment.samples.isEmpty).map fun segment =>
    ⟨segment.start,segment.start+segment.samples.length⟩

/-- The rate the trimming counts with. -/
def VadTrimmer.effectiveRate (trimmer : VadTrimmer) (sampleRate : Int32) : Int32 :=
  if 0< sampleRate then sampleRate else trimmer.sampleRate

/-- The padding in samples. -/
def VadTrimmer.paddingSamples (trimmer : VadTrimmer) (sampleRate : Int32) : ℤ :=
  max 0 ((trimmer.params.speechPadMs.toInt*(trimmer.effectiveRate sampleRate).toInt).tdiv 1000)

/-- The longest segment. -/
def VadTrimmer.maxDuration (trimmer : VadTrimmer) : Duration :=
  match trimmer.params.maxSpeechDuration with
  | .finite seconds => if 0< seconds then .finite seconds else .finite 15
  | _ => .finite 15

/-- A value between two bounds, which must be in order. -/
def clamp (value low high : ℤ) : Option ℤ :=
  if high<low then none
  else some (if value<low then low else if high<value then high else value)

/-- Where a cut is to stop: the last one is padded, the others share the gap
before the next range. -/
def wantedStop (padding total : ℤ) (range : Range) : Option Range → ℤ
  | none => min total (range.stop+padding)
  | some next =>
    let gap := next.start-range.stop
    if 2*padding ≤ gap then range.stop+padding
    else if 0<gap then range.stop+gap/2
    else range.stop

/-- Cuts for the ranges behind the end of the cut before them. -/
def cutsFrom (padding total lastCutEnd : ℤ) : List Range → Option (List Range)
  | [] => some []
  | range::rest => do
    let cutStart := max (max lastCutEnd 0) (range.start-padding)
    let cutEnd ← clamp (wantedStop padding total range rest.head?) cutStart total
    let cuts ← cutsFrom padding total cutEnd rest
    return ⟨cutStart,cutEnd⟩::cuts

/-- Samples of a cut. -/
def cutSamples (samples : List α) (cut : Range) : List α :=
  (samples.drop cut.start.toNat).take (cut.stop-cut.start).toNat

/-- The ranges that are kept. -/
def cutsOf (trimmer : VadTrimmer) (samples : List α) (sampleRate : Int32)
    (segments : List (VadSegment α)) : Option (List Range) :=
  cutsFrom (trimmer.paddingSamples sampleRate) samples.length 0 (detectedRanges segments)

/-- Segments for the recogniser; `none` as detector means that none is loaded. -/
def segment (trimmer : VadTrimmer) (vad : Option (List (VadSegment α))) (samples : List α)
    (sampleRate : Int32) : Option (List (List α)) :=
  match vad with
  | none => some [samples]
  | some segments =>
    if samples=[] then some [samples]
    else if detectedRanges segments=[] then some []
    else
      (cutsOf trimmer samples sampleRate segments).map fun cuts =>
        let rawSegments := (cuts.filter fun cut => cut.start<cut.stop).map (cutSamples samples)
        coalesceAndSliceSegments rawSegments (trimmer.effectiveRate sampleRate)
          trimmer.maxDuration (.finite (1/2))

end Segment

section Cuts

/-- A position is in a range. -/
def Range.Holds (range : Range) (position : ℤ) : Prop :=
  range.start ≤ position ∧ position<range.stop

instance (range : Range) (position : ℤ) : Decidable (range.Holds position) :=
  inferInstanceAs (Decidable (_ ∧ _))

/-- Ranges that start in the audio, are not empty and do not overlap. -/
structure Detected (total : ℤ) (ranges : List Range) : Prop where
  inside : ∀ range∈ranges, 0 ≤ range.start ∧ range.start<total
  nonempty : ∀ range∈ranges, range.start<range.stop
  increasing : ranges.Pairwise fun first second => first.stop ≤ second.start

/-- Cuts behind a position that are in order and keep the speech of the ranges. -/
structure CutsFor (padding total lastCutEnd : ℤ) (ranges cuts : List Range) : Prop where
  behind : ∀ cut∈cuts, lastCutEnd ≤ cut.start
  inside : ∀ cut∈cuts, 0 ≤ cut.start ∧ cut.start ≤ cut.stop ∧ cut.stop ≤ total
  ordered : cuts.Pairwise fun first second => first.stop ≤ second.start
  complete : ∀ range∈ranges, ∀ position, range.Holds position → position<total →
    ∃ cut∈cuts, cut.Holds position
  near : ∀ cut∈cuts, ∀ position, cut.Holds position →
    ∃ range∈ranges, range.start-padding ≤ position ∧ position<range.stop+padding

variable {padding total lastCutEnd : ℤ} {range : Range} {rest : List Range}

/-- Ranges behind the first are detected too. -/
theorem Detected.tail (h : Detected total (range::rest)) : Detected total rest where
  inside := fun other hother => h.inside other (List.mem_cons_of_mem _ hother)
  nonempty := fun other hother => h.nonempty other (List.mem_cons_of_mem _ hother)
  increasing := (List.pairwise_cons.mp h.increasing).2

/-- A clamped value is between its bounds and no further off than it was. -/
theorem clamp_spec {value low high : ℤ} (h : low ≤ high) :
    ∃ result, clamp value low high=some result ∧ low ≤ result ∧ result ≤ high ∧
      min value high ≤ result ∧ result ≤ max value low := by
  rw [clamp,if_neg (by omega)]
  refine ⟨_,rfl,?_⟩
  split_ifs <;> omega

/-- A wanted stop keeps the range, stays in the pad and leaves the later ranges. -/
theorem wantedStop_bounds (h : Detected total (range::rest)) (hpadding : 0 ≤ padding) :
    min range.stop total ≤ wantedStop padding total range rest.head? ∧
      wantedStop padding total range rest.head? ≤ range.stop+padding ∧
      ∀ next∈rest, wantedStop padding total range rest.head? ≤ next.start := by
  cases rest with
  | nil =>
    simp only [List.head?_nil,wantedStop,List.not_mem_nil,false_implies,implies_true,and_true]
    omega
  | cons next later =>
    have hnext : range.stop ≤ next.start :=
      (List.pairwise_cons.mp h.increasing).1 next List.mem_cons_self
    have hlater : ∀ other∈next::later, next.start ≤ other.start := by
      intro other hother
      rcases List.mem_cons.mp hother with rfl | hother
      · exact le_rfl
      · have hpair := (List.pairwise_cons.mp h.tail.increasing).1 other hother
        have hnonempty := h.nonempty next (by simp)
        omega
    have hbound : min range.stop total ≤ wantedStop padding total range (some next) ∧
        wantedStop padding total range (some next) ≤ range.stop+padding ∧
        wantedStop padding total range (some next) ≤ next.start := by
      dsimp only [wantedStop]
      split_ifs <;> omega
    refine ⟨hbound.1,hbound.2.1,fun other hother => ?_⟩
    exact hbound.2.2.trans (hlater other hother)

/-- One cut: its clamp is in order, and it leaves room for the later ranges. -/
theorem cut_spec (h : Detected total (range::rest)) (hpadding : 0 ≤ padding)
    (hlast : ∀ other∈range::rest, lastCutEnd ≤ other.start) :
    ∃ cutEnd, clamp (wantedStop padding total range rest.head?)
        (max (max lastCutEnd 0) (range.start-padding)) total=some cutEnd ∧
      max (max lastCutEnd 0) (range.start-padding) ≤ cutEnd ∧ cutEnd ≤ total ∧
      min range.stop total ≤ cutEnd ∧ cutEnd ≤ range.stop+padding ∧
      ∀ next∈rest, cutEnd ≤ next.start := by
  obtain ⟨hnonnegative,hinside⟩ := h.inside range List.mem_cons_self
  have hnonempty := h.nonempty range List.mem_cons_self
  have hbehind := hlast range List.mem_cons_self
  obtain ⟨hkeeps,hpadded,hleaves⟩ := wantedStop_bounds h hpadding
  have hstart : max (max lastCutEnd 0) (range.start-padding) ≤ range.start := by omega
  have hclamp : max (max lastCutEnd 0) (range.start-padding) ≤ total := by omega
  obtain ⟨cutEnd,hcut,hlow,hhigh,hmin,hmax⟩ := clamp_spec hclamp
  refine ⟨cutEnd,hcut,hlow,hhigh,by omega,by omega,fun next hnext => ?_⟩
  have hnextStart := hleaves next hnext
  have hafter := (List.pairwise_cons.mp h.increasing).1 next hnext
  omega

/-- One more cut in front of those for the later ranges. -/
theorem CutsFor.cons {cutEnd : ℤ} {cuts : List Range} (h : CutsFor padding total cutEnd rest cuts)
    (hrange : range.start<range.stop) (hinside : range.start<total)
    (hlast : lastCutEnd ≤ range.start) (hnonnegative : 0 ≤ range.start) (hpadding : 0 ≤ padding)
    (hlow : max (max lastCutEnd 0) (range.start-padding) ≤ cutEnd) (hhigh : cutEnd ≤ total)
    (hkeeps : min range.stop total ≤ cutEnd) (hpadded : cutEnd ≤ range.stop+padding) :
    CutsFor padding total lastCutEnd (range::rest)
      (⟨max (max lastCutEnd 0) (range.start-padding),cutEnd⟩::cuts) where
  behind := by
    intro cut hcut
    rcases List.mem_cons.mp hcut with rfl | hcut
    · dsimp only
      omega
    · have hbehind := h.behind cut hcut
      omega
  inside := by
    intro cut hcut
    rcases List.mem_cons.mp hcut with rfl | hcut
    · dsimp only
      omega
    · exact h.inside cut hcut
  ordered := List.pairwise_cons.mpr ⟨h.behind,h.ordered⟩
  complete := by
    intro other hother position hholds hposition
    rcases List.mem_cons.mp hother with rfl | hother
    · refine ⟨_,List.mem_cons_self,?_⟩
      obtain ⟨hfrom,hto⟩ := hholds
      constructor
      · dsimp only
        omega
      · dsimp only
        omega
    · obtain ⟨cut,hcut,hheld⟩ := h.complete other hother position hholds hposition
      exact ⟨cut,List.mem_cons_of_mem _ hcut,hheld⟩
  near := by
    intro cut hcut position hholds
    rcases List.mem_cons.mp hcut with rfl | hcut
    · obtain ⟨hfrom,hto⟩ := hholds
      dsimp only at hfrom hto
      refine ⟨range,List.mem_cons_self,?_,?_⟩ <;> omega
    · obtain ⟨other,hother,hnear⟩ := h.near cut hcut position hholds
      exact ⟨other,List.mem_cons_of_mem _ hother,hnear⟩

/-- All cuts. -/
theorem cutsFrom_spec (hpadding : 0 ≤ padding) {ranges : List Range} (h : Detected total ranges)
    (hlast : ∀ range∈ranges, lastCutEnd ≤ range.start) :
    ∃ cuts, cutsFrom padding total lastCutEnd ranges=some cuts ∧
      CutsFor padding total lastCutEnd ranges cuts := by
  induction ranges generalizing lastCutEnd with
  | nil => exact ⟨[],rfl,by simp,by simp,by simp,by simp,by simp⟩
  | cons range rest ih =>
    obtain ⟨cutEnd,hclamp,hlow,hhigh,hkeeps,hpadded,hleaves⟩ := cut_spec h hpadding hlast
    obtain ⟨cuts,hcuts,hfor⟩ := ih h.tail hleaves
    have hinside := h.inside range List.mem_cons_self
    refine ⟨⟨max (max lastCutEnd 0) (range.start-padding),cutEnd⟩::cuts,?_,?_⟩
    · rw [cutsFrom,hclamp,Option.bind_eq_bind,Option.bind_some,hcuts]
      rfl
    · exact hfor.cons (h.nonempty range List.mem_cons_self) hinside.2
        (hlast range List.mem_cons_self) hinside.1 hpadding hlow hhigh hkeeps hpadded

/-- A position is in one of ordered cuts at most. -/
theorem holds_once {cuts : List Range} (hcuts : ∀ cut∈cuts, cut.start ≤ cut.stop)
    (hordered : cuts.Pairwise fun first second => first.stop ≤ second.start) {position : ℤ}
    (h : ∃ cut∈cuts, cut.Holds position) :
    cuts.countP (fun cut => cut.Holds position)=1 := by
  induction cuts with
  | nil => simp at h
  | cons cut rest ih =>
    obtain ⟨hfirst,hrest⟩ := List.pairwise_cons.mp hordered
    by_cases hholds : cut.Holds position
    · have hnone : rest.countP (fun other => other.Holds position)=0 := by
        refine List.countP_eq_zero.mpr fun other hother => ?_
        have hafter := hfirst other hother
        have hstop := hholds.2
        have hbefore : ¬other.Holds position := fun h => by
          have hfrom := h.1
          omega
        simpa using hbefore
      rw [List.countP_cons_of_pos (by simpa using hholds),hnone]
    · rw [List.countP_cons_of_neg (by simpa using hholds)]
      refine ih (fun other hother => hcuts other (List.mem_cons_of_mem _ hother)) hrest ?_
      obtain ⟨other,hother,hheld⟩ := h
      rcases List.mem_cons.mp hother with rfl | hother
      · exact absurd hheld hholds
      · exact ⟨other,hother,hheld⟩

end Cuts

section Result

variable {α : Type*}

/-- Empty cuts hold no samples. -/
theorem filtered_samples (samples : List α) (cuts : List Range) :
    ((cuts.filter fun cut => cut.start<cut.stop).map (cutSamples samples)).flatten=
      cuts.flatMap (cutSamples samples) := by
  induction cuts with
  | nil => rfl
  | cons cut rest ih =>
    by_cases hcut : cut.start<cut.stop
    · simpa [hcut] using ih
    · have hempty : cutSamples samples cut=[] := by
        have hlength : (cut.stop-cut.start).toNat=0 := by omega
        simp [cutSamples,hlength]
      simpa [hcut,hempty] using ih

theorem detected_nonempty (segments : List (VadSegment α)) :
    ∀ range∈detectedRanges segments, range.start<range.stop := by
  intro range hrange
  obtain ⟨detected,hdetected,rfl⟩ := List.mem_map.mp hrange
  have hsamples : detected.samples≠[] := by
    simpa using (List.mem_filter.mp hdetected).2
  have hlength := List.length_pos_iff.mpr hsamples
  dsimp only
  omega

/-- The cuts exist, so every clamp has its bounds in order. They lie in the
audio, in order and disjoint, hold every sample of speech once and only
samples within the pad, and the segments are the samples of the cuts. -/
theorem cuts_complete (trimmer : VadTrimmer) (segments : List (VadSegment α)) (samples : List α)
    (sampleRate : Int32)
    (hinside : ∀ range∈detectedRanges segments, 0 ≤ range.start ∧ range.start< samples.length)
    (hincreasing : (detectedRanges segments).Pairwise fun first second =>
      first.stop ≤ second.start) :
    ∃ cuts result, cutsOf trimmer samples sampleRate segments=some cuts ∧
      segment trimmer (some segments) samples sampleRate=some result ∧
      (∀ cut∈cuts, 0 ≤ cut.start ∧ cut.start ≤ cut.stop ∧ cut.stop ≤ samples.length) ∧
      (cuts.Pairwise fun first second => first.stop ≤ second.start) ∧
      (∀ range∈detectedRanges segments, ∀ position, range.Holds position →
        position< samples.length → cuts.countP (fun cut => cut.Holds position)=1) ∧
      (∀ cut∈cuts, ∀ position, cut.Holds position → ∃ range∈detectedRanges segments,
        range.start-trimmer.paddingSamples sampleRate ≤ position ∧
          position<range.stop+trimmer.paddingSamples sampleRate) ∧
      result.flatten=cuts.flatMap (cutSamples samples) := by
  have hpadding : 0 ≤ trimmer.paddingSamples sampleRate := le_max_left _ _
  have hdetected : Detected samples.length (detectedRanges segments) :=
    ⟨hinside,detected_nonempty segments,hincreasing⟩
  obtain ⟨cuts,hcuts,hfor⟩ := cutsFrom_spec hpadding hdetected fun range hrange =>
    (hinside range hrange).1
  have hresult : ∃ result, segment trimmer (some segments) samples sampleRate=some result ∧
      result.flatten=cuts.flatMap (cutSamples samples) := by
    rw [segment]
    by_cases hsamples : samples=[]
    · refine ⟨[samples],by rw [if_pos hsamples],?_⟩
      simp [cutSamples,hsamples]
    rw [if_neg hsamples]
    by_cases hranges : detectedRanges segments=[]
    · rw [hranges,cutsFrom,Option.some.injEq] at hcuts
      exact ⟨[],by rw [if_pos hranges],by simp [← hcuts]⟩
    · rw [if_neg hranges,cutsOf,hcuts]
      refine ⟨_,rfl,?_⟩
      rw [samples_kept,filtered_samples]
  obtain ⟨result,hsegment,hflatten⟩ := hresult
  have hordered : ∀ cut∈cuts, cut.start ≤ cut.stop := fun cut hcut => (hfor.inside cut hcut).2.1
  exact ⟨cuts,result,hcuts,hsegment,hfor.inside,hfor.ordered,
    fun range hrange position hholds hposition =>
      holds_once hordered hfor.ordered (hfor.complete range hrange position hholds hposition),
    hfor.near,hflatten⟩

/-- Two ranges closer than two pads share the gap between them, and the last
one ends behind the audio. -/
theorem cuts_complete_close :
    ∃ cuts result, cutsOf ⟨1000,⟨.nan,2⟩⟩ [0,1,2,3,4,5,6,7] 1000
        [⟨1,[1]⟩,⟨0,[]⟩,⟨5,[5,6,7,8]⟩]=some cuts ∧
      segment ⟨1000,⟨.nan,2⟩⟩ (some [⟨1,[1]⟩,⟨0,[]⟩,⟨5,[5,6,7,8]⟩]) [0,1,2,3,4,5,6,7] 1000=
        some result ∧ result.flatten=cuts.flatMap (cutSamples [0,1,2,3,4,5,6,7]) := by
  obtain ⟨cuts,result,hcuts,hsegment,_,_,_,_,hflatten⟩ :=
    cuts_complete ⟨1000,⟨.nan,2⟩⟩ [⟨1,[1]⟩,⟨0,[]⟩,⟨5,[5,6,7,8]⟩] [0,1,2,3,4,5,6,7] 1000
      (by decide) (by decide)
  exact ⟨cuts,result,hcuts,hsegment,hflatten⟩

example : cutsOf ⟨1000,⟨.nan,2⟩⟩ [0,1,2,3,4,5,6,7] 1000 [⟨1,[1]⟩,⟨0,[]⟩,⟨5,[5,6,7,8]⟩]=
    some [⟨0,3⟩,⟨3,8⟩] := by decide

end Result

end Vinput.VadCuts
