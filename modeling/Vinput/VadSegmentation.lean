import Mathlib.Data.List.Induction
import Vinput.JsonTree

/-!
# Segments of speech for the recogniser

Speech is handed to the recogniser in segments. Long segments are sliced and
short ones are joined to the segment before them, which may grow more than
once. Where a segment begins is told by the number of samples in front of it,
so that what came in and what goes out can be compared.
-/

namespace Vinput.VadSegmentation

open JsonTree (toDouble)

section Durations

/-- A number of seconds in single precision. -/
inductive Duration where
  | finite (seconds : ℚ)
  | infinite
  | nan
deriving DecidableEq

/-- Number of samples of a duration; 0 for one that is no number of samples. -/
def toSamples (sampleRate : Int32) : Duration → ℕ
  | .finite seconds =>
    let samples := toDouble (seconds*sampleRate.toInt)
    if samples ≤ 0 ∨ 2^64 ≤ samples then 0 else ⌊samples⌋.toNat
  | _ => 0

end Durations

section Coalescing

variable {α : Type*}

/-- Slices of a segment from an offset on. -/
def slicesFrom (maxSamples : ℕ) (segment : List α) : ℕ → ℕ → List (List α)
  | 0,_ => []
  | fuel+1,offset =>
    if offset< segment.length then
      (segment.drop offset).take maxSamples::
        slicesFrom maxSamples segment fuel (offset+maxSamples)
    else []

/-- Slices of a segment; each takes at least one sample. -/
def slices (maxSamples : ℕ) (segment : List α) : List (List α) :=
  slicesFrom maxSamples segment segment.length 0

/-- A segment is dropped, sliced, joined to the one before it or added. -/
def coalesce (maxSamples minSamples : ℕ) (result : List (List α)) (segment : List α) :
    List (List α) :=
  if segment=[] then result
  else if maxSamples< segment.length then result++slices maxSamples segment
  else
    match result.getLast? with
    | some last =>
      if last.length< minSamples ∧ last.length+segment.length ≤ maxSamples then
        result.dropLast++[last++segment]
      else result++[segment]
    | none => result++[segment]

/-- Segments that are not empty. -/
def withoutEmpty (segments : List (List α)) : List (List α) :=
  segments.filter fun segment => !segment.isEmpty

/-- Segments no longer than the one and, but for the last, no shorter than the other
duration. -/
def coalesceAndSliceSegments (rawSegments : List (List α)) (sampleRate : Int32)
    (maxDuration minDuration : Duration) : List (List α) :=
  if sampleRate ≤ 0 ∨ rawSegments=[] then withoutEmpty rawSegments
  else
    let maxSamples := toSamples sampleRate maxDuration
    let minSamples := toSamples sampleRate minDuration
    if maxSamples=0 then withoutEmpty rawSegments
    else rawSegments.foldl (coalesce maxSamples minSamples) []

end Coalescing

section Places

variable {α : Type*}

/-- A segment of a list begins behind a number of samples. -/
def Begins (segments : List (List α)) (place : ℕ) (segment : List α) : Prop :=
  ∃ before after, segments=before++segment::after ∧ before.flatten.length=place

/-- Two segments of a list meet behind a number of samples. -/
def Meet (segments : List (List α)) (place : ℕ) (left right : List α) : Prop :=
  ∃ before after, segments=before++left::right::after ∧
    (before++[left]).flatten.length=place

variable {segments : List (List α)} {place : ℕ} {segment left right : List α}

/-- A segment ends inside the whole. -/
theorem Begins.inside (h : Begins segments place segment) :
    place+segment.length ≤ segments.flatten.length := by
  obtain ⟨before,after,rfl,rfl⟩ := h
  simp only [List.flatten_append,List.flatten_cons,List.length_append]
  omega

theorem Meet.inside (h : Meet segments place left right) :
    place+right.length ≤ segments.flatten.length := by
  obtain ⟨before,after,rfl,rfl⟩ := h
  simp only [List.flatten_append,List.flatten_cons,List.flatten_nil,List.length_append,
    List.length_nil]
  omega

theorem Meet.right_mem (h : Meet segments place left right) : right∈segments := by
  obtain ⟨before,after,rfl,rfl⟩ := h
  simp

theorem Begins.append (h : Begins segments place segment) (more : List (List α)) :
    Begins (segments++more) place segment := by
  obtain ⟨before,after,rfl,hplace⟩ := h
  exact ⟨before,after++more,by simp,hplace⟩

theorem Meet.append (h : Meet segments place left right) (more : List (List α)) :
    Meet (segments++more) place left right := by
  obtain ⟨before,after,rfl,hplace⟩ := h
  exact ⟨before,after++more,by simp,hplace⟩

/-- What begins in a longer list begins before its last segment or is it. -/
theorem begins_snoc {last : List α} (h : Begins (segments++[last]) place segment) :
    Begins segments place segment ∨ place=segments.flatten.length ∧ segment=last := by
  obtain ⟨before,after,hsegments,hplace⟩ := h
  rcases List.eq_nil_or_concat' after with rfl | ⟨earlier,final,rfl⟩
  · obtain ⟨hbefore,hlast⟩ := List.append_inj' hsegments rfl
    right
    rw [hbefore]
    exact ⟨hplace.symm,(List.cons.inj hlast).1.symm⟩
  · left
    rw [← List.cons_append,← List.append_assoc] at hsegments
    obtain ⟨hbefore,_⟩ := List.append_inj' hsegments rfl
    exact ⟨before,earlier,hbefore,hplace⟩

/-- What meets in a longer list meets before its last segment, or the last
segment meets the one before it. -/
theorem meet_snoc {last : List α} (h : Meet (segments++[last]) place left right) :
    Meet segments place left right ∨
      place=segments.flatten.length ∧ right=last ∧ ∃ before, segments=before++[left] := by
  obtain ⟨before,after,hsegments,hplace⟩ := h
  rcases List.eq_nil_or_concat' after with rfl | ⟨earlier,final,rfl⟩
  · have hsplit : segments++[last]=(before++[left])++[right] := by simp [hsegments]
    obtain ⟨hbefore,hlast⟩ := List.append_inj' hsplit rfl
    right
    rw [hbefore]
    exact ⟨hplace.symm,(List.cons.inj hlast).1.symm,before,rfl⟩
  · have hsplit : segments++[last]=(before++left::right::earlier)++[final] := by simp [hsegments]
    obtain ⟨hbefore,_⟩ := List.append_inj' hsplit rfl
    exact .inl ⟨before,earlier,hbefore,hplace⟩

/-- What meets in a longer list meets in its front or behind all its samples. -/
theorem meet_append {more : List (List α)} (h : Meet (segments++more) place left right) :
    Meet segments place left right ∨ segments.flatten.length ≤ place := by
  induction more using List.reverseRecOn generalizing place left right with
  | nil =>
    rw [List.append_nil] at h
    exact .inl h
  | append_singleton earlier last ih =>
    rw [← List.append_assoc] at h
    obtain hmeet | ⟨hplace,_⟩ := meet_snoc h
    · exact ih hmeet
    · right
      rw [hplace,List.flatten_append,List.length_append]
      omega

end Places

section Coalesced

variable {α : Type*} {maxSamples minSamples : ℕ}

/-- Slices from an offset are not empty and not too long. -/
theorem slicesFrom_bounds (hmax : 0< maxSamples) (segment : List α) (fuel offset : ℕ) :
    ∀ slice∈slicesFrom maxSamples segment fuel offset, slice≠[] ∧ slice.length ≤ maxSamples := by
  induction fuel generalizing offset with
  | zero => simp [slicesFrom]
  | succ fuel ih =>
    rw [slicesFrom]
    split_ifs with hinside
    · intro slice hslice
      rcases List.mem_cons.mp hslice with rfl | hlater
      · have hlength : ((segment.drop offset).take maxSamples).length=
            min maxSamples (segment.length-offset) := by simp
        refine ⟨?_,by omega⟩
        intro hempty
        rw [hempty,List.length_nil] at hlength
        omega
      · exact ih (offset+maxSamples) slice hlater
    · simp

/-- Enough slices cover the rest of the segment. -/
theorem slicesFrom_flatten (hmax : 0< maxSamples) (segment : List α) {fuel offset : ℕ}
    (hfuel : segment.length ≤ offset+fuel) :
    (slicesFrom maxSamples segment fuel offset).flatten=segment.drop offset := by
  induction fuel generalizing offset with
  | zero =>
    have hdrop : segment.drop offset=[] := List.drop_eq_nil_of_le (by omega)
    rw [hdrop]
    rfl
  | succ fuel ih =>
    rw [slicesFrom]
    split_ifs with hinside
    · have hrest : (slicesFrom maxSamples segment fuel (offset+maxSamples)).flatten=
          segment.drop (offset+maxSamples) := ih (by omega)
      rw [List.flatten_cons,hrest,← List.drop_drop,List.take_append_drop]
    · have hdrop : segment.drop offset=[] := List.drop_eq_nil_of_le (by omega)
      rw [hdrop]
      rfl

theorem slices_flatten (hmax : 0< maxSamples) (segment : List α) :
    (slices maxSamples segment).flatten=segment := by
  have h : (slicesFrom maxSamples segment segment.length 0).flatten=segment.drop 0 :=
    slicesFrom_flatten hmax segment (by omega)
  rw [slices,h,List.drop_zero]

/-- What has come out for the segments that have gone in. -/
structure Coalesced (maxSamples minSamples : ℕ) (inputs result : List (List α)) : Prop where
  nonempty : ∀ segment∈result, segment≠[]
  samples : result.flatten=inputs.flatten
  bounded : ∀ segment∈result, segment.length ≤ maxSamples
  /-- Where a short input begins a segment, the one before it was long enough
  or had no room for the input. -/
  separate : ∀ place left right input, Meet result place left right →
    Begins inputs place input → input≠[] → input.length ≤ maxSamples →
    minSamples ≤ left.length ∨ maxSamples<left.length+input.length

variable {inputs result : List (List α)} {segment : List α}

/-- Nothing is coalesced from nothing. -/
theorem Coalesced.nil : Coalesced maxSamples minSamples ([] : List (List α)) [] where
  nonempty := by simp
  samples := rfl
  bounded := by simp
  separate := by
    rintro place left right input ⟨before,after,hsplit,_⟩
    simp at hsplit

/-- Behind all the samples of earlier inputs nothing of them begins. -/
theorem input_at_end {place : ℕ} {input : List α}
    (h : Begins (inputs++[segment]) place input) (hinput : input≠[])
    (hend : inputs.flatten.length ≤ place) : input=segment := by
  obtain hbefore | ⟨_,hlast⟩ := begins_snoc h
  · have hinside := hbefore.inside
    have hlength := List.length_pos_iff.mpr hinput
    omega
  · exact hlast

/-- Inside the samples of earlier inputs only they begin. -/
theorem input_inside {place : ℕ} {input : List α}
    (h : Begins (inputs++[segment]) place input) (hinside : place< inputs.flatten.length) :
    Begins inputs place input := by
  obtain hbefore | ⟨hend,_⟩ := begins_snoc h
  · exact hbefore
  · omega

/-- Earlier meetings of the result stay as they were. -/
theorem Coalesced.earlier (h : Coalesced maxSamples minSamples inputs result) {place : ℕ}
    {left right input : List α} (hmeet : Meet result place left right)
    (hbegins : Begins (inputs++[segment]) place input) (hinput : input≠[])
    (hshort : input.length ≤ maxSamples) :
    minSamples ≤ left.length ∨ maxSamples<left.length+input.length := by
  have hright := List.length_pos_iff.mpr (h.nonempty right hmeet.right_mem)
  have hinside := hmeet.inside
  rw [h.samples] at hinside
  exact h.separate place left right input hmeet (input_inside hbegins (by omega)) hinput hshort

theorem Coalesced.empty (h : Coalesced maxSamples minSamples inputs result) :
    Coalesced maxSamples minSamples (inputs++[[]]) result where
  nonempty := h.nonempty
  samples := by simp [h.samples]
  bounded := h.bounded
  separate := fun _ _ _ _ hmeet hbegins hinput hshort => h.earlier hmeet hbegins hinput hshort

/-- A long input is sliced; no short input begins at a slice. -/
theorem Coalesced.sliced (h : Coalesced maxSamples minSamples inputs result)
    (hmax : 0< maxSamples) (hlong : maxSamples< segment.length) :
    Coalesced maxSamples minSamples (inputs++[segment]) (result++slices maxSamples segment) where
  nonempty := by
    intro slice hslice
    rcases List.mem_append.mp hslice with hold | hnew
    · exact h.nonempty slice hold
    · exact (slicesFrom_bounds hmax segment _ _ slice hnew).1
  samples := by simp [h.samples,slices_flatten hmax]
  bounded := by
    intro slice hslice
    rcases List.mem_append.mp hslice with hold | hnew
    · exact h.bounded slice hold
    · exact (slicesFrom_bounds hmax segment _ _ slice hnew).2
  separate := by
    intro place left right input hmeet hbegins hinput hshort
    obtain hearlier | hend := meet_append hmeet
    · exact h.earlier hearlier hbegins hinput hshort
    · rw [h.samples] at hend
      rw [input_at_end hbegins hinput hend] at hshort
      omega

/-- A short input is joined to a short segment. -/
theorem Coalesced.joined {front : List (List α)} {last : List α}
    (h : Coalesced maxSamples minSamples inputs (front++[last]))
    (hroom : last.length+segment.length ≤ maxSamples) :
    Coalesced maxSamples minSamples (inputs++[segment]) (front++[last++segment]) where
  nonempty := by
    intro other hother
    rcases List.mem_append.mp hother with hold | hnew
    · exact h.nonempty other (List.mem_append_left _ hold)
    · have hlast := h.nonempty last (by simp)
      rw [List.mem_singleton.mp hnew]
      simp [hlast]
  samples := by
    have hsamples := h.samples
    rw [List.flatten_append] at hsamples ⊢
    rw [List.flatten_append,← hsamples]
    simp
  bounded := by
    intro other hother
    rcases List.mem_append.mp hother with hold | hnew
    · exact h.bounded other (List.mem_append_left _ hold)
    · rw [List.mem_singleton.mp hnew,List.length_append]
      exact hroom
  separate := by
    intro place left right input hmeet hbegins hinput hshort
    obtain hearlier | ⟨hplace,_,before,hfront⟩ := meet_snoc hmeet
    · exact h.earlier (hearlier.append [last]) hbegins hinput hshort
    · -- the joined segment begins where its first part did
      have hfirst : Meet (front++[last]) place left last := by
        refine ⟨before,[],by simp [hfront],?_⟩
        rw [← hfront,hplace]
      exact h.earlier hfirst hbegins hinput hshort

/-- A short input is added where it cannot be joined. -/
theorem Coalesced.added (h : Coalesced maxSamples minSamples inputs result)
    (hsegment : segment≠[]) (hshort : segment.length ≤ maxSamples)
    (hapart : ∀ front last, result=front++[last] →
      minSamples ≤ last.length ∨ maxSamples<last.length+segment.length) :
    Coalesced maxSamples minSamples (inputs++[segment]) (result++[segment]) where
  nonempty := by
    intro other hother
    rcases List.mem_append.mp hother with hold | hnew
    · exact h.nonempty other hold
    · rw [List.mem_singleton.mp hnew]
      exact hsegment
  samples := by simp [h.samples]
  bounded := by
    intro other hother
    rcases List.mem_append.mp hother with hold | hnew
    · exact h.bounded other hold
    · rw [List.mem_singleton.mp hnew]
      exact hshort
  separate := by
    intro place left right input hmeet hbegins hinput hsmall
    obtain hearlier | ⟨hplace,_,before,hfront⟩ := meet_snoc hmeet
    · exact h.earlier hearlier hbegins hinput hsmall
    · rw [h.samples] at hplace
      rw [input_at_end hbegins hinput hplace.ge]
      exact hapart before left hfront

/-- One more input. -/
theorem Coalesced.step (h : Coalesced maxSamples minSamples inputs result)
    (hmax : 0< maxSamples) (segment : List α) :
    Coalesced maxSamples minSamples (inputs++[segment])
      (coalesce maxSamples minSamples result segment) := by
  rw [coalesce]
  by_cases hempty : segment=[]
  · rw [if_pos hempty,hempty]
    exact h.empty
  rw [if_neg hempty]
  by_cases hlong : maxSamples< segment.length
  · rw [if_pos hlong]
    exact h.sliced hmax hlong
  rw [if_neg hlong]
  have hshort : segment.length ≤ maxSamples := by omega
  rcases List.eq_nil_or_concat' result with rfl | ⟨front,last,rfl⟩
  · refine h.added hempty hshort ?_
    intro front last hsplit
    simp at hsplit
  · rw [List.getLast?_concat,List.dropLast_concat]
    dsimp only
    split_ifs with hjoin
    · exact h.joined hjoin.2
    · refine h.added hempty hshort ?_
      intro before other hsplit
      obtain ⟨_,hsame⟩ := List.append_inj' hsplit rfl
      rw [← (List.cons.inj hsame).1]
      omega

/-- All inputs. -/
theorem coalesced_foldl (hmax : 0< maxSamples) (inputs : List (List α)) :
    Coalesced maxSamples minSamples inputs
      (inputs.foldl (coalesce maxSamples minSamples) []) := by
  induction inputs using List.reverseRecOn with
  | nil => exact Coalesced.nil
  | append_singleton earlier last ih =>
    rw [List.foldl_append]
    exact ih.step hmax last

theorem withoutEmpty_flatten (segments : List (List α)) :
    (withoutEmpty segments).flatten=segments.flatten := by
  induction segments with
  | nil => rfl
  | cons segment rest ih =>
    by_cases hempty : segment=[]
    · simpa [withoutEmpty,hempty] using ih
    · simpa [withoutEmpty,hempty] using ih

/-- Slicing and joining leave the samples as they are. -/
theorem samples_kept (rawSegments : List (List α)) (sampleRate : Int32)
    (maxDuration minDuration : Duration) :
    (coalesceAndSliceSegments rawSegments sampleRate maxDuration minDuration).flatten=
      rawSegments.flatten := by
  simp only [coalesceAndSliceSegments]
  split_ifs with hnone hmax
  · exact withoutEmpty_flatten rawSegments
  · exact withoutEmpty_flatten rawSegments
  · exact (coalesced_foldl (by omega) rawSegments).samples

/-- No speech is lost, and no segment is empty. With a rate and a largest
size segments are not too long, and short inputs stay apart only from long
or full segments; otherwise the inputs are returned. -/
theorem speech_kept (rawSegments : List (List α)) (sampleRate : Int32)
    (maxDuration minDuration : Duration) :
    (coalesceAndSliceSegments rawSegments sampleRate maxDuration minDuration).flatten=
        rawSegments.flatten ∧
      (∀ segment∈coalesceAndSliceSegments rawSegments sampleRate maxDuration minDuration,
        segment≠[]) ∧
      (0< sampleRate → 0<toSamples sampleRate maxDuration →
        Coalesced (toSamples sampleRate maxDuration) (toSamples sampleRate minDuration) rawSegments
          (coalesceAndSliceSegments rawSegments sampleRate maxDuration minDuration)) ∧
      (¬(0< sampleRate ∧ 0<toSamples sampleRate maxDuration) →
        coalesceAndSliceSegments rawSegments sampleRate maxDuration minDuration=
          withoutEmpty rawSegments) := by
  have hplain : ∀ segment∈withoutEmpty rawSegments, segment≠[] := by
    intro segment hsegment
    simpa [withoutEmpty] using (List.mem_filter.mp hsegment).2
  by_cases hwhole : 0< sampleRate ∧ 0<toSamples sampleRate maxDuration
  · obtain ⟨hrate,hmax⟩ := hwhole
    have hcoalesced : Coalesced (toSamples sampleRate maxDuration)
        (toSamples sampleRate minDuration) rawSegments
        (coalesceAndSliceSegments rawSegments sampleRate maxDuration minDuration) := by
      rw [coalesceAndSliceSegments]
      by_cases hnone : rawSegments=[]
      · rw [if_pos (.inr hnone),hnone]
        exact Coalesced.nil
      · have hsome : ¬(sampleRate ≤ 0 ∨ rawSegments=[]) := by
          simpa [hnone] using hrate
        rw [if_neg hsome]
        dsimp only
        rw [if_neg (by omega)]
        exact coalesced_foldl hmax rawSegments
    exact ⟨samples_kept _ _ _ _,hcoalesced.nonempty,fun _ _ => hcoalesced,
      fun h => absurd ⟨hrate,hmax⟩ h⟩
  · have hsame : coalesceAndSliceSegments rawSegments sampleRate maxDuration minDuration=
        withoutEmpty rawSegments := by
      rw [coalesceAndSliceSegments]
      split_ifs with hnone
      · rfl
      · dsimp only
        obtain ⟨hrate,_⟩ := not_or.mp hnone
        have hpositive : 0< sampleRate := by simpa using hrate
        have hzero : ¬0<toSamples sampleRate maxDuration := fun hmax => hwhole ⟨hpositive,hmax⟩
        rw [if_pos (by omega)]
    refine ⟨samples_kept _ _ _ _,?_⟩
    rw [hsame]
    exact ⟨hplain,fun hrate hmax => absurd ⟨hrate,hmax⟩ hwhole,
      fun _ => rfl⟩

example : coalesceAndSliceSegments [[1,2],[],[3],[4,5,6,7,8],[9]] 1 (.finite 4) (.finite 3)=
    [[1,2,3],[4,5,6,7],[8,9]] := by decide +kernel

end Coalesced

end Vinput.VadSegmentation
