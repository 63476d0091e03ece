import Mathlib.Data.List.GetD
import Vinput.GraphemeClusters
import Vinput.Utf8Codec

/-!
# Shortening a preview

A text that is too wide for the preview keeps its beginning and its end with an
ellipsis between them, or only its end where there is no room for both. It is
cut between grapheme clusters.
-/

namespace Vinput.PreviewText

open Segmentation GraphemeClusters Utf8Codec ProcessLines

section Program

variable (tables : Tables)

/-- A difference of sizes; `none` if it is below zero. -/
def checkedSub (left right : ℕ) : Option ℕ := if right ≤ left then some (left-right) else none

/-- Where a cluster starts, how long it is and how wide. -/
structure GraphemeInfo where
  start : ℕ
  length : ℕ
  width : ℕ
deriving Inhabited

/-- Where the clusters of a text stand. -/
def infosFrom (start : ℕ) : List (List UInt32) → List GraphemeInfo
  | [] => []
  | cluster::rest =>
    ⟨start,cluster.length,width tables cluster⟩::infosFrom (start+cluster.length) rest

/-- The clusters of a text with their places. -/
def graphemeInfos (u32 : List UInt32) : List GraphemeInfo :=
  infosFrom tables 0 (GraphemeClusters.graphemes tables u32)

/-- Number of clusters at the beginning that have room. -/
def headCount (target : ℕ) : ℕ → List GraphemeInfo → ℕ
  | _,[] => 0
  | current,gi::rest =>
    if target<current+gi.width then 0 else headCount target (current+gi.width) rest+1

/-- Index of the first cluster at the end that has room, above a bound. -/
def tailStart (target lower : ℕ) (graphemes : List GraphemeInfo) : ℕ → ℕ → ℕ → ℕ
  | 0,_,start => start
  | g+1,current,start =>
    if lower<g+1 then
      if target<current+(graphemes.getD g default).width then start
      else tailStart target lower graphemes g (current+(graphemes.getD g default).width) g
    else start

/-- Three full stops. -/
def ellipsis : Bytes := [0x2E,0x2E,0x2E]

/-- The code points from a cluster on. -/
def tailText (u32 : List UInt32) (graphemes : List GraphemeInfo) (start : ℕ) : List UInt32 :=
  if start<graphemes.length then u32.drop (graphemes.getD start default).start else []

/-- The code points before a cluster. -/
def headText (u32 : List UInt32) (graphemes : List GraphemeInfo) (count : ℕ) :
    Option (List UInt32) :=
  if 0<count then
    (checkedSub count 1).map fun last => u32.take
      ((graphemes.getD last default).start+(graphemes.getD last default).length)
  else some []

/-- The end of a text where there is no room for an ellipsis. -/
def onlyEnd (u32 : List UInt32) (graphemes : List GraphemeInfo) (maxWidth : ℕ) : Bytes :=
  encode (tailText u32 graphemes
    (tailStart maxWidth 0 graphemes graphemes.length 0 graphemes.length))

/-- Columns of the beginning that is kept: a quarter, but from 6 to 14. -/
def targetHeadWidth (available : ℕ) : ℕ :=
  let wanted := max 6 (min 14 (available/4))
  if available ≤ wanted then available/2 else wanted

/-- Both ends of a text with the ellipsis between them. -/
def bothEnds (u32 : List UInt32) (graphemes : List GraphemeInfo) (maxWidth ellipsisWidth : ℕ) :
    Option Bytes :=
  (checkedSub maxWidth ellipsisWidth).bind fun available =>
    (checkedSub available (targetHeadWidth available)).bind fun targetTail =>
      let count := headCount (targetHeadWidth available) 0 graphemes
      let start := tailStart targetTail count graphemes graphemes.length 0 graphemes.length
      (headText u32 graphemes count).map fun head =>
        encode head++ellipsis++encode (tailText u32 graphemes start)

/-- `none` stands for an unsigned difference below zero. -/
def limitPreviewText (text : Bytes) (maxDisplayWidth : ℤ) : Option Bytes :=
  if maxDisplayWidth ≤ 0 ∨ text=[] then some text
  else
    let maxWidth := maxDisplayWidth.toNat
    let u32 := decode text
    if width tables u32 ≤ maxWidth then some text
    else
      let ellipsisWidth := width tables (decode ellipsis)
      let graphemes := graphemeInfos tables u32
      if maxWidth ≤ ellipsisWidth+4 then some (onlyEnd u32 graphemes maxWidth)
      else bothEnds u32 graphemes maxWidth ellipsisWidth

end Program

section Clusters

variable (tables : Tables) {u32 : List UInt32}

/-- Code points of some clusters at the beginning. -/
def prefixOf (u32 : List UInt32) (count : ℕ) : List UInt32 :=
  ((GraphemeClusters.graphemes tables u32).take count).flatten

/-- Code points of the clusters from one on. -/
def suffixOf (u32 : List UInt32) (start : ℕ) : List UInt32 :=
  ((GraphemeClusters.graphemes tables u32).drop start).flatten

theorem infosFrom_length (start : ℕ) (clusters : List (List UInt32)) :
    (infosFrom tables start clusters).length=clusters.length := by
  induction clusters generalizing start with
  | nil => rfl
  | cons cluster clusters ih => exact congrArg Nat.succ (ih _)

theorem graphemeInfos_length (u32 : List UInt32) :
    (graphemeInfos tables u32).length=(GraphemeClusters.graphemes tables u32).length :=
  infosFrom_length tables 0 _

/-- The places carry the widths of the clusters. -/
theorem infosFrom_width (start : ℕ) (clusters : List (List UInt32)) :
    (infosFrom tables start clusters).map GraphemeInfo.width=clusters.map (width tables) := by
  induction clusters generalizing start with
  | nil => rfl
  | cons cluster clusters ih => exact congrArg _ (ih _)

/-- A cluster starts where those before it end. -/
theorem infosFrom_start (start : ℕ) (clusters : List (List UInt32)) {index : ℕ}
    (h : index<clusters.length) : ((infosFrom tables start clusters).getD index default).start=
      start+(clusters.take index).flatten.length ∧
    ((infosFrom tables start clusters).getD index default).start+
      ((infosFrom tables start clusters).getD index default).length=
      start+(clusters.take (index+1)).flatten.length := by
  induction clusters generalizing start index with
  | nil => cases h
  | cons cluster clusters ih =>
    cases index with
    | zero => simp [infosFrom]
    | succ index =>
      have hnext := ih (start+cluster.length) (Nat.lt_of_succ_lt_succ h)
      simp only [infosFrom,List.getD_cons_succ,List.take_succ_cons,List.flatten_cons,
        List.length_append]
      omega

/-- The head and the tail make the text. -/
theorem prefixOf_append_suffixOf (u32 : List UInt32) (count : ℕ) :
    prefixOf tables u32 count++suffixOf tables u32 count=u32 := by
  unfold prefixOf suffixOf
  rw [←List.flatten_append,List.take_append_drop]
  exact segments_flatten u32

theorem tailText_eq (u32 : List UInt32) (start : ℕ) :
    tailText u32 (graphemeInfos tables u32) start=suffixOf tables u32 start := by
  unfold tailText
  rw [graphemeInfos_length]
  unfold graphemeInfos
  by_cases hstart : start<(GraphemeClusters.graphemes tables u32).length
  · rw [if_pos hstart,(infosFrom_start tables 0 _ hstart).1,zero_add]
    have hdrop := @List.drop_left _ (prefixOf tables u32 start) (suffixOf tables u32 start)
    rw [prefixOf_append_suffixOf] at hdrop
    exact hdrop
  · rw [if_neg hstart]
    unfold suffixOf
    rw [List.drop_eq_nil_of_le (Nat.le_of_not_lt hstart)]
    rfl

theorem headText_eq (u32 : List UInt32) {count : ℕ}
    (h : count ≤ (GraphemeClusters.graphemes tables u32).length) :
    headText u32 (graphemeInfos tables u32) count=some (prefixOf tables u32 count) := by
  unfold headText graphemeInfos
  cases count with
  | zero => rfl
  | succ last =>
    have hlast := (infosFrom_start tables 0 (GraphemeClusters.graphemes tables u32) h).2
    rw [if_pos (Nat.succ_pos last)]
    show some (u32.take ((_ : GraphemeInfo).start+(_ : GraphemeInfo).length))=_
    rw [Nat.add_sub_cancel,hlast,zero_add]
    have htake := @List.take_left _ (prefixOf tables u32 (last+1)) (suffixOf tables u32 (last+1))
    rw [prefixOf_append_suffixOf] at htake
    exact congrArg some htake

/-- A cluster is as wide on its own as in the text. -/
theorem width_of_mem {cluster : List UInt32} (h : cluster∈GraphemeClusters.graphemes tables u32) :
    width tables cluster=clusterWidth tables cluster := by
  unfold width total
  rw [segments_of_mem h]
  simp

/-- The width of the head is that of its clusters. -/
theorem width_prefixOf (u32 : List UInt32) (count : ℕ) : width tables (prefixOf tables u32 count)=
    (((graphemeInfos tables u32).take count).map GraphemeInfo.width).sum := by
  have hsame : ∀ cluster∈(GraphemeClusters.graphemes tables u32).take count,
      clusterWidth tables cluster=width tables cluster := by
    intro cluster hcluster
    exact (width_of_mem tables (List.mem_of_mem_take hcluster)).symm
  have hinfos := infosFrom_width tables 0 (GraphemeClusters.graphemes tables u32)
  unfold graphemeInfos
  rw [List.map_take,hinfos,←List.map_take,←List.map_congr_left hsame]
  unfold width total prefixOf GraphemeClusters.graphemes
  rw [segments_take]

/-- The width of the tail is that of its clusters. -/
theorem width_suffixOf (u32 : List UInt32) (start : ℕ) : width tables (suffixOf tables u32 start)=
    (((graphemeInfos tables u32).drop start).map GraphemeInfo.width).sum := by
  have hsame : ∀ cluster∈(GraphemeClusters.graphemes tables u32).drop start,
      clusterWidth tables cluster=width tables cluster := by
    intro cluster hcluster
    exact (width_of_mem tables (List.mem_of_mem_drop hcluster)).symm
  have hinfos := infosFrom_width tables 0 (GraphemeClusters.graphemes tables u32)
  unfold graphemeInfos
  rw [List.map_drop,hinfos,←List.map_drop,←List.map_congr_left hsame]
  unfold width total suffixOf GraphemeClusters.graphemes
  rw [segments_drop]

end Clusters

section Budgets

variable {target lower current : ℕ} {items : List GraphemeInfo}

/-- The clusters at the beginning fit the target. -/
theorem headCount_spec (h : current ≤ target) (items : List GraphemeInfo) :
    headCount target current items ≤ items.length ∧
      current+((items.take (headCount target current items)).map GraphemeInfo.width).sum ≤
        target := by
  induction items generalizing current with
  | nil => exact ⟨le_rfl,h⟩
  | cons gi items ih =>
    unfold headCount
    split
    · exact ⟨Nat.zero_le _,h⟩
    · rename_i hroom
      obtain ⟨hlength,hsum⟩ := ih (Nat.le_of_not_lt hroom)
      refine ⟨Nat.succ_le_succ hlength,?_⟩
      rw [List.take_succ_cons,List.map_cons,List.sum_cons]
      omega

/-- The clusters at the end fit the target and stand above the bound. -/
theorem tailStart_spec {g : ℕ} (hg : g ≤ items.length) (hlower : lower ≤ g)
    (hsum : ((items.drop g).map GraphemeInfo.width).sum=current) (hcurrent : current ≤ target) :
    lower ≤ tailStart target lower items g current g ∧
      ((items.drop (tailStart target lower items g current g)).map GraphemeInfo.width).sum ≤
        target := by
  induction g generalizing current with
  | zero => exact ⟨hlower,hsum.trans_le hcurrent⟩
  | succ g ih =>
    unfold tailStart
    by_cases hbound : lower<g+1
    · rw [if_pos hbound]
      split
      · exact ⟨hlower,hsum.trans_le hcurrent⟩
      · rename_i hroom
        refine ih (by omega) (by omega) ?_ (Nat.le_of_not_lt hroom)
        have hindex : g< items.length := hg
        rw [List.drop_eq_getElem_cons hindex,List.map_cons,List.sum_cons,hsum,
          List.getD_eq_getElem _ _ hindex,Nat.add_comm]
    · rw [if_neg hbound]
      exact ⟨hlower,hsum.trans_le hcurrent⟩

end Budgets

section Limits

variable (tables : Tables)

/-- What a text that is too wide is shortened to: whole clusters at the end, or
at both ends with an ellipsis between them, no wider than the limit. -/
structure Shortened (text : Bytes) (limit : ℤ) (result : Bytes) : Prop where
  fits : (width tables (decode result) : ℤ) ≤ limit
  parts : (∃ start, result=encode (suffixOf tables (decode text) start)) ∨
    ∃ count start, count ≤ start ∧ result=encode (prefixOf tables (decode text) count)++ellipsis++
      encode (suffixOf tables (decode text) start)

/-- The ellipsis are three characters. -/
theorem decode_ellipsis : decode ellipsis=[0x2E,0x2E,0x2E] := by decide

theorem width_stops : width tables [0x2E,0x2E,0x2E]=3 := by
  have hcut : ∀ before, isGraphemeBoundary tables (0x2E::before) 0x2E=true := by
    intro before
    unfold isGraphemeBoundary
    simp [tables.stopBreak,tables.stopConsonant]
  have hstop := clusterWidth_stop tables
  unfold width total segments
  simp [segmentsFrom,hcut,hstop]

/-- Parts of a text, and full stops between them, are decoded as they were. -/
theorem decode_parts {u32 head tail : List UInt32} (h : ∀ cp∈u32, Encodable cp)
    (hhead : ∀ cp∈head, cp∈u32) (htail : ∀ cp∈tail, cp∈u32) :
    decode (encode tail)=tail ∧
      decode (encode head++ellipsis++encode tail)=head++[0x2E,0x2E,0x2E]++tail := by
  have hstops : ellipsis=encode [0x2E,0x2E,0x2E] := by decide
  have hstop : Encodable 0x2E := .inl (by decide)
  constructor
  · exact decode_encode fun cp hcp => h cp (htail cp hcp)
  · rw [hstops]
    unfold encode
    rw [←List.flatMap_append,←List.flatMap_append]
    apply decode_encode
    intro cp hcp
    simp only [List.mem_append,List.mem_cons,List.not_mem_nil,or_false,or_self] at hcp
    rcases hcp with (hcp | rfl) | hcp
    · exact h cp (hhead cp hcp)
    · exact hstop
    · exact h cp (htail cp hcp)

/-- The head has characters of the text only. -/
theorem mem_of_prefixOf (u32 : List UInt32) (count : ℕ) :
    ∀ cp∈prefixOf tables u32 count, cp∈u32 := by
  intro cp hcp
  rw [←prefixOf_append_suffixOf tables u32 count]
  exact List.mem_append_left _ hcp

theorem mem_of_suffixOf (u32 : List UInt32) (start : ℕ) :
    ∀ cp∈suffixOf tables u32 start, cp∈u32 := by
  intro cp hcp
  rw [←prefixOf_append_suffixOf tables u32 start]
  exact List.mem_append_right _ hcp

/-- Clusters that have room at the end. -/
theorem shortened_suffix {text : Bytes} {limit : ℤ} {start : ℕ}
    (h : (width tables (suffixOf tables (decode text) start) : ℤ) ≤ limit) :
    Shortened tables text limit (encode (suffixOf tables (decode text) start)) := by
  have hdecode := (decode_parts (decodeFrom_encodable 0 text) (mem_of_suffixOf tables _ start)
    (mem_of_suffixOf tables (decode text) start)).1
  refine ⟨?_,.inl ⟨start,rfl⟩⟩
  rw [hdecode]
  exact h

/-- Clusters that have room at both ends. -/
theorem shortened_ends {text : Bytes} {limit : ℤ} {count start targetHead targetTail : ℕ}
    (horder : count ≤ start)
    (hhead : width tables (prefixOf tables (decode text) count) ≤ targetHead)
    (htail : width tables (suffixOf tables (decode text) start) ≤ targetTail)
    (hlimit : (targetHead+3+targetTail : ℕ) ≤ limit) :
    Shortened tables text limit (encode (prefixOf tables (decode text) count)++ellipsis++
      encode (suffixOf tables (decode text) start)) := by
  have hdecode := (decode_parts (decodeFrom_encodable 0 text)
    (mem_of_prefixOf tables (decode text) count) (mem_of_suffixOf tables (decode text) start)).2
  have hwidth := width_joined_le tables (prefixOf tables (decode text) count)
    (suffixOf tables (decode text) start)
  refine ⟨?_,.inr ⟨count,start,horder,rfl⟩⟩
  rw [hdecode]
  omega

/-- The end of a text within a target. -/
theorem suffix_fits (u32 : List UInt32) (target : ℕ) {lower : ℕ}
    (hlower : lower ≤ (graphemeInfos tables u32).length) :
    ∃ start, tailStart target lower (graphemeInfos tables u32) (graphemeInfos tables u32).length 0
        (graphemeInfos tables u32).length=start ∧ lower ≤ start ∧
      width tables (suffixOf tables u32 start) ≤ target := by
  obtain ⟨hstart,hsum⟩ := @tailStart_spec target lower 0 (graphemeInfos tables u32) _ le_rfl hlower
    (by simp) (Nat.zero_le target)
  refine ⟨_,rfl,hstart,?_⟩
  rw [width_suffixOf]
  exact hsum

/-- Keeping the end shortens a text as it should. -/
theorem onlyEnd_shortened (text : Bytes) (maxWidth : ℕ) : Shortened tables text maxWidth
    (onlyEnd (decode text) (graphemeInfos tables (decode text)) maxWidth) := by
  obtain ⟨start,hstart,-,hwidth⟩ := suffix_fits tables (decode text) maxWidth (Nat.zero_le _)
  unfold onlyEnd
  rw [hstart,tailText_eq]
  exact shortened_suffix tables (by exact_mod_cast hwidth)

/-- The head is no wider than there is room. -/
theorem targetHeadWidth_le (available : ℕ) : targetHeadWidth available ≤ available := by
  unfold targetHeadWidth
  dsimp only
  split <;> omega

theorem bothEnds_shortened (text : Bytes) {maxWidth : ℕ} (h : 3 ≤ maxWidth) :
    ∃ result, bothEnds (decode text) (graphemeInfos tables (decode text)) maxWidth 3=some result ∧
      Shortened tables text maxWidth result := by
  have hhead := targetHeadWidth_le (maxWidth-3)
  obtain ⟨hcount,hsum⟩ := headCount_spec (Nat.zero_le (targetHeadWidth (maxWidth-3)))
    (graphemeInfos tables (decode text))
  obtain ⟨start,hstart,horder,hwidth⟩ := suffix_fits tables (decode text)
    (maxWidth-3-targetHeadWidth (maxWidth-3)) hcount
  rw [zero_add,←width_prefixOf] at hsum
  refine ⟨_,?_,shortened_ends tables horder hsum hwidth (by omega)⟩
  unfold bothEnds checkedSub
  rw [if_pos h,Option.bind_some,if_pos hhead,Option.bind_some]
  dsimp only
  rw [hstart,headText_eq tables _ (hcount.trans_eq (graphemeInfos_length tables _)),tailText_eq]
  rfl

/-- A text that fits stays as it is; any other is shortened to the limit at the
borders of its clusters, and no difference of sizes falls below zero. -/
theorem preview_limited (text : Bytes) (maxDisplayWidth : ℤ) (h : 0< maxDisplayWidth) :
    ∃ result, limitPreviewText tables text maxDisplayWidth=some result ∧
      ((width tables (decode text) : ℤ) ≤ maxDisplayWidth → result=text) ∧
      (maxDisplayWidth<width tables (decode text) →
        Shortened tables text maxDisplayWidth result) := by
  by_cases hempty : text=[]
  · refine ⟨text,?_,fun _ => rfl,?_⟩
    · unfold limitPreviewText
      rw [if_pos (.inr hempty)]
    · intro hwide
      rw [hempty] at hwide
      have hzero : width tables (decode [])=0 := rfl
      omega
  · unfold limitPreviewText
    rw [if_neg (by simp [hempty,h])]
    dsimp only
    by_cases hfits : width tables (decode text) ≤ maxDisplayWidth.toNat
    · rw [if_pos hfits]
      exact ⟨text,rfl,fun _ => rfl,by omega⟩
    · rw [if_neg hfits,decode_ellipsis,width_stops]
      have hwide : ¬(width tables (decode text) : ℤ) ≤ maxDisplayWidth := by omega
      have hlimit : (maxDisplayWidth.toNat : ℤ)=maxDisplayWidth := Int.toNat_of_nonneg h.le
      split
      · have hshort := onlyEnd_shortened tables text maxDisplayWidth.toNat
        rw [hlimit] at hshort
        exact ⟨_,rfl,fun hfit => absurd hfit hwide,fun _ => hshort⟩
      · obtain ⟨result,hresult,hshort⟩ :=
          @bothEnds_shortened tables text maxDisplayWidth.toNat (by omega)
        rw [hlimit] at hshort
        exact ⟨result,hresult,fun hfit => absurd hfit hwide,fun _ => hshort⟩

/-- The rows of small letters and of the full stop. -/
def letterTables : Tables where
  graphemeBreak := fun _ => .unassigned
  emoji := fun _ => .unassigned
  eastAsianWidth := fun _ => .narrow
  generalCategory := fun cp => if cp=0x2E then .po else .ll
  isIndicConjunctBreakLinker := fun _ => false
  isIndicConjunctBreakConsonant := fun _ => false
  isIndicConjunctBreakExtend := fun _ => false
  stopBreak := rfl
  stopEmoji := rfl
  stopWidth := rfl
  stopCategory := rfl
  stopLinker := rfl
  stopConsonant := rfl
  stopExtend := rfl

/-- Thirty letters are shortened to twenty columns. -/
theorem preview_limited_letters : ∃ result,
    limitPreviewText letterTables (List.replicate 30 97) 20=some result ∧
      ((width letterTables (decode (List.replicate 30 97)) : ℤ) ≤ 20 →
        result=List.replicate 30 97) ∧
      (20<(width letterTables (decode (List.replicate 30 97)) : ℤ) →
        Shortened letterTables (List.replicate 30 97) 20 result) :=
  preview_limited letterTables (List.replicate 30 97) 20 (by decide)

-- six letters, the ellipsis and eleven letters
example : limitPreviewText letterTables (List.replicate 30 97) 20=
    some (List.replicate 6 97++ellipsis++List.replicate 11 97) := by decide +kernel

end Limits

end Vinput.PreviewText
