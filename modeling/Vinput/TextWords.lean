import Mathlib.Data.List.Basic
import Mathlib.Data.List.TakeWhile

/-!
# Words of a text

White space separates the words of a text. A word begins with a symbol exactly
where the symbol stands at the start of the text or behind white space.
-/

namespace Vinput.TextWords

section Ends

variable {α : Type*} (space : α → Bool)

/-- A text without the white space around it. -/
def trimmed (text : List α) : List α :=
  ((text.dropWhile space).reverse.dropWhile space).reverse

/-- White space is all that is cut off. -/
theorem trimmed_between (text : List α) : ∃ front back, text=front++trimmed space text++back ∧
    (∀ c∈front, space c=true) ∧ ∀ c∈back, space c=true := by
  have hfront : ∀ c∈text.takeWhile space, space c=true :=
    fun c hmem => List.all_eq_true.mp List.all_takeWhile c hmem
  have hback : ∀ c∈((text.dropWhile space).reverse.takeWhile space).reverse, space c=true :=
    fun c hmem => List.all_eq_true.mp List.all_takeWhile c (List.mem_reverse.mp hmem)
  have hkept : text.dropWhile space=
      trimmed space text++((text.dropWhile space).reverse.takeWhile space).reverse := by
    unfold trimmed
    rw [←List.reverse_append,List.takeWhile_append_dropWhile,List.reverse_reverse]
  refine ⟨_,_,?_,hfront,hback⟩
  rw [List.append_assoc,←hkept,List.takeWhile_append_dropWhile]

variable {space} {text : List α}

theorem mem_of_mem_trimmed {c : α} (h : c∈trimmed space text) : c∈text := by
  obtain ⟨front,back,htext,-,-⟩ := trimmed_between space text
  rw [htext]
  exact List.mem_append_left _ (List.mem_append_right _ h)

/-- What is left begins with no white space. -/
theorem head_trimmed : ∀ c∈(trimmed space text).head?, space c=false := by
  intro c hc
  have hhead := List.head?_dropWhile_not space text
  have hkept : text.dropWhile space=
      trimmed space text++((text.dropWhile space).reverse.takeWhile space).reverse := by
    unfold trimmed
    rw [←List.reverse_append,List.takeWhile_append_dropWhile,List.reverse_reverse]
  have hfirst : (text.dropWhile space).head?=some c := by
    rw [hkept,List.head?_append,hc]
    rfl
  rw [hfirst] at hhead
  exact hhead

/-- A text without white space at its end keeps its end. -/
theorem append_of_head (hhead : ∀ c∈text.head?, space c=false) :
    ∃ back, text=trimmed space text++back ∧ ∀ c∈back, space c=true := by
  obtain ⟨front,back,htext,hfront,hback⟩ := trimmed_between space text
  cases front with
  | nil => exact ⟨back,htext,hback⟩
  | cons c front =>
    have hspace : space c=true := hfront c List.mem_cons_self
    have hno : space c=false := hhead c (by rw [htext]; rfl)
    rw [hno] at hspace
    cases hspace

end Ends

section Words

variable {α : Type*} (space : α → Bool)

/-- The words of a text. -/
def tokens (text : List α) : List (List α) :=
  (text.splitOnP space).filter fun token => !token.isEmpty

variable {space} {mark : α}

theorem tokens_append_cons (text rest : List α) {white : α} (hwhite : space white=true) :
    tokens space (text++white::rest)=tokens space text++tokens space rest := by
  unfold tokens
  rw [List.splitOnP_append_cons text rest hwhite,List.filter_append]

/-- A text without white space is one word. -/
theorem tokens_word {word : List α} (hword : word≠[]) (h : ∀ c∈word, space c=false) :
    tokens space word=[word] := by
  unfold tokens
  rw [List.splitOnP_eq_singleton h,List.filter_cons_of_pos]
  · rfl
  · cases word with
    | nil => exact absurd rfl hword
    | cons => rfl

/-- A symbol in front of the first part of a split text. -/
theorem splitOnP_cons_text {c : α} (h : space c=false) (text : List α) :
    ∃ word others, text.splitOnP space=word::others ∧
      (c::text).splitOnP space=(c::word)::others := by
  obtain ⟨word,others,hsplit⟩ :=
    List.exists_cons_of_ne_nil (List.splitOnP_ne_nil space text)
  refine ⟨word,others,hsplit,?_⟩
  rw [List.splitOnP_cons_eq_if_modifyHead,h,hsplit]
  rfl

/-- The first part of a split text starts as the text does. -/
theorem head_splitOnP (hmark : space mark=false) {word : List α} {others : List (List α)}
    {text : List α} (h : text.splitOnP space=word::others) :
    word.head?=some mark ↔ text.head?=some mark := by
  cases text with
  | nil =>
    rw [List.splitOnP_nil] at h
    cases h
    exact Iff.rfl
  | cons c text =>
    rw [List.splitOnP_cons_eq_if_modifyHead] at h
    cases hc : space c with
    | true =>
      rw [hc] at h
      cases h
      constructor
      · intro hnil
        cases hnil
      · intro hhead
        cases hhead
        rw [hmark] at hc
        cases hc
    | false =>
      obtain ⟨first,rest,hsplit,-⟩ := splitOnP_cons_text hc text
      rw [hc,hsplit] at h
      cases h
      exact Iff.rfl

variable (space mark) in
/-- The symbol stands behind white space. -/
def MarkedBehind (text : List α) : Prop :=
  ∃ before white after, text=before++white::mark::after ∧ space white=true

/-- A mark stands behind the first white space or further on. -/
theorem markedBehind_cons {c : α} {text : List α} : MarkedBehind space mark (c::text) ↔
    (space c=true ∧ text.head?=some mark) ∨ MarkedBehind space mark text := by
  constructor
  · rintro ⟨before,white,after,htext,hwhite⟩
    cases before with
    | nil =>
      cases htext
      exact Or.inl ⟨hwhite,rfl⟩
    | cons first before =>
      cases htext
      exact Or.inr ⟨before,white,after,rfl,hwhite⟩
  · rintro (⟨hwhite,hhead⟩ | ⟨before,white,after,htext,hwhite⟩)
    · obtain ⟨rest,htext⟩ := List.head?_eq_some_iff.mp hhead
      exact ⟨[],c,rest,by rw [htext]; rfl,hwhite⟩
    · exact ⟨c::before,white,after,by rw [htext]; rfl,hwhite⟩

/-- A part behind the first one starts with a symbol where the symbol stands
behind white space. -/
theorem tail_splitOnP (hmark : space mark=false) (text : List α) :
    (∃ word∈(text.splitOnP space).tail, word.head?=some mark) ↔ MarkedBehind space mark text := by
  induction text with
  | nil =>
    rw [List.splitOnP_nil]
    constructor
    · rintro ⟨word,hmem,-⟩
      exact absurd hmem List.not_mem_nil
    · rintro ⟨before,white,after,htext,-⟩
      exact absurd htext.symm (by simp)
  | cons c text ih =>
    obtain ⟨word,others,hsplit⟩ :=
      List.exists_cons_of_ne_nil (List.splitOnP_ne_nil space text)
    rw [markedBehind_cons,←ih,←head_splitOnP hmark hsplit,hsplit,
      List.splitOnP_cons_eq_if_modifyHead,hsplit]
    cases space c with
    | true => simp
    | false => simp

/-- A word starts with a symbol where the text does or where the symbol stands
behind white space. -/
theorem exists_token_iff (hmark : space mark=false) (text : List α) :
    (∃ token∈tokens space text, token.head?=some mark) ↔
      text.head?=some mark ∨ MarkedBehind space mark text := by
  have hall : (∃ token∈tokens space text, token.head?=some mark) ↔
      ∃ token∈text.splitOnP space, token.head?=some mark := by
    constructor
    · rintro ⟨token,hmem,hhead⟩
      exact ⟨token,(List.mem_filter.mp hmem).1,hhead⟩
    · rintro ⟨token,hmem,hhead⟩
      obtain ⟨rest,htoken⟩ := List.head?_eq_some_iff.mp hhead
      exact ⟨token,List.mem_filter.mpr ⟨hmem,by rw [htoken]; rfl⟩,hhead⟩
  obtain ⟨word,others,hsplit⟩ :=
    List.exists_cons_of_ne_nil (List.splitOnP_ne_nil space text)
  rw [hall,←tail_splitOnP hmark,←head_splitOnP hmark hsplit,hsplit]
  constructor
  · rintro ⟨token,hmem,hhead⟩
    rcases List.mem_cons.mp hmem with hfirst | hlater
    · exact Or.inl (hfirst ▸ hhead)
    · exact Or.inr ⟨token,hlater,hhead⟩
  · rintro (hfirst | ⟨token,hlater,hhead⟩)
    · exact ⟨word,List.mem_cons_self,hfirst⟩
    · exact ⟨token,List.mem_cons_of_mem _ hlater,hhead⟩

end Words

section Splits

variable {α : Type*} [DecidableEq α] (delimiter : α)

/-- The parts of a text around the last delimiter. -/
def rsplitOnce : List α → Option (List α×List α)
  | [] => none
  | c::rest =>
    match rsplitOnce rest with
    | some (left,right) => some (c::left,right)
    | none => if c=delimiter then some ([],rest) else none

variable {delimiter}

/-- What does not split has no delimiter. -/
theorem rsplitOnce_none {text : List α} (h : rsplitOnce delimiter text=none) :
    delimiter∉text := by
  induction text with
  | nil => exact List.not_mem_nil
  | cons c rest ih =>
    unfold rsplitOnce at h
    cases hrest : rsplitOnce delimiter rest with
    | some pair =>
      rw [hrest] at h
      cases h
    | none =>
      rw [hrest] at h
      dsimp only at h
      split at h
      · cases h
      · rename_i hc
        exact List.not_mem_cons_of_ne_of_not_mem (fun heq => hc heq.symm) (ih hrest)

/-- What splits does so at the last one. -/
theorem rsplitOnce_some {text left right : List α}
    (h : rsplitOnce delimiter text=some (left,right)) :
    text=left++delimiter::right ∧ delimiter∉right := by
  induction text generalizing left with
  | nil => cases h
  | cons c rest ih =>
    unfold rsplitOnce at h
    cases hrest : rsplitOnce delimiter rest with
    | some pair =>
      rw [hrest] at h
      cases h
      obtain ⟨htext,hright⟩ := ih hrest
      exact ⟨by rw [htext]; rfl,hright⟩
    | none =>
      rw [hrest] at h
      dsimp only at h
      split at h
      · rename_i hc
        cases h
        exact ⟨by rw [hc]; rfl,rsplitOnce_none hrest⟩
      · cases h

end Splits

end Vinput.TextWords
