import Mathlib.Data.List.Basic
import Mathlib.Tactic.Ring

/-!
# Texts cut into segments

Whether a text may be cut in front of an element is decided by what stands
before it in the same segment, read backwards. After a cut the next segment
starts afresh. So the segments of what is left are the segments that are left.
-/

namespace Vinput.Segmentation

section Segments

variable {α : Type*} (boundary : List α → α → Bool)

/-- Number of elements that belong to the segment before them. -/
def lengthFrom (front : List α) : List α → ℕ
  | [] => 0
  | next::rest => if boundary front next then 0 else lengthFrom (next::front) rest+1

/-- Length of the segment at the start of a text. -/
def segmentLength : List α → ℕ
  | [] => 0
  | first::rest => lengthFrom boundary [first] rest+1

/-- Segments of a text with the beginning of the first one. -/
def segmentsFrom (front : List α) : List α → List (List α)
  | [] => [front.reverse]
  | next::rest =>
    if boundary front next then front.reverse::segmentsFrom [next] rest
    else segmentsFrom (next::front) rest

/-- The segments of a text. -/
def segments : List α → List (List α)
  | [] => []
  | first::rest => segmentsFrom boundary [first] rest

variable {boundary} {front text rest : List α}

theorem segmentsFrom_flatten (front rest : List α) :
    (segmentsFrom boundary front rest).flatten=front.reverse++rest := by
  induction rest generalizing front with
  | nil => simp [segmentsFrom]
  | cons next rest ih =>
    rw [segmentsFrom]
    split
    · rw [List.flatten_cons,ih,List.reverse_singleton,List.singleton_append]
    · rw [ih,List.reverse_cons,List.append_assoc,List.singleton_append]

/-- No element is lost. -/
theorem segments_flatten (text : List α) : (segments boundary text).flatten=text := by
  cases text with
  | nil => rfl
  | cons first rest => exact segmentsFrom_flatten [first] rest

/-- The first segment is as long as it gets, the others follow. -/
theorem segmentsFrom_eq (front rest : List α) : segmentsFrom boundary front rest=
    (front.reverse++rest.take (lengthFrom boundary front rest))::
      segments boundary (rest.drop (lengthFrom boundary front rest)) := by
  induction rest generalizing front with
  | nil => simp [segmentsFrom,lengthFrom,segments]
  | cons next rest ih =>
    unfold segmentsFrom lengthFrom
    split
    · simp [segments]
    · rw [ih,List.take_succ_cons,List.drop_succ_cons,List.reverse_cons,List.append_assoc,
        List.singleton_append]

/-- Segments are cut off one after the other, each by its length. -/
theorem segments_eq (h : text≠[]) : segments boundary text=
    text.take (segmentLength boundary text)::
      segments boundary (text.drop (segmentLength boundary text)) := by
  obtain ⟨first,rest,rfl⟩ := List.exists_cons_of_ne_nil h
  exact segmentsFrom_eq [first] rest

theorem segmentLength_pos (h : text≠[]) : 0< segmentLength boundary text := by
  obtain ⟨first,rest,rfl⟩ := List.exists_cons_of_ne_nil h
  exact Nat.succ_pos _

/-- What is left behind some segments has the segments that are left. -/
theorem segments_drop (text : List α) (count : ℕ) :
    segments boundary ((segments boundary text).drop count).flatten=
      (segments boundary text).drop count := by
  induction count generalizing text with
  | zero => rw [List.drop_zero,segments_flatten]
  | succ count ih =>
    by_cases htext : text=[]
    · rw [htext]
      rfl
    · rw [segments_eq htext,List.drop_succ_cons]
      exact ih _

/-- A segment ends where it did if nothing else follows it, or the same element. -/
theorem segmentsFrom_cut {others : List α}
    (h : ∀ next more, others=next::more →
      (rest.drop (lengthFrom boundary front rest)).head?=some next) :
    segmentsFrom boundary front (rest.take (lengthFrom boundary front rest)++others)=
      (front.reverse++rest.take (lengthFrom boundary front rest))::segments boundary others := by
  induction rest generalizing front with
  | nil =>
    cases others with
    | nil => simp [segmentsFrom,lengthFrom,segments]
    | cons next more => cases h next more rfl
  | cons first rest ih =>
    by_cases hcut : boundary front first=true
    · rw [lengthFrom,if_pos hcut] at h ⊢
      cases others with
      | nil => simp [segmentsFrom,segments]
      | cons next more =>
        obtain rfl := Option.some.inj (h next more rfl)
        rw [List.take_zero,List.nil_append,segmentsFrom,if_pos hcut,List.append_nil]
        rfl
    · rw [lengthFrom,if_neg hcut] at h ⊢
      rw [List.take_succ_cons,List.cons_append,segmentsFrom,if_neg hcut,ih h]
      simp

/-- The first segment is one segment. -/
theorem segmentsFrom_take (front rest : List α) :
    segmentsFrom boundary front (rest.take (lengthFrom boundary front rest))=
      [front.reverse++rest.take (lengthFrom boundary front rest)] := by
  induction rest generalizing front with
  | nil => simp [segmentsFrom,lengthFrom]
  | cons next rest ih =>
    by_cases hcut : boundary front next=true
    · rw [lengthFrom,if_pos hcut]
      simp [segmentsFrom]
    · rw [lengthFrom,if_neg hcut,List.take_succ_cons,segmentsFrom,if_neg hcut,ih]
      simp

/-- A segment on its own is one segment. -/
theorem segments_of_mem {segment : List α} (h : segment∈segments boundary text) :
    segments boundary segment=[segment] := by
  induction hlength : text.length using Nat.strong_induction_on generalizing text with
  | _ length ih =>
    by_cases htext : text=[]
    · rw [htext] at h
      cases h
    · rw [segments_eq htext] at h
      rcases List.mem_cons.mp h with rfl | hrest
      · obtain ⟨first,rest,rfl⟩ := List.exists_cons_of_ne_nil htext
        exact segmentsFrom_take [first] rest
      · refine ih _ ?_ hrest rfl
        have hpos := @segmentLength_pos _ boundary _ htext
        have hlong := List.length_pos_of_ne_nil htext
        rw [List.length_drop]
        omega

/-- The first segments of a text have no others. -/
theorem segments_take (text : List α) (count : ℕ) :
    segments boundary ((segments boundary text).take count).flatten=
      (segments boundary text).take count := by
  induction count generalizing text with
  | zero => rfl
  | succ count ih =>
    by_cases htext : text=[]
    · rw [htext]
      rfl
    · obtain ⟨first,rest,rfl⟩ := List.exists_cons_of_ne_nil htext
      show segments boundary ((segmentsFrom boundary [first] rest).take (count+1)).flatten=
        (segmentsFrom boundary [first] rest).take (count+1)
      rw [segmentsFrom_eq,List.take_succ_cons,List.flatten_cons,List.append_assoc]
      have hwhole := @segments_flatten _ boundary (rest.drop (lengthFrom boundary [first] rest))
      have hbehind := @segmentsFrom_cut _ boundary [first] rest ((segments boundary
        (rest.drop (lengthFrom boundary [first] rest))).take count).flatten ?_
      · rw [ih] at hbehind
        exact hbehind
      · intro next more hmore
        rw [←hwhole,←List.take_append_drop count (segments boundary _),List.flatten_append,hmore]
        rfl

/-- A text in front is cut the same whatever follows, but for its last segment. -/
theorem segmentsFrom_append (front text : List α) : ∃ done last,
    segmentsFrom boundary front text=done++[last.reverse] ∧
    (front≠[] → last≠[]) ∧
    ∀ rest, segmentsFrom boundary front (text++rest)=done++segmentsFrom boundary last rest := by
  induction text generalizing front with
  | nil => exact ⟨[],front,rfl,id,fun rest => rfl⟩
  | cons next text ih =>
    by_cases hcut : boundary front next=true
    · obtain ⟨done,last,hlast,hne,happend⟩ := ih [next]
      refine ⟨front.reverse::done,last,?_,fun _ => hne (by simp),?_⟩
      · rw [segmentsFrom,if_pos hcut,hlast]
        rfl
      · intro rest
        rw [List.cons_append,segmentsFrom,if_pos hcut,happend]
        rfl
    · obtain ⟨done,last,hlast,hne,happend⟩ := ih (next::front)
      refine ⟨done,last,?_,fun _ => hne (by simp),?_⟩
      · rw [segmentsFrom,if_neg hcut,hlast]
      · intro rest
        rw [List.cons_append,segmentsFrom,if_neg hcut,happend]

end Segments

section Measures

variable {α : Type*} {boundary : List α → α → Bool} {measure : List α → ℕ} {left right : List α}

/-- Sum of a measure over the segments. -/
def total (boundary : List α → α → Bool) (measure : List α → ℕ) (text : List α) : ℕ :=
  ((segments boundary text).map measure).sum

/-- The measure of the segments, one of them begun. -/
def totalFrom (boundary : List α → α → Bool) (measure : List α → ℕ) (front text : List α) : ℕ :=
  ((segmentsFrom boundary front text).map measure).sum

theorem totalFrom_cut {front : List α} {next : α} (h : boundary front next=true) (rest : List α) :
    totalFrom boundary measure front (next::rest)=
      measure front.reverse+total boundary measure (next::rest) := by
  unfold totalFrom total segments
  rw [segmentsFrom,if_pos h,List.map_cons,List.sum_cons]

theorem totalFrom_join {front : List α} {next : α} (h : boundary front next=false)
    (rest : List α) : totalFrom boundary measure front (next::rest)=
      totalFrom boundary measure (next::front) rest := by
  unfold totalFrom
  rw [segmentsFrom,if_neg (by simp [h])]

/-- Two beginnings of a segment that are cut alike and differ by a bound. -/
theorem totalFrom_le {bound : ℕ}
    (hcut : ∀ more next, boundary (more++left) next=boundary (more++right) next)
    (hmeasure : ∀ more, measure (more++left).reverse ≤ bound+measure (more++right).reverse)
    (text more : List α) : totalFrom boundary measure (more++left) text ≤
      bound+totalFrom boundary measure (more++right) text := by
  induction text generalizing more with
  | nil =>
    have hbound := hmeasure more
    simpa [totalFrom,segmentsFrom] using hbound
  | cons next rest ih =>
    cases hnext : boundary (more++right) next with
    | true =>
      have hbound := hmeasure more
      rw [totalFrom_cut ((hcut more next).trans hnext),totalFrom_cut hnext]
      omega
    | false =>
      rw [totalFrom_join ((hcut more next).trans hnext),totalFrom_join hnext]
      exact ih (next::more)

/-- A text and what follows, with what the last segment of the text becomes. -/
theorem total_append {text : List α} (h : text≠[]) (measure : List α → ℕ) : ∃ sum last, last≠[] ∧
    total boundary measure text=sum+measure last.reverse ∧
    ∀ rest, total boundary measure (text++rest)=sum+totalFrom boundary measure last rest := by
  obtain ⟨first,text,rfl⟩ := List.exists_cons_of_ne_nil h
  obtain ⟨done,last,hlast,hne,happend⟩ := @segmentsFrom_append _ boundary [first] text
  refine ⟨(done.map measure).sum,last,hne (by simp),?_,?_⟩
  · show ((segmentsFrom boundary [first] text).map measure).sum=_
    rw [hlast]
    simp
  · intro rest
    show ((segmentsFrom boundary [first] (text++rest)).map measure).sum=_
    rw [happend]
    simp [totalFrom]

end Measures

end Vinput.Segmentation
