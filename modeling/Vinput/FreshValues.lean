import Mathlib.Data.List.Nodup

/-!
# Values that have not been seen

A loop reads a list from its front and keeps what it has not seen before.
Cutting the list before the loop and cutting its result agree exactly when
the cut loses no new value or the values before the cut are all new.
-/

namespace Vinput.FreshValues

variable {α : Type*} [DecidableEq α]

/-- Values of a list that have not been seen, each once. -/
def fresh (seen : List α) : List α → List α
  | [] => []
  | value::rest => if value∈seen then fresh seen rest else value::fresh (value::seen) rest

variable {seen other values later : List α}

/-- A value that was seen is left out. -/
theorem fresh_cons_of_mem {value : α} (h : value∈seen) :
    fresh seen (value::values)=fresh seen values := if_pos h

theorem fresh_cons_of_not_mem {value : α} (h : value∉seen) :
    fresh seen (value::values)=value::fresh (value::seen) values := if_neg h

/-- Only what has been seen of the values counts, not how often or in which
order. -/
theorem fresh_congr (h : ∀ value∈values, value∈seen ↔ value∈other) :
    fresh seen values=fresh other values := by
  induction values generalizing seen other with
  | nil => rfl
  | cons value rest ih =>
    have hrest : ∀ later∈rest, later∈seen ↔ later∈other :=
      fun later hlater => h later (List.mem_cons_of_mem _ hlater)
    by_cases hseen : value∈seen
    · have hother := (h value List.mem_cons_self).mp hseen
      rw [fresh_cons_of_mem hseen,fresh_cons_of_mem hother,ih hrest]
    · have hother : value∉other := fun hmem => hseen ((h value List.mem_cons_self).mpr hmem)
      rw [fresh_cons_of_not_mem hseen,fresh_cons_of_not_mem hother]
      congr 1
      refine ih fun later hlater => ?_
      simp [hrest later hlater]

/-- Fresh values were there and not seen. -/
theorem mem_fresh {value : α} : value∈fresh seen values ↔ value∈values ∧ value∉seen := by
  induction values generalizing seen with
  | nil => simp [fresh]
  | cons first rest ih =>
    by_cases hseen : first∈seen
    · rw [fresh_cons_of_mem hseen,ih]
      constructor
      · rintro ⟨hrest,hnot⟩
        exact ⟨List.mem_cons_of_mem _ hrest,hnot⟩
      · rintro ⟨hmem,hnot⟩
        rcases List.mem_cons.mp hmem with rfl | hrest
        · exact absurd hseen hnot
        · exact ⟨hrest,hnot⟩
    · rw [fresh_cons_of_not_mem hseen,List.mem_cons,ih]
      constructor
      · rintro (rfl | ⟨hrest,hnot⟩)
        · exact ⟨List.mem_cons_self,hseen⟩
        · exact ⟨List.mem_cons_of_mem _ hrest,fun hmem => hnot (List.mem_cons_of_mem _ hmem)⟩
      · rintro ⟨hmem,hnot⟩
        by_cases hsame : value=first
        · exact .inl hsame
        · refine .inr ⟨(List.mem_cons.mp hmem).resolve_left hsame,?_⟩
          simp [hsame,hnot]

theorem nodup_fresh (seen values : List α) : (fresh seen values).Nodup := by
  induction values generalizing seen with
  | nil => exact List.nodup_nil
  | cons value rest ih =>
    unfold fresh
    split
    · exact ih seen
    · refine List.nodup_cons.mpr ⟨?_,ih (value::seen)⟩
      intro hmem
      exact (mem_fresh.mp hmem).2 List.mem_cons_self

end Vinput.FreshValues
