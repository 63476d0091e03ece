import Mathlib.Data.List.Basic
import Mathlib.Data.List.Nodup

/-!
# Keeping the first entry of every name

A loop reads a list from its front with a set of the names it has seen. An
entry is prepared, dropped if its name was seen, and finished. An entry that
cannot be prepared uses no name; one that cannot be finished has used its
name. What the loop leaves is settled, and it leaves a settled list alone.
-/

namespace Vinput.FirstEntries

variable {α Name : Type*}

/-- How a loop treats its entries. -/
structure Treatment (α Name : Type*) where
  /-- What is done before the name is looked up. -/
  prepare : α → Option α
  /-- The name of an entry. -/
  name : α → Name
  /-- What is done after the name is taken. -/
  finish : α → Option α

/-- A treatment that does nothing to what it has treated. -/
structure Stable (treatment : Treatment α Name) : Prop where
  prepared : ∀ {entry later}, treatment.prepare entry=some later →
    treatment.prepare later=some later
  finished : ∀ {entry later}, treatment.prepare entry=some entry →
    treatment.finish entry=some later →
    treatment.prepare later=some later ∧ treatment.finish later=some later
  named : ∀ {entry later}, treatment.finish entry=some later →
    treatment.name later=treatment.name entry

/-- Entries that are treated already, with names of their own. -/
structure Settled (treatment : Treatment α Name) (seen : List Name) (entries : List α) : Prop where
  accepted : ∀ entry∈entries,
    treatment.prepare entry=some entry ∧ treatment.finish entry=some entry
  unique : (entries.map treatment.name).Nodup
  fresh : ∀ entry∈entries, treatment.name entry∉seen

variable {treatment : Treatment α Name} {seen : List Name} {entries : List α}

theorem Settled.nil : Settled treatment seen [] := ⟨nofun,List.nodup_nil,nofun⟩

/-- One more entry in front of a settled list. -/
theorem Settled.cons {entry : α} {rest : List α}
    (accepted : treatment.prepare entry=some entry ∧ treatment.finish entry=some entry)
    (fresh : treatment.name entry∉seen)
    (settled : Settled treatment (treatment.name entry::seen) rest) :
    Settled treatment seen (entry::rest) := by
  refine ⟨?_,?_,?_⟩
  · intro other hother
    rcases List.mem_cons.mp hother with hsame | hrest
    · rw [hsame]
      exact accepted
    · exact settled.accepted other hrest
  · rw [List.map_cons,List.nodup_cons]
    refine ⟨?_,settled.unique⟩
    intro hmem
    obtain ⟨other,hother,hname⟩ := List.mem_map.mp hmem
    exact settled.fresh other hother (hname ▸ List.mem_cons_self)
  · intro other hother
    rcases List.mem_cons.mp hother with hsame | hrest
    · rw [hsame]
      exact fresh
    · exact fun hseen => settled.fresh other hrest (List.mem_cons_of_mem _ hseen)

/-- The later entries are settled after the first. -/
theorem Settled.tail {entry : α} {rest : List α}
    (settled : Settled treatment seen (entry::rest)) :
    Settled treatment (treatment.name entry::seen) rest := by
  have hunique := settled.unique
  rw [List.map_cons,List.nodup_cons] at hunique
  refine ⟨fun other hother => settled.accepted other (List.mem_cons_of_mem _ hother),
    hunique.2,?_⟩
  intro other hother hmem
  rcases List.mem_cons.mp hmem with hname | hseen
  · exact hunique.1 (List.mem_map.mpr ⟨other,hother,hname⟩)
  · exact settled.fresh other (List.mem_cons_of_mem _ hother) hseen

/-- A settled list stays so when less was seen. -/
theorem Settled.mono {fewer : List Name} (settled : Settled treatment seen entries)
    (h : ∀ name∈fewer, name∈seen) : Settled treatment fewer entries :=
  ⟨settled.accepted,settled.unique,fun entry hentry hmem => settled.fresh entry hentry (h _ hmem)⟩

/-- A settled list stays settled with one more accepted entry. -/
theorem Settled.snoc (settled : Settled treatment seen entries) {entry : α}
    (accepted : treatment.prepare entry=some entry ∧ treatment.finish entry=some entry)
    (hfresh : treatment.name entry∉seen) (hnew : treatment.name entry∉entries.map treatment.name) :
    Settled treatment seen (entries++[entry]) := by
  refine ⟨?_,?_,?_⟩
  · intro other hother
    rcases List.mem_append.mp hother with hbefore | hlast
    · exact settled.accepted other hbefore
    · rw [List.mem_singleton.mp hlast]
      exact accepted
  · rw [List.map_append,List.nodup_append]
    refine ⟨settled.unique,List.nodup_singleton _,?_⟩
    intro name hname other hother hsame
    rw [List.map_singleton,List.mem_singleton] at hother
    rw [hsame,hother] at hname
    exact hnew hname
  · intro other hother
    rcases List.mem_append.mp hother with hbefore | hlast
    · exact settled.fresh other hbefore
    · rw [List.mem_singleton.mp hlast]
      exact hfresh

/-- A change that keeps names and acceptance keeps a list settled. -/
theorem Settled.map (settled : Settled treatment seen entries) {change : α → α}
    (hname : ∀ entry, treatment.name (change entry)=treatment.name entry)
    (haccepted : ∀ entry, treatment.prepare entry=some entry → treatment.finish entry=some entry →
      treatment.prepare (change entry)=some (change entry) ∧
        treatment.finish (change entry)=some (change entry)) :
    Settled treatment seen (entries.map change) := by
  refine ⟨?_,?_,?_⟩
  · intro changed hchanged
    obtain ⟨entry,hentry,hsame⟩ := List.mem_map.mp hchanged
    rw [← hsame]
    exact haccepted entry (settled.accepted entry hentry).1 (settled.accepted entry hentry).2
  · have hnames : treatment.name∘change=treatment.name := funext hname
    rw [List.map_map,hnames]
    exact settled.unique
  · intro changed hchanged
    obtain ⟨entry,hentry,hsame⟩ := List.mem_map.mp hchanged
    rw [← hsame,hname]
    exact settled.fresh entry hentry

/-- Entries that can all be kept: each is accepted, under a name of its own. -/
structure Acceptable (treatment : Treatment α Name) (seen : List Name) (entries : List α) :
    Prop where
  accepted : ∀ entry∈entries, ∃ prepared kept, treatment.prepare entry=some prepared ∧
    treatment.finish prepared=some kept
  unique : ((entries.filterMap treatment.prepare).map treatment.name).Nodup
  fresh : ∀ prepared∈entries.filterMap treatment.prepare, treatment.name prepared∉seen

/-- A settled list can be kept as it is. -/
theorem Settled.acceptable (settled : Settled treatment seen entries) :
    Acceptable treatment seen entries := by
  have hprepared : entries.filterMap treatment.prepare=entries := by
    refine (List.filterMap_congr fun entry hentry => ?_).trans List.filterMap_some
    exact (settled.accepted entry hentry).1
  refine ⟨fun entry hentry => ⟨entry,entry,settled.accepted entry hentry⟩,?_,?_⟩
  · rw [hprepared]
    exact settled.unique
  · rw [hprepared]
    exact settled.fresh

/-- What is accepted does not depend on entries that are prepared alike. -/
theorem Acceptable.map_congr {left right : α → α}
    (acceptable : Acceptable treatment seen (entries.map left))
    (h : ∀ entry∈entries, treatment.prepare (left entry)=treatment.prepare (right entry)) :
    Acceptable treatment seen (entries.map right) := by
  have hprepared : (entries.map left).filterMap treatment.prepare=
      (entries.map right).filterMap treatment.prepare := by
    rw [List.filterMap_map,List.filterMap_map]
    exact List.filterMap_congr h
  refine ⟨?_,hprepared ▸ acceptable.unique,hprepared ▸ acceptable.fresh⟩
  intro changed hchanged
  obtain ⟨entry,hentry,hsame⟩ := List.mem_map.mp hchanged
  rw [← hsame,← h entry hentry]
  exact acceptable.accepted (left entry) (List.mem_map_of_mem hentry)

/-- Entries that are prepared under their own names have the names they had. -/
theorem Acceptable.names (acceptable : Acceptable treatment seen entries)
    (hname : ∀ entry prepared, treatment.prepare entry=some prepared →
      treatment.name prepared=treatment.name entry) :
    (entries.filterMap treatment.prepare).map treatment.name=entries.map treatment.name := by
  have haccepted := acceptable.accepted
  clear acceptable
  induction entries with
  | nil => rfl
  | cons entry rest ih =>
    obtain ⟨prepared,_,hprepared,_⟩ := haccepted entry List.mem_cons_self
    rw [List.filterMap_cons_some hprepared,List.map_cons,List.map_cons,hname entry prepared hprepared,
      ih fun other hother => haccepted other (List.mem_cons_of_mem _ hother)]

/-- The entries before the last are acceptable by themselves. -/
theorem Acceptable.front {entry : α} (acceptable : Acceptable treatment seen (entries++[entry])) :
    Acceptable treatment seen entries := by
  have hunique := acceptable.unique
  rw [List.filterMap_append,List.map_append,List.nodup_append] at hunique
  refine ⟨fun other hother => acceptable.accepted other (List.mem_append_left _ hother),
    hunique.1,fun prepared hprepared => acceptable.fresh prepared ?_⟩
  rw [List.filterMap_append]
  exact List.mem_append_left _ hprepared

variable [DecidableEq Name]

/-- The names seen and the entries kept after a whole list. -/
def keepFirst (treatment : Treatment α Name) : List Name → List α → List Name×List α
  | seen,[] => (seen,[])
  | seen,entry::rest =>
    match treatment.prepare entry with
    | none => keepFirst treatment seen rest
    | some prepared =>
      if treatment.name prepared∈seen then keepFirst treatment seen rest
      else
        let later := keepFirst treatment (treatment.name prepared::seen) rest
        match treatment.finish prepared with
        | none => later
        | some kept => (later.1,kept::later.2)

/-- What the loop leaves is settled. -/
theorem keepFirst_settled (stable : Stable treatment) (seen : List Name) (entries : List α) :
    Settled treatment seen (keepFirst treatment seen entries).2 := by
  induction entries generalizing seen with
  | nil => exact .nil
  | cons entry rest ih =>
    dsimp only [keepFirst]
    split
    · exact ih seen
    · rename_i prepared hprepared
      split
      · exact ih seen
      · rename_i hfresh
        have hlater := ih (treatment.name prepared::seen)
        split
        · exact hlater.mono fun name hname => List.mem_cons_of_mem _ hname
        · rename_i kept hkept
          have hname := stable.named hkept
          have haccepted := stable.finished (stable.prepared hprepared) hkept
          refine .cons haccepted ?_ ?_
          · rw [hname]
            exact hfresh
          · rw [hname]
            exact hlater

/-- The loop leaves a settled list alone. -/
theorem keepFirst_of_settled (settled : Settled treatment seen entries) :
    keepFirst treatment seen entries=((entries.map treatment.name).reverse++seen,entries) := by
  induction entries generalizing seen with
  | nil => rfl
  | cons entry rest ih =>
    obtain ⟨hprepare,hfinish⟩ := settled.accepted entry List.mem_cons_self
    have hfresh := settled.fresh entry List.mem_cons_self
    dsimp only [keepFirst]
    rw [hprepare]
    dsimp only
    rw [if_neg hfresh,hfinish,ih settled.tail]
    dsimp only
    rw [List.map_cons,List.reverse_cons,List.append_assoc]
    rfl

/-- When every entry can be finished, the names seen are the names kept. -/
theorem keepFirst_seen (stable : Stable treatment)
    (total : ∀ entry, (treatment.finish entry).isSome=true) (seen : List Name) (entries : List α) :
    (keepFirst treatment seen entries).1=
      ((keepFirst treatment seen entries).2.map treatment.name).reverse++seen := by
  induction entries generalizing seen with
  | nil => rfl
  | cons entry rest ih =>
    dsimp only [keepFirst]
    split
    · exact ih seen
    · rename_i prepared _
      split
      · exact ih seen
      · split
        · rename_i hnone
          have hsome := total prepared
          rw [hnone] at hsome
          cases hsome
        · rename_i kept hkept
          dsimp only
          rw [ih,List.map_cons,List.reverse_cons,List.append_assoc,stable.named hkept]
          rfl

/-- The loop sees of its entries what they are prepared to. -/
theorem keepFirst_map_congr {left right : α → α}
    (h : ∀ entry∈entries, treatment.prepare (left entry)=treatment.prepare (right entry))
    (seen : List Name) :
    keepFirst treatment seen (entries.map left)=keepFirst treatment seen (entries.map right) := by
  induction entries generalizing seen with
  | nil => rfl
  | cons entry rest ih =>
    have hrest := ih fun other hother => h other (List.mem_cons_of_mem _ hother)
    rw [List.map_cons,List.map_cons]
    simp only [keepFirst,h entry List.mem_cons_self,hrest]

/-- The loop keeps every entry of an acceptable list. -/
theorem keepFirst_acceptable (acceptable : Acceptable treatment seen entries) :
    List.Forall₂ (fun entry kept => (treatment.prepare entry).bind treatment.finish=some kept)
      entries (keepFirst treatment seen entries).2 := by
  induction entries generalizing seen with
  | nil => exact .nil
  | cons entry rest ih =>
    obtain ⟨prepared,kept,hprepared,hkept⟩ := acceptable.accepted entry List.mem_cons_self
    have hunique := acceptable.unique
    have hfresh := acceptable.fresh
    rw [List.filterMap_cons_some hprepared] at hunique hfresh
    rw [List.map_cons,List.nodup_cons] at hunique
    have hrest : Acceptable treatment (treatment.name prepared::seen) rest := by
      refine ⟨fun other hother => acceptable.accepted other (List.mem_cons_of_mem _ hother),
        hunique.2,?_⟩
      intro other hother hmem
      rcases List.mem_cons.mp hmem with hname | hseen
      · exact hunique.1 (List.mem_map.mpr ⟨other,hother,hname⟩)
      · exact hfresh other (List.mem_cons_of_mem _ hother) hseen
    dsimp only [keepFirst]
    rw [hprepared]
    dsimp only
    rw [if_neg (hfresh prepared List.mem_cons_self),hkept]
    refine .cons ?_ (ih hrest)
    rw [hprepared]
    exact hkept

theorem keepFirst_length_le (seen : List Name) (entries : List α) :
    (keepFirst treatment seen entries).2.length ≤ entries.length := by
  induction entries generalizing seen with
  | nil => exact Nat.le_refl 0
  | cons entry rest ih =>
    dsimp only [keepFirst]
    split
    · exact Nat.le_succ_of_le (ih seen)
    · split
      · exact Nat.le_succ_of_le (ih seen)
      · split
        · exact Nat.le_succ_of_le (ih _)
        · exact Nat.succ_le_succ (ih _)

/-- An entry at the end leaves what is kept of the others alone. -/
theorem keepFirst_concat (seen : List Name) (entries : List α) (entry : α) :
    keepFirst treatment seen (entries++[entry])=
      ((keepFirst treatment (keepFirst treatment seen entries).1 [entry]).1,
        (keepFirst treatment seen entries).2++
          (keepFirst treatment (keepFirst treatment seen entries).1 [entry]).2) := by
  induction entries generalizing seen with
  | nil => rfl
  | cons first rest ih =>
    rw [List.cons_append]
    dsimp only [keepFirst]
    split
    · exact ih seen
    · split
      · exact ih seen
      · rw [ih]
        split
        · rfl
        · rfl

/-- Names seen before do not change what is kept of acceptable entries. -/
theorem keepFirst_acceptable_congr {other : List Name}
    (acceptable : Acceptable treatment seen entries)
    (acceptable' : Acceptable treatment other entries) :
    (keepFirst treatment seen entries).2=(keepFirst treatment other entries).2 := by
  refine List.right_unique_forall₂' ?_ (keepFirst_acceptable acceptable)
    (keepFirst_acceptable acceptable')
  intro entry left right hleft hright
  exact Option.some.inj (hleft.symm.trans hright)

/-- Names are only taken by entries. -/
theorem mem_keepFirst_seen {name : Name} (h : name∈(keepFirst treatment seen entries).1) :
    name∈seen ∨ name∈(entries.filterMap treatment.prepare).map treatment.name := by
  induction entries generalizing seen with
  | nil => exact .inl h
  | cons entry rest ih =>
    dsimp only [keepFirst] at h
    cases hprepared : treatment.prepare entry with
    | none =>
      rw [hprepared] at h
      rw [List.filterMap_cons_none hprepared]
      exact ih h
    | some prepared =>
      rw [hprepared] at h
      rw [List.filterMap_cons_some hprepared,List.map_cons,List.mem_cons]
      dsimp only at h
      split at h
      · exact (ih h).imp_right .inr
      · have hlater : name∈(keepFirst treatment (treatment.name prepared::seen) rest).1 := by
          split at h
          · exact h
          · exact h
        rcases ih hlater with hmem | hmem
        · rcases List.mem_cons.mp hmem with hname | hseen
          · exact .inr (.inl hname)
          · exact .inl hseen
        · exact .inr (.inr hmem)

/-- Under a seen name nothing is kept. -/
theorem keepFirst_find_seen (named : ∀ {entry later}, treatment.finish entry=some later →
      treatment.name later=treatment.name entry) {name : Name} (hseen : name∈seen) :
    (keepFirst treatment seen entries).2.find? (fun entry => decide (treatment.name entry=name))=
      none := by
  induction entries generalizing seen with
  | nil => rfl
  | cons entry rest ih =>
    dsimp only [keepFirst]
    split
    · exact ih hseen
    · rename_i prepared _
      split
      · exact ih hseen
      · rename_i hfresh
        have hother : treatment.name prepared≠name := fun h => hfresh (h ▸ hseen)
        split
        · exact ih (List.mem_cons_of_mem _ hseen)
        · rename_i kept hkept
          rw [List.find?_cons_of_neg (by simpa [named hkept] using hother)]
          exact ih (List.mem_cons_of_mem _ hseen)

/-- Under a new name the first prepared entry is kept, if it can be finished. -/
theorem keepFirst_find (named : ∀ {entry later}, treatment.finish entry=some later →
      treatment.name later=treatment.name entry) {name : Name} (hnew : name∉seen) :
    (keepFirst treatment seen entries).2.find? (fun entry => decide (treatment.name entry=name))=
      ((entries.filterMap treatment.prepare).find?
        fun entry => decide (treatment.name entry=name)).bind treatment.finish := by
  induction entries generalizing seen with
  | nil => rfl
  | cons entry rest ih =>
    dsimp only [keepFirst]
    cases hprepared : treatment.prepare entry with
    | none =>
      rw [List.filterMap_cons_none hprepared]
      exact ih hnew
    | some prepared =>
      rw [List.filterMap_cons_some hprepared]
      dsimp only
      by_cases hname : treatment.name prepared=name
      · have htaken : name∈treatment.name prepared::seen := hname ▸ List.mem_cons_self
        rw [if_neg (by rwa [hname]),List.find?_cons_of_pos (by simpa using hname),Option.bind_some]
        cases hkept : treatment.finish prepared with
        | none => exact keepFirst_find_seen named htaken
        | some kept => exact List.find?_cons_of_pos (by simpa [named hkept] using hname)
      · rw [List.find?_cons_of_neg (by simpa using hname)]
        have hstill : name∉treatment.name prepared::seen := by
          simpa [hnew] using fun h => hname h.symm
        split
        · exact ih hnew
        · split
          · exact ih hstill
          · rename_i kept hkept
            rw [List.find?_cons_of_neg (by simpa [named hkept] using hname)]
            exact ih hstill

end Vinput.FirstEntries
