import Vinput.FilePaths

/-!
# Where paths lead

A path leads to what stands at its end, or to the place where that will stand
once the directories on the way are made. Two paths to the same directory lead
to the same places behind it. What is made on the way of a path does not change
where it leads.
-/

namespace Vinput.PathLeads

open FileTree FilePaths

section Leads

variable {ν β : Type*} [DecidableEq ν]

/-- Where a path leads. -/
inductive Lead (ν : Type*) where
  /-- Something stands there. -/
  | found (place : Path ν)
  /-- Nothing stands there, perhaps in directories that can be made. A path
  that goes on in it asks for a directory. -/
  | absent (place : Path ν) (directory : Bool)
  /-- The path leaves what is not there. -/
  | lost
  /-- The path goes on in something that is no directory. -/
  | blocked
  /-- The path leads through too many links. -/
  | looped
deriving DecidableEq

/-- The rest of a path below a place where nothing stands. -/
def leadMissing : Path ν → Bool → List (Element ν) → Lead ν
  | place,directory,[] => .absent place directory
  | place,_,.here::rest => leadMissing place true rest
  | _,_,.up::_ => .lost
  | place,_,.name name::rest => leadMissing (place++[name]) false rest

/-- Follow a path up to its first link. -/
def leadWith (follow : Path ν → List (Element ν) → Lead ν) (tree : Tree ν β) :
    Path ν → List (Element ν) → Lead ν
  | place,[] => .found place
  | place,.here::rest => leadWith follow tree place rest
  | place,.up::rest => leadWith follow tree place.dropLast rest
  | place,.name name::rest =>
    match turnAt tree (place++[name]) with
    | none => leadMissing (place++[name]) false rest
    | some .directory => leadWith follow tree (place++[name]) rest
    | some (.link absolute target) => follow (if absolute then [] else place) (target++rest)
    | some .leaf => if rest=[] then .found (place++[name]) else .blocked

/-- Follow a path with a number of links at most. -/
def lead (tree : Tree ν β) : ℕ → Path ν → List (Element ν) → Lead ν
  | 0 => leadWith (fun _ _ => .looped) tree
  | links+1 => leadWith (lead tree links) tree

variable {tree : Tree ν β} {links : ℕ} {place : Path ν} {parts rest : List (Element ν)} {name : ν}

/-- Without steps the place itself is found. -/
@[simp]
theorem lead_nil : lead tree links place []=.found place := by
  cases links <;> rfl

/-- A step to the same place changes nothing. -/
@[simp]
theorem lead_here : lead tree links place (.here::rest)=lead tree links place rest := by
  cases links <;> rfl

@[simp]
theorem lead_up : lead tree links place (.up::rest)=lead tree links place.dropLast rest := by
  cases links <;> rfl

/-- A name that is missing ends the search. -/
theorem lead_missing (h : turnAt tree (place++[name])=none) :
    lead tree links place (.name name::rest)=leadMissing (place++[name]) false rest := by
  cases links <;> rw [lead,leadWith,h]

theorem lead_directory (h : turnAt tree (place++[name])=some .directory) :
    lead tree links place (.name name::rest)=lead tree links (place++[name]) rest := by
  cases links <;> rw [lead,leadWith,h]

/-- A leaf is found at the end and blocks anything behind it. -/
theorem lead_leaf (h : turnAt tree (place++[name])=some .leaf) :
    lead tree links place (.name name::rest)=
      if rest=[] then .found (place++[name]) else .blocked := by
  cases links <;> rw [lead,leadWith,h]

variable {absolute : Bool} {target : List (Element ν)}

/-- Without links left a link is a loop. -/
theorem lead_looped (h : turnAt tree (place++[name])=some (.link absolute target)) :
    lead tree 0 place (.name name::rest)=.looped := by
  rw [lead,leadWith,h]

/-- A link is replaced by its target. -/
theorem lead_link (h : turnAt tree (place++[name])=some (.link absolute target)) :
    lead tree (links+1) place (.name name::rest)=
      lead tree links (if absolute then [] else place) (target++rest) := by
  rw [lead,leadWith,h]

/-- A path is followed part by part, and a link takes one of those that may be
followed. -/
@[elab_as_elim]
theorem lead_induction (tree : Tree ν β) {motive : ℕ → Path ν → List (Element ν) → Prop}
    (nil : ∀ links place, motive links place [])
    (here : ∀ links place rest, motive links place rest → motive links place (.here::rest))
    (up : ∀ links place rest, motive links place.dropLast rest → motive links place (.up::rest))
    (missing : ∀ links place name rest, turnAt tree (place++[name])=none →
      motive links place (.name name::rest))
    (directory : ∀ links place name rest, turnAt tree (place++[name])=some .directory →
      motive links (place++[name]) rest → motive links place (.name name::rest))
    (leaf : ∀ links place name rest, turnAt tree (place++[name])=some .leaf →
      motive links place (.name name::rest))
    (looped : ∀ place name rest absolute target,
      turnAt tree (place++[name])=some (.link absolute target) →
      motive 0 place (.name name::rest))
    (link : ∀ links place name rest absolute target,
      turnAt tree (place++[name])=some (.link absolute target) →
      (∀ base parts, motive links base parts) → motive (links+1) place (.name name::rest))
    (links : ℕ) (place : Path ν) (parts : List (Element ν)) : motive links place parts := by
  induction links generalizing place parts with
  | zero =>
    induction parts generalizing place with
    | nil => exact nil 0 place
    | cons part rest ih =>
      cases part with
      | here => exact here 0 place rest (ih place)
      | up => exact up 0 place rest (ih place.dropLast)
      | name name =>
        cases hturn : turnAt tree (place++[name]) with
        | none => exact missing 0 place name rest hturn
        | some node =>
          cases node with
          | directory => exact directory 0 place name rest hturn (ih (place++[name]))
          | link absolute target => exact looped place name rest absolute target hturn
          | leaf => exact leaf 0 place name rest hturn
  | succ links hfollow =>
    induction parts generalizing place with
    | nil => exact nil (links+1) place
    | cons part rest ih =>
      cases part with
      | here => exact here (links+1) place rest (ih place)
      | up => exact up (links+1) place rest (ih place.dropLast)
      | name name =>
        cases hturn : turnAt tree (place++[name]) with
        | none => exact missing (links+1) place name rest hturn
        | some node =>
          cases node with
          | directory => exact directory (links+1) place name rest hturn (ih (place++[name]))
          | link absolute target => exact link links place name rest absolute target hturn hfollow
          | leaf => exact leaf (links+1) place name rest hturn

end Leads

section Composition

variable {ν β : Type*} [DecidableEq ν] {tree : Tree ν β} {links : ℕ} {place : Path ν}
  {front rest : List (Element ν)} {outcome : Lead ν}

omit [DecidableEq ν] in
/-- Below something missing a path leads further down, or out of it. -/
theorem leadMissing_cases (place : Path ν) (flag : Bool) (parts : List (Element ν)) :
    leadMissing place flag parts=.lost ∨
      ∃ other directory, leadMissing place flag parts=.absent other directory ∧ place<+:other := by
  induction parts generalizing place flag with
  | nil => exact Or.inr ⟨place,flag,rfl,List.prefix_refl _⟩
  | cons part parts ih =>
    cases part with
    | here => exact ih place true
    | up => exact Or.inl rfl
    | name name =>
      refine (ih (place++[name]) false).imp_right ?_
      rintro ⟨other,directory,hother,hbelow⟩
      exact ⟨other,directory,hother,(List.prefix_append _ _).trans hbelow⟩

omit [DecidableEq ν] in
/-- Behind a missing name nothing is found. -/
theorem leadMissing_ne_found {place found : Path ν} {flag : Bool} {parts : List (Element ν)} :
    leadMissing place flag parts≠.found found := by
  intro h
  rcases leadMissing_cases place flag parts with hlost | ⟨other,directory,habsent,-⟩
  · rw [hlost] at h
    cases h
  · rw [habsent] at h
    cases h

omit [DecidableEq ν] in
/-- The rest of a path below something missing depends on its place alone. -/
theorem leadMissing_flag {place : Path ν} {flag other : Bool} (h : rest≠[]) :
    leadMissing place flag rest=leadMissing place other rest := by
  cases rest with
  | nil => exact absurd rfl h
  | cons part rest => cases part <;> rfl

/-- How a path goes on behind a directory that is not there. -/
def Lead.goOn (outcome : Lead ν) (rest : List (Element ν)) : Lead ν :=
  match outcome with
  | .absent place _ => leadMissing place true rest
  | other => other

omit [DecidableEq ν] in
/-- A step to the same place does not change the outcome. -/
theorem goOn_here (outcome : Lead ν) (rest : List (Element ν)) :
    outcome.goOn (.here::rest)=outcome.goOn rest := by
  cases outcome <;> rfl

omit [DecidableEq ν] in
/-- Behind a step up only that step counts. -/
theorem goOn_up (outcome : Lead ν) (rest : List (Element ν)) :
    outcome.goOn (.up::rest)=outcome.goOn [.up] := by
  cases outcome <;> rfl

omit [DecidableEq ν] in
/-- A missing path goes on from the outcome of its front. -/
theorem leadMissing_append {place : Path ν} {flag : Bool} (hrest : rest≠[]) :
    leadMissing place flag (front++rest)=(leadMissing place flag (front++[.here])).goOn rest := by
  induction front generalizing place flag with
  | nil => exact leadMissing_flag hrest
  | cons part front ih =>
    cases part with
    | here => exact ih
    | up => rfl
    | name name => exact ih

/-- A path goes on behind its directory, perhaps with fewer links. -/
theorem lead_append_found {directory : Path ν}
    (h : lead tree links place (front++[.here])=.found directory) :
    ∃ left, left≤links ∧
      ∀ rest, lead tree links place (front++rest)=lead tree left directory rest := by
  induction links, place, front using lead_induction tree with
  | nil links place =>
    rw [List.nil_append,lead_here,lead_nil] at h
    cases h
    exact ⟨links,Nat.le_refl _,fun _ => rfl⟩
  | here links place front ih =>
    rw [List.cons_append,lead_here] at h
    obtain ⟨left,hle,hall⟩ := ih h
    exact ⟨left,hle,fun rest => by rw [List.cons_append,lead_here,hall]⟩
  | up links place front ih =>
    rw [List.cons_append,lead_up] at h
    obtain ⟨left,hle,hall⟩ := ih h
    exact ⟨left,hle,fun rest => by rw [List.cons_append,lead_up,hall]⟩
  | missing links place name front hturn =>
    rw [List.cons_append,lead_missing hturn] at h
    exact absurd h leadMissing_ne_found
  | directory links place name front hturn ih =>
    rw [List.cons_append,lead_directory hturn] at h
    obtain ⟨left,hle,hall⟩ := ih h
    exact ⟨left,hle,fun rest => by rw [List.cons_append,lead_directory hturn,hall]⟩
  | leaf links place name front hturn =>
    rw [List.cons_append,lead_leaf hturn,if_neg (by simp)] at h
    cases h
  | looped place name front absolute target hturn =>
    rw [List.cons_append,lead_looped hturn] at h
    cases h
  | link links place name front absolute target hturn ih =>
    rw [List.cons_append,lead_link hturn,←List.append_assoc] at h
    obtain ⟨left,hle,hall⟩ := ih _ _ h
    refine ⟨left,Nat.le_succ_of_le hle,fun rest => ?_⟩
    rw [List.cons_append,lead_link hturn,←List.append_assoc,hall]

omit [DecidableEq ν] in
/-- What is absent as a directory is absent as an entry. -/
theorem leadMissing_front {place found : Path ν} {flag directory : Bool}
    (h : leadMissing place flag (front++[.here])=.absent found directory) :
    ∃ other, leadMissing place flag front=.absent found other := by
  induction front generalizing place flag with
  | nil =>
    cases h
    exact ⟨flag,rfl⟩
  | cons part front ih =>
    cases part with
    | here => exact ih h
    | up => cases h
    | name name => exact ih h

/-- A directory that is missing is missing as a file. -/
theorem lead_front_absent {found : Path ν} {directory : Bool}
    (h : lead tree links place (front++[.here])=.absent found directory) :
    ∃ other, lead tree links place front=.absent found other := by
  induction links, place, front using lead_induction tree with
  | nil links place =>
    rw [List.nil_append,lead_here,lead_nil] at h
    cases h
  | here links place front ih =>
    rw [List.cons_append,lead_here] at h
    rw [lead_here]
    exact ih h
  | up links place front ih =>
    rw [List.cons_append,lead_up] at h
    rw [lead_up]
    exact ih h
  | missing links place name front hturn =>
    rw [List.cons_append,lead_missing hturn] at h
    rw [lead_missing hturn]
    exact leadMissing_front h
  | directory links place name front hturn ih =>
    rw [List.cons_append,lead_directory hturn] at h
    rw [lead_directory hturn]
    exact ih h
  | leaf links place name front hturn =>
    rw [List.cons_append,lead_leaf hturn,if_neg (by simp)] at h
    cases h
  | looped place name front absolute target hturn =>
    rw [List.cons_append,lead_looped hturn] at h
    cases h
  | link links place name front absolute target hturn ih =>
    rw [List.cons_append,lead_link hturn,←List.append_assoc] at h
    rw [lead_link hturn]
    exact ih _ _ h

/-- Behind what is no directory a path goes on in one way. -/
theorem lead_append_other (h : lead tree links place (front++[.here])=outcome)
    (hother : ∀ directory, outcome≠.found directory) (hrest : rest≠[]) :
    lead tree links place (front++rest)=outcome.goOn rest := by
  induction links, place, front using lead_induction tree with
  | nil links place =>
    rw [List.nil_append,lead_here,lead_nil] at h
    exact absurd h.symm (hother place)
  | here links place front ih =>
    rw [List.cons_append,lead_here] at h ⊢
    exact ih h
  | up links place front ih =>
    rw [List.cons_append,lead_up] at h ⊢
    exact ih h
  | missing links place name front hturn =>
    rw [List.cons_append,lead_missing hturn] at h ⊢
    rw [leadMissing_append hrest,h]
  | directory links place name front hturn ih =>
    rw [List.cons_append,lead_directory hturn] at h ⊢
    exact ih h
  | leaf links place name front hturn =>
    rw [List.cons_append,lead_leaf hturn] at h ⊢
    rw [if_neg (by simp)] at h
    rw [if_neg (by simp [hrest]),←h]
    rfl
  | looped place name front absolute target hturn =>
    rw [List.cons_append,lead_looped hturn] at h ⊢
    rw [←h]
    rfl
  | link links place name front absolute target hturn ih =>
    rw [List.cons_append,lead_link hturn,←List.append_assoc] at h ⊢
    exact ih _ _ h

/-- More links do no harm. -/
theorem lead_mono {many : ℕ} {parts : List (Element ν)} (h : lead tree links place parts=outcome)
    (hlooped : outcome≠.looped) (hle : links≤ many) : lead tree many place parts=outcome := by
  induction links, place, parts using lead_induction tree generalizing many with
  | nil links place =>
    rw [lead_nil] at h ⊢
    exact h
  | here links place rest ih =>
    rw [lead_here] at h ⊢
    exact ih h hle
  | up links place rest ih =>
    rw [lead_up] at h ⊢
    exact ih h hle
  | missing links place name rest hturn =>
    rw [lead_missing hturn] at h ⊢
    exact h
  | directory links place name rest hturn ih =>
    rw [lead_directory hturn] at h ⊢
    exact ih h hle
  | leaf links place name rest hturn =>
    rw [lead_leaf hturn] at h ⊢
    exact h
  | looped place name rest absolute target hturn =>
    rw [lead_looped hturn] at h
    exact absurd h.symm hlooped
  | link links place name rest absolute target hturn ih =>
    obtain ⟨fewer,rfl⟩ : ∃ fewer, many=fewer+1 := ⟨many-1,by omega⟩
    rw [lead_link hturn] at h ⊢
    exact ih _ _ h (by omega)

/-- The directory itself, written once more, does not count in front of
something. -/
theorem lead_drop_here (hrest : rest≠[]) :
    lead tree links place (front++.here::rest)=lead tree links place (front++rest) := by
  by_cases hfound : ∃ directory, lead tree links place (front++[.here])=.found directory
  · obtain ⟨directory,h⟩ := hfound
    obtain ⟨left,-,hall⟩ := lead_append_found h
    rw [hall,hall,lead_here]
  · have hother : ∀ directory, lead tree links place (front++[.here])≠.found directory :=
      fun directory h => hfound ⟨directory,h⟩
    rw [lead_append_other rfl hother hrest,lead_append_other rfl hother (List.cons_ne_nil _ _)]
    exact goOn_here _ rest

/-- A path that does not end in a name leads to a directory. -/
theorem lead_last_here {last : Element ν} (hlast : ∀ name, last≠.name name) :
    lead tree links place (front++[last,.here])=lead tree links place (front++[last]) := by
  by_cases hfound : ∃ directory, lead tree links place (front++[.here])=.found directory
  · obtain ⟨directory,h⟩ := hfound
    obtain ⟨left,-,hall⟩ := lead_append_found h
    rw [hall,hall]
    cases last with
    | here => rw [lead_here,lead_here]
    | up => rw [lead_up,lead_up,lead_here]
    | name name => exact absurd rfl (hlast name)
  · have hother : ∀ directory, lead tree links place (front++[.here])≠.found directory :=
      fun directory h => hfound ⟨directory,h⟩
    have hlong := lead_append_other rfl hother (List.cons_ne_nil last [.here])
    have hshort := lead_append_other rfl hother (List.cons_ne_nil last [])
    rw [hlong,hshort]
    cases last with
    | here => exact goOn_here _ _
    | up => exact goOn_up _ _
    | name name => exact absurd rfl (hlast name)

/-- A part that leads back to its directory with the step up behind it can be left
out, unless it takes too many links. -/
theorem lead_back {last : Element ν} (hfront : lead tree links place (front++[.here])=.found directory)
    (hback : lead tree links place (front++[last,.up])=.found directory)
    (hlooped : lead tree links place (front++last::.up::rest)≠.looped) :
    lead tree links place (front++rest)=lead tree links place (front++last::.up::rest) := by
  obtain ⟨left,-,hall⟩ := lead_append_found hfront
  rw [hall] at hback hlooped
  have hinto : lead tree left directory ([last,.up]++[.here])=.found directory := by
    have hhere : lead tree left directory ([last]++[.up,.here])=
        lead tree left directory ([last]++[.up]) := lead_last_here nofun
    exact hhere.trans hback
  obtain ⟨fewer,hle,hbehind⟩ := lead_append_found hinto
  have hsame : lead tree left directory (last::.up::rest)=lead tree fewer directory rest :=
    hbehind rest
  rw [hsame] at hlooped
  rw [hall,hall,hsame]
  exact lead_mono rfl hlooped hle

end Composition

section Places

variable {ν β : Type*} [DecidableEq ν] {tree : Tree ν β} {links : ℕ} {place result : Path ν}
  {front parts rest : List (Element ν)}

/-- Following a path finds what the path leads to. -/
theorem walk_iff : walk tree links place parts=some result ↔
    lead tree links place parts=.found result := by
  induction links, place, parts using lead_induction tree with
  | nil links place => rw [walk_nil,lead_nil,Option.some_inj,Lead.found.injEq]
  | here links place rest ih => rw [walk_here,lead_here,ih]
  | up links place rest ih => rw [walk_up,lead_up,ih]
  | missing links place name rest hturn =>
    have hnone : walk tree links place (.name name::rest)=none :=
      walk_missing (Option.map_eq_none_iff.mp hturn)
    rw [hnone,lead_missing hturn]
    exact iff_of_false (by simp) leadMissing_ne_found
  | directory links place name rest hturn ih =>
    have hstep : walk tree links place (.name name::rest)=walk tree links (place++[name]) rest := by
      cases links <;> rw [walk,walkWith_name,hturn]
    rw [hstep,lead_directory hturn,ih]
  | leaf links place name rest hturn =>
    have hstep : walk tree links place (.name name::rest)=
        if rest=[] then some (place++[name]) else none := by
      cases links <;> rw [walk,walkWith_name,hturn]
    rw [hstep,lead_leaf hturn]
    split <;> simp
  | looped place name rest absolute target hturn =>
    have hstep : walk tree 0 place (.name name::rest)=none := by rw [walk,walkWith_name,hturn]
    rw [hstep,lead_looped hturn]
    simp
  | link links place name rest absolute target hturn ih =>
    have hstep : walk tree (links+1) place (.name name::rest)=
        walk tree links (if absolute then [] else place) (target++rest) := by
      rw [walk,walkWith_name,hturn]
    rw [hstep,lead_link hturn,ih]

/-- What a path leads to is there, and is no link. -/
theorem lead_end (hplace : tree.get place=some .directory)
    (h : lead tree links place parts=.found result) : Ends tree result :=
  walk_end hplace (walk_iff.mpr h)

/-- What a walk enters is a directory. -/
theorem directory_of_turnAt {path : Path ν} (h : turnAt tree path=some .directory) :
    tree.get path=some .directory := by
  obtain ⟨node,hnode,hturn⟩ := Option.map_eq_some_iff.mp h
  cases node with
  | directory => exact hnode
  | file content => cases hturn
  | link absolute target => cases hturn
  | special => cases hturn

/-- A path that asks for a directory leads to one. -/
theorem lead_here_directory (hplace : tree.get place=some .directory)
    (h : lead tree links place (front++[.here])=.found result) :
    tree.get result=some .directory := by
  induction links, place, front using lead_induction tree with
  | nil links place =>
    rw [List.nil_append,lead_here,lead_nil] at h
    cases h
    exact hplace
  | here links place front ih =>
    rw [List.cons_append,lead_here] at h
    exact ih hplace h
  | up links place front ih =>
    rw [List.cons_append,lead_up] at h
    exact ih (parent_directory hplace) h
  | missing links place name front hturn =>
    rw [List.cons_append,lead_missing hturn] at h
    exact absurd h leadMissing_ne_found
  | directory links place name front hturn ih =>
    rw [List.cons_append,lead_directory hturn] at h
    exact ih (directory_of_turnAt hturn) h
  | leaf links place name front hturn =>
    rw [List.cons_append,lead_leaf hturn,if_neg (by simp)] at h
    cases h
  | looped place name front absolute target hturn =>
    rw [List.cons_append,lead_looped hturn] at h
    cases h
  | link links place name front absolute target hturn ih =>
    rw [List.cons_append,lead_link hturn,←List.append_assoc] at h
    refine ih _ _ ?_ h
    split
    · exact root_directory hplace
    · exact hplace

omit [DecidableEq ν] in
/-- A path that ends where nothing stands ends below it. -/
theorem below_of_leadMissing {flag directory : Bool}
    (h : leadMissing place flag parts=.absent result directory) : place<+:result := by
  rcases leadMissing_cases place flag parts with hlost | ⟨other,asked,habsent,hbelow⟩
  · rw [hlost] at h
    cases h
  · rw [habsent] at h
    cases h
    exact hbelow

omit [DecidableEq ν] in
/-- A place that is absent itself, and not as a directory, has no steps left. -/
theorem nil_of_leadMissing {flag : Bool}
    (h : leadMissing place flag parts=.absent place false) : flag=false ∧ parts=[] := by
  induction parts generalizing flag with
  | nil =>
    cases h
    exact ⟨rfl,rfl⟩
  | cons part parts ih =>
    cases part with
    | here => exact absurd (ih h).1 (by decide)
    | up => cases h
    | name name =>
      have hbelow : leadMissing (place++[name]) false parts=.absent place false := h
      exact absurd (below_of_leadMissing hbelow) (not_concat_below place name)

/-- Nothing stands where a path leads in vain. -/
theorem lead_absent {directory : Bool} (h : lead tree links place parts=.absent result directory) :
    tree.get result=none := by
  induction links, place, parts using lead_induction tree with
  | nil links place =>
    rw [lead_nil] at h
    cases h
  | here links place rest ih =>
    rw [lead_here] at h
    exact ih h
  | up links place rest ih =>
    rw [lead_up] at h
    exact ih h
  | missing links place name rest hturn =>
    rw [lead_missing hturn] at h
    exact tree.get_below (Option.map_eq_none_iff.mp hturn) (below_of_leadMissing h)
  | directory links place name rest hturn ih =>
    rw [lead_directory hturn] at h
    exact ih h
  | leaf links place name rest hturn =>
    rw [lead_leaf hturn] at h
    split at h <;> cases h
  | looped place name rest absolute target hturn =>
    rw [lead_looped hturn] at h
    cases h
  | link links place name rest absolute target hturn ih =>
    rw [lead_link hturn] at h
    exact ih _ _ h

/-- What is above a directory is a directory. -/
theorem directory_above {path : Path ν} (hplace : tree.get place=some .directory)
    (h : path<+:place) :
    tree.get path=some .directory := by
  obtain ⟨below,rfl⟩ := h
  cases below with
  | nil =>
    rw [List.append_nil] at hplace
    exact hplace
  | cons name below =>
    have hthere : tree.get (path++name::below)≠none := by
      rw [hplace]
      exact Option.some_ne_none _
    exact tree.get_above hthere

/-- A directory is entered by a walk. -/
theorem turnAt_of_directory {path : Path ν} (h : tree.get path=some .directory) :
    turnAt tree path=some .directory := by
  rw [turnAt,h]
  rfl

/-- Names of directories lead down to them. -/
theorem lead_names {names : List ν} (h : tree.get (place++names)=some .directory) :
    lead tree links place (names.map .name++rest)=lead tree links (place++names) rest := by
  induction names generalizing place with
  | nil =>
    rw [List.append_nil]
    rfl
  | cons name names ih =>
    have hfirst : tree.get (place++[name])=some .directory := by
      cases names with
      | nil => exact h
      | cons next names =>
        have hthere : tree.get (place++[name]++next::names)≠none := by
          rw [List.append_assoc,List.singleton_append,h]
          exact Option.some_ne_none _
        exact tree.get_above hthere
    rw [List.map_cons,List.cons_append,lead_directory (turnAt_of_directory hfirst),ih]
    · rw [List.append_assoc]
      rfl
    · rw [List.append_assoc]
      exact h

end Places

section Changes

variable {ν β : Type*} [DecidableEq ν] {tree later : Tree ν β} {links : ℕ}
  {place result : Path ν} {parts rest : List (Element ν)} {directory : Bool}

variable (tree later) in
/-- Paths go on in a later tree as they did. -/
def Keeps : Prop := ∀ path node, turnAt tree path=some node → turnAt later path=some node

/-- What a path leads to stays where it is. -/
theorem lead_keeps (keeps : Keeps tree later) (h : lead tree links place parts=.found result) :
    lead later links place parts=.found result := by
  induction links, place, parts using lead_induction tree with
  | nil links place =>
    rw [lead_nil] at h ⊢
    exact h
  | here links place rest ih =>
    rw [lead_here] at h ⊢
    exact ih h
  | up links place rest ih =>
    rw [lead_up] at h ⊢
    exact ih h
  | missing links place name rest hturn =>
    rw [lead_missing hturn] at h
    exact absurd h leadMissing_ne_found
  | directory links place name rest hturn ih =>
    rw [lead_directory hturn] at h
    rw [lead_directory (keeps _ _ hturn)]
    exact ih h
  | leaf links place name rest hturn =>
    rw [lead_leaf hturn] at h
    rw [lead_leaf (keeps _ _ hturn)]
    exact h
  | looped place name rest absolute target hturn =>
    rw [lead_looped hturn] at h
    cases h
  | link links place name rest absolute target hturn ih =>
    rw [lead_link hturn] at h
    rw [lead_link (keeps _ _ hturn)]
    exact ih _ _ h

/-- On the way to a place there are at most new directories, and at the place
something that a path may end at. -/
def Clear (later : Tree ν β) (result : Path ν) (directory : Bool) : Prop :=
  ∀ path, path<+:result → turnAt later path=none ∨ turnAt later path=some .directory ∨
    (path=result ∧ directory=false ∧ turnAt later path=some .leaf)

/-- A place that was absent is found or still absent in a clear tree. -/
theorem leadMissing_grown {flag : Bool} (clear : Clear later result directory)
    (h : leadMissing place flag rest=.absent result directory) :
    lead later links place rest=.found result ∨
      lead later links place rest=.absent result directory := by
  induction rest generalizing place flag with
  | nil =>
    cases h
    exact Or.inl lead_nil
  | cons part rest ih =>
    cases part with
    | here =>
      rw [lead_here]
      exact ih h
    | up => cases h
    | name name =>
      have hnext : leadMissing (place++[name]) false rest=.absent result directory := h
      rcases clear _ (below_of_leadMissing hnext) with hnone | hdirectory | ⟨hsame,hplain,hleaf⟩
      · rw [lead_missing hnone,hnext]
        exact Or.inr rfl
      · rw [lead_directory hdirectory]
        exact ih hnext
      · rw [hsame,hplain] at hnext
        rw [lead_leaf hleaf,if_pos (nil_of_leadMissing hnext).2,hsame]
        exact Or.inl rfl

/-- A path that leads in vain leads to the same place when what is missing on
its way is made. -/
theorem lead_grown (keeps : Keeps tree later) (clear : Clear later result directory)
    (h : lead tree links place parts=.absent result directory) :
    lead later links place parts=.found result ∨
      lead later links place parts=.absent result directory := by
  induction links, place, parts using lead_induction tree with
  | nil links place =>
    rw [lead_nil] at h
    cases h
  | here links place rest ih =>
    rw [lead_here] at h ⊢
    exact ih h
  | up links place rest ih =>
    rw [lead_up] at h ⊢
    exact ih h
  | missing links place name rest hturn =>
    rw [lead_missing hturn] at h
    have hwhole : leadMissing place false (.name name::rest)=.absent result directory := h
    exact leadMissing_grown clear hwhole
  | directory links place name rest hturn ih =>
    rw [lead_directory hturn] at h
    rw [lead_directory (keeps _ _ hturn)]
    exact ih h
  | leaf links place name rest hturn =>
    rw [lead_leaf hturn] at h
    split at h <;> cases h
  | looped place name rest absolute target hturn =>
    rw [lead_looped hturn] at h
    cases h
  | link links place name rest absolute target hturn ih =>
    rw [lead_link hturn] at h
    rw [lead_link (keeps _ _ hturn)]
    exact ih _ _ h

/-- On the way to a place where nothing stands there are at most directories. -/
theorem above_of_absent {path : Path ν} (hplace : tree.get place=some .directory)
    (h : lead tree links place parts=.absent result directory) (hpath : path<+:result) :
    tree.get path=none ∨ tree.get path=some .directory := by
  induction links, place, parts using lead_induction tree with
  | nil links place =>
    rw [lead_nil] at h
    cases h
  | here links place rest ih =>
    rw [lead_here] at h
    exact ih hplace h
  | up links place rest ih =>
    rw [lead_up] at h
    exact ih (parent_directory hplace) h
  | missing links place name rest hturn =>
    rw [lead_missing hturn] at h
    have hnone := Option.map_eq_none_iff.mp hturn
    rcases List.prefix_or_prefix_of_prefix hpath (below_of_leadMissing h) with habove | hbelow
    · rcases List.prefix_concat_iff.mp habove with hsame | hprefix
      · exact Or.inl (hsame ▸ hnone)
      · exact Or.inr (directory_above hplace hprefix)
    · exact Or.inl (tree.get_below hnone hbelow)
  | directory links place name rest hturn ih =>
    rw [lead_directory hturn] at h
    exact ih (directory_of_turnAt hturn) h
  | leaf links place name rest hturn =>
    rw [lead_leaf hturn] at h
    split at h <;> cases h
  | looped place name rest absolute target hturn =>
    rw [lead_looped hturn] at h
    cases h
  | link links place name rest absolute target hturn ih =>
    rw [lead_link hturn] at h
    refine ih _ _ ?_ h
    split
    · exact root_directory hplace
    · exact hplace

variable (tree later) in
/-- All that is new in a later tree are directories and what does not stand on
the way to a place. -/
def Apart (result : Path ν) : Prop :=
  ∀ path, later.get path=tree.get path ∨
    tree.get path=none ∧ (later.get path=some .directory ∨ ¬path<+:result)

/-- Trees that differ apart from a place keep what leads there. -/
theorem Apart.keeps (apart : Apart tree later result) : Keeps tree later := by
  intro path turn hturn
  rcases apart path with hsame | ⟨hnone,-⟩
  · rw [turnAt,hsame]
    exact hturn
  · rw [turnAt,hnone] at hturn
    cases hturn

/-- A path leads to the same place in a tree that differs apart from it. -/
theorem lead_apart (hplace : tree.get place=some .directory) (apart : Apart tree later result)
    (h : lead tree links place parts=.found result ∨
      ∃ directory, lead tree links place parts=.absent result directory) :
    lead later links place parts=.found result ∨
      ∃ directory, lead later links place parts=.absent result directory := by
  rcases h with hfound | ⟨directory,habsent⟩
  · exact Or.inl (lead_keeps apart.keeps hfound)
  · have hclear : Clear later result directory := by
      intro path hpath
      rcases apart path with hsame | ⟨-,hnew | hother⟩
      · rw [turnAt,hsame]
        rcases above_of_absent hplace habsent hpath with hnone | hdirectory
        · exact Or.inl (Option.map_eq_none_iff.mpr hnone)
        · exact Or.inr (Or.inl (turnAt_of_directory hdirectory))
      · exact Or.inr (Or.inl (turnAt_of_directory hnew))
      · exact absurd hpath hother
    exact (lead_grown apart.keeps hclear habsent).imp_right fun hlater => ⟨directory,hlater⟩

end Changes

end Vinput.PathLeads
