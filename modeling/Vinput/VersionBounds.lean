import Vinput.VersionConstraint

/-!
# Lower bounds of a constraint

Each token of a constraint keeps out versions below its floor. A constraint
that some version meets is met by the greatest floor of its tokens, so that
this is the least version it lets in.
-/

namespace Vinput.VersionBounds

open VersionConstraint TrimmedText

section Order

/-- The greatest component of a version. -/
def maxComponent : ℤ := 2^31-1

/-- A version that a text can stand for. -/
structure Valid (version : SemanticVersion) : Prop where
  major : 0≤version.major ∧ version.major≤ maxComponent
  minor : 0≤version.minor ∧ version.minor≤ maxComponent
  patch : 0≤version.patch ∧ version.patch≤ maxComponent

/-- The least version above another. -/
def next (version : SemanticVersion) : Option SemanticVersion :=
  if version.patch < maxComponent then some ⟨version.major,version.minor,version.patch+1⟩
  else if version.minor < maxComponent then some ⟨version.major,version.minor+1,0⟩
  else if version.major < maxComponent then some ⟨version.major+1,0,0⟩
  else none

theorem lt_irrefl (version : SemanticVersion) : ¬version<version := by
  rw [SemanticVersion.lt_def]
  omega

/-- Versions of which none is lower are the same. -/
theorem eq_of_not_lt {left right : SemanticVersion} (hleft : ¬left<right) (hright : ¬right<left) :
    left=right := by
  rw [SemanticVersion.lt_def] at *
  cases left
  cases right
  simp only [SemanticVersion.mk.injEq] at *
  omega

/-- Above a version there is its next one, and nothing between them. -/
theorem next_of_lt {low high : SemanticVersion} (hhigh : Valid high) (h : low<high) :
    ∃ above, next low=some above ∧ ¬high<above := by
  have hmajor := hhigh.major
  have hminor := hhigh.minor
  have hpatch := hhigh.patch
  rw [SemanticVersion.lt_def] at h
  unfold next
  split
  · refine ⟨_,rfl,?_⟩
    rw [SemanticVersion.lt_def]
    dsimp only
    omega
  · split
    · refine ⟨_,rfl,?_⟩
      rw [SemanticVersion.lt_def]
      dsimp only
      omega
    · split
      · refine ⟨_,rfl,?_⟩
        rw [SemanticVersion.lt_def]
        dsimp only
        omega
      · omega

theorem lt_next {low above : SemanticVersion} (h : next low=some above) : low<above := by
  unfold next at h
  rw [SemanticVersion.lt_def]
  split at h
  · cases h
    dsimp only
    omega
  · split at h
    · cases h
      dsimp only
      omega
    · split at h
      · cases h
        dsimp only
        omega
      · cases h

/-- The next version of a valid one is valid. -/
theorem valid_next {low above : SemanticVersion} (hlow : Valid low) (h : next low=some above) :
    Valid above := by
  have hmajor := hlow.major
  have hminor := hlow.minor
  have hpatch := hlow.patch
  have hmax : 0≤ maxComponent := by decide
  unfold next at h
  split at h
  · cases h
    constructor <;> dsimp only <;> omega
  · split at h
    · cases h
      constructor <;> dsimp only <;> omega
    · split at h
      · cases h
        constructor <;> dsimp only <;> omega
      · cases h

end Order

section Texts

/-- A component is not negative and fits its type. -/
theorem component_bounds {text : List Char} {value : ℤ} (h : component text=some value) :
    0≤value ∧ value≤ maxComponent := by
  unfold component at h
  split at h
  · rename_i found hfound
    split at h
    · cases h
    · rename_i hsign
      cases h
      refine ⟨by omega,?_⟩
      unfold fromChars at hfound
      unfold maxComponent
      split at hfound
      · split at hfound
        · cases hfound
          omega
        · cases hfound
      · split at hfound
        · rename_i hdigits
          cases hfound
          simp only [Bool.and_eq_true,decide_eq_true_eq] at hdigits
          omega
        · cases hfound
  · cases h

/-- Texts stand for valid versions. -/
theorem valid_of_parse {text : List Char} {version : SemanticVersion}
    (h : parse text=some version) : Valid version := by
  unfold parse at h
  dsimp only at h
  split at h
  · simp only [bind,Option.bind_eq_some_iff] at h
    obtain ⟨major,hmajor,minor,hminor,hversion⟩ := h
    cases hversion
    exact ⟨component_bounds hmajor,component_bounds hminor,le_refl 0,by simp [maxComponent]⟩
  · simp only [bind,Option.bind_eq_some_iff] at h
    obtain ⟨major,hmajor,minor,hminor,patch,hpatch,hversion⟩ := h
    cases hversion
    exact ⟨component_bounds hmajor,component_bounds hminor,component_bounds hpatch⟩
  · cases h

/-- The digits of a number. -/
def digits (number : ℕ) : List Char :=
  if number=0 then ['0'] else ((Nat.digits 10 number).map Nat.digitChar).reverse

theorem digits_ne_nil (number : ℕ) : digits number≠[] := by
  unfold digits
  split
  · simp
  · rename_i hpositive
    simpa [Nat.digits_eq_nil_iff_eq_zero] using hpositive

theorem digitChar_isDigit : ∀ digit<10, (Nat.digitChar digit).isDigit=true := by
  decide

theorem digitChar_value : ∀ digit<10, (Nat.digitChar digit).toNat - '0'.toNat=digit := by
  decide

theorem isDigit_of_mem_digits {number : ℕ} {c : Char} (h : c∈digits number) : c.isDigit=true := by
  unfold digits at h
  split at h
  · rw [List.mem_singleton.mp h]
    decide
  · obtain ⟨digit,hdigit,rfl⟩ := List.mem_map.mp (List.mem_reverse.mp h)
    exact digitChar_isDigit digit (Nat.digits_lt_base (by omega) hdigit)

/-- A number is read from its digits. -/
theorem numberValue_digits (number : ℕ) : numberValue (digits number)=number := by
  unfold numberValue digits
  split
  · rename_i hzero
    rw [hzero]
    decide
  · rw [List.reverse_reverse,List.map_map]
    have hvalues : (Nat.digits 10 number).map
        ((fun c => c.toNat - '0'.toNat) ∘ Nat.digitChar)=Nat.digits 10 number := by
      have hsame := List.map_congr_left (l := Nat.digits 10 number) (g := id) fun digit hdigit =>
        digitChar_value digit (Nat.digits_lt_base (by omega) hdigit)
      exact hsame.trans (List.map_id _)
    rw [hvalues,Nat.ofDigits_digits]

/-- A number that fits is read from its digits. -/
theorem fromChars_digits {number : ℕ} (h : number<2^31) :
    fromChars (digits number)=some (number : ℤ) := by
  have hnumber : isNumber (digits number)=true := by
    simp only [isNumber,Bool.and_eq_true,List.all_eq_true,Bool.not_eq_true',
      List.isEmpty_eq_false_iff]
    exact ⟨digits_ne_nil number,fun c hc => isDigit_of_mem_digits hc⟩
  unfold fromChars
  split
  · rename_i rest htext
    have hsign : '-'∈digits number := by
      rw [htext]
      exact List.mem_cons_self
    exact absurd (isDigit_of_mem_digits hsign) (by decide)
  · have hsmall : decide (number<2^31)=true := decide_eq_true h
    rw [hnumber,numberValue_digits,hsmall]
    rfl

theorem component_digits {number : ℕ} (h : number<2^31) :
    component (digits number)=some (number : ℤ) := by
  have hsign : ¬((number : ℤ)<0) := by omega
  simp [component,fromChars_digits h,hsign]

/-- No digit is a letter, a separator or white space. -/
theorem not_mem_digits {number : ℕ} {c : Char} (h : c.isDigit=false) : c∉digits number := by
  intro hmem
  rw [isDigit_of_mem_digits hmem] at h
  cases h

/-- A text of a version. -/
def render (version : SemanticVersion) : List Char :=
  digits version.major.toNat++ '.' ::
    (digits version.minor.toNat++ '.' :: digits version.patch.toNat)

/-- A rendered version splits into its components. -/
theorem splitOn_render (version : SemanticVersion) : (render version).splitOn '.'=
    [digits version.major.toNat,digits version.minor.toNat,digits version.patch.toNat] := by
  have hdot : ∀ number, '.'∉digits number := fun number => not_mem_digits (by decide)
  unfold render
  rw [List.splitOn_append_cons_self_of_not_mem (hdot _),
    List.splitOn_append_cons_self_of_not_mem (hdot _),List.splitOn_eq_singleton (hdot _)]

theorem isSpace_of_isDigit {c : Char} (h : c.isDigit=true) : isSpace c=false := by
  by_contra hspace
  have hmem : c∈[' ', '\t', '\n', '\x0b', '\x0c', '\r'] :=
    of_decide_eq_true (Bool.eq_true_of_not_eq_false hspace)
  have hnone : ∀ other∈[' ', '\t', '\n', '\x0b', '\x0c', '\r'], other.isDigit=false := by
    simp [Char.isDigit]
  rw [hnone c hmem] at h
  cases h

/-- A text of a version begins and ends with digits. -/
theorem render_ends (version : SemanticVersion) : (∀ c∈(render version).head?, c.isDigit=true) ∧
    ∀ c∈(render version).getLast?, c.isDigit=true := by
  constructor
  · intro c hc
    cases htext : digits version.major.toNat with
    | nil => exact absurd htext (digits_ne_nil _)
    | cons first rest =>
      rw [render,htext,List.cons_append,List.head?_cons,Option.mem_some_iff] at hc
      have hmem : first∈digits version.major.toNat := by
        rw [htext]
        exact List.mem_cons_self
      rw [← hc]
      exact isDigit_of_mem_digits hmem
  · intro c hc
    have hne := digits_ne_nil version.patch.toNat
    have hsplit : render version=(digits version.major.toNat++ '.' ::
        (digits version.minor.toNat++['.']))++digits version.patch.toNat := by
      simp [render]
    rw [hsplit,List.getLast?_append,Option.or_of_isSome (by simpa using hne)] at hc
    exact isDigit_of_mem_digits (List.mem_of_getLast? hc)

/-- A rendered version has nothing to trim. -/
theorem trim_render (version : SemanticVersion) : trim (render version)=render version := by
  obtain ⟨hfirst,hlast⟩ := render_ends version
  exact trim_of_ends (fun c hc => isSpace_of_isDigit (hfirst c hc))
    fun c hc => isSpace_of_isDigit (hlast c hc)

/-- A rendered version starts with a digit. -/
theorem render_ne_cons (version : SemanticVersion) {letter : Char} (h : letter.isDigit=false)
    (rest : List Char) : render version≠letter::rest := by
  intro htext
  have hdigit := (render_ends version).1 letter (by rw [htext]; rfl)
  rw [h] at hdigit
  cases hdigit

/-- Every valid version has a text. -/
theorem parse_render {version : SemanticVersion} (h : Valid version) :
    parse (render version)=some version := by
  have hcomponent : ∀ {value : ℤ}, 0≤value ∧ value≤ maxComponent →
      component (digits value.toNat)=some value := by
    intro value hvalue
    have hsmall : value.toNat<2^31 := by
      unfold maxComponent at hvalue
      omega
    rw [component_digits hsmall,Int.toNat_of_nonneg hvalue.1]
  have hdash : (digits version.patch.toNat).takeWhile (fun c => decide (c≠ '-'))=
      digits version.patch.toNat := by
    refine List.takeWhile_eq_self_iff.mpr ?_
    intro c hc
    refine decide_eq_true ?_
    rintro rfl
    exact not_mem_digits (by decide) hc
  have hsmall : ∀ rest, render version≠ 'v' :: rest := render_ne_cons version (by decide)
  have hgreat : ∀ rest, render version≠ 'V' :: rest := render_ne_cons version (by decide)
  simp only [parse,trim_render]
  rw [splitOn_render]
  simp only [hcomponent h.major,hcomponent h.minor,hdash,hcomponent h.patch]
  rfl

end Texts

section Floors

/-- The least version that meets a bound from below. -/
def opFloor (target : SemanticVersion) : Op → Option SemanticVersion
  | .equal => some target
  | .greaterEqual => some target
  | .greater => next target
  | .less => none
  | .lessEqual => none

/-- Versions that meet a bound are not below its floor. -/
theorem not_lt_opFloor {current target floor : SemanticVersion} {op : Op}
    (hcurrent : Valid current) (h : op.meets current target=true)
    (hfloor : opFloor target op=some floor) : ¬current<floor := by
  cases op with
  | equal =>
    cases hfloor
    rw [of_decide_eq_true h]
    exact lt_irrefl _
  | greaterEqual =>
    cases hfloor
    exact of_decide_eq_true h
  | greater =>
    obtain ⟨above,habove,hlt⟩ := next_of_lt hcurrent (of_decide_eq_true h)
    have hsame : above=floor := Option.some.inj (habove.symm.trans hfloor)
    rw [← hsame]
    exact hlt
  | less => cases hfloor
  | lessEqual => cases hfloor

/-- What is between the floor of a bound and a version that meets it meets
it too. -/
theorem meets_of_le {current low target : SemanticVersion} {op : Op} (hcurrent : Valid current)
    (h : op.meets current target=true) (hlow : ¬current<low)
    (hfloor : ∀ floor, opFloor target op=some floor → ¬low<floor) :
    op.meets low target=true := by
  cases op with
  | equal =>
    have hsame : current=target := of_decide_eq_true h
    rw [hsame] at hlow
    exact decide_eq_true (eq_of_not_lt (hfloor target rfl) hlow)
  | greaterEqual => exact decide_eq_true (hfloor target rfl)
  | greater =>
    obtain ⟨above,habove,hlt⟩ := next_of_lt hcurrent (of_decide_eq_true h)
    have hbelow := hfloor above habove
    have hnext := lt_next habove
    refine decide_eq_true ?_
    rw [SemanticVersion.lt_def] at *
    omega
  | less =>
    have hless : current<target := of_decide_eq_true h
    refine decide_eq_true ?_
    rw [SemanticVersion.lt_def] at *
    omega
  | lessEqual =>
    have hless : ¬target<current := of_decide_eq_true h
    refine decide_eq_true ?_
    rw [SemanticVersion.lt_def] at *
    omega

/-- The least version a token lets in, when it keeps versions below out. -/
def tokenFloor (token : List Char) : Option SemanticVersion :=
  (parse (trim (takeOp (trim token)).2)).bind fun target =>
    opFloor target (takeOp (trim token)).1

/-- What a token that keeps something out asks for. -/
theorem checkSingleConstraint_eq {token : List Char}
    (h : ¬(trim token=[] ∨ trim token=['*'])) (current : SemanticVersion) :
    checkSingleConstraint current token=true ↔
      ∃ target, parse (trim (takeOp (trim token)).2)=some target ∧
        (takeOp (trim token)).1.meets current target=true := by
  unfold checkSingleConstraint
  dsimp only
  rw [if_neg h]
  cases parse (trim (takeOp (trim token)).2) with
  | none => simp
  | some target => simp

/-- An empty token and a star have no floor. -/
theorem tokenFloor_of_free {token : List Char} (h : trim token=[] ∨ trim token=['*']) :
    tokenFloor token=none := by
  unfold tokenFloor
  rcases h with h | h
  · rw [h]
    decide
  · rw [h]
    decide

/-- Versions a token lets in are not below its floor. -/
theorem not_lt_tokenFloor {current floor : SemanticVersion} {token : List Char}
    (hcurrent : Valid current) (h : checkSingleConstraint current token=true)
    (hfloor : tokenFloor token=some floor) : ¬current<floor := by
  by_cases hfree : trim token=[] ∨ trim token=['*']
  · rw [tokenFloor_of_free hfree] at hfloor
    cases hfloor
  · obtain ⟨target,hparsed,hmeets⟩ := (checkSingleConstraint_eq hfree current).mp h
    rw [tokenFloor,hparsed] at hfloor
    exact not_lt_opFloor hcurrent hmeets hfloor

/-- A token lets in what is between its floor and a version it lets in. -/
theorem checkSingleConstraint_of_le {current low : SemanticVersion} {token : List Char}
    (hcurrent : Valid current) (h : checkSingleConstraint current token=true)
    (hlow : ¬current<low) (hfloor : ∀ floor, tokenFloor token=some floor → ¬low<floor) :
    checkSingleConstraint low token=true := by
  by_cases hfree : trim token=[] ∨ trim token=['*']
  · unfold checkSingleConstraint
    exact if_pos hfree
  · obtain ⟨target,hparsed,hmeets⟩ := (checkSingleConstraint_eq hfree current).mp h
    refine (checkSingleConstraint_eq hfree low).mpr ⟨target,hparsed,?_⟩
    refine meets_of_le hcurrent hmeets hlow ?_
    intro floor hop
    refine hfloor floor ?_
    rw [tokenFloor,hparsed]
    exact hop

theorem valid_tokenFloor {token : List Char} {floor : SemanticVersion}
    (h : tokenFloor token=some floor) : Valid floor := by
  obtain ⟨target,hparsed,hop⟩ := Option.bind_eq_some_iff.mp h
  have htarget := valid_of_parse hparsed
  generalize (takeOp (trim token)).1=op at hop
  cases op with
  | equal => cases hop; exact htarget
  | greaterEqual => cases hop; exact htarget
  | greater => exact valid_next htarget hop
  | less => cases hop
  | lessEqual => cases hop

/-- The greatest of some versions, at least a first one. -/
def greatest (first : SemanticVersion) (versions : List SemanticVersion) : SemanticVersion :=
  versions.foldl (fun best version => if best<version then version else best) first

/-- The greatest version is one of them. -/
theorem greatest_mem (first : SemanticVersion) (versions : List SemanticVersion) :
    greatest first versions∈first::versions := by
  induction versions generalizing first with
  | nil => exact List.mem_cons_self
  | cons version versions ih =>
    have hmem : greatest (if first<version then version else first) versions∈
        first::version::versions := by
      rcases List.mem_cons.mp (ih (if first<version then version else first)) with hsame | hrest
      · rw [hsame]
        split <;> simp
      · exact List.mem_cons_of_mem _ (List.mem_cons_of_mem _ hrest)
    exact hmem

theorem not_greatest_lt (first : SemanticVersion) (versions : List SemanticVersion) :
    ∀ version∈first::versions, ¬greatest first versions<version := by
  induction versions generalizing first with
  | nil =>
    intro version hversion
    rw [List.mem_singleton.mp hversion]
    exact lt_irrefl _
  | cons second versions ih =>
    intro version hversion
    have hstep : greatest first (second::versions)=
        greatest (if first<second then second else first) versions := rfl
    have hbest := ih (if first<second then second else first) _ List.mem_cons_self
    rw [hstep]
    rcases List.mem_cons.mp hversion with rfl | hrest
    · refine SemanticVersion.not_lt_of_not_lt hbest ?_
      split
      · rw [SemanticVersion.lt_def] at *
        omega
      · exact lt_irrefl _
    · rcases List.mem_cons.mp hrest with rfl | hlater
      · refine SemanticVersion.not_lt_of_not_lt hbest ?_
        split
        · exact lt_irrefl _
        · assumption
      · exact ih _ version (List.mem_cons_of_mem _ hlater)

/-- The tokens of a constraint. -/
def tokens (constraint : List Char) : List (List Char) := (trim constraint).splitOn ','

/-- The least version a constraint may let in. -/
def leastVersion (constraint : List Char) : SemanticVersion :=
  greatest ⟨0,0,0⟩ ((tokens constraint).filterMap tokenFloor)

/-- A version in the sense of its texts meets a constraint. -/
def Met (constraint : List Char) (version : SemanticVersion) : Prop :=
  ∃ text, parse text=some version ∧ satisfies text constraint=true

/-- A constraint is met when each of its tokens is. -/
theorem met_iff {constraint : List Char} {version : SemanticVersion} :
    Met constraint version ↔
      Valid version ∧ ∀ token∈tokens constraint, checkSingleConstraint version token=true := by
  have hall : ∀ {text}, parse text=some version → (satisfies text constraint=true ↔
      ∀ token∈tokens constraint, checkSingleConstraint version token=true) := by
    intro text htext
    have hfree : ∀ token : List Char, token=[] ∨ token=['*'] →
        checkSingleConstraint version token=true := by
      rintro token (rfl | rfl) <;> rfl
    unfold satisfies tokens
    dsimp only
    split
    · rename_i hfreed
      rcases hfreed with hfreed | hfreed
      · simp [hfreed,hfree]
      · rw [hfreed]
        simp [hfree,show (['*'].splitOn ',')=[['*']] from rfl]
    · rw [htext]
      exact List.all_eq_true
  constructor
  · rintro ⟨text,htext,hmet⟩
    exact ⟨valid_of_parse htext,(hall htext).mp hmet⟩
  · rintro ⟨hvalid,hmet⟩
    exact ⟨render version,parse_render hvalid,(hall (parse_render hvalid)).mpr hmet⟩

/-- A constraint that is met at all is met by its least version. -/
theorem leastVersion_met {constraint : List Char} (h : ∃ version, Met constraint version) :
    Met constraint (leastVersion constraint) := by
  obtain ⟨version,hversion⟩ := h
  obtain ⟨hvalid,hmet⟩ := met_iff.mp hversion
  have hmem := greatest_mem ⟨0,0,0⟩ ((tokens constraint).filterMap tokenFloor)
  have hbelow : ¬version<leastVersion constraint := by
    rcases List.mem_cons.mp hmem with hzero | hfloor
    · rw [leastVersion,hzero,SemanticVersion.lt_def]
      have hmajor := hvalid.major.1
      have hminor := hvalid.minor.1
      have hpatch := hvalid.patch.1
      dsimp only
      omega
    · obtain ⟨token,htoken,hsome⟩ := List.mem_filterMap.mp hfloor
      exact not_lt_tokenFloor hvalid (hmet token htoken) hsome
  have hleast : Valid (leastVersion constraint) := by
    rcases List.mem_cons.mp hmem with hzero | hfloor
    · rw [leastVersion,hzero]
      constructor <;> decide
    · obtain ⟨token,_,hsome⟩ := List.mem_filterMap.mp hfloor
      exact valid_tokenFloor hsome
  refine met_iff.mpr ⟨hleast,fun token htoken => ?_⟩
  refine checkSingleConstraint_of_le hvalid (hmet token htoken) hbelow ?_
  intro floor hfloor
  refine not_greatest_lt _ _ floor (List.mem_cons_of_mem _ ?_)
  exact List.mem_filterMap.mpr ⟨token,htoken,hfloor⟩

/-- Every version that meets the constraint is at least another one. -/
def Covers (constraint : List Char) (version : SemanticVersion) : Prop :=
  ∀ current, Met constraint current → ¬current<version

/-- A constraint that is met covers a version exactly when the floor of a
token does. -/
theorem covers_iff {constraint : List Char} (h : ∃ version, Met constraint version)
    {version : SemanticVersion} (hpositive : (⟨0,0,0⟩ : SemanticVersion)<version) :
    Covers constraint version ↔
      ∃ token∈tokens constraint, ∃ floor, tokenFloor token=some floor ∧ ¬floor<version := by
  constructor
  · intro hcovers
    have hleast := hcovers _ (leastVersion_met h)
    have hmem := greatest_mem ⟨0,0,0⟩ ((tokens constraint).filterMap tokenFloor)
    rcases List.mem_cons.mp hmem with hzero | hfloor
    · rw [leastVersion,hzero] at hleast
      exact absurd hpositive hleast
    · obtain ⟨token,htoken,hsome⟩ := List.mem_filterMap.mp hfloor
      exact ⟨token,htoken,_,hsome,hleast⟩
  · rintro ⟨token,htoken,floor,hfloor,hbelow⟩ current hcurrent
    obtain ⟨hvalid,hmet⟩ := met_iff.mp hcurrent
    have hlow := not_lt_tokenFloor hvalid (hmet token htoken) hfloor
    exact SemanticVersion.not_lt_of_not_lt hlow hbelow

end Floors

end Vinput.VersionBounds
