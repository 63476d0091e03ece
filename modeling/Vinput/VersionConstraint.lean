import Mathlib.Data.List.TakeWhile
import Mathlib.Data.Nat.Digits.Defs

/-!
# Versions and constraints on them

A version has three numbers that are compared in order. A constraint is a
list of bounds on a version.
-/

namespace Vinput.VersionConstraint

section Text

/-- White space as the C library sees it. -/
def isSpace (c : Char) : Bool :=
  decide (c∈[' ', '\t', '\n', '\x0b', '\x0c', '\r'])

/-- A text without white space at its ends. -/
def trim (text : List Char) : List Char :=
  ((text.dropWhile isSpace).reverse.dropWhile isSpace).reverse

/-- A text that is all digits and not empty. -/
def isNumber (text : List Char) : Bool := !text.isEmpty && text.all Char.isDigit

/-- The value of a text of digits. -/
def numberValue (text : List Char) : ℕ :=
  Nat.ofDigits 10 (text.reverse.map fun c => c.toNat - '0'.toNat)

/-- An integer that takes the whole text and that a machine integer holds. -/
def fromChars : List Char → Option ℤ
  | '-' :: digits =>
    if isNumber digits && decide (numberValue digits ≤ 2^31) then some (-numberValue digits)
    else none
  | digits =>
    if isNumber digits && decide (numberValue digits<2^31) then some (numberValue digits)
    else none

end Text

section Versions

/-- A version. -/
structure SemanticVersion where
  major : ℤ := 0
  minor : ℤ := 0
  patch : ℤ := 0
deriving DecidableEq

instance : LT SemanticVersion :=
  ⟨fun left right => left.major<right.major ∨ (left.major=right.major ∧
    (left.minor<right.minor ∨ (left.minor=right.minor ∧ left.patch<right.patch)))⟩

instance (left right : SemanticVersion) : Decidable (left<right) :=
  inferInstanceAs (Decidable (left.major<right.major ∨ (left.major=right.major ∧
    (left.minor<right.minor ∨ (left.minor=right.minor ∧ left.patch<right.patch)))))

/-- Versions are compared component by component. -/
theorem SemanticVersion.lt_def {left right : SemanticVersion} :
    left<right ↔ left.major<right.major ∨ (left.major=right.major ∧
      (left.minor<right.minor ∨ (left.minor=right.minor ∧ left.patch<right.patch))) := Iff.rfl

/-- What is not below a bound is not below anything under it. -/
theorem SemanticVersion.not_lt_of_not_lt {version bound low : SemanticVersion}
    (hversion : ¬version<bound) (hlow : ¬bound<low) : ¬version<low := by
  rw [lt_def] at *
  omega

/-- A component of a version. -/
def component (text : List Char) : Option ℤ :=
  match fromChars text with
  | some value => if value<0 then none else some value
  | none => none

/-- The version a text stands for; what follows a dash in the third
component does not count. -/
def parse (text : List Char) : Option SemanticVersion :=
  let text := trim text
  let text := match text with
    | 'v' :: rest => rest
    | 'V' :: rest => rest
    | _ => text
  match text.splitOn '.' with
  | [major,minor] => do
    let major ← component major
    let minor ← component minor
    some ⟨major,minor,0⟩
  | [major,minor,patch] => do
    let major ← component major
    let minor ← component minor
    let patch ← component (patch.takeWhile fun c => decide (c ≠ '-'))
    some ⟨major,minor,patch⟩
  | _ => none

end Versions

section Constraints

/-- How a version is compared with a bound. -/
inductive Op where
  | equal
  | greater
  | greaterEqual
  | less
  | lessEqual

/-- The comparison a token asks for and the rest of the token. -/
def takeOp : List Char → Op×List Char
  | '>' :: '=' :: rest => (.greaterEqual,rest)
  | '<' :: '=' :: rest => (.lessEqual,rest)
  | '>' :: rest => (.greater,rest)
  | '<' :: rest => (.less,rest)
  | '=' :: rest => (.equal,rest)
  | rest => (.equal,rest)

/-- A version meets a bound. -/
def Op.meets (current target : SemanticVersion) : Op → Bool
  | .equal => decide (current=target)
  | .greater => decide (target<current)
  | .greaterEqual => decide ¬current<target
  | .less => decide (current<target)
  | .lessEqual => decide ¬target<current

/-- A version meets one token of a constraint. -/
def checkSingleConstraint (current : SemanticVersion) (token : List Char) : Bool :=
  let token := trim token
  if token=[] ∨ token=['*'] then true
  else
    match parse (trim (takeOp token).2) with
    | none => false
    | some target => (takeOp token).1.meets current target

/-- A version meets a constraint. -/
def satisfies (currentVer : List Char) (constraint : List Char) : Bool :=
  let constraint := trim constraint
  if constraint=[] ∨ constraint=['*'] then true
  else
    match parse currentVer with
    | none => false
    | some current => (constraint.splitOn ',').all (checkSingleConstraint current)

end Constraints

end Vinput.VersionConstraint

/-!
# Trimmed texts

White space at the ends of a text is cut off. What is left begins and ends
with something else and is not cut again.
-/

namespace Vinput.TrimmedText

open VersionConstraint

/-- A text that neither begins nor ends with white space. -/
theorem trim_of_ends {text : List Char} (hfirst : ∀ c∈text.head?, isSpace c=false)
    (hlast : ∀ c∈text.getLast?, isSpace c=false) : trim text=text := by
  have hkept : ∀ {part : List Char}, (∀ c∈part.head?, isSpace c=false) →
      part.dropWhile isSpace=part := by
    intro part hpart
    cases part with
    | nil => rfl
    | cons c rest => simp [hpart c rfl]
  unfold trim
  rw [hkept hfirst,hkept,List.reverse_reverse]
  intro c hc
  rw [List.head?_reverse] at hc
  exact hlast c hc

/-- White space at the end does not count. -/
theorem trim_append_spaces {text spaces : List Char} (h : ∀ c∈spaces, isSpace c=true) :
    trim (text++spaces)=trim text := by
  have hgone : spaces.dropWhile isSpace=[] := List.dropWhile_eq_nil_iff.mpr h
  have hback : ∀ c∈spaces.reverse, isSpace c=true := by simpa using h
  unfold trim
  rw [List.dropWhile_append]
  split
  · rename_i hempty
    rw [hgone,List.isEmpty_iff.mp hempty]
  · rw [List.reverse_append,List.dropWhile_append_of_pos hback]

theorem trim_spaces {spaces : List Char} (h : ∀ c∈spaces, isSpace c=true) : trim spaces=[] := by
  unfold trim
  rw [List.dropWhile_eq_nil_iff.mpr h]
  rfl

/-- What is in front of the white space at the end of a text. -/
theorem split_trim {text : List Char} (h : ∀ c∈text.head?, isSpace c=false) :
    ∃ spaces, (∀ c∈spaces, isSpace c=true) ∧ text=trim text++spaces := by
  refine ⟨(text.reverse.takeWhile isSpace).reverse,?_,?_⟩
  · intro c hc
    exact List.all_eq_true.mp List.all_takeWhile c (List.mem_reverse.mp hc)
  · have hkept : text.dropWhile isSpace=text := by
      cases text with
      | nil => rfl
      | cons c rest => simp [h c rfl]
    unfold trim
    rw [hkept,← List.reverse_append,List.takeWhile_append_dropWhile,List.reverse_reverse]

/-- A trimmed text begins behind the white space. -/
theorem head_trim_eq (text : List Char) : (trim text).head?=(text.dropWhile isSpace).head? := by
  have hhead := List.head?_dropWhile_not isSpace text
  unfold trim
  cases hrest : text.dropWhile isSpace with
  | nil => rfl
  | cons c rest =>
    rw [hrest,List.head?_cons] at hhead
    have hc : isSpace c=false := by simpa using hhead
    rw [List.reverse_cons,List.dropWhile_append]
    split
    · simp [hc]
    · simp

/-- A trimmed text does not start with white space. -/
theorem head_trim (text : List Char) : ∀ c∈(trim text).head?, isSpace c=false := by
  intro c hc
  have hhead := List.head?_dropWhile_not isSpace text
  rw [← head_trim_eq,hc] at hhead
  simpa using hhead

/-- Trimming twice is trimming once. -/
theorem trim_trim (text : List Char) : trim (trim text)=trim text := by
  refine trim_of_ends (head_trim text) ?_
  intro c hc
  have hback : c∈(((text.dropWhile isSpace).reverse).dropWhile isSpace).head? := by
    rw [← List.getLast?_reverse]
    exact hc
  have hhead := List.head?_dropWhile_not isSpace (text.dropWhile isSpace).reverse
  rw [hback] at hhead
  simpa using hhead

/-- The first part of a split text. -/
theorem head_splitOn (separator : Char) (text : List Char) :
    (text.splitOn separator).head?=some (text.takeWhile fun c => decide (c≠separator)) := by
  induction text with
  | nil => rfl
  | cons c rest ih =>
    rw [List.splitOn_cons_eq_if_modifyHead]
    by_cases hc : c=separator
    · simp [hc]
    · simp [hc,List.head?_modifyHead,ih]

end Vinput.TrimmedText
