import Vinput.LineDraining

/-!
# Scores of hotwords

A score is a finite decimal or hexadecimal number, with a sign perhaps. What is
taken for a score is a word: it is not empty and holds no white space.
-/

namespace Vinput.HotwordScores

open ProcessLines

section Scores

/-- How a number is written. -/
inductive CharsFormat where
  | general
  | hex
deriving DecidableEq

/-- Whether a number that is well written has a finite value that fits. -/
abbrev Range := CharsFormat → Bytes → Bool

/-- A decimal digit. -/
def isDigit (byte : UInt8) : Bool := decide (48≤byte ∧ byte≤57)

/-- A hexadecimal digit. -/
def isHexDigit (byte : UInt8) : Bool :=
  isDigit byte || decide (65≤byte ∧ byte≤70) || decide (97≤byte ∧ byte≤102)

/-- Digits of the number in front of its exponent. -/
def CharsFormat.isDigitOf : CharsFormat → UInt8 → Bool
  | .general => isDigit
  | .hex => isHexDigit

/-- What stands before an exponent. -/
def CharsFormat.isExponentMark : CharsFormat → UInt8 → Bool
  | .general => fun byte => decide (byte=101) || decide (byte=69)
  | .hex => fun byte => decide (byte=112) || decide (byte=80)

/-- A plus or a minus. -/
def isSign (byte : UInt8) : Bool := decide (byte=43) || decide (byte=45)

/-- The rest behind digits with a point among them or at either end. -/
def behindMantissa (digit : UInt8 → Bool) (text : Bytes) : Option Bytes :=
  let whole := text.takeWhile digit
  let rest := text.dropWhile digit
  if rest.head?=some 46 then
    if whole=[] ∧ rest.tail.takeWhile digit=[] then none else some (rest.tail.dropWhile digit)
  else if whole=[] then none
  else some rest

/-- The rest of a number is its exponent, or nothing. -/
def isExponent (mark : UInt8 → Bool) : Bytes → Bool
  | [] => true
  | byte::rest =>
    let digits := if rest.head?.any isSign then rest.tail else rest
    mark byte && !digits.isEmpty && digits.all isDigit

/-- `std::from_chars` takes the whole text for a finite number. -/
def fromChars (fits : Range) (format : CharsFormat) (text : Bytes) : Bool :=
  let unsigned := if text.head?=some 45 then text.tail else text
  match behindMantissa format.isDigitOf unsigned with
  | none => false
  | some rest => isExponent format.isExponentMark rest && fits format text

/-- A score without its sign, which no other sign follows. -/
def digitsOf : Bytes → Option Bytes
  | [] => none
  | byte::rest =>
    if isSign byte then
      if rest=[] ∨ rest.head?.any isSign then none else some rest
    else some (byte::rest)

/-- The value is a number in range. -/
def parseHotwordScore (fits : Range) (value : Bytes) : Bool :=
  match digitsOf value with
  | none => false
  | some digits =>
    if digits.take 2=[48,120] ∨ digits.take 2=[48,88] then fromChars fits .hex (digits.drop 2)
    else fromChars fits .general digits

/-- The score is such a number. -/
def isValidScore (fits : Range) (value : Bytes) : Bool := parseHotwordScore fits value

/-- An ASCII letter in lower case. -/
def toLower (byte : UInt8) : UInt8 := if 65≤byte ∧ byte≤90 then byte+32 else byte

/-- Equal but for the case. -/
def equalsIgnoreCase (left right : Bytes) : Bool := decide (left.map toLower=right.map toLower)

/-- A start but for the case. -/
def startsWithIgnoreCase (text start : Bytes) : Bool :=
  decide (start.length≤text.length) && equalsIgnoreCase (text.take start.length) start

/-- Digits, signs and points, and the words `nan`, `nan(`, `inf`, `infinity`. -/
def looksLikeScore (value : Bytes) : Bool :=
  match value with
  | [] => true
  | first::_ =>
    isDigit first || isSign first || decide (first=46) ||
      equalsIgnoreCase value [110,97,110] || startsWithIgnoreCase value [110,97,110,40] ||
      equalsIgnoreCase value [105,110,102] ||
      equalsIgnoreCase value [105,110,102,105,110,105,116,121]

variable {fits : Range} {format : CharsFormat}

/-- Visible bytes are no white space. -/
theorem isSpace_of_lt {byte : UInt8} (h : 32<byte) : isSpace byte=false := by
  unfold isSpace
  grind

theorem lt_of_isDigit {byte : UInt8} (h : isDigit byte=true) : 32<byte := by
  unfold isDigit at h
  grind

theorem lt_of_isDigitOf {byte : UInt8} (h : format.isDigitOf byte=true) : 32<byte := by
  cases format with
  | general => exact lt_of_isDigit h
  | hex =>
    unfold CharsFormat.isDigitOf isHexDigit isDigit at h
    grind

theorem lt_of_isExponentMark {byte : UInt8} (h : format.isExponentMark byte=true) : 32<byte := by
  cases format with
  | general =>
    unfold CharsFormat.isExponentMark at h
    grind
  | hex =>
    unfold CharsFormat.isExponentMark at h
    grind

theorem lt_of_isSign {byte : UInt8} (h : isSign byte=true) : 32<byte := by
  unfold isSign at h
  grind

/-- The symbols in front of an exponent are digits and the point. -/
theorem behindMantissa_spec {digit : UInt8 → Bool} {text rest : Bytes}
    (h : behindMantissa digit text=some rest) :
    ∀ byte∈text, byte∈rest ∨ digit byte=true ∨ byte=46 := by
  unfold behindMantissa at h
  dsimp only at h
  have hwhole : ∀ byte∈text.takeWhile digit, digit byte=true :=
    fun byte hmem => List.all_eq_true.mp List.all_takeWhile byte hmem
  intro byte hbyte
  rw [←List.takeWhile_append_dropWhile (p:=digit) (l:=text)] at hbyte
  rcases List.mem_append.mp hbyte with hfront | hback
  · exact Or.inr (Or.inl (hwhole byte hfront))
  · split at h
    · rename_i hpoint
      obtain ⟨behind,hbehind⟩ := List.head?_eq_some_iff.mp hpoint
      rw [hbehind,List.tail_cons] at h
      split at h
      · cases h
      · cases h
        rw [hbehind] at hback
        rcases List.mem_cons.mp hback with hfirst | hlater
        · exact Or.inr (Or.inr hfirst)
        · rw [←List.takeWhile_append_dropWhile (p:=digit) (l:=behind)] at hlater
          rcases List.mem_append.mp hlater with hpart | hrest
          · exact Or.inr (Or.inl (List.all_eq_true.mp List.all_takeWhile byte hpart))
          · exact Or.inl hrest
    · split at h
      · cases h
      · cases h
        exact Or.inl hback

theorem lt_of_isExponent {text : Bytes} (h : isExponent format.isExponentMark text=true) :
    ∀ byte∈text, 32<byte := by
  cases text with
  | nil => exact fun byte hmem => absurd hmem List.not_mem_nil
  | cons mark rest =>
    unfold isExponent at h
    dsimp only at h
    rw [Bool.and_eq_true,Bool.and_eq_true] at h
    obtain ⟨⟨hmark,-⟩,hdigits⟩ := h
    intro byte hmem
    rcases List.mem_cons.mp hmem with hfirst | hlater
    · exact hfirst ▸ lt_of_isExponentMark hmark
    · split at hdigits
      · rename_i hsign
        cases rest with
        | nil => cases hsign
        | cons sign rest =>
          rcases List.mem_cons.mp hlater with hsecond | hthird
          · exact hsecond ▸ lt_of_isSign hsign
          · exact lt_of_isDigit (List.all_eq_true.mp hdigits byte hthird)
      · exact lt_of_isDigit (List.all_eq_true.mp hdigits byte hlater)

/-- The two bytes in front of a hexadecimal number are no white space. -/
theorem lt_of_hexStart {byte last : UInt8} (hlast : 32<last) (h : byte∈([48,last] : Bytes)) :
    32<byte := by
  rcases List.mem_cons.mp h with hfirst | hsecond
  · rw [hfirst]
    decide
  · rw [List.mem_singleton.mp hsecond]
    exact hlast

/-- A number that is read holds no white space. -/
theorem lt_of_fromChars {text : Bytes} (h : fromChars fits format text=true) :
    ∀ byte∈text, 32<byte := by
  unfold fromChars at h
  dsimp only at h
  cases hmantissa : behindMantissa format.isDigitOf
      (if text.head?=some 45 then text.tail else text) with
  | none =>
    rw [hmantissa] at h
    cases h
  | some rest =>
    rw [hmantissa] at h
    dsimp only at h
    rw [Bool.and_eq_true] at h
    have hbehind : ∀ byte∈(if text.head?=some 45 then text.tail else text), 32<byte := by
      intro byte hmem
      rcases behindMantissa_spec hmantissa byte hmem with hrest | hdigit | hpoint
      · exact lt_of_isExponent h.1 byte hrest
      · exact lt_of_isDigitOf hdigit
      · rw [hpoint]
        decide
    split at hbehind
    · rename_i hminus
      obtain ⟨digits,hdigits⟩ := List.head?_eq_some_iff.mp hminus
      rw [hdigits] at hbehind ⊢
      intro byte hmem
      rcases List.mem_cons.mp hmem with hfirst | hlater
      · rw [hfirst]
        decide
      · exact hbehind byte hlater
    · exact hbehind

/-- A number has digits and visible bytes only. -/
theorem mem_of_digitsOf {value digits : Bytes} (h : digitsOf value=some digits) :
    value≠[] ∧ ∀ byte∈value, byte∈digits ∨ 32<byte := by
  cases value with
  | nil => cases h
  | cons first rest =>
    refine ⟨List.cons_ne_nil _ _,?_⟩
    unfold digitsOf at h
    dsimp only at h
    split at h
    · rename_i hsign
      split at h
      · cases h
      · cases h
        intro byte hmem
        rcases List.mem_cons.mp hmem with hfirst | hlater
        · exact Or.inr (hfirst ▸ lt_of_isSign hsign)
        · exact Or.inl hlater
    · cases h
      exact fun byte hmem => Or.inl hmem

/-- A valid score is a word. -/
theorem isValidScore_word {value : Bytes} (h : isValidScore fits value=true) :
    value≠[] ∧ ∀ byte∈value, isSpace byte=false := by
  unfold isValidScore parseHotwordScore at h
  cases hdigits : digitsOf value with
  | none =>
    rw [hdigits] at h
    cases h
  | some digits =>
    rw [hdigits] at h
    dsimp only at h
    obtain ⟨hvalue,hmem⟩ := mem_of_digitsOf hdigits
    have hall : ∀ byte∈digits, 32<byte := by
      split at h
      · rename_i hstart
        intro byte hbyte
        rw [←List.take_append_drop 2 digits] at hbyte
        rcases List.mem_append.mp hbyte with hfront | hback
        · rcases hstart with hlower | hupper
          · exact lt_of_hexStart (by decide) (hlower ▸ hfront)
          · exact lt_of_hexStart (by decide) (hupper ▸ hfront)
        · exact lt_of_fromChars h byte hback
      · exact lt_of_fromChars h
    refine ⟨hvalue,?_⟩
    intro byte hbyte
    exact isSpace_of_lt ((hmem byte hbyte).elim (hall byte) id)

end Scores

end Vinput.HotwordScores
