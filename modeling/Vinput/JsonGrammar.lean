import Mathlib.Data.List.Basic

/-!
# Texts of JSON values

The bytes of a JSON value in UTF-8. A value has no white space around it;
arrays and objects have white space around their elements and names. The depth
of a value is the number of brackets that are open at once.
-/

namespace Vinput.JsonGrammar

/-- A text as bytes. -/
abbrev Bytes := List UInt8

section Bytes

/-- Byte of an ASCII character. -/
def code (letter : Char) : UInt8 := UInt8.ofNat letter.toNat

/-- Space, tab, line feed and carriage return. -/
def Blank (byte : UInt8) : Prop := byte=32 ∨ byte=9 ∨ byte=10 ∨ byte=13

/-- Any white space. -/
def Blanks (text : Bytes) : Prop := ∀ byte∈text, Blank byte

/-- A decimal digit. -/
def Digit (byte : UInt8) : Prop := 48 ≤ byte ∧ byte ≤ 57

/-- At least one digit. -/
def Digits (text : Bytes) : Prop := text≠[] ∧ ∀ byte∈text, Digit byte

/-- A hexadecimal digit. -/
def HexDigit (byte : UInt8) : Prop :=
  Digit byte ∨ (65 ≤ byte ∧ byte ≤ 70) ∨ (97 ≤ byte ∧ byte ≤ 102)

end Bytes

section Scalars

/-- `true`, `false` and `null`. -/
def Literal (text : Bytes) : Prop :=
  text="true".toList.map code ∨ text="false".toList.map code ∨ text="null".toList.map code

/-- No zero in front of other digits. -/
def Whole (text : Bytes) : Prop :=
  text=[48] ∨ ∃ first rest, text=first::rest ∧ first≠48 ∧ Digit first ∧ ∀ byte∈rest, Digit byte

/-- A point and digits, or nothing. -/
def Fraction (text : Bytes) : Prop := text=[] ∨ ∃ digits, text=46::digits ∧ Digits digits

/-- An exponent, or nothing. -/
def Exponent (text : Bytes) : Prop :=
  text=[] ∨ ∃ letter sign digits, text=letter::(sign++digits) ∧ (letter=101 ∨ letter=69) ∧
    (sign=[] ∨ sign=[43] ∨ sign=[45]) ∧ Digits digits

/-- A number. -/
def Number (text : Bytes) : Prop :=
  ∃ sign whole fraction exponent, text=sign++whole++fraction++exponent ∧
    (sign=[] ∨ sign=[45]) ∧ Whole whole ∧ Fraction fraction ∧ Exponent exponent

/-- Values without quotes or brackets. -/
def Scalar (text : Bytes) : Prop := Literal text ∨ Number text

/-- What may stand between two quotes. -/
inductive Content : Bytes → Prop where
  | empty : Content []
  | letter {letter : Char} {text : Bytes} (printable : 32 ≤ letter.toNat) (quote : letter≠ '"')
      (backslash : letter≠ '\\') (rest : Content text) :
      Content (String.utf8EncodeChar letter++text)
  | escape {letter : Char} {text : Bytes} (known : letter∈"\"\\/bfnrt".toList)
      (rest : Content text) : Content (92::code letter::text)
  | unicode {digits text : Bytes} (four : digits.length=4) (hex : ∀ byte∈digits, HexDigit byte)
      (rest : Content text) : Content (92::117::digits++text)

/-- A string with its quotes. -/
def Quoted (text : Bytes) : Prop := ∃ content, text=34::content++[34] ∧ Content content

end Scalars

section Values

/-- What is derived: a value, or what stands in an array or in an object. -/
inductive Part where
  | value
  | elements
  | members

/-- The texts of a part and the number of brackets open at once in them. -/
inductive Derives : Part → ℕ → Bytes → Prop where
  | scalar {text : Bytes} (scalar : Scalar text) : Derives .value 0 text
  | quoted {text : Bytes} (quoted : Quoted text) : Derives .value 0 text
  | emptyArray {space : Bytes} (blanks : Blanks space) : Derives .value 1 (91::space++[93])
  | array {depth : ℕ} {inner : Bytes} (elements : Derives .elements depth inner) :
      Derives .value (depth+1) (91::inner++[93])
  | emptyObject {space : Bytes} (blanks : Blanks space) : Derives .value 1 (123::space++[125])
  | object {depth : ℕ} {inner : Bytes} (members : Derives .members depth inner) :
      Derives .value (depth+1) (123::inner++[125])
  | element {depth : ℕ} {front text behind : Bytes} (before : Blanks front)
      (value : Derives .value depth text) (after : Blanks behind) :
      Derives .elements depth (front++text++behind)
  | elements {depth more : ℕ} {text rest : Bytes} (first : Derives .elements depth text)
      (others : Derives .elements more rest) : Derives .elements (max depth more) (text++44::rest)
  | member {depth : ℕ} {front name middle space text behind : Bytes} (before : Blanks front)
      (quoted : Quoted name) (between : Blanks middle) (leading : Blanks space)
      (value : Derives .value depth text) (after : Blanks behind) :
      Derives .members depth (front++name++middle++58::(space++text++behind))
  | members {depth more : ℕ} {text rest : Bytes} (first : Derives .members depth text)
      (others : Derives .members more rest) : Derives .members (max depth more) (text++44::rest)

/-- A value with what stands behind it not belonging to it, as a reader finds it. -/
def First (value behind : Bytes) : Prop :=
  ∀ more rest depth, behind=more++rest → Derives .value depth (value++more) → more=[]

end Values

section Letters

/-- The bytes of numbers and literals. -/
def Plain (byte : UInt8) : Prop :=
  Digit byte ∨ byte=43 ∨ byte=45 ∨ byte=46 ∨ byte=69 ∨ (97 ≤ byte ∧ byte ≤ 122)

variable {text : Bytes} {byte : UInt8} {letter : Char}

theorem Whole.digits (h : Whole text) : Digits text := by
  rcases h with rfl | ⟨first,rest,rfl,-,hfirst,hrest⟩
  · refine ⟨by simp,?_⟩
    rintro byte hbyte
    obtain rfl := List.mem_singleton.mp hbyte
    unfold Digit
    decide
  · refine ⟨by simp,?_⟩
    rintro byte hbyte
    rcases List.mem_cons.mp hbyte with rfl | hbyte
    · exact hfirst
    · exact hrest byte hbyte

theorem Literal.plain (h : Literal text) : text≠[] ∧ ∀ byte∈text, Plain byte := by
  have hletters : ∀ word∈["true".toList.map code,"false".toList.map code,"null".toList.map code],
      word≠[] ∧ ∀ byte∈word, 97 ≤ byte ∧ byte ≤ 122 := by decide +kernel
  have hword := hletters text (by simpa [Literal] using h)
  exact ⟨hword.1,fun byte hbyte => by simp [Plain,hword.2 byte hbyte]⟩

theorem Number.plain (h : Number text) : text≠[] ∧ ∀ byte∈text, Plain byte := by
  obtain ⟨sign,whole,fraction,exponent,rfl,hsign,hwhole,hfraction,hexponent⟩ := h
  have hdigits := hwhole.digits
  refine ⟨by simp [hdigits.1],?_⟩
  intro byte hbyte
  simp only [List.mem_append] at hbyte
  rcases hbyte with ((hbyte | hbyte) | hbyte) | hbyte
  · rcases hsign with rfl | rfl
    · cases hbyte
    · obtain rfl := List.mem_singleton.mp hbyte
      simp [Plain]
  · exact .inl (hdigits.2 byte hbyte)
  · rcases hfraction with rfl | ⟨digits,rfl,hdigits⟩
    · cases hbyte
    · rcases List.mem_cons.mp hbyte with rfl | hbyte
      · simp [Plain]
      · exact .inl (hdigits.2 byte hbyte)
  · rcases hexponent with rfl | ⟨letter,sign,digits,rfl,hletter,hsign,hdigits⟩
    · cases hbyte
    · rcases List.mem_cons.mp hbyte with rfl | hbyte
      · rcases hletter with rfl | rfl <;> simp [Plain]
      · rcases List.mem_append.mp hbyte with hbyte | hbyte
        · rcases hsign with rfl | rfl | rfl
          · cases hbyte
          · obtain rfl := List.mem_singleton.mp hbyte
            simp [Plain]
          · obtain rfl := List.mem_singleton.mp hbyte
            simp [Plain]
        · exact .inl (hdigits.2 byte hbyte)

theorem Scalar.plain (h : Scalar text) : text≠[] ∧ ∀ byte∈text, Plain byte :=
  h.elim Literal.plain Number.plain

theorem Plain.not_blank (h : Plain byte) : ¬Blank byte := by
  unfold Plain Digit at h
  unfold Blank
  grind

/-- A letter is one byte of its own or bytes that are no ASCII characters. -/
theorem mem_utf8EncodeChar (h : byte∈String.utf8EncodeChar letter) :
    (letter.toNat<128 ∧ byte.toNat=letter.toNat) ∨ 128 ≤ byte.toNat := by
  have hvalue : letter.val.toNat=letter.toNat := rfl
  unfold String.utf8EncodeChar at h
  dsimp only at h
  rw [hvalue] at h
  split_ifs at h with hone
  all_goals
    simp only [List.mem_cons,List.not_mem_nil,or_false,←UInt8.toNat_inj,UInt8.toNat_ofNat'] at h
    omega

end Letters

section Ends

/-- A value does not end with white space. -/
theorem Derives.ends {depth : ℕ} {text : Bytes} (h : Derives .value depth text) :
    ∃ front last, text=front++[last] ∧ ¬Blank last := by
  cases h with
  | scalar scalar =>
    obtain ⟨hne,hplain⟩ := scalar.plain
    refine ⟨text.dropLast,text.getLast hne,(List.dropLast_append_getLast hne).symm,?_⟩
    exact (hplain _ (List.getLast_mem hne)).not_blank
  | quoted quoted =>
    obtain ⟨content,rfl,-⟩ := quoted
    exact ⟨34::content,34,rfl,by unfold Blank; decide⟩
  | emptyArray => exact ⟨_,93,rfl,by unfold Blank; decide⟩
  | array => exact ⟨_,93,rfl,by unfold Blank; decide⟩
  | emptyObject => exact ⟨_,125,rfl,by unfold Blank; decide⟩
  | object => exact ⟨_,125,rfl,by unfold Blank; decide⟩

/-- No value goes on with white space behind it. -/
theorem first_of_blanks {value behind : Bytes} (h : Blanks behind) : First value behind := by
  rintro more rest depth rfl hvalue
  obtain ⟨front,last,htext,hlast⟩ := hvalue.ends
  by_contra hmore
  obtain ⟨start,final,rfl⟩ := (List.eq_nil_or_concat' more).resolve_left hmore
  rw [←List.append_assoc] at htext
  obtain ⟨-,hfinal⟩ := List.append_inj' htext rfl
  obtain rfl : final=last := List.singleton_inj.mp hfinal
  exact hlast (h final (by simp))

end Ends

end Vinput.JsonGrammar
