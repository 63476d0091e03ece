import Vinput.JsonLocation

/-!
# JSON pointers

A pointer is a text of reference tokens, each with a slash in front. In a token
a tilde and a slash are written with a tilde and a digit. Evaluating a pointer
starts at a root; a token names a member of an object or an element of an array.
-/

namespace Vinput.JsonPointer

open JsonTree JsonLocation

section Grammar

/-- What may stand between two slashes of a pointer. -/
inductive ReferenceToken : List Char → Prop where
  | empty : ReferenceToken []
  | unescaped {letter : Char} {token : List Char} (slash : letter≠ '/') (tilde : letter≠ '~')
      (rest : ReferenceToken token) : ReferenceToken (letter::token)
  | escaped {digit : Char} {token : List Char} (digits : digit= '0' ∨ digit= '1')
      (rest : ReferenceToken token) : ReferenceToken ('~'::digit::token)

/-- Every tilde with a digit after it becomes one letter. -/
def substitute (digit result : Char) : List Char → List Char
  | [] => []
  | [letter] => [letter]
  | letter::next::rest =>
    if letter= '~' ∧ next=digit then result::substitute digit result rest
    else letter::substitute digit result (next::rest)

/-- The name a token stands for. Slashes come first, so that no tilde from an
escape is taken for the beginning of another one. -/
def unescape (token : List Char) : List Char := substitute '0' '~' (substitute '1' '/' token)

/-- The texts that are pointers, with the names of their tokens. -/
inductive Pointer : List Char → List (List Char) → Prop where
  | root : Pointer [] []
  | token {raw rest : List Char} {names : List (List Char)} (token : ReferenceToken raw)
      (below : Pointer rest names) : Pointer ('/'::raw++rest) (unescape raw::names)

variable {digit result letter : Char} {text raw rest : List Char} {names : List (List Char)}

/-- A letter that starts no escape stays. -/
theorem substitute_cons (h : letter≠ '~' ∨ ∀ next behind, text=next::behind → next≠digit) :
    substitute digit result (letter::text)=letter::substitute digit result text := by
  cases text with
  | nil => rfl
  | cons next behind =>
    have hescape : ¬(letter= '~' ∧ next=digit) := by
      rintro ⟨rfl,rfl⟩
      rcases h with hletter | hnext
      · exact hletter rfl
      · exact hnext next behind rfl rfl
    exact if_neg hescape

theorem substitute_escape (digit result : Char) (text : List Char) :
    substitute digit result ('~'::digit::text)=result::substitute digit result text := by
  exact if_pos ⟨rfl,rfl⟩

theorem unescape_cons (h : letter≠ '~') (text : List Char) :
    unescape (letter::text)=letter::unescape text := by
  unfold unescape
  rw [substitute_cons (.inl h),substitute_cons (.inl h)]

theorem unescape_slash (text : List Char) : unescape ('~' :: '1'::text)= '/'::unescape text := by
  unfold unescape
  rw [substitute_escape,substitute_cons (.inl (by decide))]

theorem unescape_tilde (text : List Char) : unescape ('~' :: '0'::text)= '~'::unescape text := by
  have hnext : ∀ next behind, '0'::text=next::behind → next≠ '1' := by
    rintro next behind ⟨⟩
    decide
  unfold unescape
  rw [substitute_cons (.inr hnext),@substitute_cons _ _ '0' _ (.inl (by decide)),substitute_escape]

/-- What is left of a pointer after a token begins with the next slash. -/
theorem Pointer.eq_slash (h : Pointer text names) :
    ∀ first behind, text=first::behind → first= '/' := by
  cases h with
  | root => rintro first behind ⟨⟩
  | token token below =>
    rintro first behind ⟨⟩
    rfl

end Grammar

section Evaluation

/-- Whole numbers without a zero in front. -/
def ArrayIndex (name : List Char) : Prop :=
  name=['0'] ∨
    ∃ first rest, name=first::rest ∧ first≠ '0' ∧ first.isDigit=true ∧ rest.all Char.isDigit=true

/-- Whole numbers, also with zeros in front. -/
def Digits (name : List Char) : Prop := name≠[] ∧ name.all Char.isDigit=true

/-- The names lead from a node to a place, where the names that `index` allows
stand for elements of arrays. -/
inductive Designates (index : List Char → Prop) : Json → List (List Char) → Location → Prop where
  | here {node : Json} : Designates index node [] []
  | member {members : List (String×Json)} {name : List Char} {value : Json}
      {names : List (List Char)} {place : Location}
      (found : members.lookup (String.ofList name)=some value)
      (below : Designates index value names place) :
      Designates index (.object members) (name::names) (.key (String.ofList name)::place)
  | element {elements : List Json} {name : List Char} {value : Json} {names : List (List Char)}
      {place : Location} (digits : index name)
      (found : elements[Nat.ofDigitChars 10 name 0]?=some value)
      (below : Designates index value names place) :
      Designates index (.array elements) (name::names)
        (.index (Nat.ofDigitChars 10 name 0)::place)

/-- A text is a pointer and leads from the root to a place. -/
def Evaluates (root : Json) (text : List Char) (place : Location) : Prop :=
  ∃ names, Pointer text names ∧ Designates ArrayIndex root names place

/-- Every name that stands for an element of an array is without a zero in front. -/
def Unpadded (names : List (List Char)) (place : Location) : Prop :=
  ∀ entry∈place.zip names, ∀ position, entry.1=.index position → ArrayIndex entry.2

variable {index : List Char → Prop} {root node : Json} {name : List Char}
  {names : List (List Char)} {place : Location}

theorem ArrayIndex.digits (h : ArrayIndex name) : Digits name := by
  rcases h with rfl | ⟨first,rest,rfl,-,hfirst,hrest⟩
  · exact ⟨by simp,by decide⟩
  · exact ⟨by simp,by simp [hfirst,hrest]⟩

/-- Zeros in front of a number make the only difference between the two ways
to read an index. -/
theorem designates_arrayIndex_iff : Designates ArrayIndex root names place ↔
    Designates Digits root names place ∧ Unpadded names place := by
  constructor
  · intro h
    induction h with
    | here => exact ⟨.here,by simp [Unpadded]⟩
    | member found below ih =>
      refine ⟨.member found ih.1,?_⟩
      rintro entry hentry position hposition
      rcases List.mem_cons.mp hentry with rfl | hentry
      · cases hposition
      · exact ih.2 entry hentry position hposition
    | element digits found below ih =>
      refine ⟨.element digits.digits found ih.1,?_⟩
      rintro entry hentry position hposition
      rcases List.mem_cons.mp hentry with rfl | hentry
      · exact digits
      · exact ih.2 entry hentry position hposition
  · rintro ⟨h,hunpadded⟩
    induction h with
    | here => exact .here
    | member found below ih =>
      exact .member found (ih fun entry hentry => hunpadded entry (List.mem_cons_of_mem _ hentry))
    | element digits found below ih =>
      refine .element (hunpadded _ List.mem_cons_self _ rfl) found (ih ?_)
      exact fun entry hentry => hunpadded entry (List.mem_cons_of_mem _ hentry)

end Evaluation

end Vinput.JsonPointer
