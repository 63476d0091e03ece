import Mathlib.Algebra.Order.Ring.Rat
import Mathlib.Data.Int.Log
import Mathlib.Data.List.Basic
import Mathlib.Data.Rat.Floor

/-!
# JSON trees and their typed readers

A tree is what a JSON reader makes of a text. An object is the list of its
members, of which the first with a key counts. Typed readers follow a
reader that ignores unknown keys: a missing member keeps its fallback, a
null leaves an optional member absent, and a member of the wrong type
fails the whole object. A tree is not always read back from the text that
is written of it: some characters have no escape.
-/

namespace Vinput.JsonTree

section Numbers

/-- The nearest number with 53 significant bits, ties to even. -/
def toDouble (value : ℚ) : ℚ :=
  if value=0 then 0
  else
    let spacing : ℚ := 2^(Int.log 2 |value|-52)
    let low := ⌊value/spacing⌋
    let rest := value/spacing-low
    if 2*rest<1 ∨ 2*rest=1 ∧ low%2=0 then low*spacing else (low+1)*spacing

/-- Integers of 53 bits are exact. -/
theorem toDouble_natCast {count : ℕ} (h : count<2^53) : toDouble count=count := by
  by_cases hzero : count=0
  · rw [hzero]
    rfl
  · let scale : ℕ := 2^(52-Nat.log 2 count)
    have hlog : Nat.log 2 count<53 := Nat.log_lt_of_lt_pow hzero h
    have hspacing : (2 : ℚ)^(Int.log 2 |(count : ℚ)|-52)=(scale : ℚ)⁻¹ := by
      have hexponent : (Nat.log 2 count : ℤ)-52= -((52-Nat.log 2 count : ℕ) : ℤ) := by omega
      rw [Nat.abs_cast,Int.log_natCast,hexponent,zpow_neg,zpow_natCast]
      simp only [scale,Nat.cast_pow,Nat.cast_ofNat]
    have hscale : (scale : ℚ)≠0 := Nat.cast_ne_zero.mpr (pow_ne_zero _ two_ne_zero)
    have hscaled : (count : ℚ)/(scale : ℚ)⁻¹=((count*scale : ℕ) : ℚ) := by
      rw [div_inv_eq_mul,Nat.cast_mul]
    have hcount : (count : ℚ)≠0 := Nat.cast_ne_zero.mpr hzero
    unfold toDouble
    dsimp only
    rw [if_neg hcount,hspacing,hscaled,Int.floor_natCast,Int.cast_natCast,sub_self,mul_zero,
      if_pos (Or.inl one_pos),Nat.cast_mul,mul_assoc,mul_inv_cancel₀ hscale,mul_one]

/-- A number in double precision. Its value is not rounded. -/
inductive Double where
  | notANumber
  | minusInfinity
  | finite (value : ℚ)
  | infinity
deriving DecidableEq

instance : Inhabited Double := ⟨.notANumber⟩

instance : OfScientific Double :=
  ⟨fun mantissa negative exponent =>
    .finite (OfScientific.ofScientific mantissa negative exponent)⟩

/-- The order of numbers. What is no number is neither below nor above another. -/
def Double.below : Double → Double → Bool
  | .notANumber,_ => false
  | _,.notANumber => false
  | .minusInfinity,right => decide (right≠.minusInfinity)
  | .infinity,_ => false
  | .finite _,.minusInfinity => false
  | .finite left,.finite right => decide (left<right)
  | .finite _,.infinity => true

instance : LT Double := ⟨fun left right => left.below right=true⟩

instance : DecidableLT Double :=
  fun left right => inferInstanceAs (Decidable (left.below right=true))

/-- One of the two infinities. -/
def Double.isInfinite : Double → Bool
  | .minusInfinity => true
  | .infinity => true
  | _ => false

/-- Finite doubles are compared as numbers. -/
theorem finite_lt_finite {left right : ℚ} : Double.finite left<.finite right ↔ left<right :=
  decide_eq_true_iff

end Numbers

/-- JSON trees. -/
inductive Json where
  | null
  | bool (value : Bool)
  | number (value : ℚ)
  | text (value : String)
  | array (elements : List Json)
  | object (members : List (String×Json))

instance : Inhabited Json := ⟨.null⟩

/-- The member of an object with a key. -/
def Json.find (key : String) : Json → Option Json
  | .object members => members.lookup key
  | _ => none

mutual

/-- The strings of a tree, the keys of its members among them. -/
def Json.strings : Json → List String
  | .text value => [value]
  | .array elements => stringsElements elements
  | .object members => stringsMembers members
  | _ => []

def stringsElements : List Json → List String
  | [] => []
  | element::rest => element.strings++stringsElements rest

def stringsMembers : List (String×Json) → List String
  | [] => []
  | (key,value)::rest => key::(value.strings++stringsMembers rest)

end

/-- The bytes of a string. -/
def bytesOf (text : String) : List UInt8 := text.toByteArray.data.toList

/-- A byte that is written as it is or with a short escape. Other control bytes are
written without one, and the reader stops at them. -/
def isWritable (byte : UInt8) : Bool :=
  decide (32≤ byte.toNat) || decide (byte.toNat∈[8,9,10,12,13])

/-- No string of the tree has a control byte without an escape. -/
def Json.isClean (root : Json) : Bool := root.strings.all fun text => (bytesOf text).all isWritable

/-- No string of the tree has such a byte or a backslash. The reader loses its place
at an escaped backslash close to the end of a text. -/
def Json.isPlain (root : Json) : Bool :=
  root.isClean && root.strings.all fun text => (bytesOf text).all fun byte => byte.toNat != 92

/-- The tree is an object. -/
def Json.isObject : Json → Bool
  | .object _ => true
  | _ => false

/-- An object is written without its absent members. -/
def ofMembers (members : List (String×Option Json)) : Json :=
  .object (members.filterMap fun entry => entry.2.map fun value => (entry.1,value))

@[simp] theorem isObject_ofMembers (members : List (String×Option Json)) :
    (ofMembers members).isObject=true := rfl

/-- A member of a written object is found under its key. -/
theorem find_ofMembers {members : List (String×Option Json)}
    (unique : (members.map Prod.fst).Nodup) (key : String) :
    (ofMembers members).find key=(members.lookup key).join := by
  induction members with
  | nil => rfl
  | cons entry rest ih =>
    obtain ⟨name,value⟩ := entry
    rw [List.map_cons,List.nodup_cons] at unique
    have hrest : (rest.filterMap fun entry => entry.2.map fun value => (entry.1,value)).lookup key=
        (rest.lookup key).join := ih unique.2
    dsimp only [ofMembers,Json.find]
    cases value with
    | none =>
      by_cases hkey : key=name
      · have habsent : rest.lookup key=none := by
          rw [List.lookup_eq_none_iff]
          intro other hother
          rw [hkey]
          refine bne_iff_ne.mpr ?_
          intro hsame
          exact unique.1 (List.mem_map.mpr ⟨other,hother,hsame.symm⟩)
        rw [List.filterMap_cons_none rfl,hrest,habsent,List.lookup_cons,hkey]
        simp
      · rw [List.filterMap_cons_none rfl,hrest,List.lookup_cons,beq_false_of_ne hkey]
    | some value =>
      rw [List.filterMap_cons,List.lookup_cons]
      dsimp only [Option.map_some]
      rw [List.lookup_cons,hrest]
      cases key==name <;> rfl

/-- A string. -/
def readText : Json → Option String
  | .text value => some value
  | _ => none

/-- A boolean. -/
def readBool : Json → Option Bool
  | .bool value => some value
  | _ => none

/-- A number; a null is read as what is no number. -/
def readNumber : Json → Option Double
  | .number value => some (.finite value)
  | .null => some .notANumber
  | _ => none

/-- Only finite numbers have a text. -/
def writeNumber : Double → Json
  | .finite value => .number value
  | _ => .null

/-- A number whose integer a 32-bit integer can hold; its fraction is cut off. -/
def readInt : Json → Option Int32
  | .number value =>
    if -2^31 ≤ value.num.tdiv value.den ∧ value.num.tdiv value.den<2^31 then
      some (Int32.ofInt (value.num.tdiv value.den))
    else none
  | _ => none

/-- A 32-bit integer as a number. -/
def writeInt (value : Int32) : Json := .number value.toInt

/-- Any tree. -/
def readTree (node : Json) : Option Json := some node

/-- An array, all of whose elements are read. -/
def readArray {α : Type*} (read : Json → Option α) : Json → Option (List α)
  | .array elements => elements.mapM read
  | _ => none

/-- An array of written elements. -/
def writeArray {α : Type*} (write : α → Json) (values : List α) : Json := .array (values.map write)

/-- A member that keeps its fallback when it is missing. -/
def member {α : Type*} (key : String) (read : Json → Option α) (fallback : α) (node : Json) :
    Option α :=
  match node.find key with
  | none => some fallback
  | some value => read value

/-- A member that is absent when it is missing or null. -/
def optional {α : Type*} (key : String) (read : Json → Option α) (node : Json) :
    Option (Option α) :=
  match node.find key with
  | none => some none
  | some .null => some none
  | some value => (read value).map some

/-- A member that is a string, empty when it is not. -/
def textMember (key : String) (node : Json) : String :=
  match node.find key with
  | some (.text value) => value
  | _ => ""

/-- A member that is a 64-bit integer, zero when it is not. The bounds are
those of the type as doubles. -/
def int64Member (key : String) (node : Json) : ℤ :=
  match node.find key with
  | some (.number value) =>
    if value.den=1 ∧ -2^63 ≤ value.num ∧ value.num≤2^63 then value.num else 0
  | _ => 0

/-- An integer is read as it was written. -/
@[simp] theorem readInt_writeInt (value : Int32) : readInt (writeInt value)=some value := by
  have hlow := Int32.le_toInt value
  have hhigh := Int32.toInt_lt value
  dsimp only [writeInt,readInt]
  rw [Rat.den_intCast,Rat.num_intCast,Nat.cast_one,Int.tdiv_one,if_pos ⟨hlow,hhigh⟩,
    Int32.ofInt_toInt]

theorem readNumber_writeNumber {value : Double} (h : value.isInfinite=false) :
    readNumber (writeNumber value)=some value := by
  cases value with
  | notANumber => rfl
  | minusInfinity => cases h
  | finite value => rfl
  | infinity => cases h

/-- Elements that are read back one by one are read back together. -/
theorem readArray_writeArray {α : Type*} {read : Json → Option α} {write : α → Json}
    {values : List α} (each : ∀ value∈values, read (write value)=some value) :
    readArray read (writeArray write values)=some values := by
  dsimp only [writeArray,readArray]
  induction values with
  | nil => rfl
  | cons value rest ih =>
    rw [List.map_cons,List.mapM_cons,each value List.mem_cons_self,
      ih fun other hother => each other (List.mem_cons_of_mem _ hother)]
    rfl

/-- A member that was written is read. -/
theorem member_ofMembers {α : Type*} {members : List (String×Option Json)}
    (unique : (members.map Prod.fst).Nodup) {key : String} {read : Json → Option α} {fallback : α}
    {value : Json} (h : members.lookup key=some (some value)) :
    member key read fallback (ofMembers members)=read value := by
  unfold member
  rw [find_ofMembers unique,h]
  rfl

/-- A string that was written is read. -/
theorem member_text {members : List (String×Option Json)} (unique : (members.map Prod.fst).Nodup)
    {key value fallback : String} (h : members.lookup key=some (some (.text value))) :
    member key readText fallback (ofMembers members)=some value :=
  member_ofMembers unique h

/-- A boolean that was written is read. -/
theorem member_bool {members : List (String×Option Json)} (unique : (members.map Prod.fst).Nodup)
    {key : String} {value fallback : Bool} (h : members.lookup key=some (some (.bool value))) :
    member key readBool fallback (ofMembers members)=some value :=
  member_ofMembers unique h

/-- A number that was written is read, unless it is infinite. -/
theorem member_number {members : List (String×Option Json)}
    (unique : (members.map Prod.fst).Nodup) {key : String} {value fallback : Double}
    (hvalue : value.isInfinite=false)
    (h : members.lookup key=some (some (writeNumber value))) :
    member key readNumber fallback (ofMembers members)=some value :=
  (member_ofMembers unique h).trans (readNumber_writeNumber hvalue)

/-- An integer that was written is read. -/
theorem member_int {members : List (String×Option Json)} (unique : (members.map Prod.fst).Nodup)
    {key : String} {value fallback : Int32} (h : members.lookup key=some (some (writeInt value))) :
    member key readInt fallback (ofMembers members)=some value :=
  (member_ofMembers unique h).trans (readInt_writeInt value)

/-- A member that was written unless it was absent is read. -/
theorem optional_ofMembers {α : Type*} {members : List (String×Option Json)}
    (unique : (members.map Prod.fst).Nodup) {key : String} {read : Json → Option α}
    {write : α → Json} {value : Option α} (h : members.lookup key=some (value.map write))
    (present : ∀ written, value=some written →
      read (write written)=some written ∧ write written≠.null) :
    optional key read (ofMembers members)=some value := by
  unfold optional
  rw [find_ofMembers unique,h,Option.join_some]
  cases value with
  | none => rfl
  | some written =>
    obtain ⟨hread,hnull⟩ := present written rfl
    dsimp only [Option.map_some]
    split
    · cases ‹some (write written)=none›
    · rename_i hsome
      exact absurd (Option.some.inj hsome) hnull
    · rename_i other hother
      cases hother
      rw [hread]
      rfl

/-- An optional string that was written is read. -/
theorem optional_text {members : List (String×Option Json)}
    (unique : (members.map Prod.fst).Nodup) {key : String} {value : Option String}
    (h : members.lookup key=some (value.map .text)) :
    optional key readText (ofMembers members)=some value :=
  optional_ofMembers unique h fun _ _ => ⟨rfl,nofun⟩

/-- An optional boolean that was written is read. -/
theorem optional_bool {members : List (String×Option Json)}
    (unique : (members.map Prod.fst).Nodup) {key : String} {value : Option Bool}
    (h : members.lookup key=some (value.map .bool)) :
    optional key readBool (ofMembers members)=some value :=
  optional_ofMembers unique h fun _ _ => ⟨rfl,nofun⟩

/-- An optional integer that was written is read. -/
theorem optional_int {members : List (String×Option Json)}
    (unique : (members.map Prod.fst).Nodup) {key : String} {value : Option Int32}
    (h : members.lookup key=some (value.map writeInt)) :
    optional key readInt (ofMembers members)=some value :=
  optional_ofMembers unique h fun written _ => ⟨readInt_writeInt written,nofun⟩

/-- An optional tree that was written and is not null is read. -/
theorem optional_tree {members : List (String×Option Json)}
    (unique : (members.map Prod.fst).Nodup) {key : String} {value : Option Json}
    (h : members.lookup key=some value) (hnull : value≠some .null) :
    optional key readTree (ofMembers members)=some value := by
  refine optional_ofMembers unique (h.trans (congrArg some Option.map_id'.symm)) ?_
  intro written hwritten
  exact ⟨rfl,fun hnone => hnull (hwritten.trans (congrArg some hnone))⟩

end Vinput.JsonTree
