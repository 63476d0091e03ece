import Mathlib.Algebra.Order.Ring.Rat
import Mathlib.Data.Rat.Floor
import Mathlib.Tactic.Linarith
import Vinput.CoreConfigJson

/-!
# Integers from the numbers of a document

A JSON number is a double. Converting one to an integer is undefined unless the
integer can hold it with its fraction cut off. The limits that a number is
compared with are doubles, too, and so are rounded.
-/

namespace Vinput.NumberReading

open JsonTree

section Conversions

/-- A number with its fraction cut off. -/
def truncate (value : ℚ) : ℤ := value.num.tdiv value.den

/-- A conversion to 64 bits; `none` where it is undefined. -/
def castInt64 (value : ℚ) : Option Int64 :=
  if -2^63 ≤ truncate value ∧ truncate value<2^63 then some (Int64.ofInt (truncate value)) else none

/-- A conversion to 32 bits; `none` where it is undefined. -/
def castInt32 (value : ℚ) : Option Int32 :=
  if -2^31 ≤ truncate value ∧ truncate value<2^31 then some (Int32.ofInt (truncate value)) else none

/-- The limits of 64 bits as doubles. -/
def minInt64 : ℚ := toDouble (-2^63)

/-- The largest integer as a double. -/
def maxInt64 : ℚ := toDouble (2^63-1)

/-- `none` stands for a conversion that is undefined. -/
def int64 (object : Json) (key : String) (fallback : Int64) : Option Int64 :=
  match object.find key with
  | some (.number number) =>
    if (truncate number : ℚ)≠number ∨ number< minInt64 ∨ maxInt64<number then some fallback
    else castInt64 number
  | _ => some fallback

/-- A member that is a 32-bit integer. -/
def int (object : Json) (key : String) (fallback : Int32) : Option Int32 :=
  (int64 object key fallback.toInt64).map Int64.toInt32

/-- `fixed` is what `std::to_string` makes of a double. -/
def formatNumber (fixed : ℚ → String) (value : ℚ) : Option String :=
  (castInt64 value).map fun whole =>
    if value=toDouble whole.toInt then toString whole.toInt else fixed value

/-- The version of a configuration; a number is converted. -/
def versionText : Option Json → Option String
  | some (.text version) => some version
  | some (.number number) => (castInt32 number).map fun version => toString version.toInt
  | _ => some ({} : CoreConfigTypes.CoreConfig).version

variable {value : ℚ} {bound : ℤ}

/-- Comparing with an integer from below. -/
theorem lt_intCast_iff (value : ℚ) (bound : ℤ) : value<bound ↔ value.num<bound*value.den := by
  rw [Rat.lt_iff,Rat.num_intCast,Rat.den_intCast]
  norm_num

/-- Comparing with an integer from above. -/
theorem intCast_lt_iff (value : ℚ) (bound : ℤ) : (bound : ℚ)<value ↔ bound*value.den<value.num := by
  rw [Rat.lt_iff,Rat.num_intCast,Rat.den_intCast]
  norm_num

/-- The fraction of a number below zero is cut off towards zero. -/
theorem truncate_of_nonpos (h : value.num ≤ 0) : truncate value= -((-value.num)/value.den) := by
  unfold truncate
  rw [←Int.tdiv_eq_ediv_of_nonneg (by omega),Int.neg_tdiv,neg_neg]

/-- A number is cut off below a bound exactly if it is below it. -/
theorem truncate_lt_iff (hbound : 0<bound) : truncate value<bound ↔ value<bound := by
  have hden : (0 : ℤ)<value.den := by exact_mod_cast value.den_pos
  rw [lt_intCast_iff]
  rcases le_total 0 value.num with hpositive | hnegative
  · unfold truncate
    rw [Int.tdiv_eq_ediv_of_nonneg hpositive]
    exact Int.ediv_lt_iff_lt_mul hden
  · have hlow : truncate value ≤ 0 := by
      rw [truncate_of_nonpos hnegative]
      have hquotient := Int.ediv_nonneg (neg_nonneg.mpr hnegative) hden.le
      omega
    exact iff_of_true (hlow.trans_lt hbound) (hnegative.trans_lt (mul_pos hbound hden))

/-- A number is cut off above a bound exactly if it is less than one below it. -/
theorem le_truncate_iff (hbound : bound<0) :
    bound ≤ truncate value ↔ ((bound-1 : ℤ) : ℚ)<value := by
  have hden : (0 : ℤ)<value.den := by exact_mod_cast value.den_pos
  rw [intCast_lt_iff]
  rcases le_total 0 value.num with hpositive | hnegative
  · have hhigh : 0 ≤ truncate value := Int.tdiv_nonneg hpositive hden.le
    refine iff_of_true (hbound.le.trans hhigh) (lt_of_lt_of_le ?_ hpositive)
    exact mul_neg_of_neg_of_pos (by omega) hden
  · have hdiv : (-value.num)/value.den< -bound+1 ↔ -value.num<(-bound+1)*value.den :=
      Int.ediv_lt_iff_lt_mul hden
    rw [truncate_of_nonpos hnegative]
    constructor
    · intro h
      have hlt := hdiv.mp (by omega)
      linarith
    · intro h
      have hlt := hdiv.mpr (by linarith)
      omega

/-- A number is what is left of it without its fraction exactly if it has none. -/
theorem truncate_eq_iff (value : ℚ) : (truncate value : ℚ)=value ↔ value.den=1 := by
  constructor
  · intro h
    rw [←h]
    exact Rat.den_intCast _
  · intro h
    unfold truncate
    rw [h,Nat.cast_one,Int.tdiv_one]
    exact Rat.coe_int_num_of_den_eq_one h

theorem truncate_of_den (h : value.den=1) : truncate value=value.num := by
  unfold truncate
  rw [h,Nat.cast_one,Int.tdiv_one]

theorem minInt64_eq : minInt64=-2^63 := by decide +kernel

/-- The upper limit is rounded up to a number that 64 bits cannot hold. -/
theorem maxInt64_eq : maxInt64=2^63 := by decide +kernel

/-- What is left of a number fits exactly if the number is less than one outside. -/
theorem truncate_fits_iff (value : ℚ) (bits : ℕ) :
    -2^bits ≤ truncate value ∧ truncate value<2^bits ↔ -2^bits-1<value ∧ value<2^bits := by
  have hpos : (0 : ℤ)<2^bits := by positivity
  rw [le_truncate_iff (by omega),truncate_lt_iff hpos]
  push_cast
  rfl

/-- What the conversion to 64 bits is defined on. -/
theorem castInt64_ne_none_iff (value : ℚ) :
    castInt64 value≠none ↔ -2^63-1<value ∧ value<2^63 := by
  rw [←truncate_fits_iff]
  simp [castInt64]

/-- What the conversion to 32 bits is defined on. -/
theorem castInt32_ne_none_iff (value : ℚ) :
    castInt32 value≠none ↔ -2^31-1<value ∧ value<2^31 := by
  rw [←truncate_fits_iff]
  simp [castInt32]

end Conversions

section Exactness

/-- The number if 64 bits can hold it, the fallback otherwise. -/
def Int64Exact (value : ℚ) (fallback : Int64) : Prop :=
  ∀ object key, object.find key=some (.number value) → int64 object key fallback=
    some (if value.den=1 ∧ -2^63 ≤ value.num ∧ value.num<2^63 then Int64.ofInt value.num
      else fallback)

/-- The number if 32 bits can hold it, the fallback otherwise. -/
def IntExact (value : ℚ) (fallback : Int32) : Prop :=
  ∀ object key, object.find key=some (.number value) → int object key fallback=
    some (if value.den=1 ∧ -2^31 ≤ value.num ∧ value.num<2^31 then Int32.ofInt value.num
      else fallback)

/-- An integer for 64 bits but not for 32, whose low 32 bits are not the fallback. -/
def Overlong (value : ℚ) (fallback : Int32) : Prop :=
  value.den=1 ∧ (-2^63 ≤ value.num ∧ value.num<2^63) ∧ ¬(-2^31 ≤ value.num ∧ value.num<2^31) ∧
    ¬2^32 ∣ value.num-fallback.toInt

variable {value : ℚ} {object : Json} {key : String}

theorem value_eq_num (h : value.den=1) : value=value.num := (Rat.coe_int_num_of_den_eq_one h).symm

/-- What is read where a number is found. -/
theorem int64_of_number (hfind : object.find key=some (.number value)) (fallback : Int64) :
    int64 object key fallback=
      if value.den=1 ∧ -2^63 ≤ value.num ∧ value.num ≤ 2^63 then castInt64 value
      else some fallback := by
  unfold int64
  rw [hfind,minInt64_eq,maxInt64_eq]
  by_cases hden : value.den=1
  · have hlow : value< -2^63 ↔ value.num< -2^63 := by
      rw [value_eq_num hden]
      norm_cast
    have hhigh : 2^63<value ↔ 2^63<value.num := by
      rw [value_eq_num hden]
      norm_cast
    simp only [ne_eq,truncate_eq_iff,hden,not_true,false_or,true_and,hlow,hhigh]
    by_cases hin : -2^63 ≤ value.num ∧ value.num ≤ 2^63
    · rw [if_neg (by omega),if_pos hin]
    · rw [if_pos (by omega),if_neg hin]
  · simp [truncate_eq_iff,hden]

/-- An integer in range is converted. -/
theorem castInt64_of_den (hden : value.den=1) (hlow : -2^63 ≤ value.num) (hhigh : value.num<2^63) :
    castInt64 value=some (Int64.ofInt value.num) := by
  unfold castInt64
  rw [truncate_of_den hden,if_pos ⟨hlow,hhigh⟩]

/-- The first integer out of range is not. -/
theorem castInt64_bound : castInt64 (2^63)=none := by
  by_contra h
  have hlt := ((castInt64_ne_none_iff _).mp h).2
  exact absurd hlt (lt_irrefl _)

/-- An object whose member is a number. -/
def objectWith (value : ℚ) : Json := .object [("",.number value)]

theorem find_objectWith (value : ℚ) : (objectWith value).find ""=some (.number value) := rfl

/-- The only integer that is not read as it should be is the upper limit as a double. -/
theorem int64Exact_iff (value : ℚ) (fallback : Int64) : Int64Exact value fallback ↔ value≠2^63 := by
  constructor
  · rintro h rfl
    have hread := h _ _ (find_objectWith _)
    rw [int64_of_number (find_objectWith _),if_pos (by decide +kernel),castInt64_bound] at hread
    cases hread
  · intro hvalue object key hfind
    rw [int64_of_number hfind]
    by_cases hin : value.den=1 ∧ -2^63 ≤ value.num ∧ value.num<2^63
    · rw [if_pos ⟨hin.1,hin.2.1,hin.2.2.le⟩,if_pos hin]
      exact castInt64_of_den hin.1 hin.2.1 hin.2.2
    · have hbound : value.den=1 → value.num≠2^63 := by
        intro hden hnum
        apply hvalue
        rw [value_eq_num hden,hnum]
        norm_cast
      rw [if_neg (by grind),if_neg hin]

theorem ofInt_eq_iff (number : ℤ) (result : Int32) :
    Int32.ofInt number=result ↔ 2^32 ∣ number-result.toInt := by
  have hlow := result.le_toInt
  have hhigh := result.toInt_lt
  rw [Int32.ofInt_eq_iff_bmod_eq_toInt,Int.bmod_eq_iff (by norm_num)]
  norm_num
  omega

/-- An integer that 64 bits hold is cut to its low 32 bits. -/
theorem int_of_wide (hfind : object.find key=some (.number value)) (hden : value.den=1)
    (hlow : -2^63 ≤ value.num) (hhigh : value.num<2^63) (fallback : Int32) :
    int object key fallback=some (Int32.ofInt value.num) := by
  unfold int
  rw [int64_of_number hfind,if_pos ⟨hden,hlow,hhigh.le⟩,castInt64_of_den hden hlow hhigh]
  simp

/-- When reading an integer is exact. -/
theorem intExact_iff (value : ℚ) (fallback : Int32) :
    IntExact value fallback ↔ value≠2^63 ∧ ¬Overlong value fallback := by
  constructor
  · intro h
    have hread := h _ _ (find_objectWith value)
    constructor
    · rintro rfl
      unfold int at hread
      rw [int64_of_number (find_objectWith _),if_pos (by decide +kernel),castInt64_bound] at hread
      cases hread
    · rintro ⟨hden,⟨hlow,hhigh⟩,hnarrow,hfallback⟩
      rw [int_of_wide (find_objectWith value) hden hlow hhigh,if_neg (by grind)] at hread
      exact hfallback ((ofInt_eq_iff _ _).mp (Option.some.inj hread))
  · rintro ⟨hvalue,hlong⟩ object key hfind
    have hwide := (int64Exact_iff value fallback.toInt64).mpr hvalue _ _ hfind
    by_cases hin : value.den=1 ∧ -2^63 ≤ value.num ∧ value.num<2^63
    · rw [int_of_wide hfind hin.1 hin.2.1 hin.2.2]
      by_cases hnarrow : -2^31 ≤ value.num ∧ value.num<2^31
      · rw [if_pos ⟨hin.1,hnarrow⟩]
      · have hsame : Int32.ofInt value.num=fallback := by
          rw [ofInt_eq_iff]
          by_contra hdiv
          exact hlong ⟨hin.1,hin.2,hnarrow,hdiv⟩
        rw [if_neg (by grind),hsame]
    · unfold int
      rw [hwide,if_neg hin,if_neg (by omega)]
      simp

/-- Exactly the numbers that are read as they should be and converted only if
the integer can hold them, for each of the four conversions. -/
theorem conversions_exact_iff (value : ℚ) (fallback : Int64) (narrow : Int32) (fixed : ℚ → String) :
    (Int64Exact value fallback ↔ value≠2^63) ∧
    (IntExact value narrow ↔ value≠2^63 ∧ ¬Overlong value narrow) ∧
    (formatNumber fixed value≠none ↔ -2^63-1<value ∧ value<2^63) ∧
    (versionText (some (.number value))≠none ↔ -2^31-1<value ∧ value<2^31) := by
  refine ⟨int64Exact_iff value fallback,intExact_iff value narrow,?_,?_⟩
  · rw [←castInt64_ne_none_iff]
    simp [formatNumber]
  · rw [←castInt32_ne_none_iff]
    simp [versionText]

/-- 2^63 passes the check of `Int64`, 2^31 is cut to its low bits by `Int`, and
neither number is checked at all by the other two. -/
theorem limits_converted : ¬Int64Exact (2^63) 0 ∧ ¬IntExact (2^31) 0 ∧
    formatNumber (fun _ => "") (2^63)=none ∧ versionText (some (.number (2^31)))=none := by
  refine ⟨?_,?_,?_,?_⟩
  · rw [int64Exact_iff]
    exact fun h => h rfl
  · rw [intExact_iff]
    exact fun h => h.2 (by unfold Overlong; decide +kernel)
  · decide +kernel
  · decide +kernel

end Exactness

end Vinput.NumberReading
