import Mathlib.Data.List.GetD
import Vinput.Utf8Codec

/-!
# Base64

Three bytes are four letters of six bits each; one or two bytes at the end are
filled up with padding. The encoder is written with the tables of the code, the
decoder with the values of the letters. What is encoded is decoded to the same
bytes.
-/

namespace Vinput.Base64

open ProcessLines (Bytes)

section Codec

/-- The 64 letters in the order of their values. -/
def alphabet : Bytes :=
  ("ABCDEFGHIJKLMNOPQRSTUVWXYZabcdefghijklmnopqrstuvwxyz0123456789+/".toList).map
    fun c => c.toNat.toUInt8

/-- The equals sign. -/
def paddingChar : UInt8 := 61

/-- The table that looks at the upper six bits. -/
def encodeTable0 (byte : UInt8) : UInt8 := alphabet.getD (byte.toNat/4) 0

/-- The table that looks at the lower six bits. -/
def encodeTable1 (byte : UInt8) : UInt8 := alphabet.getD (byte.toNat%64) 0

/-- Letters of the bits that two bytes share. -/
def second (t1 t2 : UInt8) : UInt8 := ((t1 &&& 0x03) <<< 4) ||| ((t2 >>> 4) &&& 0x0F)

/-- The bits of the second and third byte in the third letter. -/
def third (t2 t3 : UInt8) : UInt8 := ((t2 &&& 0x0F) <<< 2) ||| ((t3 >>> 6) &&& 0x03)

/-- Three bytes make four letters. -/
def encode : Bytes → Bytes
  | t1::t2::t3::rest =>
    encodeTable0 t1::encodeTable1 (second t1 t2)::encodeTable1 (third t2 t3)::
      encodeTable1 t3::encode rest
  | [t1,t2] =>
    [encodeTable0 t1,encodeTable1 (second t1 t2),encodeTable1 ((t2 &&& 0x0F) <<< 2),paddingChar]
  | [t1] => [encodeTable0 t1,encodeTable1 ((t1 &&& 0x03) <<< 4),paddingChar,paddingChar]
  | [] => []

/-- The value of a letter. -/
def valueOf (letter : UInt8) : Option ℕ :=
  if letter∈alphabet then some (alphabet.idxOf letter) else none

/-- The three bytes of four values. -/
def joined (a b c d : ℕ) : Bytes :=
  [(a*4+b/16).toUInt8,(b%16*16+c/4).toUInt8,(c%4*64+d).toUInt8]

/-- Groups of four letters; padding stands at the end only. -/
def decode : Bytes → Option Bytes
  | [] => some []
  | a::b::c::d::rest => do
    let first ← valueOf a
    let next ← valueOf b
    if d=paddingChar ∧ rest=[] then
      if c=paddingChar then return (joined first next 0 0).take 1
      else return (joined first next (← valueOf c) 0).take 2
    else
      let bytes ← decode rest
      return joined first next (← valueOf c) (← valueOf d)++bytes
  | _ => none

end Codec

section RoundTrip

/-- The codes of the letters. -/
theorem codes_alphabet : alphabet.map UInt8.toNat=
    List.range' 65 26++List.range' 97 26++List.range' 48 10++[43,47] :=
  rfl

theorem length_alphabet : alphabet.length=64 := by
  have hlength := congrArg List.length codes_alphabet
  rwa [List.length_map] at hlength

/-- No letter stands twice. -/
theorem nodup_alphabet : alphabet.Nodup := by
  have hcodes : (alphabet.map UInt8.toNat).Nodup := by
    rw [codes_alphabet]
    decide
  exact hcodes.of_map

theorem padding_not_mem : paddingChar∉alphabet := by
  intro hmem
  have hcode : 61∈alphabet.map UInt8.toNat := List.mem_map_of_mem hmem
  rw [codes_alphabet] at hcode
  revert hcode
  decide

/-- A letter has its place in the alphabet as its value. -/
theorem valueOf_letter {index : ℕ} (h : index<64) :
    valueOf (alphabet.getD index 0)=some index := by
  have hindex : index<alphabet.length := length_alphabet ▸ h
  unfold valueOf
  rw [List.getD_eq_getElem _ _ hindex,if_pos (List.getElem_mem hindex),
    nodup_alphabet.idxOf_getElem index hindex]

theorem letter_ne_padding {index : ℕ} (h : index<64) : alphabet.getD index 0≠paddingChar := by
  have hindex : index<alphabet.length := length_alphabet ▸ h
  rw [List.getD_eq_getElem _ _ hindex]
  exact fun hsame => padding_not_mem (hsame ▸ List.getElem_mem hindex)

/-- The first letter has the high six bits. -/
theorem valueOf_table0 (byte : UInt8) : valueOf (encodeTable0 byte)=some (byte.toNat/4) :=
  valueOf_letter (by have := byte.toNat_lt; omega)

/-- Other letters have the low six bits. -/
theorem valueOf_table1 (byte : UInt8) : valueOf (encodeTable1 byte)=some (byte.toNat%64) :=
  valueOf_letter (Nat.mod_lt _ (by decide))

theorem table1_ne_padding (byte : UInt8) : encodeTable1 byte≠paddingChar :=
  letter_ne_padding (Nat.mod_lt _ (by decide))

/-- Bits of two bytes beside each other are added. -/
theorem toNat_beside {high low : UInt8} (shift : ℕ) (hhigh : 2^shift∣high.toNat)
    (hlow : low.toNat<2^shift) : (high ||| low).toNat=high.toNat+low.toNat := by
  obtain ⟨part,hpart⟩ := hhigh
  have hjoined := Utf8Codec.or_eq_add part hlow
  rw [UInt8.toNat_or,hpart,Nat.mul_comm]
  exact hjoined

/-- What one byte gives to a letter it shares. -/
theorem shared_bits (byte : UInt8) :
    ((byte &&& 0x03) <<< 4).toNat=byte.toNat%4*16 ∧
    ((byte >>> 4) &&& 0x0F).toNat=byte.toNat/16 ∧
    ((byte &&& 0x0F) <<< 2).toNat=byte.toNat%16*4 ∧
    ((byte >>> 6) &&& 0x03).toNat=byte.toNat/64 := by
  have hlt := byte.toNat_lt
  have htwo : (byte &&& 0x03).toNat=byte.toNat%2^2 := Nat.and_two_pow_sub_one_eq_mod _ 2
  have hfour : (byte &&& 0x0F).toNat=byte.toNat%2^4 := Nat.and_two_pow_sub_one_eq_mod _ 4
  have hupper : (byte >>> 4).toNat=byte.toNat/2^4 := Nat.shiftRight_eq_div_pow _ 4
  have htop : (byte >>> 6).toNat=byte.toNat/2^6 := Nat.shiftRight_eq_div_pow _ 6
  have hmask4 : ((byte >>> 4) &&& 0x0F).toNat=(byte >>> 4).toNat%2^4 :=
    Nat.and_two_pow_sub_one_eq_mod _ 4
  have hmask2 : ((byte >>> 6) &&& 0x03).toNat=(byte >>> 6).toNat%2^2 :=
    Nat.and_two_pow_sub_one_eq_mod _ 2
  refine ⟨?_,?_,?_,?_⟩
  · rw [UInt8.toNat_shiftLeft,htwo,Nat.shiftLeft_eq]
    change byte.toNat%2^2*2^4%2^8=byte.toNat%4*16
    omega
  · rw [hmask4,hupper]
    omega
  · rw [UInt8.toNat_shiftLeft,hfour,Nat.shiftLeft_eq]
    change byte.toNat%2^4*2^2%2^8=byte.toNat%16*4
    omega
  · rw [hmask2,htop]
    omega

theorem toNat_second (t1 t2 : UInt8) : (second t1 t2).toNat=t1.toNat%4*16+t2.toNat/16 := by
  obtain ⟨hhigh,-,-,-⟩ := shared_bits t1
  obtain ⟨-,hlow,-,-⟩ := shared_bits t2
  have hlt := t2.toNat_lt
  unfold second
  rw [toNat_beside 4 (by rw [hhigh]; exact Dvd.intro_left _ rfl) (by rw [hlow]; omega),hhigh,hlow]

theorem toNat_third (t2 t3 : UInt8) : (third t2 t3).toNat=t2.toNat%16*4+t3.toNat/64 := by
  obtain ⟨-,-,hhigh,-⟩ := shared_bits t2
  obtain ⟨-,-,-,hlow⟩ := shared_bits t3
  have hlt := t3.toNat_lt
  unfold third
  rw [toNat_beside 2 (by rw [hhigh]; exact Dvd.intro_left _ rfl) (by rw [hlow]; omega),hhigh,hlow]

/-- A byte is recovered from its number. -/
theorem byte_of_toNat {byte : UInt8} {value : ℕ} (h : value=byte.toNat) : value.toUInt8=byte := by
  rw [h]
  exact UInt8.ofNat_toNat

/-- The values of four letters give the three bytes back. -/
theorem joined_values (t1 t2 t3 : UInt8) :
    joined (t1.toNat/4) ((second t1 t2).toNat%64) ((third t2 t3).toNat%64) (t3.toNat%64)=
      [t1,t2,t3] := by
  have h1 := t1.toNat_lt
  have h2 := t2.toNat_lt
  have h3 := t3.toNat_lt
  unfold joined
  rw [toNat_second,toNat_third]
  refine congrArg₂ List.cons (byte_of_toNat ?_) (congrArg₂ List.cons (byte_of_toNat ?_)
    (congrArg₂ List.cons (byte_of_toNat ?_) rfl)) <;> omega

/-- What is encoded is decoded to the same bytes. -/
theorem decode_encode (bytes : Bytes) : decode (encode bytes)=some bytes := by
  induction bytes using encode.induct with
  | case1 t1 t2 t3 rest ih =>
    have hlast := table1_ne_padding t3
    have hjoined := joined_values t1 t2 t3
    simp [encode,decode,valueOf_table0,valueOf_table1,ih,hlast,hjoined]
  | case2 t1 t2 =>
    have hbits := (shared_bits t2).2.2.1
    have hthird : third t2 0=(t2 &&& 0x0F) <<< 2 := by simp [third]
    have hjoined := joined_values t1 t2 0
    have hletter := table1_ne_padding ((t2 &&& 0x0F) <<< 2)
    rw [hthird] at hjoined
    have htake := congrArg (List.take 2) hjoined
    simp only [encode,decode,valueOf_table0,valueOf_table1]
    simpa [hletter] using htake
  | case3 t1 =>
    have hsecond : second t1 0=(t1 &&& 0x03) <<< 4 := by simp [second]
    have hthird : third 0 0=0 := by decide
    have hjoined := joined_values t1 0 0
    rw [hsecond,hthird] at hjoined
    have htake := congrArg (List.take 1) hjoined
    simp only [encode,decode,valueOf_table0,valueOf_table1]
    simpa using htake
  | case4 => rfl

end RoundTrip

end Vinput.Base64
