import Mathlib.Tactic.NormNum
import Mathlib.Tactic.Positivity
import Vinput.HotwordFile

/-!
# Code points and their bytes

The functions of unicodelib that turn a text into code points and back. Bytes
that are no code point are skipped. What code points are encoded to is decoded
to the same code points.
-/

namespace Vinput.Utf8Codec

open HotwordFile ProcessLines

section Codec

/-- The bytes of a code point; one beyond the range has none. -/
def encodeCodepoint (cp : UInt32) : Bytes :=
  if cp<0x0080 then [(cp &&& 0x7F).toUInt8]
  else if cp<0x0800 then
    [((0xC0 : UInt32) ||| ((cp >>> 6) &&& 0x1F)).toUInt8,
      ((0x80 : UInt32) ||| (cp &&& 0x3F)).toUInt8]
  else if cp<0xD800 then
    [((0xE0 : UInt32) ||| ((cp >>> 12) &&& 0xF)).toUInt8,
      ((0x80 : UInt32) ||| ((cp >>> 6) &&& 0x3F)).toUInt8,
      ((0x80 : UInt32) ||| (cp &&& 0x3F)).toUInt8]
  else if cp<0xE000 then []
  else if cp<0x10000 then
    [((0xE0 : UInt32) ||| ((cp >>> 12) &&& 0xF)).toUInt8,
      ((0x80 : UInt32) ||| ((cp >>> 6) &&& 0x3F)).toUInt8,
      ((0x80 : UInt32) ||| (cp &&& 0x3F)).toUInt8]
  else if cp<0x110000 then
    [((0xF0 : UInt32) ||| ((cp >>> 18) &&& 0x7)).toUInt8,
      ((0x80 : UInt32) ||| ((cp >>> 12) &&& 0x3F)).toUInt8,
      ((0x80 : UInt32) ||| ((cp >>> 6) &&& 0x3F)).toUInt8,
      ((0x80 : UInt32) ||| (cp &&& 0x3F)).toUInt8]
  else []

/-- The bytes of a text. -/
def encode (text : List UInt32) : Bytes := text.flatMap encodeCodepoint

/-- The code points from a position on; `passed` bytes belong to the one before. -/
def decodeFrom (passed : ℕ) : Bytes → List UInt32
  | [] => []
  | byte::rest =>
    match passed with
    | passed+1 => decodeFrom passed rest
    | 0 =>
      match decodeCodepoint (byte::rest) with
      | none => decodeFrom 0 rest
      | some (bytes,cp) => cp::decodeFrom (bytes-1) rest

/-- The code points of a text. -/
def decode (text : Bytes) : List UInt32 := decodeFrom 0 text

/-- A code point that is no surrogate. -/
def Encodable (cp : UInt32) : Prop := cp<0xD800 ∨ (0xE000 ≤ cp ∧ cp<0x110000)

end Codec

section Bits

variable {cp : UInt32}

/-- A mark above the low bits of a byte, seen through a mask. -/
theorem marked_and (mark byte low mask : UInt8) :
    (mark ||| (byte &&& low)) &&& mask=(mark &&& mask) ||| (byte &&& (low &&& mask)) := by
  have hsplit : (mark ||| (byte &&& low)) &&& mask=(mark &&& mask) ||| (byte &&& low &&& mask) :=
    UInt8.toNat_inj.mp (Nat.and_or_distrib_right _ _ _)
  rw [hsplit,UInt8.and_assoc]

/-- A mask beside the low bits shows the mark. -/
theorem shown_mark {mark low mask shown : UInt8} (byte : UInt8) (hmark : mark &&& mask=shown)
    (hlow : low &&& mask=0) : (mark ||| (byte &&& low)) &&& mask=shown := by
  rw [marked_and,hmark,hlow,UInt8.and_zero,UInt8.or_zero]

/-- A mask below the mark shows the low bits. -/
theorem shown_low {mark low mask : UInt8} (byte : UInt8) (hmark : mark &&& mask=0)
    (hlow : low &&& mask=low) : (mark ||| (byte &&& low)) &&& mask=byte &&& low := by
  rw [marked_and,hmark,hlow,UInt8.zero_or]

theorem one_bit (byte : UInt8) : byte &&& 0x7F &&& 0x80=0 := by
  have hmasks : (0x7F : UInt8) &&& 0x80=0 := by decide
  rw [UInt8.and_assoc,hmasks,UInt8.and_zero]

/-- A continuation byte is marked and keeps six bits. -/
theorem tail_bits (byte : UInt8) : (0x80 ||| (byte &&& 0x3F)) &&& 0xC0=0x80 ∧
    (0x80 ||| (byte &&& 0x3F)) &&& 0x3F=byte &&& 0x3F :=
  ⟨shown_mark byte (by decide) (by decide),shown_low byte (by decide) (by decide)⟩

/-- The first of two bytes is marked and keeps five bits. -/
theorem two_bits (byte : UInt8) : (0xC0 ||| (byte &&& 0x1F)) &&& 0x80≠0 ∧
    (0xC0 ||| (byte &&& 0x1F)) &&& 0xE0=0xC0 ∧
    (0xC0 ||| (byte &&& 0x1F)) &&& 0x1F=byte &&& 0x1F := by
  have hfirst : (0xC0 ||| (byte &&& 0x1F)) &&& 0x80=0x80 :=
    shown_mark byte (by decide) (by decide)
  refine ⟨?_,shown_mark byte (by decide) (by decide),shown_low byte (by decide) (by decide)⟩
  rw [hfirst]
  decide

/-- The first of three bytes is marked and keeps four bits. -/
theorem three_bits (byte : UInt8) : (0xE0 ||| (byte &&& 0xF)) &&& 0x80≠0 ∧
    (0xE0 ||| (byte &&& 0xF)) &&& 0xE0≠0xC0 ∧ (0xE0 ||| (byte &&& 0xF)) &&& 0xF0=0xE0 ∧
    (0xE0 ||| (byte &&& 0xF)) &&& 0x0F=byte &&& 0xF := by
  have hfirst : (0xE0 ||| (byte &&& 0xF)) &&& 0x80=0x80 :=
    shown_mark byte (by decide) (by decide)
  have hthree : (0xE0 ||| (byte &&& 0xF)) &&& 0xE0=0xE0 :=
    shown_mark byte (by decide) (by decide)
  refine ⟨?_,?_,shown_mark byte (by decide) (by decide),shown_low byte (by decide) (by decide)⟩
  · rw [hfirst]
    decide
  · rw [hthree]
    decide

/-- The first of four bytes is marked and keeps three bits. -/
theorem four_bits (byte : UInt8) : (0xF0 ||| (byte &&& 0x7)) &&& 0x80≠0 ∧
    (0xF0 ||| (byte &&& 0x7)) &&& 0xE0≠0xC0 ∧ (0xF0 ||| (byte &&& 0x7)) &&& 0xF0≠0xE0 ∧
    (0xF0 ||| (byte &&& 0x7)) &&& 0xF8=0xF0 ∧ (0xF0 ||| (byte &&& 0x7)) &&& 0x07=byte &&& 0x7 := by
  have hfirst : (0xF0 ||| (byte &&& 0x7)) &&& 0x80=0x80 :=
    shown_mark byte (by decide) (by decide)
  have hthree : (0xF0 ||| (byte &&& 0x7)) &&& 0xE0=0xE0 :=
    shown_mark byte (by decide) (by decide)
  have hfour : (0xF0 ||| (byte &&& 0x7)) &&& 0xF0=0xF0 :=
    shown_mark byte (by decide) (by decide)
  refine ⟨?_,?_,?_,shown_mark byte (by decide) (by decide),
    shown_low byte (by decide) (by decide)⟩
  · rw [hfirst]
    decide
  · rw [hthree]
    decide
  · rw [hfour]
    decide

/-- Masked bits of a byte of a number are masked bits of the number. -/
theorem toUInt8_mask (value : UInt32) (mask : UInt8) :
    (value.toUInt8 &&& mask).toUInt32=value &&& mask.toUInt32 := by
  have hsmall : value.toNat &&& mask.toNat<2^8 := Nat.and_lt_two_pow _ mask.toNat_lt
  have hmask : mask.toNat%2^8=mask.toNat := Nat.mod_eq_of_lt mask.toNat_lt
  have hcut : value.toNat%2^8 &&& mask.toNat=value.toNat &&& mask.toNat := by
    rw [←Nat.mod_eq_of_lt hsmall,Nat.and_mod_two_pow,hmask]
  rw [←UInt32.toNat_inj,UInt8.toNat_toUInt32,UInt8.toNat_and,UInt32.toNat_toUInt8,
    UInt32.toNat_and,UInt8.toNat_toUInt32]
  exact hcut

/-- A mask of low bits is a remainder. -/
theorem toNat_mask (value mask : UInt32) (bits : ℕ) (h : mask.toNat=2^bits-1) :
    (value &&& mask).toNat=value.toNat%2^bits := by
  rw [UInt32.toNat_and,h,Nat.and_two_pow_sub_one_eq_mod]

/-- Some bits of a number, left where they stand. -/
theorem toNat_bits (value shift mask : UInt32) (bits : ℕ) (hmask : mask.toNat=2^bits-1)
    (hshift : shift.toNat<32) (hfit : bits+shift.toNat ≤ 32) :
    (((value >>> shift) &&& mask) <<< shift).toNat=
      value.toNat/2^shift.toNat%2^bits*2^shift.toNat := by
  have hright : (value >>> shift).toNat=value.toNat/2^shift.toNat := by
    rw [UInt32.toNat_shiftRight,Nat.mod_eq_of_lt hshift,Nat.shiftRight_eq_div_pow]
  have hsmall : value.toNat/2^shift.toNat%2^bits*2^shift.toNat<2^32 := by
    calc value.toNat/2^shift.toNat%2^bits*2^shift.toNat<2^bits*2^shift.toNat :=
          Nat.mul_lt_mul_of_pos_right (Nat.mod_lt _ (by positivity)) (by positivity)
      _ = 2^(bits+shift.toNat) := (pow_add 2 bits shift.toNat).symm
      _ ≤ 2^32 := Nat.pow_le_pow_right (by norm_num) hfit
  rw [UInt32.toNat_shiftLeft,Nat.mod_eq_of_lt hshift,toNat_mask _ _ bits hmask,hright,
    Nat.shiftLeft_eq,Nat.mod_eq_of_lt hsmall]

/-- Bits below others are added to them. -/
theorem or_eq_add (high : ℕ) {low shift : ℕ} (h : low<2^shift) :
    high*2^shift ||| low=high*2^shift+low := by
  rw [←Nat.shiftLeft_eq,Nat.shiftLeft_add_eq_or_of_lt h]

/-- A code point of two bytes is joined from its pieces. -/
theorem join_two (h : cp<0x800) :
    (((cp >>> 6) &&& 0x1F) <<< 6) ||| (cp &&& 0x3F)=cp := by
  have hcp : cp.toNat<0x800 := h
  have hhigh : (((cp >>> 6) &&& 0x1F) <<< 6).toNat=cp.toNat/2^6%2^5*2^6 :=
    toNat_bits cp 6 0x1F 5 rfl (by decide) (by decide)
  rw [←UInt32.toNat_inj,UInt32.toNat_or,hhigh,toNat_mask _ _ 6 rfl,or_eq_add _ (by omega)]
  omega

/-- A code point of three bytes is joined from its pieces. -/
theorem join_three (h : cp<0x10000) :
    (((cp >>> 12) &&& 0xF) <<< 12) ||| (((cp >>> 6) &&& 0x3F) <<< 6) ||| (cp &&& 0x3F)=cp := by
  have hcp : cp.toNat<0x10000 := h
  have hhigh : (((cp >>> 12) &&& 0xF) <<< 12).toNat=cp.toNat/2^12%2^4*2^12 :=
    toNat_bits cp 12 0xF 4 rfl (by decide) (by decide)
  have hmiddle : (((cp >>> 6) &&& 0x3F) <<< 6).toNat=cp.toNat/2^6%2^6*2^6 :=
    toNat_bits cp 6 0x3F 6 rfl (by decide) (by decide)
  have hjoin : ∀ high low : ℕ, high*2^12+low*2^6=(high*2^6+low)*2^6 := by
    intro high low
    omega
  rw [←UInt32.toNat_inj,UInt32.toNat_or,UInt32.toNat_or,hhigh,hmiddle,toNat_mask _ _ 6 rfl,
    or_eq_add _ (by omega),hjoin,or_eq_add _ (by omega)]
  omega

/-- A code point of four bytes is joined from its pieces. -/
theorem join_four (h : cp<0x110000) :
    (((cp >>> 18) &&& 0x7) <<< 18) ||| (((cp >>> 12) &&& 0x3F) <<< 12) |||
      (((cp >>> 6) &&& 0x3F) <<< 6) ||| (cp &&& 0x3F)=cp := by
  have hcp : cp.toNat<0x110000 := h
  have hhigh : (((cp >>> 18) &&& 0x7) <<< 18).toNat=cp.toNat/2^18%2^3*2^18 :=
    toNat_bits cp 18 0x7 3 rfl (by decide) (by decide)
  have hsecond : (((cp >>> 12) &&& 0x3F) <<< 12).toNat=cp.toNat/2^12%2^6*2^12 :=
    toNat_bits cp 12 0x3F 6 rfl (by decide) (by decide)
  have hthird : (((cp >>> 6) &&& 0x3F) <<< 6).toNat=cp.toNat/2^6%2^6*2^6 :=
    toNat_bits cp 6 0x3F 6 rfl (by decide) (by decide)
  have htwo : ∀ high low : ℕ, high*2^18+low*2^12=(high*2^6+low)*2^12 := by
    intro high low
    omega
  have hthree : ∀ high low : ℕ, high*2^12+low*2^6=(high*2^6+low)*2^6 := by
    intro high low
    omega
  rw [←UInt32.toNat_inj,UInt32.toNat_or,UInt32.toNat_or,UInt32.toNat_or,hhigh,hsecond,hthird,
    toNat_mask _ _ 6 rfl,or_eq_add _ (by omega),htwo,or_eq_add _ (by omega),hthree,
    or_eq_add _ (by omega)]
  omega

end Bits

section RoundTrip

variable {cp : UInt32}

/-- A marked piece is cut down to its byte. -/
theorem toUInt8_marked (mark value mask : UInt32) : (mark ||| (value &&& mask)).toUInt8=
    mark.toUInt8 ||| (value.toUInt8 &&& mask.toUInt8) := by
  rw [UInt32.toUInt8_or,UInt32.toUInt8_and]

/-- A byte that follows the first one of a code point. -/
theorem tail_byte (value : UInt32) :
    ((0x80 : UInt32) ||| (value &&& 0x3F)).toUInt8 &&& 0xC0=0x80 ∧
      (((0x80 : UInt32) ||| (value &&& 0x3F)).toUInt8 &&& 0x3F).toUInt32=value &&& 0x3F := by
  obtain ⟨hmark,hbits⟩ := tail_bits value.toUInt8
  have hmask := toUInt8_mask value 0x3F
  rw [←hbits] at hmask
  rw [toUInt8_marked]
  exact ⟨hmark,hmask⟩

/-- The first of two bytes is recognised. -/
theorem two_byte (value : UInt32) :
    ((0xC0 : UInt32) ||| (value &&& 0x1F)).toUInt8 &&& 0x80≠0 ∧
      ((0xC0 : UInt32) ||| (value &&& 0x1F)).toUInt8 &&& 0xE0=0xC0 ∧
      (((0xC0 : UInt32) ||| (value &&& 0x1F)).toUInt8 &&& 0x1F).toUInt32=value &&& 0x1F := by
  obtain ⟨hone,hlead,hbits⟩ := two_bits value.toUInt8
  have hmask := toUInt8_mask value 0x1F
  rw [←hbits] at hmask
  rw [toUInt8_marked]
  exact ⟨hone,hlead,hmask⟩

/-- The first of three bytes is recognised. -/
theorem three_byte (value : UInt32) :
    ((0xE0 : UInt32) ||| (value &&& 0xF)).toUInt8 &&& 0x80≠0 ∧
      ((0xE0 : UInt32) ||| (value &&& 0xF)).toUInt8 &&& 0xE0≠0xC0 ∧
      ((0xE0 : UInt32) ||| (value &&& 0xF)).toUInt8 &&& 0xF0=0xE0 ∧
      (((0xE0 : UInt32) ||| (value &&& 0xF)).toUInt8 &&& 0x0F).toUInt32=value &&& 0xF := by
  obtain ⟨hone,htwo,hlead,hbits⟩ := three_bits value.toUInt8
  have hmask := toUInt8_mask value 0xF
  rw [←hbits] at hmask
  rw [toUInt8_marked]
  exact ⟨hone,htwo,hlead,hmask⟩

/-- The first of four bytes is recognised. -/
theorem four_byte (value : UInt32) :
    ((0xF0 : UInt32) ||| (value &&& 0x7)).toUInt8 &&& 0x80≠0 ∧
      ((0xF0 : UInt32) ||| (value &&& 0x7)).toUInt8 &&& 0xE0≠0xC0 ∧
      ((0xF0 : UInt32) ||| (value &&& 0x7)).toUInt8 &&& 0xF0≠0xE0 ∧
      ((0xF0 : UInt32) ||| (value &&& 0x7)).toUInt8 &&& 0xF8=0xF0 ∧
      (((0xF0 : UInt32) ||| (value &&& 0x7)).toUInt8 &&& 0x07).toUInt32=value &&& 0x7 := by
  obtain ⟨hone,htwo,hthree,hlead,hbits⟩ := four_bits value.toUInt8
  have hmask := toUInt8_mask value 0x7
  rw [←hbits] at hmask
  rw [toUInt8_marked]
  exact ⟨hone,htwo,hthree,hlead,hmask⟩

/-- An ASCII code point is its byte. -/
theorem ascii_byte (h : cp<0x80) :
    (cp &&& 0x7F).toUInt8 &&& 0x80=0 ∧ (cp &&& 0x7F).toUInt8.toUInt32=cp := by
  have hcp : cp.toNat<0x80 := h
  have hmask : cp &&& 0x7F=cp := by
    rw [←UInt32.toNat_inj,toNat_mask _ _ 7 rfl]
    exact Nat.mod_eq_of_lt hcp
  constructor
  · rw [UInt32.toUInt8_and]
    exact one_bit cp.toUInt8
  · rw [hmask,←UInt32.toNat_inj,UInt8.toNat_toUInt32,UInt32.toNat_toUInt8]
    omega

/-- Three bytes are decoded, surrogates excepted. -/
theorem decodeCodepoint_three (h : cp<0x10000) (hlow : 0x800 ≤ cp)
    (hsurrogate : cp<0xD800 ∨ 0xE000 ≤ cp) (rest : Bytes) :
    decodeCodepoint (((0xE0 : UInt32) ||| ((cp >>> 12) &&& 0xF)).toUInt8::
      ((0x80 : UInt32) ||| ((cp >>> 6) &&& 0x3F)).toUInt8::
      ((0x80 : UInt32) ||| (cp &&& 0x3F)).toUInt8::rest)=some (3,cp) := by
  obtain ⟨hascii,htwo,hlead,hbits⟩ := three_byte (cp >>> 12)
  obtain ⟨hfirst,hmiddle⟩ := tail_byte (cp >>> 6)
  obtain ⟨hmark,htail⟩ := tail_byte cp
  unfold decodeCodepoint
  dsimp only
  rw [if_neg hascii,if_neg htwo,if_pos hlead,if_pos ⟨hfirst,hmark⟩,hbits,hmiddle,htail,
    join_three h,if_pos ⟨hlow,hsurrogate⟩]

theorem decodeCodepoint_four (h : cp<0x110000) (hlow : 0x10000 ≤ cp) (rest : Bytes) :
    decodeCodepoint (((0xF0 : UInt32) ||| ((cp >>> 18) &&& 0x7)).toUInt8::
      ((0x80 : UInt32) ||| ((cp >>> 12) &&& 0x3F)).toUInt8::
      ((0x80 : UInt32) ||| ((cp >>> 6) &&& 0x3F)).toUInt8::
      ((0x80 : UInt32) ||| (cp &&& 0x3F)).toUInt8::rest)=some (4,cp) := by
  obtain ⟨hascii,htwo,hthree,hlead,hbits⟩ := four_byte (cp >>> 18)
  obtain ⟨hfirst,hsecond⟩ := tail_byte (cp >>> 12)
  obtain ⟨hmiddle,hthird⟩ := tail_byte (cp >>> 6)
  obtain ⟨hmark,htail⟩ := tail_byte cp
  unfold decodeCodepoint
  dsimp only
  rw [if_neg hascii,if_neg htwo,if_neg hthree,if_pos hlead,if_pos ⟨hfirst,hmiddle,hmark⟩,hbits,
    hsecond,hthird,htail,join_four h,if_pos ⟨hlow,h⟩]

/-- What an encodable code point is encoded to is decoded to it. -/
theorem decodeCodepoint_encode (h : Encodable cp) (rest : Bytes) :
    decodeCodepoint (encodeCodepoint cp++rest)=some ((encodeCodepoint cp).length,cp) := by
  unfold encodeCodepoint
  split_ifs with hone htwo hsurrogate hhigh hthree hfour
  · obtain ⟨hlead,hbits⟩ := ascii_byte hone
    unfold decodeCodepoint
    dsimp only [List.cons_append,List.nil_append]
    rw [if_pos hlead,hbits]
    rfl
  · obtain ⟨hascii,hlead,hbits⟩ := two_byte (cp >>> 6)
    obtain ⟨hmark,htail⟩ := tail_byte cp
    unfold decodeCodepoint
    dsimp only [List.cons_append,List.nil_append]
    rw [if_neg hascii,if_pos hlead,if_pos hmark,hbits,htail,join_two htwo,
      if_pos (UInt32.not_lt.mp hone)]
    rfl
  · exact decodeCodepoint_three (UInt32.lt_trans hsurrogate (by decide)) (UInt32.not_lt.mp htwo)
      (.inl hsurrogate) rest
  · exact absurd (h.resolve_left hsurrogate).1 (UInt32.not_le.mpr hhigh)
  · exact decodeCodepoint_three hthree (UInt32.not_lt.mp htwo)
      (.inr (UInt32.not_lt.mp hhigh)) rest
  · exact decodeCodepoint_four hfour (UInt32.not_lt.mp hthree) rest
  · exact absurd (h.resolve_left hsurrogate).2 hfour

/-- A code point that can be encoded has bytes. -/
theorem encodeCodepoint_ne_nil (h : Encodable cp) : encodeCodepoint cp≠[] := by
  intro hnil
  have hdecode := decodeCodepoint_encode h []
  rw [hnil] at hdecode
  cases hdecode

/-- Bytes that were consumed are passed over. -/
theorem decodeFrom_passed (text rest : Bytes) :
    decodeFrom text.length (text++rest)=decodeFrom 0 rest := by
  induction text with
  | nil => rfl
  | cons byte text ih => exact ih

/-- A code point in front is decoded first. -/
theorem decode_append (h : Encodable cp) (rest : Bytes) :
    decode (encodeCodepoint cp++rest)=cp::decode rest := by
  have hdecode := decodeCodepoint_encode h rest
  obtain ⟨byte,bytes,hbytes⟩ := List.exists_cons_of_ne_nil (encodeCodepoint_ne_nil h)
  rw [hbytes,List.cons_append] at hdecode ⊢
  unfold decode
  rw [decodeFrom,hdecode]
  dsimp only
  rw [List.length_cons,Nat.add_sub_cancel,decodeFrom_passed]

/-- Decoding undoes encoding. -/
theorem decode_encode {text : List UInt32} (h : ∀ cp∈text, Encodable cp) :
    decode (encode text)=text := by
  induction text with
  | nil => rfl
  | cons cp text ih =>
    unfold encode at ih ⊢
    rw [List.flatMap_cons,decode_append (h cp List.mem_cons_self),
      ih fun other hother => h other (List.mem_cons_of_mem _ hother)]

/-- A shifted piece is as wide as its mask and its shift. -/
theorem piece_lt (byte mask : UInt8) (shift : UInt32) (bits : ℕ) (hmask : mask.toNat<2^bits) :
    ((byte &&& mask).toUInt32 <<< shift).toNat<2^(bits+shift.toNat%32) := by
  have hbyte : (byte &&& mask).toNat<2^bits := by
    rw [UInt8.toNat_and]
    exact Nat.and_lt_two_pow _ hmask
  rw [UInt32.toNat_shiftLeft,UInt8.toNat_toUInt32,Nat.shiftLeft_eq,pow_add]
  exact (Nat.mod_le _ _).trans_lt (Nat.mul_lt_mul_of_pos_right hbyte (by positivity))

/-- A masked byte is as wide as its mask. -/
theorem mask_lt (byte mask : UInt8) (bits : ℕ) (hmask : mask.toNat<2^bits) :
    (byte &&& mask).toUInt32.toNat<2^bits := by
  rw [UInt8.toNat_toUInt32,UInt8.toNat_and]
  exact Nat.and_lt_two_pow _ hmask

theorem two_lt (b0 b1 : UInt8) :
    ((b0 &&& 0x1F).toUInt32 <<< 6) ||| (b1 &&& 0x3F).toUInt32<0x800 := by
  have hfirst := piece_lt b0 0x1F 6 5 (by decide)
  have hsecond := mask_lt b1 0x3F 6 (by decide)
  rw [UInt32.lt_iff_toNat_lt,UInt32.toNat_or]
  exact Nat.or_lt_two_pow hfirst (hsecond.trans (by decide))

theorem three_lt (b0 b1 b2 : UInt8) : ((b0 &&& 0x0F).toUInt32 <<< 12) |||
    ((b1 &&& 0x3F).toUInt32 <<< 6) ||| (b2 &&& 0x3F).toUInt32<0x10000 := by
  have hfirst := piece_lt b0 0x0F 12 4 (by decide)
  have hsecond := piece_lt b1 0x3F 6 6 (by decide)
  have hthird := mask_lt b2 0x3F 6 (by decide)
  have htwo := Nat.or_lt_two_pow hfirst (hsecond.trans (by decide))
  rw [UInt32.lt_iff_toNat_lt,UInt32.toNat_or,UInt32.toNat_or]
  exact Nat.or_lt_two_pow htwo (hthird.trans (by decide))

/-- A text is decoded to code points that can be encoded. -/
theorem decodeCodepoint_encodable {text : Bytes} {bytes : ℕ}
    (h : decodeCodepoint text=some (bytes,cp)) : Encodable cp := by
  cases text with
  | nil => cases h
  | cons b0 rest =>
    unfold decodeCodepoint at h
    dsimp only at h
    by_cases hone : b0 &&& 0x80=0
    · rw [if_pos hone] at h
      cases h
      left
      have hbyte := b0.toNat_lt
      rw [UInt32.lt_iff_toNat_lt,UInt8.toNat_toUInt32]
      exact hbyte.trans (by decide)
    · rw [if_neg hone] at h
      by_cases htwo : b0 &&& 0xE0=0xC0
      · rw [if_pos htwo] at h
        rcases rest with _ | ⟨b1,rest⟩
        · cases h
        · dsimp only at h
          split_ifs at h with hmark hlong
          cases h
          exact .inl (UInt32.lt_trans (two_lt b0 b1) (by decide))
      · rw [if_neg htwo] at h
        by_cases hthree : b0 &&& 0xF0=0xE0
        · rw [if_pos hthree] at h
          rcases rest with _ | ⟨b1,_ | ⟨b2,rest⟩⟩
          · cases h
          · cases h
          · dsimp only at h
            split_ifs at h with hmark hlong
            cases h
            refine hlong.2.imp_right fun hhigh => ⟨hhigh,?_⟩
            exact UInt32.lt_trans (three_lt b0 b1 b2) (by decide)
        · rw [if_neg hthree] at h
          split_ifs at h with hfour
          rcases rest with _ | ⟨b1,_ | ⟨b2,_ | ⟨b3,rest⟩⟩⟩
          · cases h
          · cases h
          · cases h
          · dsimp only at h
            split_ifs at h with hmark hlong
            cases h
            exact .inr ⟨UInt32.le_trans (by decide) hlong.1,hlong.2⟩

/-- Whatever is decoded can be encoded. -/
theorem decodeFrom_encodable (passed : ℕ) (text : Bytes) :
    ∀ cp∈decodeFrom passed text, Encodable cp := by
  fun_induction decodeFrom passed text with
  | case1 => exact nofun
  | case2 passed byte rest ih => exact ih
  | case3 byte rest hdecode ih => exact ih
  | case4 byte rest bytes cp hdecode ih =>
    intro other hother
    rcases List.mem_cons.mp hother with rfl | hother
    · exact decodeCodepoint_encodable hdecode
    · exact ih other hother

end RoundTrip

end Vinput.Utf8Codec
