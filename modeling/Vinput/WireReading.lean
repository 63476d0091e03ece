import Mathlib.Tactic.Ring

/-!
# Reading a wire format

A number is written in groups of seven bits, the low ones first. Each group
but the last has its high bit set, so that a reader finds the end of a number
by itself. A message is a list of fields, each with a key that holds its number
and its wire type. Numbers of a field beyond thirty-two bits are cut off.
-/

namespace Vinput.Leb128

/-- Bytes that stand for a number. -/
inductive Encodes : List UInt8 → ℕ → Prop
  /-- The last group. -/
  | last (byte : UInt8) (h : byte.toNat<128) : Encodes [byte] byte.toNat
  /-- A group with more behind it. -/
  | more (byte : UInt8) (h : 128≤byte.toNat) {rest : List UInt8} {value : ℕ}
    (encodes : Encodes rest value) : Encodes (byte::rest) (byte.toNat-128+128*value)

variable {front front' rest rest' : List UInt8} {value value' : ℕ}

theorem Encodes.ne_nil (encodes : Encodes front value) : front≠[] := by
  cases encodes with
  | last byte h => exact List.cons_ne_nil byte []
  | more byte h encodes => exact List.cons_ne_nil byte _

/-- A number is shorter than its groups allow. -/
theorem Encodes.lt (encodes : Encodes front value) : value<2^(7*front.length) := by
  induction encodes with
  | last byte h => exact h
  | more byte h encodes ih =>
    have hbyte := byte.toNat_lt
    rw [List.length_cons,Nat.mul_succ,Nat.pow_add]
    omega

/-- The end of a number is where the number says. -/
theorem Encodes.unique (encodes : Encodes front value) (encodes' : Encodes front' value')
    (h : front++rest=front'++rest') : front=front' ∧ value=value' ∧ rest=rest' := by
  induction encodes generalizing front' value' with
  | last byte hbyte =>
    cases encodes' with
    | last byte' hbyte' =>
      obtain ⟨hhead,htail⟩ := List.cons.inj h
      exact ⟨by rw [hhead],by rw [hhead],htail⟩
    | more byte' hbyte' encodes' =>
      have hhead : byte=byte' := (List.cons.inj h).1
      rw [hhead] at hbyte
      omega
  | more byte hbyte encodes ih =>
    cases encodes' with
    | last byte' hbyte' =>
      have hhead : byte=byte' := (List.cons.inj h).1
      rw [hhead] at hbyte
      omega
    | more byte' hbyte' encodes' =>
      obtain ⟨hhead,htail⟩ := List.cons.inj h
      obtain ⟨hfront,hvalue,hrest⟩ := ih encodes' htail
      exact ⟨by rw [hhead,hfront],by rw [hhead,hvalue],hrest⟩

/-- Bytes that stand for a number of so many bits, in as many groups as these
need at most. -/
structure Fits (bits : ℕ) (front : List UInt8) (value : ℕ) : Prop where
  encodes : Encodes front value
  /-- No more groups than the bits need. -/
  short : 7*front.length<bits+7
  small : value<2^bits

end Vinput.Leb128

namespace Vinput.WireReading

open Leb128

section Reader

/-- The loop of `ReadVarint`. -/
def readVarintFrom (shift : ℕ) (result : UInt64) : List UInt8 → Option (UInt64×List UInt8)
  | [] => none
  | byte::rest =>
    if 64≤ shift then none
    else if shift=63 ∧ 1<(byte &&& 127).toNat then none
    else
      let joined := result ||| ((byte &&& 127).toUInt64 <<< shift.toUInt64)
      if byte &&& 128=0 then some (joined,rest) else readVarintFrom (shift+7) joined rest

/-- A number of up to 64 bits. -/
def readVarint (buffer : List UInt8) : Option (UInt64×List UInt8) := readVarintFrom 0 0 buffer

/-- A length and that many bytes. -/
def readLengthDelimited (buffer : List UInt8) : Option (List UInt8×List UInt8) :=
  match readVarint buffer with
  | none => none
  | some (length,rest) =>
    if rest.length<length.toNat then none
    else some (rest.take length.toNat,rest.drop length.toNat)

/-- Four bytes, the lowest first. -/
def readFixed32 : List UInt8 → Option (UInt32×List UInt8)
  | b0::b1::b2::b3::rest =>
    some (b0.toUInt32 ||| (b1.toUInt32 <<< 8) ||| (b2.toUInt32 <<< 16) ||| (b3.toUInt32 <<< 24),
      rest)
  | _ => none

/-- A number of bytes. -/
def skip (count : ℕ) (buffer : List UInt8) : Option (List UInt8) :=
  if buffer.length<count then none else some (buffer.drop count)

/-- The payload of a wire type. -/
def skipField (wireType : UInt32) (buffer : List UInt8) : Option (List UInt8) :=
  if wireType=0 then (readVarint buffer).map Prod.snd
  else if wireType=1 then skip 8 buffer
  else if wireType=2 then (readLengthDelimited buffer).map Prod.snd
  else if wireType=5 then skip 4 buffer
  else none

/-- The number of the field of a key. -/
def fieldOf (key : UInt64) : UInt32 := (key >>> 3).toUInt32

/-- The wire type of a key. -/
def wireOf (key : UInt64) : UInt32 := (key &&& 7).toUInt32

/-- A key is the one of a field. -/
def isField (field wire : UInt32) (key : UInt64) : Bool :=
  decide (fieldOf key=field) && decide (wireOf key=wire)

/-- The loop over the fields of a buffer, which may take so many turns. -/
def loop {σ : Type*} (keyError : String)
    (turn : UInt64 → σ → List UInt8 → Option (Except String (σ×List UInt8))) :
    ℕ → σ → List UInt8 → Option (Except String σ)
  | _,state,[] => some (.ok state)
  | 0,_,_::_ => none
  | turns+1,state,byte::rest =>
    match readVarint (byte::rest) with
    | none => some (.error keyError)
    | some (key,behind) =>
      match turn key state behind with
      | none => none
      | some (.error reason) => some (.error reason)
      | some (.ok (later,left)) => loop keyError turn turns later left

end Reader

section Varints

theorem toNat_and_127 (byte : UInt8) : (byte &&& 127).toNat=byte.toNat%128 := by
  rw [UInt8.toNat_and]
  exact Nat.and_two_pow_sub_one_eq_mod byte.toNat 7

theorem and_128_eq_zero_iff (byte : UInt8) : byte &&& 128=0 ↔ byte.toNat<128 := by
  have hall : ∀ value : Fin 256, UInt8.ofNat value.val &&& 128=0 ↔ value.val<128 := by
    decide +kernel
  have hbyte := hall ⟨byte.toNat,byte.toNat_lt⟩
  rw [UInt8.ofNat_toNat] at hbyte
  exact hbyte

/-- A group of seven bits above the others. -/
theorem toNat_join {result : UInt64} {byte : UInt8} {shift : ℕ} (hshift : shift<64)
    (hresult : result.toNat<2^shift) (hsmall : byte.toNat%128*2^shift<2^64) :
    (result ||| ((byte &&& 127).toUInt64 <<< shift.toUInt64)).toNat=
      result.toNat+byte.toNat%128*2^shift := by
  have hvalue : shift.toUInt64.toNat%64=shift := by
    rw [Nat.toUInt64_eq,UInt64.toNat_ofNat']
    omega
  rw [UInt64.toNat_or,UInt64.toNat_shiftLeft,UInt8.toNat_toUInt64,toNat_and_127,hvalue,
    Nat.shiftLeft_eq,Nat.mod_eq_of_lt hsmall,Nat.or_comm,Nat.mul_comm,
    ←Nat.two_pow_add_eq_or_of_lt hresult]
  omega

/-- The check at the last group is the one for an overflow. -/
theorem overflow_iff {turns low : ℕ} (hturns : turns<10) (hlow : low<128) :
    7*turns=63 ∧ 1<low ↔ 2^64≤low*2^(7*turns) := by
  by_cases hlast : turns=9
  · subst hlast
    omega
  · have hpow : 2^(7*turns)≤2^56 := Nat.pow_le_pow_right (by omega) (by omega)
    have hproduct : low*2^(7*turns)≤127*2^56 := Nat.mul_le_mul (by omega) hpow
    constructor
    · omega
    · intro hlarge
      have hbound : 127*2^56<2^64 := by decide
      omega

variable {front rest : List UInt8} {value : ℕ}

/-- What is read is a number in front of the rest. -/
theorem readVarintFrom_sound {turns : ℕ} {result read : UInt64} {buffer : List UInt8}
    (hresult : result.toNat<2^(7*turns))
    (h : readVarintFrom (7*turns) result buffer=some (read,rest)) :
    ∃ front value, buffer=front++rest ∧ Encodes front value ∧ 7*front.length+7*turns<71 ∧
      read.toNat=result.toNat+value*2^(7*turns) := by
  induction buffer generalizing turns result with
  | nil => cases h
  | cons byte buffer ih =>
    rw [readVarintFrom] at h
    split at h
    · cases h
    · rename_i hopen
      split at h
      · cases h
      · rename_i hfits
        have hlow : byte.toNat%128<128 := Nat.mod_lt _ (by omega)
        rw [toNat_and_127,overflow_iff (by omega) hlow,Nat.not_le] at hfits
        have hjoin := toNat_join (by omega) hresult hfits
        split at h
        · rename_i hlast
          rw [and_128_eq_zero_iff] at hlast
          obtain ⟨hread,hrest⟩ := Prod.mk.inj (Option.some.inj h)
          refine ⟨[byte],byte.toNat,by rw [hrest]; rfl,.last byte hlast,?_,?_⟩
          · rw [List.length_singleton]
            omega
          · rw [←hread,hjoin,Nat.mod_eq_of_lt hlast]
        · rename_i hmore
          rw [and_128_eq_zero_iff,Nat.not_lt] at hmore
          have hpow : 2^(7*(turns+1))=128*2^(7*turns) := by
            rw [Nat.mul_succ,Nat.pow_add]
            omega
          have hbyte := byte.toNat_lt
          have hlater : (result ||| ((byte &&& 127).toUInt64 <<< (7*turns).toUInt64)).toNat<
              2^(7*(turns+1)) := by
            rw [hjoin,hpow]
            have hgroup : byte.toNat%128*2^(7*turns)≤127*2^(7*turns) :=
              Nat.mul_le_mul_right _ (by omega)
            omega
          obtain ⟨front,value,hbuffer,encodes,hshort,hread⟩ := ih hlater h
          refine ⟨byte::front,byte.toNat-128+128*value,by rw [hbuffer]; rfl,
            .more byte hmore encodes,?_,?_⟩
          · rw [List.length_cons]
            omega
          · have hgroup : byte.toNat%128=byte.toNat-128 := by omega
            rw [hread,hjoin,hpow,hgroup,Nat.add_mul]
            ring

/-- A number in front of the rest is read. -/
theorem readVarintFrom_complete (encodes : Encodes front value) {turns : ℕ} {result : UInt64}
    (hresult : result.toNat<2^(7*turns)) (hshort : 7*front.length+7*turns<71)
    (hsmall : result.toNat+value*2^(7*turns)<2^64) :
    ∃ read, readVarintFrom (7*turns) result (front++rest)=some (read,rest) ∧
      read.toNat=result.toNat+value*2^(7*turns) := by
  induction encodes generalizing turns result with
  | last byte hlast =>
    rw [List.length_singleton] at hshort
    have hlow : byte.toNat%128=byte.toNat := Nat.mod_eq_of_lt hlast
    have hfits : ¬(7*turns=63 ∧ 1<(byte &&& 127).toNat) := by
      rw [toNat_and_127,overflow_iff (by omega) (by omega),hlow]
      omega
    refine ⟨result ||| ((byte &&& 127).toUInt64 <<< (7*turns).toUInt64),?_,?_⟩
    · rw [List.singleton_append,readVarintFrom,if_neg (by omega),if_neg hfits,
        if_pos ((and_128_eq_zero_iff byte).mpr hlast)]
    · rw [toNat_join (by omega) hresult (by rw [hlow]; omega),hlow]
  | @more byte hmore front value encodes ih =>
    rw [List.length_cons] at hshort
    have hbyte := byte.toNat_lt
    have hgroup : byte.toNat%128=byte.toNat-128 := by omega
    have hpow : 2^(7*(turns+1))=128*2^(7*turns) := by
      rw [Nat.mul_succ,Nat.pow_add]
      omega
    have hsplit : result.toNat+(byte.toNat-128+128*value)*2^(7*turns)=
        result.toNat+(byte.toNat-128)*2^(7*turns)+value*2^(7*(turns+1)) := by
      rw [hpow,Nat.add_mul]
      ring
    rw [hsplit] at hsmall ⊢
    have hfits : ¬(7*turns=63 ∧ 1<(byte &&& 127).toNat) := by
      rw [toNat_and_127,overflow_iff (by omega) (by omega),hgroup]
      omega
    have hjoin : (result ||| ((byte &&& 127).toUInt64 <<< (7*turns).toUInt64)).toNat=
        result.toNat+byte.toNat%128*2^(7*turns) :=
      toNat_join (by omega) hresult (by rw [hgroup]; omega)
    rw [hgroup] at hjoin
    have hlater : (result ||| ((byte &&& 127).toUInt64 <<< (7*turns).toUInt64)).toNat<
        2^(7*(turns+1)) := by
      rw [hjoin,hpow]
      have hproduct : (byte.toNat-128)*2^(7*turns)≤127*2^(7*turns) :=
        Nat.mul_le_mul_right _ (by omega)
      omega
    have hempty : front≠[] := encodes.ne_nil
    obtain ⟨read,hread,hvalue⟩ := ih hlater (by omega) (by rw [hjoin]; exact hsmall)
    refine ⟨read,?_,by rw [hvalue,hjoin]⟩
    have hnotlast : ¬byte &&& 128=0 := by
      rw [and_128_eq_zero_iff]
      omega
    have hopen : ¬64≤7*turns := by
      have hpositive := List.length_pos_iff.mpr hempty
      omega
    rw [List.cons_append,readVarintFrom,if_neg hopen,if_neg hfits,if_neg hnotlast]
    exact hread

/-- Exactly the encodings of sixty-four bits are read. -/
theorem readVarint_iff {buffer rest : List UInt8} {read : UInt64} :
    readVarint buffer=some (read,rest) ↔
      ∃ front, buffer=front++rest ∧ Fits 64 front read.toNat := by
  have hzero : (0 : UInt64).toNat<2^(7*0) := by decide
  constructor
  · intro h
    obtain ⟨front,value,hbuffer,encodes,hshort,hread⟩ := readVarintFrom_sound hzero h
    have hvalue : read.toNat=value := by
      have hscaled : (0 : UInt64).toNat+value*2^(7*0)=value := by
        rw [Nat.mul_zero,Nat.pow_zero,Nat.mul_one]
        exact Nat.zero_add value
      rw [hread,hscaled]
    exact ⟨front,hbuffer,hvalue ▸ encodes,by omega,read.toNat_lt⟩
  · rintro ⟨front,rfl,encodes,hshort,hsmall⟩
    obtain ⟨value,hread,hvalue⟩ : ∃ value, readVarintFrom (7*0) 0 (front++rest)=
        some (value,rest) ∧ value.toNat=(0 : UInt64).toNat+read.toNat*2^(7*0) :=
      readVarintFrom_complete encodes hzero (by omega) (by change 0+read.toNat*1<2^64; omega)
    have hsame : value=read := by
      apply UInt64.toNat_inj.mp
      rw [hvalue,Nat.mul_zero,Nat.pow_zero,Nat.mul_one]
      exact Nat.zero_add _
    exact hsame ▸ hread

end Varints

section Payloads

/-- What a field holds. -/
inductive Payload where
  | varint (value : ℕ)
  | fixed64 (content : List UInt8)
  | delimited (content : List UInt8)
  | fixed32 (content : List UInt8)
deriving DecidableEq

/-- The wire type of what a field holds. -/
def Payload.wire : Payload → ℕ
  | .varint _ => 0
  | .fixed64 _ => 1
  | .delimited _ => 2
  | .fixed32 _ => 5

/-- Bytes that stand for what a field holds. -/
def Payload.Encoded : Payload → List UInt8 → Prop
  | .varint value,bytes => Fits 64 bytes value
  | .fixed64 content,bytes => bytes=content ∧ content.length=8
  | .delimited content,bytes => ∃ length, Fits 64 length content.length ∧ bytes=length++content
  | .fixed32 content,bytes => bytes=content ∧ content.length=4

variable {buffer rest content : List UInt8}

/-- What is read is a length and its content. -/
theorem readLengthDelimited_iff : readLengthDelimited buffer=some (content,rest) ↔
    ∃ bytes, (Payload.delimited content).Encoded bytes ∧ buffer=bytes++rest := by
  constructor
  · intro h
    unfold readLengthDelimited at h
    split at h
    · cases h
    · rename_i length behind hlength
      split at h
      · cases h
      · rename_i hfits
        obtain ⟨front,hbuffer,hencoded⟩ := readVarint_iff.mp hlength
        obtain ⟨hcontent,hrest⟩ := Prod.mk.inj (Option.some.inj h)
        have hcount : content.length=length.toNat := by
          rw [←hcontent,List.length_take]
          omega
        refine ⟨front++content,⟨front,hcount ▸ hencoded,rfl⟩,?_⟩
        rw [List.append_assoc,←hcontent,←hrest,List.take_append_drop,hbuffer]
  · rintro ⟨bytes,⟨length,hencoded,rfl⟩,rfl⟩
    have hvalue : (UInt64.ofNat content.length).toNat=content.length := by
      rw [UInt64.toNat_ofNat']
      exact Nat.mod_eq_of_lt hencoded.small
    have hlength : readVarint (length++content++rest)=
        some (UInt64.ofNat content.length,content++rest) :=
      readVarint_iff.mpr ⟨length,List.append_assoc .., hvalue.symm ▸ hencoded⟩
    unfold readLengthDelimited
    rw [hlength]
    dsimp only
    rw [hvalue,if_neg (by rw [List.length_append]; omega),List.take_left' rfl,List.drop_left' rfl]

theorem skip_iff {count : ℕ} : skip count buffer=some rest ↔
    ∃ skipped, skipped.length=count ∧ buffer=skipped++rest := by
  unfold skip
  constructor
  · intro h
    split at h
    · cases h
    · refine ⟨buffer.take count,?_,?_⟩
      · rw [List.length_take]
        omega
      · rw [←Option.some.inj h,List.take_append_drop]
  · rintro ⟨skipped,hcount,rfl⟩
    rw [if_neg (by rw [List.length_append]; omega),List.drop_left' hcount]

/-- A skipped field is one of its wire type, and nothing more. -/
theorem skipField_iff {wireType : UInt32} : skipField wireType buffer=some rest ↔
    ∃ (payload : Payload) (bytes : List UInt8), payload.wire=wireType.toNat ∧
      payload.Encoded bytes ∧ buffer=bytes++rest := by
  have hwire : ∀ number : UInt32, number.toNat=wireType.toNat ↔ wireType=number := by
    intro number
    rw [eq_comm]
    exact UInt32.toNat_inj
  constructor
  · intro h
    unfold skipField at h
    split at h
    · rename_i hnumber
      obtain ⟨⟨value,left⟩,hread,rfl⟩ := Option.map_eq_some_iff.mp h
      obtain ⟨front,hbuffer,hencoded⟩ := readVarint_iff.mp hread
      exact ⟨.varint value.toNat,front,(hwire 0).mpr hnumber,hencoded,hbuffer⟩
    · split at h
      · rename_i hnumber
        obtain ⟨skipped,hcount,hbuffer⟩ := skip_iff.mp h
        exact ⟨.fixed64 skipped,skipped,(hwire 1).mpr hnumber,⟨rfl,hcount⟩,hbuffer⟩
      · split at h
        · rename_i hnumber
          obtain ⟨⟨content,left⟩,hread,rfl⟩ := Option.map_eq_some_iff.mp h
          obtain ⟨bytes,hencoded,hbuffer⟩ := readLengthDelimited_iff.mp hread
          exact ⟨.delimited content,bytes,(hwire 2).mpr hnumber,hencoded,hbuffer⟩
        · split at h
          · rename_i hnumber
            obtain ⟨skipped,hcount,hbuffer⟩ := skip_iff.mp h
            exact ⟨.fixed32 skipped,skipped,(hwire 5).mpr hnumber,⟨rfl,hcount⟩,hbuffer⟩
          · cases h
  · rintro ⟨payload,bytes,hnumber,hencoded,rfl⟩
    unfold skipField
    cases payload with
    | varint value =>
      rw [if_pos ((hwire 0).mp hnumber)]
      have hvalue : (UInt64.ofNat value).toNat=value := by
        rw [UInt64.toNat_ofNat']
        exact Nat.mod_eq_of_lt hencoded.small
      have hread : readVarint (bytes++rest)=some (UInt64.ofNat value,rest) :=
        readVarint_iff.mpr ⟨bytes,rfl,hvalue.symm ▸ hencoded⟩
      rw [hread]
      rfl
    | fixed64 content =>
      obtain ⟨rfl,hlength⟩ := hencoded
      rw [(hwire 1).mp hnumber,if_neg (by decide),if_pos rfl]
      exact skip_iff.mpr ⟨bytes,hlength,rfl⟩
    | delimited content =>
      have hread : readLengthDelimited (bytes++rest)=some (content,rest) :=
        readLengthDelimited_iff.mpr ⟨bytes,hencoded,rfl⟩
      rw [(hwire 2).mp hnumber,if_neg (by decide),if_neg (by decide),if_pos rfl,hread]
      rfl
    | fixed32 content =>
      obtain ⟨rfl,hlength⟩ := hencoded
      rw [(hwire 5).mp hnumber,if_neg (by decide),if_neg (by decide),if_neg (by decide),
        if_pos rfl]
      exact skip_iff.mpr ⟨bytes,hlength,rfl⟩

end Payloads

section Loops

variable {σ : Type*} {keyError : String}
  {turn : UInt64 → σ → List UInt8 → Option (Except String (σ×List UInt8))}

theorem length_readVarint_lt {buffer rest : List UInt8} {value : UInt64}
    (h : readVarint buffer=some (value,rest)) : rest.length<buffer.length := by
  obtain ⟨front,rfl,hencoded⟩ := readVarint_iff.mp h
  have hpositive := List.length_pos_iff.mpr hencoded.encodes.ne_nil
  rw [List.length_append]
  omega

/-- A turn returns, and never leaves more than it was given. -/
def Returns (turn : UInt64 → σ → List UInt8 → Option (Except String (σ×List UInt8))) : Prop :=
  ∀ key state behind, ∃ outcome, turn key state behind=some outcome ∧
    ∀ later left, outcome=.ok (later,left) → left.length≤behind.length

variable (keyError) in
/-- The loop ends after as many turns as there are bytes. -/
theorem loop_returns (returns : Returns turn) (turns : ℕ) (state : σ) (buffer : List UInt8)
    (h : buffer.length≤turns) : ∃ outcome, loop keyError turn turns state buffer=some outcome := by
  induction turns generalizing state buffer with
  | zero =>
    rw [List.length_eq_zero_iff.mp (Nat.le_zero.mp h)]
    exact ⟨_,rfl⟩
  | succ turns ih =>
    cases buffer with
    | nil => exact ⟨_,rfl⟩
    | cons byte rest =>
      rw [loop]
      split
      · exact ⟨_,rfl⟩
      · rename_i key behind hread
        have hshorter := length_readVarint_lt hread
        obtain ⟨outcome,hturn,hleft⟩ := returns key state behind
        rw [hturn]
        cases outcome with
        | error reason => exact ⟨_,rfl⟩
        | ok next =>
          have hle := hleft next.1 next.2 rfl
          exact ih next.1 next.2 (by omega)

/-- A field that is read is one of the wire type of its key. -/
def Consumes (turn : UInt64 → σ → List UInt8 → Option (Except String (σ×List UInt8))) : Prop :=
  ∀ key state behind later left, turn key state behind=some (.ok (later,left)) →
    ∃ (payload : Payload) (bytes : List UInt8), payload.wire=key.toNat%8 ∧
      payload.Encoded bytes ∧ behind=bytes++left

/-- A loop whose turns consume something returns. -/
theorem returns_of_consumes (consumes : Consumes turn)
    (ends : ∀ key state behind, turn key state behind≠none) : Returns turn := by
  intro key state behind
  obtain ⟨outcome,houtcome⟩ := Option.ne_none_iff_exists'.mp (ends key state behind)
  refine ⟨outcome,houtcome,?_⟩
  rintro later left rfl
  obtain ⟨payload,bytes,-,-,hbehind⟩ := consumes key state behind later left houtcome
  rw [hbehind,List.length_append]
  exact Nat.le_add_left _ _

/-- What every turn keeps, the loop keeps. -/
theorem loop_invariant {Inv : σ → Prop}
    (preserve : ∀ key state behind later left, Inv state →
      turn key state behind=some (.ok (later,left)) → Inv later)
    {turns : ℕ} {state final : σ} {buffer : List UInt8} (hstate : Inv state)
    (h : loop keyError turn turns state buffer=some (.ok final)) : Inv final := by
  induction turns generalizing state buffer with
  | zero =>
    cases buffer with
    | nil =>
      cases h
      exact hstate
    | cons byte rest => cases h
  | succ turns ih =>
    cases buffer with
    | nil =>
      cases h
      exact hstate
    | cons byte rest =>
      rw [loop] at h
      split at h
      · cases h
      · rename_i key behind hread
        split at h
        · cases h
        · cases h
        · rename_i later left hturn
          exact ih (preserve key state behind later left hstate hturn) h

/-- The keys of the fields of a buffer, as far as it can be walked. -/
def keysFrom : ℕ → List UInt8 → List UInt64
  | 0,_ => []
  | turns+1,buffer =>
    match readVarint buffer with
    | none => []
    | some (key,behind) =>
      match skipField (wireOf key) behind with
      | none => [key]
      | some left => key::keysFrom turns left

/-- The keys of the fields of a message. -/
def fieldKeys (buffer : List UInt8) : List UInt64 := keysFrom buffer.length buffer

/-- The number of a field is cut to 32 bits. -/
theorem toNat_fieldOf (key : UInt64) : (fieldOf key).toNat=key.toNat/8%2^32 := by
  unfold fieldOf
  rw [UInt64.toNat_toUInt32,UInt64.toNat_shiftRight,Nat.shiftRight_eq_div_pow]
  rfl

/-- The wire type are the low three bits. -/
theorem toNat_wireOf (key : UInt64) : (wireOf key).toNat=key.toNat%8 := by
  unfold wireOf
  rw [UInt64.toNat_toUInt32,UInt64.toNat_and]
  have hmask : key.toNat &&& (7 : UInt64).toNat=key.toNat%8 :=
    Nat.and_two_pow_sub_one_eq_mod key.toNat 3
  rw [hmask]
  omega

/-- A key counts as the one of a field by its number modulo thirty-two bits
and its wire type. -/
theorem isField_iff (field wire : UInt32) (key : UInt64) :
    isField field wire key=true ↔
      key.toNat/8%2^32=field.toNat ∧ key.toNat%8=wire.toNat := by
  unfold isField
  rw [Bool.and_eq_true,decide_eq_true_eq,decide_eq_true_eq,←UInt32.toNat_inj,←UInt32.toNat_inj,
    toNat_fieldOf,toNat_wireOf]

end Loops

section Messages

/-- A field of a message. -/
structure Field where
  number : ℕ
  payload : Payload
deriving DecidableEq

/-- The fields of a message, in their order. -/
inductive Message : List Field → List UInt8 → Prop
  | nil : Message [] []
  | cons (field : Field) {fields : List Field} {key bytes rest : List UInt8}
    (hkey : Fits 64 key (field.number*8+field.payload.wire))
    (hpayload : field.payload.Encoded bytes) (message : Message fields rest) :
    Message (field::fields) (key++(bytes++rest))

/-- A wire type has three bits. -/
theorem Payload.wire_lt (payload : Payload) : payload.wire<8 := by
  cases payload with
  | varint value => exact Nat.zero_lt_succ 7
  | fixed64 content => exact Nat.lt_of_sub_eq_succ (rfl : 8-1=7)
  | delimited content => exact Nat.lt_of_sub_eq_succ (rfl : 8-2=6)
  | fixed32 content => exact Nat.lt_of_sub_eq_succ (rfl : 8-5=3)

/-- What a field holds ends where its wire type says. -/
theorem Payload.Encoded.unique {payload payload' : Payload}
    {bytes bytes' rest rest' : List UInt8} (hencoded : payload.Encoded bytes)
    (hencoded' : payload'.Encoded bytes') (hwire : payload.wire=payload'.wire)
    (h : bytes++rest=bytes'++rest') : payload=payload' ∧ rest=rest' := by
  cases payload with
  | varint value =>
    cases payload' with
    | varint value' =>
      obtain ⟨-,hvalue,hrest⟩ := hencoded.encodes.unique hencoded'.encodes h
      exact ⟨by rw [hvalue],hrest⟩
    | _ => cases hwire
  | fixed64 content =>
    cases payload' with
    | fixed64 content' =>
      obtain ⟨rfl,hlength⟩ := hencoded
      obtain ⟨rfl,hlength'⟩ := hencoded'
      obtain ⟨rfl,hrest⟩ := List.append_inj h (hlength.trans hlength'.symm)
      exact ⟨rfl,hrest⟩
    | _ => cases hwire
  | delimited content =>
    cases payload' with
    | delimited content' =>
      obtain ⟨length,hfits,rfl⟩ := hencoded
      obtain ⟨length',hfits',rfl⟩ := hencoded'
      rw [List.append_assoc,List.append_assoc] at h
      obtain ⟨-,hlength,hbehind⟩ := hfits.encodes.unique hfits'.encodes h
      obtain ⟨rfl,hrest⟩ := List.append_inj hbehind hlength
      exact ⟨rfl,hrest⟩
    | _ => cases hwire
  | fixed32 content =>
    cases payload' with
    | fixed32 content' =>
      obtain ⟨rfl,hlength⟩ := hencoded
      obtain ⟨rfl,hlength'⟩ := hencoded'
      obtain ⟨rfl,hrest⟩ := List.append_inj h (hlength.trans hlength'.symm)
      exact ⟨rfl,hrest⟩
    | _ => cases hwire

/-- The bytes of a message determine its fields. -/
theorem Message.unique {fields fields' : List Field} {buffer : List UInt8}
    (message : Message fields buffer) (message' : Message fields' buffer) : fields=fields' := by
  induction message generalizing fields' with
  | nil =>
    generalize hbuffer : ([] : List UInt8)=buffer at message'
    cases message' with
    | nil => rfl
    | cons field hkey hpayload message =>
      exact absurd (List.append_eq_nil_iff.mp hbuffer.symm).1 hkey.encodes.ne_nil
  | @cons field fields key bytes rest hkey hpayload message ih =>
    generalize hbuffer : key++(bytes++rest)=buffer at message'
    cases message' with
    | nil => exact absurd (List.append_eq_nil_iff.mp hbuffer).1 hkey.encodes.ne_nil
    | @cons field' fields' key' bytes' rest' hkey' hpayload' message' =>
      obtain ⟨-,hvalue,hbehind⟩ := hkey.encodes.unique hkey'.encodes hbuffer
      have hbound := field.payload.wire_lt
      have hbound' := field'.payload.wire_lt
      have hwire : field.payload.wire=field'.payload.wire := by omega
      have hnumber : field.number=field'.number := by omega
      obtain ⟨hsame,hrest⟩ := hpayload.unique hpayload' hwire hbehind
      have hfield : field=field' := by
        cases field
        cases field'
        exact congrArg₂ Field.mk hnumber hsame
      rw [hfield,ih (hrest ▸ message')]

variable {σ : Type*} {keyError : String}
  {turn : UInt64 → σ → List UInt8 → Option (Except String (σ×List UInt8))}

/-- A function of the fields, applied one after the other. -/
def foldFields (apply : Field → σ → Option (Except String σ)) :
    List Field → σ → Option (Except String σ)
  | [],state => some (.ok state)
  | field::fields,state =>
    match apply field state with
    | none => none
    | some (.error reason) => some (.error reason)
    | some (.ok later) => foldFields apply fields later

/-- Fields may be mapped first. -/
theorem foldFields_map (apply : Field → σ → Option (Except String σ)) (map : Field → Field)
    (fields : List Field) (state : σ) :
    foldFields (apply∘map) fields state=foldFields apply (fields.map map) state := by
  induction fields generalizing state with
  | nil => rfl
  | cons field fields ih =>
    rw [List.map_cons,foldFields,foldFields,Function.comp_apply]
    cases apply (map field) state with
    | none => rfl
    | some outcome =>
      cases outcome with
      | error reason => rfl
      | ok later => exact ih later

/-- A turn does to the bytes of a field what a function does to the field. -/
def Applies (turn : UInt64 → σ → List UInt8 → Option (Except String (σ×List UInt8)))
    (apply : Field → σ → Option (Except String σ)) (field : Field) : Prop :=
  ∀ key state bytes rest, key.toNat=field.number*8+field.payload.wire →
    field.payload.Encoded bytes →
    turn key state (bytes++rest)=(apply field state).map (Except.map fun later => (later,rest))

/-- The loop over a message is the function applied to its fields. -/
theorem loop_message {apply : Field → σ → Option (Except String σ)} {fields : List Field}
    {buffer : List UInt8} (message : Message fields buffer)
    (applies : ∀ field∈fields, Applies turn apply field) {turns : ℕ} (state : σ)
    (h : buffer.length≤turns) :
    loop keyError turn turns state buffer=foldFields apply fields state := by
  induction message generalizing turns state with
  | nil => cases turns <;> rfl
  | @cons field fields key bytes rest hkey hpayload message ih =>
    have hpositive := List.length_pos_iff.mpr hkey.encodes.ne_nil
    rw [List.length_append,List.length_append] at h
    obtain ⟨byte,more,hkeyBytes⟩ := List.exists_cons_of_ne_nil hkey.encodes.ne_nil
    match turns,h with
    | 0,h => omega
    | turns+1,h =>
      have hvalue : (UInt64.ofNat (field.number*8+field.payload.wire)).toNat=
          field.number*8+field.payload.wire := by
        rw [UInt64.toNat_ofNat']
        exact Nat.mod_eq_of_lt hkey.small
      have hread : readVarint (key++(bytes++rest))=
          some (UInt64.ofNat (field.number*8+field.payload.wire),bytes++rest) :=
        readVarint_iff.mpr ⟨key,rfl,hvalue.symm ▸ hkey⟩
      have hturn := applies field List.mem_cons_self _ state bytes rest hvalue hpayload
      rw [hkeyBytes,List.cons_append] at hread ⊢
      rw [loop,hread,foldFields]
      dsimp only
      rw [hturn]
      cases apply field state with
      | none => rfl
      | some outcome =>
        cases outcome with
        | error reason => rfl
        | ok later =>
          exact ih (fun other hmem => applies other (List.mem_cons_of_mem field hmem)) later
            (by omega)

end Messages

end Vinput.WireReading
