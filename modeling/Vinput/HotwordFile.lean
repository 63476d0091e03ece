import Vinput.AsrSettings
import Vinput.LineDraining

/-!
# Hotword files

A hotword file is well-formed UTF-8 without control characters, and holds one
hotword in a line, perhaps with a score behind a colon.
-/

namespace Vinput.HotwordFile

open AsrSettings ProcessLines

section Content

/-- Bytes and value of the code point at the start of a text. -/
def decodeCodepoint : Bytes → Option (ℕ×UInt32)
  | [] => none
  | b0::rest =>
    if b0 &&& 0x80=0 then some (1,b0.toUInt32)
    else if b0 &&& 0xE0=0xC0 then
      match rest with
      | b1::_ =>
        if b1 &&& 0xC0=0x80 then
          let cp := ((b0 &&& 0x1F).toUInt32 <<< 6) ||| (b1 &&& 0x3F).toUInt32
          if 0x80≤cp then some (2,cp) else none
        else none
      | _ => none
    else if b0 &&& 0xF0=0xE0 then
      match rest with
      | b1::b2::_ =>
        if b1 &&& 0xC0=0x80 ∧ b2 &&& 0xC0=0x80 then
          let cp := ((b0 &&& 0x0F).toUInt32 <<< 12) ||| ((b1 &&& 0x3F).toUInt32 <<< 6) |||
            (b2 &&& 0x3F).toUInt32
          if 0x800≤cp ∧ (cp<0xD800 ∨ 0xE000≤cp) then some (3,cp) else none
        else none
      | _ => none
    else if b0 &&& 0xF8=0xF0 then
      match rest with
      | b1::b2::b3::_ =>
        if b1 &&& 0xC0=0x80 ∧ b2 &&& 0xC0=0x80 ∧ b3 &&& 0xC0=0x80 then
          let cp := ((b0 &&& 0x07).toUInt32 <<< 18) ||| ((b1 &&& 0x3F).toUInt32 <<< 12) |||
            ((b2 &&& 0x3F).toUInt32 <<< 6) ||| (b3 &&& 0x3F).toUInt32
          if 0x10000≤cp ∧ cp<0x110000 then some (4,cp) else none
        else none
      | _ => none
    else none

/-- The general category Cc of Unicode. -/
def isControl (cp : UInt32) : Bool := decide (cp<0x20) || decide (0x7F≤cp ∧ cp<0xA0)

/-- A code point stands in a hotword file, or the reason why it must not. -/
def checkCodepoint (cp : UInt32) : Option String :=
  if cp=0 then some "embedded NUL is not allowed"
  else if !(decide (cp=9) || decide (cp=10) || decide (cp=13)) &&
      (isControl cp || decide (cp<0x20)) then
    some "control character is not allowed"
  else none

/-- The loop over the code points of a text. The bytes of a code point behind
the first are passed over one by one. -/
def validateFrom (passed : ℕ) (offset : ℕ) : Bytes → Except (ℕ×String) Unit
  | [] => .ok ()
  | byte::rest =>
    match passed with
    | passed+1 => validateFrom passed (offset+1) rest
    | 0 =>
      match decodeCodepoint (byte::rest) with
      | none => .error (offset,"invalid UTF-8 sequence")
      | some (bytes,cp) =>
        match checkCodepoint cp with
        | some reason => .error (offset,reason)
        | none => validateFrom (bytes-1) (offset+1) rest

/-- Whether a text is allowed, and where it is not. -/
def validateHotwordText (text : Bytes) : Except (ℕ×String) Unit := validateFrom 0 0 text

/-- The largest file. -/
def kMaxHotwordFileBytes : ℕ := 1024*1024

/-- What the system answers about a file. -/
structure FileView where
  /-- It is a regular file, and looking at it does not fail. -/
  isRegularFile : Bool
  /-- Its size, or the message of the failure. -/
  size : Except Bytes ℕ
  /-- The bytes that can be read from it, if reading does not fail. -/
  bytes : Option Bytes

/-- The content of a file that is not too large. -/
def FileView.readTextFile (file : FileView) (maxBytes : ℕ) : Option Bytes :=
  file.bytes.map (·.take maxBytes)

/-- The content of a file that is allowed. -/
def readHotwordFile (path : Bytes) (file : FileView) : Except Bytes Bytes :=
  if path=[] then .ok []
  else if !file.isRegularFile then
    .error (bytesOf "hotwords file is not a regular file: "++path)
  else
    match file.size with
    | .error message =>
      .error (bytesOf "failed to inspect hotwords file '"++path++bytesOf "': "++message)
    | .ok size =>
      if kMaxHotwordFileBytes< size then
        .error (bytesOf "hotwords file exceeds 1 MiB limit: "++path)
      else
        match file.readTextFile (kMaxHotwordFileBytes+1) with
        | none => .error (bytesOf "failed to read hotwords file: "++path)
        | some text =>
          if kMaxHotwordFileBytes<text.length then
            .error (bytesOf "hotwords file exceeds 1 MiB limit: "++path)
          else
            match validateHotwordText text with
            | .error (offset,reason) =>
              .error (bytesOf ("invalid hotwords file at byte "++toString offset++": "++reason))
            | .ok _ => .ok text

/-- White space between the words of a hotword. -/
def isHotwordWhitespace (byte : UInt8) : Bool :=
  decide (byte=32) || decide (byte=9) || decide (byte=13) || decide (byte=10)

/-- The byte is no control character, or white space. -/
def Allowed (byte : UInt8) : Prop := isSpace byte=true → isHotwordWhitespace byte=true

/-- The first byte of a code point that is not ASCII, and those behind it, are
above all ASCII bytes. -/
theorem decodeCodepoint_spec {byte : UInt8} {rest : Bytes} {bytes : ℕ} {cp : UInt32}
    (h : decodeCodepoint (byte::rest)=some (bytes,cp)) :
    (bytes=1 ∧ cp=byte.toUInt32) ∨
      (byte &&& 0x80≠0 ∧ ∀ other∈rest.take (bytes-1), other &&& 0xC0=0x80) := by
  unfold decodeCodepoint at h
  dsimp only at h
  by_cases hone : byte &&& 0x80=0
  · rw [if_pos hone] at h
    cases h
    exact Or.inl ⟨rfl,rfl⟩
  · refine Or.inr ⟨hone,?_⟩
    rw [if_neg hone] at h
    split at h
    · split at h
      · split at h
        · split at h
          · cases h
            simpa using by assumption
          · cases h
        · cases h
      · cases h
    · split at h
      · split at h
        · split at h
          · split at h
            · cases h
              simpa using by assumption
            · cases h
          · cases h
        · cases h
      · split at h
        · split at h
          · split at h
            · split at h
              · cases h
                simpa using by assumption
              · cases h
            · cases h
          · cases h
        · cases h

/-- Bytes of a longer code point are no white space. -/
theorem allowed_of_high {byte : UInt8} (h : byte &&& 0x80≠0) : Allowed byte := by
  have hall : ∀ value : Fin 256, UInt8.ofNat value.val &&& 0x80≠0 →
      isSpace (UInt8.ofNat value.val)=false := by decide +kernel
  have hbyte := hall ⟨byte.toNat,byte.toNat_lt⟩
  rw [UInt8.ofNat_toNat] at hbyte
  intro hspace
  rw [hbyte h] at hspace
  cases hspace

theorem allowed_of_tail {byte : UInt8} (h : byte &&& 0xC0=0x80) : Allowed byte := by
  have hmasks : (0xC0 : UInt8) &&& 0x80=0x80 := by decide
  have hhigh : byte &&& 0x80=0x80 := by
    rw [←hmasks,←UInt8.and_assoc,h]
    decide
  refine allowed_of_high ?_
  rw [hhigh]
  decide

/-- A checked byte is no control character. -/
theorem allowed_of_checked {byte : UInt8} (h : checkCodepoint byte.toUInt32=none) :
    Allowed byte := by
  have hall : ∀ value : Fin 256, checkCodepoint (UInt8.ofNat value.val).toUInt32=none →
      isSpace (UInt8.ofNat value.val)=true → isHotwordWhitespace (UInt8.ofNat value.val)=true := by
    decide +kernel
  have hbyte := hall ⟨byte.toNat,byte.toNat_lt⟩
  rw [UInt8.ofNat_toNat] at hbyte
  exact hbyte h

/-- No byte of a valid text is a control character. -/
theorem validateFrom_allowed {passed offset : ℕ} {text : Bytes}
    (h : validateFrom passed offset text=.ok ())
    (hpassed : ∀ byte∈text.take passed, byte &&& 0xC0=0x80) : ∀ byte∈text, Allowed byte := by
  induction text generalizing passed offset with
  | nil => exact fun byte hmem => absurd hmem List.not_mem_nil
  | cons byte rest ih =>
    cases passed with
    | succ passed =>
      rw [List.take_succ_cons] at hpassed
      intro other hmem
      rcases List.mem_cons.mp hmem with hfirst | hlater
      · exact hfirst ▸ allowed_of_tail (hpassed byte List.mem_cons_self)
      · exact ih h (fun tail htail => hpassed tail (List.mem_cons_of_mem _ htail)) other hlater
    | zero =>
      unfold validateFrom at h
      cases hdecoded : decodeCodepoint (byte::rest) with
      | none =>
        rw [hdecoded] at h
        cases h
      | some pair =>
        obtain ⟨bytes,cp⟩ := pair
        rw [hdecoded] at h
        dsimp only at h
        cases hchecked : checkCodepoint cp with
        | some reason =>
          rw [hchecked] at h
          cases h
        | none =>
          rw [hchecked] at h
          dsimp only at h
          intro other hmem
          rcases decodeCodepoint_spec hdecoded with ⟨hbytes,hcp⟩ | ⟨hhigh,htails⟩
          · subst hbytes hcp
            rcases List.mem_cons.mp hmem with hfirst | hlater
            · exact hfirst ▸ allowed_of_checked hchecked
            · exact ih h (fun tail htail => absurd htail List.not_mem_nil) other hlater
          · rcases List.mem_cons.mp hmem with hfirst | hlater
            · exact hfirst ▸ allowed_of_high hhigh
            · exact ih h htails other hlater

/-- What is read from a hotword file holds no control characters. -/
theorem readHotwordFile_allowed {path content : Bytes} {file : FileView}
    (h : readHotwordFile path file=.ok content) : ∀ byte∈content, Allowed byte := by
  unfold readHotwordFile at h
  split at h
  · cases h
    exact fun byte hmem => absurd hmem List.not_mem_nil
  · split at h
    · cases h
    · split at h
      · cases h
      · split at h
        · cases h
        · split at h
          · cases h
          · rename_i text hread
            split at h
            · cases h
            · split at h
              · cases h
              · rename_i hvalid
                cases h
                exact validateFrom_allowed hvalid fun byte hmem => absurd hmem List.not_mem_nil

end Content

end Vinput.HotwordFile
