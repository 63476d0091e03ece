import Mathlib.Data.List.Forall2
import Vinput.LineSplitting
import Vinput.WireReading

/-!
# Exporting the vocabulary of a model

A SentencePiece model is a message with a record for each piece. The exporter
writes a line for each record, with the piece, a tab and the score; the
validator reads such lines again. Numbers with a fraction are left open:
what is printed and read of them is given.
-/

namespace Vinput.BpeVocabulary

open Leb128 WireReading LineSplitting

section Vocabulary

/-- The largest model that is read. -/
def kMaxSentencePieceModelBytes : ℕ := 64*1024*1024

/-- The largest vocabulary that is read. -/
def kMaxBpeVocabularyBytes : ℕ := 256*1024*1024

/-- The most pieces that are counted. -/
def kMaxPieceCount : ℕ := 1000000

/-- The longest piece. -/
def kMaxPieceBytes : ℕ := 1024*1024

/-- Numbers with a fraction. -/
structure Floats (F : Type*) where
  /-- The number with these bits. -/
  ofBits : UInt32 → F
  /-- The number that a record begins with. -/
  zero : F
  isFinite : F → Bool
  /-- What the formatter prints. -/
  print : F → List UInt8
  /-- What `std::from_chars` reads, and the text behind it. -/
  fromChars : List UInt8 → Option (F×List UInt8)

/-- A number is printed as one word and read back from it. -/
def Floats.Faithful {F : Type*} (floats : Floats F) : Prop :=
  ∀ score, floats.isFinite score=true →
    floats.print score≠[] ∧ (∀ byte∈floats.print score, byte≠9 ∧ byte≠10 ∧ byte≠13) ∧
      floats.fromChars (floats.print score)=some (score,[])

/-- A piece with its score. -/
structure SentencePieceRecord (F : Type*) where
  piece : List UInt8
  score : F
deriving DecidableEq

variable {F : Type*} (floats : Floats F)

/-- A field of a record, after its key. -/
def pieceTurn (key : UInt64) (state : SentencePieceRecord F×Bool) (behind : List UInt8) :
    Option (Except String ((SentencePieceRecord F×Bool)×List UInt8)) :=
  if isField 1 2 key then
    match readLengthDelimited behind with
    | none => some (.error "invalid length-delimited string in piece record")
    | some (value,left) => some (.ok (({state.1 with piece := value},true),left))
  else if isField 2 5 key then
    match readFixed32 behind with
    | none => some (.error "invalid float score in piece record")
    | some (bits,left) => some (.ok (({state.1 with score := floats.ofBits bits},state.2),left))
  else
    match skipField (wireOf key) behind with
    | none => some (.error "unsupported wire type in piece record")
    | some left => some (.ok (state,left))

/-- `ParseSentencePiece`, if its loop ends. -/
def parseSentencePiece (message : List UInt8) :
    Option (Except String (SentencePieceRecord F)) :=
  match loop "invalid field key in piece record" (pieceTurn floats) message.length
      (⟨[],floats.zero⟩,false) message with
  | none => none
  | some (.error reason) => some (.error reason)
  | some (.ok (record,foundPiece)) =>
    if !foundPiece then some (.error "missing piece text in piece record")
    else some (.ok record)

/-- A record that has no place in a line. -/
def unsupported (record : SentencePieceRecord F) : Bool :=
  record.piece.isEmpty || decide (kMaxPieceBytes<record.piece.length) ||
    !floats.isFinite record.score ||
    record.piece.any fun byte => byte==9 || byte==13 || byte==10

/-- The line of a record, without its newline. -/
def entryLine (record : SentencePieceRecord F) : List UInt8 :=
  record.piece++9::floats.print record.score

/-- A record is written. -/
def addRecord (path : String) (message : List UInt8) (state : List UInt8×ℕ) :
    Option (Except String (List UInt8×ℕ)) :=
  match parseSentencePiece floats message with
  | none => none
  | some (.error reason) =>
    some (.error ("invalid SentencePiece piece record ("++reason++") in: "++path))
  | some (.ok record) =>
    if unsupported floats record then
      some (.error ("unsupported SentencePiece piece record in: "++path))
    else
      let output := state.1++entryLine floats record++[10]
      if kMaxPieceCount< state.2+1 ∨ kMaxBpeVocabularyBytes<output.length then
        some (.error ("SentencePiece vocabulary exceeds safety limits: "++path))
      else some (.ok (output,state.2+1))

/-- A field of a model, after its key. -/
def modelTurn (path : String) (key : UInt64) (state : List UInt8×ℕ) (behind : List UInt8) :
    Option (Except String ((List UInt8×ℕ)×List UInt8)) :=
  if isField 1 2 key then
    match readLengthDelimited behind with
    | none => some (.error ("invalid SentencePiece piece record: "++path))
    | some (message,left) =>
      match addRecord floats path message state with
      | none => none
      | some (.error reason) => some (.error reason)
      | some (.ok later) => some (.ok (later,left))
  else
    match skipField (wireOf key) behind with
    | none => some (.error ("unsupported SentencePiece ModelProto field in: "++path))
    | some left => some (.ok (state,left))

/-- The text that `ExportSentencePieceVocabulary` writes for the bytes of a
model, if its loop ends. -/
def exportSentencePieceVocabulary (path : String) (model : List UInt8) :
    Option (Except String (List UInt8)) :=
  if kMaxSentencePieceModelBytes< model.length then
    some (.error ("SentencePiece model exceeds 64 MiB limit: "++path))
  else
    match loop ("invalid SentencePiece ModelProto: "++path) (modelTurn floats path) model.length
        ([],0) model with
    | none => none
    | some (.error reason) => some (.error reason)
    | some (.ok (output,pieceCount)) =>
      if pieceCount=0 then
        some (.error ("SentencePiece model contains no vocabulary pieces: "++path))
      else some (.ok output)

/-- What `std::getline` takes out of a file, line by line. -/
def fileLines (content : List UInt8) : List (List UInt8) :=
  let split := splitAtNewlines 10 content
  split.1++if split.2.isEmpty then [] else [split.2]

/-- A line of a vocabulary. -/
def validateLine (path : String) (line : List UInt8) : Except String Unit :=
  let line := if line.getLast?=some 13 then line.dropLast else line
  let tab := line.idxOf 9
  if tab=line.length ∨ tab=0 ∨ line.length≤tab+1 ∨ kMaxPieceBytes<tab then
    .error ("invalid BPE vocabulary line in: "++path)
  else
    match floats.fromChars (line.drop (tab+1)) with
    | some (score,[]) =>
      if floats.isFinite score then .ok () else .error ("invalid BPE vocabulary score in: "++path)
    | _ => .error ("invalid BPE vocabulary score in: "++path)

/-- The lines of a vocabulary, with their number. -/
def validateLines (path : String) : ℕ → List (List UInt8) → Except String ℕ
  | count,[] => .ok count
  | count,line::rest =>
    match validateLine floats path line with
    | .error reason => .error reason
    | .ok _ =>
      if kMaxPieceCount<count+1 then .error ("BPE vocabulary has too many pieces: "++path)
      else validateLines path (count+1) rest

/-- `ValidateBpeVocabulary` for the content of a file that can be read. -/
def validateBpeVocabulary (path : String) (content : List UInt8) : Except String Unit :=
  if content.length=0 ∨ kMaxBpeVocabularyBytes<content.length then
    .error ("BPE vocabulary is empty or exceeds 256 MiB: "++path)
  else
    match validateLines floats path 0 (fileLines content) with
    | .error reason => .error reason
    | .ok count =>
      if count=0 then .error ("failed to read BPE vocabulary: "++path) else .ok ()

end Vocabulary

section Termination

variable {F : Type*} (floats : Floats F)

theorem readFixed32_iff {buffer rest : List UInt8} {bits : UInt32} :
    readFixed32 buffer=some (bits,rest) ↔
      ∃ content, content.length=4 ∧ readFixed32 content=some (bits,[]) ∧
        buffer=content++rest := by
  constructor
  · intro h
    match buffer with
    | b0::b1::b2::b3::behind =>
      obtain ⟨hbits,hrest⟩ := Prod.mk.inj (Option.some.inj h)
      refine ⟨[b0,b1,b2,b3],rfl,?_,by rw [hrest]; rfl⟩
      rw [←hbits]
      rfl
  · rintro ⟨content,hlength,hbits,rfl⟩
    match content,hlength with
    | [b0,b1,b2,b3],_ =>
      obtain ⟨hvalue,-⟩ := Prod.mk.inj (Option.some.inj hbits)
      rw [←hvalue]
      rfl

/-- A field that is skipped has the payload of its wire type. -/
theorem skipField_consumes {key : UInt64} {behind left : List UInt8}
    (h : skipField (wireOf key) behind=some left) :
    ∃ (payload : Payload) (bytes : List UInt8), payload.wire=key.toNat%8 ∧
      payload.Encoded bytes ∧ behind=bytes++left := by
  rw [←toNat_wireOf]
  exact skipField_iff.mp h

/-- A turn over the fields of a piece consumes one field. -/
theorem pieceTurn_consumes : Consumes (pieceTurn floats) := by
  intro key state behind later left h
  unfold pieceTurn at h
  split at h
  · rename_i hfield
    obtain ⟨-,hwire⟩ := (isField_iff 1 2 key).mp hfield
    split at h
    · cases h
    · rename_i value rest hread
      cases h
      obtain ⟨bytes,hencoded,hbehind⟩ := readLengthDelimited_iff.mp hread
      exact ⟨.delimited value,bytes,hwire.symm,hencoded,hbehind⟩
  · split at h
    · rename_i hfield
      obtain ⟨-,hwire⟩ := (isField_iff 2 5 key).mp hfield
      split at h
      · cases h
      · rename_i bits rest hread
        cases h
        obtain ⟨content,hlength,-,hbehind⟩ := readFixed32_iff.mp hread
        exact ⟨.fixed32 content,content,hwire.symm,⟨rfl,hlength⟩,hbehind⟩
    · split at h
      · cases h
      · rename_i rest hskip
        cases h
        exact skipField_consumes hskip

theorem modelTurn_consumes (path : String) : Consumes (modelTurn floats path) := by
  intro key state behind later left h
  unfold modelTurn at h
  split at h
  · rename_i hfield
    obtain ⟨-,hwire⟩ := (isField_iff 1 2 key).mp hfield
    split at h
    · cases h
    · rename_i message rest hread
      obtain ⟨bytes,hencoded,hbehind⟩ := readLengthDelimited_iff.mp hread
      split at h
      · cases h
      · cases h
      · cases h
        exact ⟨.delimited message,bytes,hwire.symm,hencoded,hbehind⟩
  · split at h
    · cases h
    · rename_i rest hskip
      cases h
      exact skipField_consumes hskip

theorem pieceTurn_returns : Returns (pieceTurn floats) := by
  refine returns_of_consumes (pieceTurn_consumes floats) ?_
  intro key state behind
  unfold pieceTurn
  (repeat' split) <;> exact Option.some_ne_none _

/-- The loop over a record ends. -/
theorem parseSentencePiece_returns (message : List UInt8) :
    ∃ outcome, parseSentencePiece floats message=some outcome := by
  obtain ⟨outcome,houtcome⟩ := loop_returns "invalid field key in piece record"
    (pieceTurn_returns floats) message.length (⟨[],floats.zero⟩,false) message (Nat.le_refl _)
  unfold parseSentencePiece
  rw [houtcome]
  (repeat' split) <;> first | exact ⟨_,rfl⟩ | contradiction

theorem addRecord_returns (path : String) (message : List UInt8) (state : List UInt8×ℕ) :
    addRecord floats path message state≠none := by
  obtain ⟨outcome,houtcome⟩ := parseSentencePiece_returns floats message
  unfold addRecord
  rw [houtcome]
  dsimp only
  (repeat' split) <;> first | exact Option.some_ne_none _ | contradiction

theorem modelTurn_returns (path : String) : Returns (modelTurn floats path) := by
  refine returns_of_consumes (modelTurn_consumes floats path) ?_
  intro key state behind
  unfold modelTurn
  split
  · split
    · exact Option.some_ne_none _
    · split
      · rename_i hnone
        exact absurd hnone (addRecord_returns floats path _ state)
      · exact Option.some_ne_none _
      · exact Option.some_ne_none _
  · split <;> exact Option.some_ne_none _

/-- The loop over a model ends. -/
theorem export_returns (path : String) (model : List UInt8) :
    ∃ outcome, exportSentencePieceVocabulary floats path model=some outcome := by
  unfold exportSentencePieceVocabulary
  split
  · exact ⟨_,rfl⟩
  · obtain ⟨outcome,houtcome⟩ := loop_returns
      ("invalid SentencePiece ModelProto: "++path) (modelTurn_returns floats path)
      model.length ([],0) model (Nat.le_refl _)
    rw [houtcome]
    (repeat' split) <;> first | exact ⟨_,rfl⟩ | contradiction

end Termination

section Wire

variable {F : Type*} (floats : Floats F)

/-- A buffer is read exactly. -/
structure WireExact (path : String) (buffer : List UInt8) : Prop where
  /-- What is read as a number is an encoding of sixty-four bits. -/
  varint : ∀ value rest, readVarint buffer=some (value,rest) ↔
    ∃ front, buffer=front++rest ∧ Fits 64 front value.toNat
  /-- What is skipped stands in the buffer. -/
  skipped : ∀ wireType rest, skipField wireType buffer=some rest ↔
    ∃ (payload : Payload) (bytes : List UInt8), payload.wire=wireType.toNat ∧
      payload.Encoded bytes ∧ buffer=bytes++rest
  /-- The loop over a record ends. -/
  record : ∃ outcome, parseSentencePiece floats buffer=some outcome
  /-- The loop over a model ends. -/
  model : ∃ outcome, exportSentencePieceVocabulary floats path buffer=some outcome
  /-- A field counts as the one with its number only. -/
  fields : ∀ key∈fieldKeys buffer, (isField 1 2 key=true → key.toNat/8=1) ∧
    (isField 2 5 key=true → key.toNat/8=2)

/-- No field has a number that ends, beyond thirty-two bits, like the one of a
field that is looked for. -/
def FieldsApart (buffer : List UInt8) : Prop :=
  ∀ key∈fieldKeys buffer, 2^32≤key.toNat/8 →
    ¬(key.toNat/8%2^32=1 ∧ key.toNat%8=2) ∧ ¬(key.toNat/8%2^32=2 ∧ key.toNat%8=5)

/-- Every buffer is read exactly, but for the numbers of fields that are cut
off. -/
theorem wire_exact_iff (path : String) (buffer : List UInt8) :
    WireExact floats path buffer ↔ FieldsApart buffer := by
  constructor
  · intro exact key hkey hlarge
    obtain ⟨hpiece,hscore⟩ := exact.fields key hkey
    constructor
    · rintro ⟨hnumber,hwire⟩
      have hone := hpiece ((isField_iff 1 2 key).mpr ⟨hnumber,hwire⟩)
      omega
    · rintro ⟨hnumber,hwire⟩
      have htwo := hscore ((isField_iff 2 5 key).mpr ⟨hnumber,hwire⟩)
      omega
  · intro apart
    refine ⟨fun _ _ => readVarint_iff,fun _ _ => skipField_iff,parseSentencePiece_returns floats buffer,
      export_returns floats path buffer,?_⟩
    intro key hkey
    constructor
    · intro hfield
      obtain ⟨hnumber,hwire⟩ := (isField_iff 1 2 key).mp hfield
      by_cases hlarge : 2^32≤key.toNat/8
      · exact absurd ⟨hnumber,hwire⟩ (apart key hkey hlarge).1
      · rw [Nat.mod_eq_of_lt (Nat.lt_of_not_le hlarge)] at hnumber
        exact hnumber
    · intro hfield
      obtain ⟨hnumber,hwire⟩ := (isField_iff 2 5 key).mp hfield
      by_cases hlarge : 2^32≤key.toNat/8
      · exact absurd ⟨hnumber,hwire⟩ (apart key hkey hlarge).2
      · rw [Nat.mod_eq_of_lt (Nat.lt_of_not_le hlarge)] at hnumber
        exact hnumber

/-- Numbers of which zero is the only one that is printed. -/
def zeroOnly : Floats Bool where
  ofBits bits := decide (bits≠0)
  zero := false
  isFinite score := !score
  print _ := [48]
  fromChars text := if text=[48] then some (false,[]) else none

/-- A field with the number 2^32+1 and the text `a`. -/
def largeField : List UInt8 := [138,128,128,128,128,1,1,97]

/-- The text of a field with another number is taken for the piece. -/
theorem large_field_confused :
    parseSentencePiece zeroOnly largeField=some (.ok ⟨[97],false⟩) ∧
      ¬WireExact zeroOnly "" largeField := by
  constructor
  · rfl
  · intro exact
    have hkey : (34359738378 : UInt64)∈fieldKeys largeField := by decide +kernel
    have hone := (exact.fields 34359738378 hkey).1 (by decide +kernel)
    exact absurd hone (by decide)

end Wire

section Records

variable {F : Type*} (floats : Floats F)

/-- The text of a field with the number of a piece. -/
def textOf (field : Field) : Option (List UInt8) :=
  match field.payload with
  | .delimited content => if field.number=1 then some content else none
  | _ => none

/-- The score of a field with the number of a score. -/
def scoreOf (field : Field) : Option F :=
  match field.payload with
  | .fixed32 content =>
    if field.number=2 then (readFixed32 content).map fun read => floats.ofBits read.1 else none
  | _ => none

/-- The record that fields stand for: their last piece and their last score. -/
def StandsFor (fields : List Field) (record : SentencePieceRecord F) : Prop :=
  (fields.filterMap textOf).getLast?=some record.piece ∧
    (fields.filterMap (scoreOf floats)).getLast?.getD floats.zero=record.score

/-- The record that a message stands for. -/
def IsRecord (message : List UInt8) (record : SentencePieceRecord F) : Prop :=
  ∃ fields, Message fields message ∧ StandsFor floats fields record

/-- A field as it is read: its number counts modulo thirty-two bits. -/
def cut (field : Field) : Field := {field with number := field.number%2^32}

/-- What a field does to a record. -/
def pieceApply (field : Field) (state : SentencePieceRecord F×Bool) :
    Option (Except String (SentencePieceRecord F×Bool)) :=
  match textOf field with
  | some content => some (.ok ({state.1 with piece := content},true))
  | none =>
    match scoreOf floats field with
    | some score => some (.ok ({state.1 with score := score},state.2))
    | none => some (.ok state)

variable {field : Field} {key : UInt64}

/-- A field counts as the one that its number is after the cut. -/
theorem isField_of_number (hkey : key.toNat=field.number*8+field.payload.wire)
    (number wire : UInt32) :
    isField number wire key=true ↔
      (cut field).number=number.toNat ∧ field.payload.wire=wire.toNat := by
  have hwire := field.payload.wire_lt
  rw [isField_iff,hkey]
  have hnumber : (field.number*8+field.payload.wire)/8=field.number := by omega
  have hrest : (field.number*8+field.payload.wire)%8=field.payload.wire := by omega
  rw [hnumber,hrest]
  exact Iff.rfl

/-- A field of the message is skipped as a whole. -/
theorem skipField_field {bytes rest : List UInt8}
    (hkey : key.toNat=field.number*8+field.payload.wire)
    (hencoded : field.payload.Encoded bytes) :
    skipField (wireOf key) (bytes++rest)=some rest := by
  have hwire := field.payload.wire_lt
  refine skipField_iff.mpr ⟨field.payload,bytes,?_,hencoded,rfl⟩
  rw [toNat_wireOf,hkey]
  omega

/-- A turn over a record does what the field, cut, does to it. -/
theorem pieceTurn_applies (field : Field) :
    Applies (pieceTurn floats) (pieceApply floats∘cut) field := by
  intro key state bytes rest hkey hencoded
  have hpiece := isField_of_number hkey 1 2
  have hscore := isField_of_number hkey 2 5
  have hskip : skipField (wireOf key) (bytes++rest)=some rest := skipField_field hkey hencoded
  obtain ⟨number,payload⟩ := field
  rw [Function.comp_apply]
  unfold pieceTurn pieceApply
  cases payload with
  | varint value =>
    rw [if_neg (fun h => absurd (hpiece.mp h).2 nofun),if_neg (fun h => absurd (hscore.mp h).2 nofun),
      hskip]
    rfl
  | fixed64 content =>
    rw [if_neg (fun h => absurd (hpiece.mp h).2 nofun),if_neg (fun h => absurd (hscore.mp h).2 nofun),
      hskip]
    rfl
  | delimited content =>
    by_cases hnumber : number%2^32=1
    · have hread : readLengthDelimited (bytes++rest)=some (content,rest) :=
        readLengthDelimited_iff.mpr ⟨bytes,hencoded,rfl⟩
      have htext : textOf (cut ⟨number,.delimited content⟩)=some content := if_pos hnumber
      rw [if_pos (hpiece.mpr ⟨hnumber,rfl⟩),hread,htext]
      rfl
    · rw [if_neg (fun h => hnumber (hpiece.mp h).1),if_neg (fun h => absurd (hscore.mp h).2 nofun),
        hskip]
      have htext : textOf (cut ⟨number,.delimited content⟩)=none := if_neg hnumber
      rw [htext]
      rfl
  | fixed32 content =>
    obtain ⟨rfl,hlength⟩ := hencoded
    rw [if_neg (fun h => absurd (hpiece.mp h).2 nofun)]
    by_cases hnumber : number%2^32=2
    · match bytes,hlength with
      | [b0,b1,b2,b3],_ =>
        have hread : scoreOf floats (cut ⟨number,.fixed32 [b0,b1,b2,b3]⟩)=
            (readFixed32 [b0,b1,b2,b3]).map fun read => floats.ofBits read.1 := if_pos hnumber
        rw [if_pos (hscore.mpr ⟨hnumber,rfl⟩),hread]
        rfl
    · have hread : scoreOf floats (cut ⟨number,.fixed32 bytes⟩)=none := if_neg hnumber
      rw [if_neg (fun h => hnumber (hscore.mp h).1),hskip,hread]
      rfl

/-- The fields of a record leave its last piece and its last score. -/
theorem foldFields_piece (fields : List Field) (record : SentencePieceRecord F) (found : Bool) :
    foldFields (pieceApply floats) fields (record,found)=
      some (.ok (⟨(fields.filterMap textOf).getLast?.getD record.piece,
        (fields.filterMap (scoreOf floats)).getLast?.getD record.score⟩,
        found || !(fields.filterMap textOf).isEmpty)) := by
  induction fields generalizing record found with
  | nil =>
    rw [foldFields]
    cases found <;> rfl
  | cons field fields ih =>
    rw [foldFields,pieceApply]
    cases htext : textOf field with
    | some content =>
      have hscore : scoreOf floats field=none := by
        unfold textOf at htext
        unfold scoreOf
        split at htext
        · rename_i hpayload
          rw [hpayload]
        · cases htext
      dsimp only
      rw [ih,List.filterMap_cons_some htext,List.filterMap_cons_none hscore,List.getLast?_cons]
      cases found <;> rfl
    | none =>
      rw [List.filterMap_cons_none htext]
      cases hscore : scoreOf floats field with
      | some score =>
        dsimp only
        rw [ih,List.filterMap_cons_some hscore,List.getLast?_cons]
        rfl
      | none =>
        dsimp only
        rw [ih,List.filterMap_cons_none hscore]

/-- What is parsed is the record of the message with its numbers cut. -/
theorem standsFor_of_parse {message : List UInt8} {record : SentencePieceRecord F}
    (h : parseSentencePiece floats message=some (.ok record)) {fields : List Field}
    (fieldsOf : Message fields message) : StandsFor floats (fields.map cut) record := by
  unfold parseSentencePiece at h
  split at h
  · cases h
  · cases h
  · rename_i parsed found hloop
    split at h
    · cases h
    · rename_i hfound
      cases h
      rw [loop_message fieldsOf (fun field _ => pieceTurn_applies floats field) _ (Nat.le_refl _),
        foldFields_map,foldFields_piece] at hloop
      obtain ⟨hrecord,hfoundAny⟩ := Prod.mk.inj (Except.ok.inj (Option.some.inj hloop))
      rw [←hfoundAny] at hfound
      have hsome : (fields.map cut).filterMap textOf≠[] := by
        intro hnil
        rw [hnil] at hfound
        exact hfound rfl
      rw [←hrecord]
      refine ⟨?_,rfl⟩
      rw [List.getLast?_eq_some_getLast hsome]
      rfl

end Records

section Export

variable {F : Type*} (floats : Floats F)

/-- The text with a line for each record. -/
def listing (records : List (SentencePieceRecord F)) : List UInt8 :=
  joinLines 10 (records.map (entryLine floats))

/-- Two lists of records are listed one after the other. -/
theorem listing_append (first second : List (SentencePieceRecord F)) :
    listing floats (first++second)=listing floats first++listing floats second := by
  unfold listing
  rw [List.map_append,joinLines_append]

theorem listing_singleton (record : SentencePieceRecord F) :
    listing floats [record]=entryLine floats record++[10] := by
  unfold listing
  rw [List.map_singleton,joinLines_cons]
  rfl

/-- A record that is added gets its line and stays within the bounds. -/
theorem addRecord_spec {path : String} {message : List UInt8} {state later : List UInt8×ℕ}
    (h : addRecord floats path message state=some (.ok later)) :
    ∃ record, parseSentencePiece floats message=some (.ok record) ∧
      unsupported floats record=false ∧ later.1=state.1++listing floats [record] ∧
      later.2=state.2+1 ∧ later.2≤kMaxPieceCount ∧ later.1.length≤kMaxBpeVocabularyBytes := by
  unfold addRecord at h
  split at h
  · cases h
  · cases h
  · rename_i record hparsed
    split at h
    · cases h
    · rename_i hsupported
      dsimp only at h
      split at h
      · cases h
      · rename_i hbounds
        cases h
        dsimp only
        rw [Bool.not_eq_true] at hsupported
        refine ⟨record,hparsed,hsupported,?_,rfl,by omega,by omega⟩
        rw [listing_singleton,List.append_assoc]

/-- What the exporter has written. -/
def Written (state : List UInt8×ℕ) : Prop :=
  ∃ records, state.1=listing floats records ∧ state.2=records.length ∧
    (∀ record∈records, unsupported floats record=false) ∧
    state.2≤kMaxPieceCount ∧ state.1.length≤kMaxBpeVocabularyBytes

/-- What was written stays a listing. -/
theorem modelTurn_written (path : String) (key : UInt64) (state : List UInt8×ℕ)
    (behind : List UInt8) (later : List UInt8×ℕ) (left : List UInt8)
    (written : Written floats state)
    (h : modelTurn floats path key state behind=some (.ok (later,left))) : Written floats later := by
  unfold modelTurn at h
  split at h
  · split at h
    · cases h
    · split at h
      · cases h
      · cases h
      · rename_i hadded
        cases h
        obtain ⟨record,-,hsupported,htext,hnumber,hcount,hlength⟩ := addRecord_spec floats hadded
        obtain ⟨records,houtput,hrecords,hall,-,-⟩ := written
        refine ⟨records++[record],?_,?_,?_,hcount,hlength⟩
        · rw [htext,houtput,listing_append]
        · rw [hnumber,hrecords,List.length_append,List.length_singleton]
        · intro other hmem
          rcases List.mem_append.mp hmem with hold | hnew
          · exact hall other hold
          · rw [List.mem_singleton.mp hnew]
            exact hsupported
  · split at h
    · cases h
    · cases h
      exact written

/-- What a field does to the output. -/
def modelApply (path : String) (field : Field) (state : List UInt8×ℕ) :
    Option (Except String (List UInt8×ℕ)) :=
  match textOf field with
  | some message => addRecord floats path message state
  | none => some (.ok state)

/-- A turn over a model does what the field, cut, does to it. -/
theorem modelTurn_applies (path : String) (field : Field) :
    Applies (modelTurn floats path) (modelApply floats path∘cut) field := by
  intro key state bytes rest hkey hencoded
  have hpiece := isField_of_number hkey 1 2
  have hskip : skipField (wireOf key) (bytes++rest)=some rest := skipField_field hkey hencoded
  obtain ⟨number,payload⟩ := field
  rw [Function.comp_apply]
  unfold modelTurn modelApply
  cases payload with
  | delimited content =>
    by_cases hnumber : number%2^32=1
    · have hread : readLengthDelimited (bytes++rest)=some (content,rest) :=
        readLengthDelimited_iff.mpr ⟨bytes,hencoded,rfl⟩
      have htext : textOf (cut ⟨number,.delimited content⟩)=some content := if_pos hnumber
      rw [if_pos (hpiece.mpr ⟨hnumber,rfl⟩),hread,htext]
      dsimp only
      cases addRecord floats path content state with
      | none => rfl
      | some outcome => cases outcome <;> rfl
    · rw [if_neg (fun h => hnumber (hpiece.mp h).1),hskip]
      have htext : textOf (cut ⟨number,.delimited content⟩)=none := if_neg hnumber
      rw [htext]
      rfl
  | _ =>
    rw [if_neg (fun h => absurd (hpiece.mp h).2 nofun),hskip]
    rfl

/-- The fields of a model leave a line for each record that is parsed. -/
theorem foldFields_model (path : String) (fields : List Field) {state final : List UInt8×ℕ}
    (h : foldFields (modelApply floats path) fields state=some (.ok final)) :
    ∃ records, final.1=state.1++listing floats records ∧
      (∀ record∈records, unsupported floats record=false) ∧
      List.Forall₂ (fun message record => parseSentencePiece floats message=some (.ok record))
        (fields.filterMap textOf) records := by
  induction fields generalizing state with
  | nil =>
    cases h
    exact ⟨[],(List.append_nil _).symm,nofun,.nil⟩
  | cons field fields ih =>
    rw [foldFields] at h
    split at h
    · cases h
    · cases h
    · rename_i later hlater
      obtain ⟨records,hfinal,hsupported,hall⟩ := ih h
      unfold modelApply at hlater
      split at hlater
      · rename_i message htext
        obtain ⟨record,hparsed,hrecord,houtput,-⟩ := addRecord_spec floats hlater
        refine ⟨record::records,?_,List.forall_mem_cons.mpr ⟨hrecord,hsupported⟩,?_⟩
        · have hcons : listing floats (record::records)=
              listing floats [record]++listing floats records := listing_append floats [record] records
          rw [hfinal,houtput,hcons,List.append_assoc]
        · rw [List.filterMap_cons_some htext]
          exact .cons hparsed hall
      · rename_i htext
        cases hlater
        rw [List.filterMap_cons_none htext]
        exact ⟨records,hfinal,hsupported,hall⟩

/-- What the exporter says of a model it accepts. -/
theorem export_spec {path : String} {model text : List UInt8}
    (h : exportSentencePieceVocabulary floats path model=some (.ok text)) :
    ∃ count, count≠0 ∧ loop ("invalid SentencePiece ModelProto: "++path) (modelTurn floats path)
      model.length ([],0) model=some (.ok (text,count)) := by
  unfold exportSentencePieceVocabulary at h
  split at h
  · cases h
  · split at h
    · cases h
    · cases h
    · rename_i output count hloop
      split at h
      · cases h
      · rename_i hcount
        cases h
        exact ⟨count,hcount,hloop⟩

end Export

section Validation

variable {F : Type*} {floats : Floats F}

/-- A record with a place in a line. -/
theorem supported_iff {record : SentencePieceRecord F} : unsupported floats record=false ↔
    record.piece≠[] ∧ record.piece.length≤kMaxPieceBytes ∧
      floats.isFinite record.score=true ∧
      ∀ byte∈record.piece, byte≠9 ∧ byte≠13 ∧ byte≠10 := by
  unfold unsupported
  rw [Bool.or_eq_false_iff,Bool.or_eq_false_iff,Bool.or_eq_false_iff,List.isEmpty_eq_false_iff,
    decide_eq_false_iff_not,Nat.not_lt,Bool.not_eq_false',List.any_eq_false,and_assoc,and_assoc]
  refine and_congr_right fun _ => and_congr_right fun _ => and_congr_right fun _ => ?_
  refine forall₂_congr fun byte _ => ?_
  rw [Bool.not_eq_true,Bool.or_eq_false_iff,Bool.or_eq_false_iff,beq_eq_false_iff_ne,
    beq_eq_false_iff_ne,beq_eq_false_iff_ne,and_assoc]

variable {record : SentencePieceRecord F}

/-- The line of a record holds no newline. -/
theorem newline_notMem_entryLine (faithful : floats.Faithful)
    (h : unsupported floats record=false) : 10∉entryLine floats record := by
  obtain ⟨-,-,hfinite,hpiece⟩ := supported_iff.mp h
  obtain ⟨-,hscore,-⟩ := faithful record.score hfinite
  intro hmem
  rcases List.mem_append.mp hmem with hleft | hright
  · exact (hpiece 10 hleft).2.2 rfl
  · rcases List.mem_cons.mp hright with htab | hprinted
    · exact absurd htab (by decide)
    · exact (hscore 10 hprinted).2.1 rfl

/-- The line of a record is valid. -/
theorem validateLine_entryLine (faithful : floats.Faithful) (path : String)
    (h : unsupported floats record=false) :
    validateLine floats path (entryLine floats record)=.ok () := by
  obtain ⟨hempty,hlength,hfinite,hpiece⟩ := supported_iff.mp h
  obtain ⟨hprinted,hscore,hread⟩ := faithful record.score hfinite
  have hlast : (entryLine floats record).getLast?≠some 13 := by
    intro hreturn
    unfold entryLine at hreturn
    rw [List.getLast?_append_of_ne_nil _ (List.cons_ne_nil 9 _),
      List.getLast?_cons_of_ne_nil hprinted] at hreturn
    exact (hscore 13 (List.mem_of_getLast? hreturn)).2.2 rfl
  have htab : (entryLine floats record).idxOf 9=record.piece.length := by
    unfold entryLine
    rw [List.idxOf_append_of_notMem (fun hmem => (hpiece 9 hmem).1 rfl),List.idxOf_cons_self,
      Nat.add_zero]
  have hdrop : (entryLine floats record).drop (record.piece.length+1)=floats.print record.score := by
    unfold entryLine
    rw [←List.singleton_append,←List.append_assoc]
    exact List.drop_left' (by rw [List.length_append,List.length_singleton])
  have htotal : (entryLine floats record).length=
      record.piece.length+1+(floats.print record.score).length := by
    unfold entryLine
    rw [List.length_append,List.length_cons]
    omega
  have hsome := List.length_pos_iff.mpr hempty
  have hmore := List.length_pos_iff.mpr hprinted
  unfold validateLine
  dsimp only
  rw [if_neg hlast,htab,if_neg (by omega),hdrop,hread]
  dsimp only
  rw [if_pos hfinite]

/-- The lines of supported records are valid. -/
theorem validateLines_entryLines (faithful : floats.Faithful) (path : String)
    (records : List (SentencePieceRecord F))
    (h : ∀ record∈records, unsupported floats record=false) (count : ℕ)
    (hcount : count+records.length≤kMaxPieceCount) :
    validateLines floats path count (records.map (entryLine floats))=
      .ok (count+records.length) := by
  induction records generalizing count with
  | nil => rfl
  | cons record records ih =>
    rw [List.length_cons] at hcount ⊢
    rw [List.map_cons,validateLines,
      validateLine_entryLine faithful path (h record List.mem_cons_self)]
    dsimp only
    rw [if_neg (by omega),ih (fun other hmem => h other (List.mem_cons_of_mem record hmem)) (count+1)
      (by omega)]
    exact congrArg Except.ok (by omega)

/-- The lines of a listing are those of its records. -/
theorem fileLines_listing (faithful : floats.Faithful) (records : List (SentencePieceRecord F))
    (h : ∀ record∈records, unsupported floats record=false) :
    fileLines (listing floats records)=records.map (entryLine floats) := by
  have splits : Splits 10 (listing floats records) (records.map (entryLine floats)) [] := by
    refine ⟨(List.append_nil _).symm,?_,List.not_mem_nil⟩
    intro line hline
    obtain ⟨record,hmem,rfl⟩ := List.mem_map.mp hline
    exact newline_notMem_entryLine faithful (h record hmem)
  obtain ⟨hlines,htail⟩ := (splits_splitAtNewlines 10 (listing floats records)).unique splits
  unfold fileLines
  dsimp only
  rw [hlines,htail]
  exact List.append_nil _

/-- What the exporter writes is valid. -/
theorem validate_written (faithful : floats.Faithful) (path : String) {state : List UInt8×ℕ}
    (written : Written floats state) (hcount : state.2≠0) :
    validateBpeVocabulary floats path state.1=.ok () := by
  obtain ⟨records,houtput,hrecords,hall,hnumber,hlength⟩ := written
  have hlines := fileLines_listing faithful records hall
  have hvalid := validateLines_entryLines faithful path records hall 0 (by omega)
  have hsome : state.1.length≠0 := by
    intro hzero
    rw [houtput] at hzero
    have hnil : listing floats records=[] := List.length_eq_zero_iff.mp hzero
    rw [hnil] at hlines
    have hmap : records.map (entryLine floats)=[] := hlines.symm
    rw [List.map_eq_nil_iff.mp hmap] at hrecords
    exact hcount hrecords
  unfold validateBpeVocabulary
  rw [if_neg (by omega),houtput,hlines,hvalid]
  dsimp only
  rw [if_neg (by omega)]

/-- A line gives a record: its piece, a tab and a text that reads as its
score. -/
def Gives (floats : Floats F) (line : List UInt8) (record : SentencePieceRecord F) : Prop :=
  ∃ score, line=record.piece++9::score ∧ 9∉record.piece ∧
    floats.fromChars score=some (record.score,[])

theorem gives_entryLine (faithful : floats.Faithful) (h : unsupported floats record=false) :
    Gives floats (entryLine floats record) record := by
  obtain ⟨-,-,hfinite,hpiece⟩ := supported_iff.mp h
  exact ⟨_,rfl,fun hmem => (hpiece 9 hmem).1 rfl,(faithful record.score hfinite).2.2⟩

/-- A line gives one record only. -/
theorem Gives.unique {line : List UInt8} {other : SentencePieceRecord F}
    (h : Gives floats line record) (hother : Gives floats line other) : record=other := by
  obtain ⟨score,hline,htab,hscore⟩ := h
  obtain ⟨score',hline',htab',hscore'⟩ := hother
  have hlength : ∀ {piece rest : List UInt8}, line=piece++9::rest → 9∉piece →
      line.idxOf 9=piece.length := by
    rintro piece rest rfl hmem
    rw [List.idxOf_append_of_notMem hmem,List.idxOf_cons_self,Nat.add_zero]
  obtain ⟨hpiece,hrest⟩ := List.append_inj (hline.symm.trans hline')
    ((hlength hline htab).symm.trans (hlength hline' htab'))
  have hsame : score=score' := (List.cons.inj hrest).2
  rw [hsame,hscore'] at hscore
  have hvalue : other.score=record.score := (Prod.mk.inj (Option.some.inj hscore)).1
  cases record
  cases other
  exact congrArg₂ SentencePieceRecord.mk hpiece hvalue.symm

/-- The lines of a text give the records of a model in their order. -/
def Lists (floats : Floats F) (model text : List UInt8) : Prop :=
  ∃ fields, Message fields model ∧
    List.Forall₂ (fun line message => ∃ record, IsRecord floats message record ∧
      Gives floats line record) (fileLines text) (fields.filterMap textOf)

/-- Cutting the numbers of the fields takes no further field for a record, and
in no record another piece or score. -/
def Settled (floats : Floats F) (model : List UInt8) : Prop :=
  ∃ fields, Message fields model ∧ (∀ field∈fields, textOf (cut field)=textOf field) ∧
    ∀ message∈fields.filterMap textOf, ∃ parts, Message parts message ∧
      ((parts.map cut).filterMap textOf).getLast?=(parts.filterMap textOf).getLast? ∧
      ((parts.map cut).filterMap (scoreOf floats)).getLast?.getD floats.zero=
        (parts.filterMap (scoreOf floats)).getLast?.getD floats.zero

/-- A text with the right number stays one. -/
theorem textOf_cut {field : Field} {content : List UInt8} (h : textOf field=some content) :
    textOf (cut field)=some content := by
  obtain ⟨number,payload⟩ := field
  cases payload with
  | delimited text =>
    dsimp only [textOf] at h
    split at h
    · rename_i hnumber
      rw [hnumber] at *
      exact h
    · cases h
  | _ => cases h

/-- Where no text is added, none is changed. -/
theorem textOf_cut_of_length (fields : List Field)
    (h : ((fields.map cut).filterMap textOf).length≤(fields.filterMap textOf).length) :
    ∀ field∈fields, textOf (cut field)=textOf field := by
  have hmore : ∀ others : List Field,
      (others.filterMap textOf).length≤((others.map cut).filterMap textOf).length := by
    intro others
    induction others with
    | nil => exact Nat.le_refl _
    | cons field others ih =>
      rw [List.map_cons]
      cases htext : textOf field with
      | some content =>
        rw [List.filterMap_cons_some htext,List.filterMap_cons_some (textOf_cut htext)]
        exact Nat.succ_le_succ ih
      | none =>
        rw [List.filterMap_cons_none htext]
        exact ih.trans ((List.sublist_cons_self _ _).filterMap textOf).length_le
  induction fields with
  | nil => exact nofun
  | cons field fields ih =>
    rw [List.map_cons] at h
    cases htext : textOf field with
    | some content =>
      rw [List.filterMap_cons_some htext,List.filterMap_cons_some (textOf_cut htext)] at h
      exact List.forall_mem_cons.mpr
        ⟨(textOf_cut htext).trans htext.symm,ih (Nat.le_of_succ_le_succ h)⟩
    | none =>
      cases hcut : textOf (cut field) with
      | some content =>
        rw [List.filterMap_cons_none htext,List.filterMap_cons_some hcut,List.length_cons] at h
        have hle := hmore fields
        omega
      | none =>
        rw [List.filterMap_cons_none htext,List.filterMap_cons_none hcut] at h
        exact List.forall_mem_cons.mpr ⟨hcut.trans htext.symm,ih h⟩

/-- Texts that no cut changes are the same ones. -/
theorem filterMap_textOf_cut {fields : List Field}
    (h : ∀ field∈fields, textOf (cut field)=textOf field) :
    (fields.map cut).filterMap textOf=fields.filterMap textOf := by
  rw [List.filterMap_map]
  exact List.filterMap_congr h

/-- What a successful export has written for the fields of a model. -/
theorem export_records {path : String} {model text : List UInt8} {fields : List Field}
    (fieldsOf : Message fields model)
    (h : exportSentencePieceVocabulary floats path model=some (.ok text)) :
    ∃ records, text=listing floats records ∧
      (∀ record∈records, unsupported floats record=false) ∧
      List.Forall₂ (fun message record => parseSentencePiece floats message=some (.ok record))
        ((fields.map cut).filterMap textOf) records := by
  obtain ⟨count,-,hloop⟩ := export_spec floats h
  rw [loop_message fieldsOf (fun field _ => modelTurn_applies floats path field) _ (Nat.le_refl _),
    foldFields_map] at hloop
  exact foldFields_model floats path _ hloop

/-- The text lists the records exactly if no cut number makes a difference. -/
theorem lists_iff (faithful : floats.Faithful) {path : String} {model text : List UInt8}
    (h : exportSentencePieceVocabulary floats path model=some (.ok text)) :
    Lists floats model text ↔ Settled floats model := by
  constructor
  · rintro ⟨fields,fieldsOf,hlists⟩
    obtain ⟨records,rfl,hsupported,hparsed⟩ := export_records fieldsOf h
    rw [fileLines_listing faithful records hsupported] at hlists
    have hsame : ∀ field∈fields, textOf (cut field)=textOf field := by
      refine textOf_cut_of_length fields (Nat.le_of_eq ?_)
      rw [hparsed.length_eq,←hlists.length_eq,List.length_map]
    refine ⟨fields,fieldsOf,hsame,?_⟩
    rw [filterMap_textOf_cut hsame] at hparsed
    rw [List.forall₂_map_left_iff] at hlists
    intro message hmessage
    -- the record that was written for the message is the one its line gives
    obtain ⟨index,hindex,rfl⟩ := List.mem_iff_getElem.mp hmessage
    have hrecord : index<records.length := hparsed.length_eq ▸ hindex
    have hthis := (List.forall₂_iff_get.mp hparsed).2 index hindex hrecord
    obtain ⟨record,⟨parts,partsOf,hstands⟩,hgives⟩ :=
      (List.forall₂_iff_get.mp hlists).2 index hrecord hindex
    have hwritten := gives_entryLine faithful (hsupported _ (List.get_mem records ⟨index,hrecord⟩))
    have hcut := standsFor_of_parse floats hthis partsOf
    rw [hwritten.unique hgives] at hcut
    exact ⟨parts,partsOf,hcut.1.trans hstands.1.symm,hcut.2.trans hstands.2.symm⟩
  · rintro ⟨fields,fieldsOf,hsame,hparts⟩
    obtain ⟨records,rfl,hsupported,hparsed⟩ := export_records fieldsOf h
    rw [filterMap_textOf_cut hsame] at hparsed
    refine ⟨fields,fieldsOf,?_⟩
    rw [fileLines_listing faithful records hsupported,List.forall₂_map_left_iff]
    refine List.forall₂_iff_get.mpr ⟨hparsed.length_eq.symm,fun index hrecord hindex => ?_⟩
    have hthis := (List.forall₂_iff_get.mp hparsed).2 index hindex hrecord
    obtain ⟨parts,partsOf,htext,hscore⟩ := hparts _ (List.get_mem _ ⟨index,hindex⟩)
    have hcut := standsFor_of_parse floats hthis partsOf
    exact ⟨_,⟨parts,partsOf,htext.symm.trans hcut.1,hscore.symm.trans hcut.2⟩,
      gives_entryLine faithful (hsupported _ (List.get_mem records ⟨index,hrecord⟩))⟩

/-- The text written for a model is valid, and it lists the records of the
model in their order exactly if no number that is cut off makes a difference. -/
theorem exported_vocabulary (faithful : floats.Faithful) (path : String)
    (model text : List UInt8)
    (h : exportSentencePieceVocabulary floats path model=some (.ok text)) :
    (∀ vocabPath, validateBpeVocabulary floats vocabPath text=.ok ()) ∧
      (Lists floats model text ↔ Settled floats model) := by
  obtain ⟨count,hcount,hloop⟩ := export_spec floats h
  refine ⟨fun vocabPath => ?_,lists_iff faithful h⟩
  have hstart : Written floats ([],0) :=
    ⟨[],rfl,rfl,fun _ hmem => absurd hmem List.not_mem_nil,Nat.zero_le _,Nat.zero_le _⟩
  have written : Written floats (text,count) :=
    loop_invariant (modelTurn_written floats path) hstart hloop
  exact validate_written faithful vocabPath written hcount

/-- Zero is printed as its digit. -/
theorem zeroOnly_faithful : zeroOnly.Faithful := by
  intro score hfinite
  have hzero : score=false := by simpa [zeroOnly] using hfinite
  subst hzero
  refine ⟨by decide,?_,rfl⟩
  intro byte hmem
  have hdigit : byte=48 := List.mem_singleton.mp hmem
  subst hdigit
  exact ⟨by decide,by decide,by decide⟩

/-- A model with the piece `a`. -/
theorem exported_vocabulary_piece :
    zeroOnly.Faithful ∧
      exportSentencePieceVocabulary zeroOnly "" [10,3,10,1,97]=some (.ok [97,9,48,10]) ∧
      validateBpeVocabulary zeroOnly "vocab" [97,9,48,10]=.ok () := by
  have h : exportSentencePieceVocabulary zeroOnly "" [10,3,10,1,97]=some (.ok [97,9,48,10]) := by
    decide +kernel
  exact ⟨zeroOnly_faithful,h,(exported_vocabulary zeroOnly_faithful "" _ _ h).1 "vocab"⟩

/-- A model whose only field has the number 2^32+1. -/
def foreignModel : List UInt8 := [138,128,128,128,128,1,3,10,1,97]

/-- A model whose only field is foreign. -/
theorem message_foreignModel : Message [⟨2^32+1,.delimited [10,1,97]⟩] foreignModel := by
  have hkey : Leb128.Fits 64 [138,128,128,128,128,1] ((2^32+1)*8+2) :=
    ⟨.more 138 (by decide) (.more 128 (by decide) (.more 128 (by decide) (.more 128 (by decide)
      (.more 128 (by decide) (.last 1 (by decide)))))),by decide,by decide⟩
  have hlength : Leb128.Fits 64 [3] 3 := ⟨.last 3 (by decide),by decide,by decide⟩
  have hpayload : (Payload.delimited [10,1,97]).Encoded [3,10,1,97] := ⟨[3],hlength,rfl⟩
  exact .cons ⟨2^32+1,.delimited [10,1,97]⟩ hkey hpayload .nil

/-- A model without pieces is exported with the one of another field. -/
theorem foreign_piece_listed :
    zeroOnly.Faithful ∧
      exportSentencePieceVocabulary zeroOnly "" foreignModel=some (.ok [97,9,48,10]) ∧
      ¬Lists zeroOnly foreignModel [97,9,48,10] := by
  refine ⟨zeroOnly_faithful,rfl,?_⟩
  rintro ⟨fields,fieldsOf,hlists⟩
  rw [fieldsOf.unique message_foreignModel] at hlists
  have hlines : ([[97,9,48]] : List (List UInt8)).length=([] : List (List UInt8)).length :=
    hlists.length_eq
  cases hlines

end Validation

end Vinput.BpeVocabulary
