import Vinput.Utf8Codec

/-!
# Results on the bus

The daemon publishes a result as JSON text and the engine reads it back. The
reader accepts partial objects: candidates without a text are dropped, and a
missing text to commit or a missing list of candidates is made from the other.
The JSON library itself is a parameter.
-/

namespace Vinput.RecognitionResult

open ProcessLines (Bytes)

section Payloads

/-- The characters of a name as bytes. -/
def bytes (name : String) : Bytes := name.toList.map fun c => c.toNat.toUInt8

/-- A candidate that is the transcript. -/
def kSourceRaw : Bytes := bytes "raw"

/-- A candidate of a language model. -/
def kSourceLlm : Bytes := bytes "llm"

/-- A candidate of the speech recognition. -/
def kSourceAsr : Bytes := bytes "asr"

/-- A text that is offered. -/
structure Candidate where
  text : Bytes
  source : Bytes
deriving DecidableEq

/-- What is committed and what is offered instead. -/
structure Payload where
  commitText : Bytes := []
  candidates : List Candidate := []
deriving DecidableEq

/-- A candidate as it is read. -/
structure WireCandidate where
  text : Option Bytes := none
  source : Option Bytes := none
deriving DecidableEq

/-- A payload as it is read. -/
structure WirePayload where
  commitText : Option Bytes := none
  candidates : Option (List WireCandidate) := none
deriving DecidableEq

/-- The JSON library. -/
structure Glaze where
  /-- The text of a payload, unless an error is reported. -/
  writeJson : Payload → Option Bytes
  /-- The members of an object; unknown ones are ignored. -/
  read : Bytes → Option WirePayload

end Payloads

section Parsing

variable (glaze : Glaze)

/-- The text of a payload, empty if it has none. -/
def Serialize (payload : Payload) : Bytes := (glaze.writeJson payload).getD []

/-- The candidates that have a text. -/
def readCandidates (wire : List WireCandidate) : List Candidate :=
  wire.filterMap fun candidate =>
    match candidate.text with
    | some text => if text=[] then none else some ⟨text,candidate.source.getD []⟩
    | none => none

/-- The first candidate is committed where nothing else is named. -/
def withCommitText (payload : Payload) : Payload :=
  if payload.commitText=[] then
    match payload.candidates with
    | [] => payload
    | candidate::_ => {payload with commitText := candidate.text}
  else payload

/-- What is committed is offered where nothing else is. -/
def withCandidate (payload : Payload) : Payload :=
  if payload.candidates=[] ∧ payload.commitText≠[] then
    {payload with candidates := [⟨payload.commitText,kSourceRaw⟩]}
  else payload

/-- A payload from what has been read. -/
def fromWire (wire : WirePayload) : Payload :=
  withCandidate (withCommitText
    ⟨wire.commitText.getD [],readCandidates (wire.candidates.getD [])⟩)

/-- An empty text and a text that is no object give the empty payload. -/
def Parse (payloadText : Bytes) : Payload :=
  if payloadText=[] then {}
  else
    match glaze.read payloadText with
    | none => {}
    | some wire =>
      let payload := fromWire wire
      if payload.commitText=[] ∧ payload.candidates=[] then {} else payload

end Parsing

section RoundTrip

variable {glaze : Glaze} {payload : Payload}

/-- What a written payload is read as. -/
def toWire (payload : Payload) : WirePayload :=
  ⟨some payload.commitText,some (payload.candidates.map fun candidate =>
    ⟨some candidate.text,some candidate.source⟩)⟩

/-- The library writes a payload and reads it as it was written. -/
def Glaze.ReadsBack (glaze : Glaze) (payload : Payload) : Prop :=
  ∃ text≠[],glaze.writeJson payload=some text ∧ glaze.read text=some (toWire payload)

/-- A payload that says something: a text to commit and candidates with texts. -/
structure Complete (payload : Payload) : Prop where
  committed : payload.commitText≠[]
  offered : payload.candidates≠[]
  texts : ∀ candidate∈payload.candidates,candidate.text≠[]

/-- A candidate that is read has a text. -/
theorem readCandidates_texts (wire : List WireCandidate) :
    ∀ candidate∈readCandidates wire,candidate.text≠[] := by
  intro candidate hcandidate
  obtain ⟨read,_,hread⟩ := List.mem_filterMap.mp hcandidate
  cases htext : read.text with
  | none => simp [htext] at hread
  | some text =>
    by_cases hempty : text=[]
    · simp [htext,hempty] at hread
    · simp only [htext,if_neg hempty,Option.some.injEq] at hread
      rwa [←hread]

/-- Written candidates with texts are read as they are. -/
theorem readCandidates_toWire {candidates : List Candidate}
    (h : ∀ candidate∈candidates,candidate.text≠[]) :
    readCandidates (candidates.map fun candidate =>
      ⟨some candidate.text,some candidate.source⟩)=candidates := by
  induction candidates with
  | nil => rfl
  | cons candidate rest ih =>
    obtain ⟨hfirst,hrest⟩ := List.forall_mem_cons.mp h
    have hrest := ih hrest
    unfold readCandidates at hrest ⊢
    simp [hfirst,hrest]

/-- Nothing is made up for a payload that is complete. -/
theorem fromWire_toWire (h : Complete payload) : fromWire (toWire payload)=payload := by
  have hcandidates : readCandidates ((toWire payload).candidates.getD [])=payload.candidates :=
    readCandidates_toWire h.texts
  have hcommit : withCommitText payload=payload := if_neg h.committed
  have hcandidate : withCandidate payload=payload := if_neg fun hnone => h.offered hnone.1
  unfold fromWire
  rw [hcandidates]
  change withCandidate (withCommitText payload)=payload
  rw [hcommit,hcandidate]

/-- A text to commit without candidates is offered as it was recognised. -/
theorem fromWire_text {text : Bytes} (h : text≠[]) :
    fromWire (toWire ⟨text,[]⟩)=⟨text,[⟨text,kSourceRaw⟩]⟩ := by
  simp [fromWire,toWire,readCandidates,withCommitText,withCandidate,h]

/-- The text to commit changes no candidates. -/
theorem withCommitText_candidates (payload : Payload) :
    (withCommitText payload).candidates=payload.candidates := by
  unfold withCommitText
  split
  · split <;> rfl
  · rfl

/-- Candidates with texts leave something to commit. -/
theorem withCommitText_committed (h : payload.candidates≠[])
    (htexts : ∀ candidate∈payload.candidates,candidate.text≠[]) :
    (withCommitText payload).commitText≠[] := by
  unfold withCommitText
  split
  · cases hcandidates : payload.candidates with
    | nil => exact absurd hcandidates h
    | cons candidate rest => exact htexts candidate (hcandidates ▸ List.mem_cons_self)
  · assumption

/-- What is read is complete or says nothing. -/
theorem fromWire_complete (wire : WirePayload) :
    Complete (fromWire wire) ∨ fromWire wire=⟨[],[]⟩ := by
  have htexts := readCandidates_texts (wire.candidates.getD [])
  unfold fromWire
  generalize readCandidates (wire.candidates.getD [])=candidates at htexts ⊢
  cases candidates with
  | nil =>
    by_cases hcommit : wire.commitText.getD []=[]
    · right
      simp [withCommitText,withCandidate,hcommit]
    · left
      constructor <;> simp [withCommitText,withCandidate,hcommit]
  | cons candidate rest =>
    left
    have hkept := withCommitText_candidates ⟨wire.commitText.getD [],candidate::rest⟩
    have hcommitted := @withCommitText_committed ⟨wire.commitText.getD [],candidate::rest⟩
      (List.cons_ne_nil candidate rest) htexts
    have hsame : ∀ payload : Payload,payload.candidates≠[] → withCandidate payload=payload :=
      fun payload h => if_neg fun hnone => h hnone.1
    rw [hsame _ (hkept ▸ List.cons_ne_nil candidate rest)]
    exact ⟨hcommitted,hkept ▸ List.cons_ne_nil candidate rest,hkept ▸ htexts⟩

/-- What the engine goes on with is complete, whatever came over the bus. -/
theorem parse_complete (text : Bytes) : Complete (Parse glaze text) ∨ Parse glaze text={} := by
  unfold Parse
  split
  · exact .inr rfl
  · split
    · exact .inr rfl
    · rename_i wire _
      dsimp only
      split
      · exact .inr rfl
      · exact fromWire_complete wire

/-- A written payload is read as its members are. -/
theorem parse_serialize (hglaze : glaze.ReadsBack payload) :
    Parse glaze (Serialize glaze payload)=fromWire (toWire payload) := by
  obtain ⟨text,htext,hwrite,hread⟩ := hglaze
  have hserialize : Serialize glaze payload=text := by
    unfold Serialize
    rw [hwrite,Option.getD_some]
  unfold Parse
  rw [hserialize,if_neg htext,hread]
  dsimp only
  split
  · rename_i hempty
    rcases fromWire_complete (toWire payload) with hcomplete | hnothing
    · exact absurd hempty.1 hcomplete.committed
    · exact hnothing.symm
  · rfl

end RoundTrip

end Vinput.RecognitionResult
