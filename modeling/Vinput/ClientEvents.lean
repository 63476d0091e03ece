import Vinput.CompactJson
import Vinput.RecognitionResult
import Vinput.SignatureText

/-!
# Events for clients

The daemon tells its clients of its status and of texts, each in one line of
JSON. The writer spoils control characters it has no escape for, so they are
left out of the texts first. Every line then has printable bytes only, and its
texts are read back as they were but for the characters left out. Results on the
bus are written by the same library, with nothing left out.
-/

namespace Vinput.ClientEvents

open AsrSettings (escapeBlocks escapeOf escapeTail)
open CompactJson
open ProcessLines (Bytes newline)
open RecognitionResult (Candidate Glaze Payload WireCandidate WirePayload toWire)

section Events

/-- The control characters the writer has an escape for. -/
def glazeEscapable (byte : UInt8) : Bool :=
  byte=8 || byte=9 || byte=10 || byte=12 || byte=13

/-- Control bytes without a short escape are left out. -/
def SanitizeText (text : Bytes) : Bytes :=
  text.filter fun byte => !(byte<32 && !glazeEscapable byte)

/-- What clients are told. -/
inductive Event where
  | status (status : Bytes) (ime : Bool)
  | partialText (text : Bytes) (ime : Bool)
  | committed (payload : Payload) (ime : Bool)
deriving DecidableEq

/-- A candidate as it is sent. -/
def candidateWire (candidate : Candidate) : Tree :=
  .object [(word "text",.text candidate.text),(word "source",.text candidate.source)]

/-- The members of an event in the order of their declaration. -/
def wire : Event → Tree
  | .status status ime =>
    .object [(word "type",.text (word "status")),(word "status",.text status),
      (word "ime",.flag ime)]
  | .partialText text ime =>
    .object [(word "type",.text (word "partial")),(word "text",.text text),
      (word "ime",.flag ime)]
  | .committed payload ime =>
    .object [(word "type",.text (word "committed")),(word "text",.text payload.commitText),
      (word "candidates",.array (payload.candidates.map candidateWire)),(word "ime",.flag ime)]

/-- What the JSON writer puts between two quotes. -/
def inside (text : Bytes) : Bytes := escapeBlocks text.length text

/-- A tree as one line. -/
def writeJson (tree : Tree) : Bytes := write inside tree

/-- The line of a status. -/
def SerializeStatusEvent (status : Bytes) (ime : Bool) : Bytes :=
  writeJson (wire (.status (SanitizeText status) ime))

/-- The line of a partial text. -/
def SerializePartialEvent (text : Bytes) (ime : Bool) : Bytes :=
  writeJson (wire (.partialText (SanitizeText text) ime))

/-- The line of a committed payload. -/
def SerializeCommittedEvent (payload : Payload) (ime : Bool) : Bytes :=
  writeJson (wire (.committed ⟨SanitizeText payload.commitText,payload.candidates.map
    fun candidate => ⟨SanitizeText candidate.text,candidate.source⟩⟩ ime))

/-- The line of an event. -/
def serialize : Event → Bytes
  | .status status ime => SerializeStatusEvent status ime
  | .partialText text ime => SerializePartialEvent text ime
  | .committed payload ime => SerializeCommittedEvent payload ime

end Events

section Reading

/-- A string member. -/
def textIn (name : String) (tree : Tree) : Option Bytes :=
  match tree.find (word name) with
  | some (.text bytes) => some bytes
  | _ => none

/-- A flag that is received. -/
def flagIn (name : String) (tree : Tree) : Option Bool :=
  match tree.find (word name) with
  | some (.flag value) => some value
  | _ => none

/-- A candidate that is received. -/
def candidateIn (tree : Tree) : Option Candidate := do
  return ⟨← textIn "text" tree,← textIn "source" tree⟩

/-- Candidates that are received. -/
def candidatesIn (tree : Tree) : Option (List Candidate) :=
  match tree.find (word "candidates") with
  | some (.array elements) => elements.mapM candidateIn
  | _ => none

/-- The event that a client finds in a tree. -/
def eventIn (tree : Tree) : Option Event := do
  let type ← textIn "type" tree
  let ime ← flagIn "ime" tree
  if type=word "status" then return .status (← textIn "status" tree) ime
  else if type=word "partial" then return .partialText (← textIn "text" tree) ime
  else if type=word "committed" then
    return .committed ⟨← textIn "text" tree,← candidatesIn tree⟩ ime
  else none

/-- The event that a client finds in a line. -/
def readEvent (line : Bytes) : Option Event := (read line).bind eventIn

end Reading

section Strings

variable {text : Bytes}

/-- No control byte is without an escape. -/
def Plain (text : Bytes) : Prop := ∀ byte∈text,byte<32 → escapeOf byte≠none

instance (text : Bytes) : Decidable (Plain text) :=
  inferInstanceAs (Decidable (∀ byte∈text,byte<32 → escapeOf byte≠none))

/-- A text without control bytes is plain. -/
theorem plain_of_printable (h : ∀ byte∈text,32≤byte) : Plain text :=
  fun byte hbyte hcontrol => absurd hcontrol (UInt8.not_lt.mpr (h byte hbyte))

theorem plain_SanitizeText (text : Bytes) : Plain (SanitizeText text) := by
  intro byte hbyte hcontrol
  have hkept := (List.mem_filter.mp hbyte).2
  have hescapable : glazeEscapable byte=true := by simpa [hcontrol] using hkept
  simp only [glazeEscapable,Bool.or_eq_true,decide_eq_true_eq] at hescapable
  rcases hescapable with (((rfl | rfl) | rfl) | rfl) | rfl <;> decide

/-- Escapes are read as the bytes they stand for. -/
theorem escaped_of_escapeOf {byte : UInt8} {escape : List UInt8} (h : escapeOf byte=some escape) :
    ∃ letter,escape=[92,letter] ∧ escaped letter=some byte ∧ 32≤letter := by
  unfold escapeOf at h
  split_ifs at h with hbyte hbyte hbyte hbyte hbyte hbyte hbyte <;>
    exact ⟨_,(Option.some.inj h).symm,by rw [hbyte]; decide,by decide⟩

/-- A text is read up to its closing quote. -/
theorem readable_inside (h : Plain text) : Readable inside text := by
  intro rest
  unfold inside
  rw [SignatureText.escapeBlocks_of_plain h]
  induction text with
  | nil => exact readInside_quote rest
  | cons byte text ih =>
    have hrest := ih fun other hother => h other (List.mem_cons_of_mem byte hother)
    rw [SignatureText.escapeTail_cons,List.append_assoc]
    cases hescape : escapeOf byte with
    | none =>
      obtain ⟨hquote,hback⟩ := SignatureText.escapeOf_eq_none hescape
      have hprintable : ¬byte<32 := fun hcontrol => h byte List.mem_cons_self hcontrol hescape
      rw [Option.getD_none,List.singleton_append,readInside_letter hquote hback hprintable,hrest]
      rfl
    | some escape =>
      obtain ⟨letter,rfl,hletter,-⟩ := escaped_of_escapeOf hescape
      rw [Option.getD_some,List.cons_append,List.singleton_append,readInside_escape hletter,hrest]
      rfl

/-- Nothing unprintable stands between the quotes. -/
theorem printable_inside (h : Plain text) : ∀ byte∈inside text,32≤byte := by
  unfold inside
  rw [SignatureText.escapeBlocks_of_plain h]
  intro byte hbyte
  obtain ⟨origin,horigin,hmem⟩ := List.mem_flatMap.mp hbyte
  cases hescape : escapeOf origin with
  | none =>
    rw [hescape] at hmem
    obtain rfl : byte=origin := List.mem_singleton.mp hmem
    exact UInt8.not_lt.mp fun hcontrol => h byte horigin hcontrol hescape
  | some escape =>
    obtain ⟨letter,rfl,-,hletter⟩ := escaped_of_escapeOf hescape
    rw [hescape] at hmem
    rcases List.mem_cons.mp hmem with rfl | hmem
    · decide
    · exact List.mem_singleton.mp hmem ▸ hletter

end Strings

section RoundTrip

variable {event : Event}

/-- The sources of candidates have no control characters without an escape. -/
def Sourced : Event → Prop
  | .committed payload _ => ∀ candidate∈payload.candidates,Plain candidate.source
  | _ => True

/-- What is left of an event. -/
def sanitized : Event → Event
  | .status status ime => .status (SanitizeText status) ime
  | .partialText text ime => .partialText (SanitizeText text) ime
  | .committed payload ime => .committed ⟨SanitizeText payload.commitText,payload.candidates.map
      fun candidate => ⟨SanitizeText candidate.text,candidate.source⟩⟩ ime

/-- What is sent is the sanitised event. -/
theorem serialize_eq (event : Event) : serialize event=writeJson (wire (sanitized event)) := by
  cases event <;> rfl

/-- The texts of candidates are those sent with them. -/
theorem texts_candidates (candidates : List Candidate) :
    ∀ text∈textsElements (candidates.map candidateWire),
      text∈[word "text",word "source"] ∨
        ∃ candidate∈candidates,text=candidate.text ∨ text=candidate.source := by
  induction candidates with
  | nil => exact fun text htext => absurd htext List.not_mem_nil
  | cons candidate rest ih =>
    intro text htext
    rcases List.mem_append.mp htext with htext | htext
    · simp only [candidateWire,texts,textsMembers,List.mem_cons,List.mem_append,
        List.not_mem_nil,or_false] at htext
      rcases htext with rfl | rfl | rfl | rfl
      · exact .inl (by simp)
      · exact .inr ⟨candidate,List.mem_cons_self,.inl rfl⟩
      · exact .inl (by simp)
      · exact .inr ⟨candidate,List.mem_cons_self,.inr rfl⟩
    · refine (ih text htext).imp_right ?_
      rintro ⟨other,hother,hsame⟩
      exact ⟨other,List.mem_cons_of_mem candidate hother,hsame⟩

/-- The words that an event is written with. -/
theorem plain_names : ∀ name∈[word "type",word "status",word "ime",word "partial",word "text",
    word "committed",word "candidates",word "source"],Plain name := by
  have hbytes : [word "type",word "status",word "ime",word "partial",word "text",
      word "committed",word "candidates",word "source"]=
    [[116,121,112,101],[115,116,97,116,117,115],[105,109,101],[112,97,114,116,105,97,108],
      [116,101,120,116],[99,111,109,109,105,116,116,101,100],
      [99,97,110,100,105,100,97,116,101,115],[115,111,117,114,99,101]] := rfl
  intro name hname
  rw [hbytes] at hname
  refine plain_of_printable ?_
  revert name
  simp

/-- The strings of a sanitized event have no such characters. -/
theorem plain_texts (h : Sourced event) : ∀ text∈texts (wire (sanitized event)),Plain text := by
  have hnames := plain_names
  cases event with
  | status status ime =>
    intro text htext
    simp only [sanitized,wire,texts,textsMembers,List.mem_cons,List.mem_append,
      List.not_mem_nil,or_false] at htext
    rcases htext with rfl | rfl | rfl | rfl | rfl
    all_goals first | exact plain_SanitizeText _ | exact hnames _ (by simp)
  | partialText partialText ime =>
    intro text htext
    simp only [sanitized,wire,texts,textsMembers,List.mem_cons,List.mem_append,
      List.not_mem_nil,or_false] at htext
    rcases htext with rfl | rfl | rfl | rfl | rfl
    all_goals first | exact plain_SanitizeText _ | exact hnames _ (by simp)
  | committed payload ime =>
    intro text htext
    simp only [sanitized,wire,texts,textsMembers,List.mem_cons,List.mem_append,
      List.not_mem_nil,or_false] at htext
    rcases htext with rfl | rfl | rfl | rfl | rfl | hcandidate | rfl
    · exact hnames _ (by simp)
    · exact hnames _ (by simp)
    · exact hnames _ (by simp)
    · exact plain_SanitizeText _
    · exact hnames _ (by simp)
    · rcases texts_candidates _ text hcandidate with hname | ⟨candidate,hmem,hsame⟩
      · simp only [List.mem_cons,List.not_mem_nil,or_false] at hname
        rcases hname with rfl | rfl <;> exact hnames _ (by simp)
      · obtain ⟨origin,horigin,rfl⟩ := List.mem_map.mp hmem
        rcases hsame with rfl | rfl
        · exact plain_SanitizeText origin.text
        · exact h origin horigin
    · exact hnames _ (by simp)

/-- Candidates are received as they were sent. -/
theorem candidatesIn_wire (candidates : List Candidate) :
    (candidates.map candidateWire).mapM candidateIn=some candidates := by
  have hcandidate : ∀ candidate,candidateIn (candidateWire candidate)=some candidate :=
    fun candidate => rfl
  induction candidates with
  | nil => rfl
  | cons candidate rest ih =>
    rw [List.map_cons,List.mapM_cons,hcandidate,ih]
    rfl

/-- A client finds the event in its tree. -/
theorem eventIn_wire (event : Event) : eventIn (wire event)=some event := by
  cases event with
  | status status ime => rfl
  | partialText text ime => rfl
  | committed payload ime =>
    have hcandidates : candidatesIn (wire (.committed payload ime))=some payload.candidates :=
      candidatesIn_wire payload.candidates
    unfold eventIn
    rw [hcandidates]
    rfl

/-- A client reads the event that is left. -/
theorem readEvent_serialize (h : Sourced event) :
    readEvent (serialize event)=some (sanitized event) := by
  have hread : read (writeJson (wire (sanitized event)))=some (wire (sanitized event)) :=
    read_write fun text htext => readable_inside (plain_texts h text htext)
  unfold readEvent
  rw [serialize_eq,hread]
  exact eventIn_wire (sanitized event)

/-- The line of an event is one line of printable bytes. -/
theorem printable_serialize (h : Sourced event) : ∀ byte∈serialize event,32≤byte := by
  rw [serialize_eq]
  exact printable_write _ fun text htext => printable_inside (plain_texts h text htext)

theorem newline_notMem_serialize (h : Sourced event) : newline∉serialize event :=
  fun hmem => absurd (printable_serialize h newline hmem) (by decide)

end RoundTrip

section Results

/-- The members of a result in the order of their declaration. -/
def payloadWire (payload : Payload) : Tree :=
  .object [(word "commit_text",.text payload.commitText),
    (word "candidates",.array (payload.candidates.map candidateWire))]

/-- A string member that may be left out. -/
def optionalTextIn (name : String) (tree : Tree) : Option (Option Bytes) :=
  match tree.find (word name) with
  | none => some none
  | some (.text bytes) => some (some bytes)
  | some _ => none

/-- A candidate in wire form. -/
def wireCandidateIn : Tree → Option WireCandidate
  | .object members => do
    return ⟨← optionalTextIn "text" (.object members),
      ← optionalTextIn "source" (.object members)⟩
  | _ => none

/-- Candidates in wire form. -/
def wireCandidatesIn (tree : Tree) : Option (Option (List WireCandidate)) :=
  match tree.find (word "candidates") with
  | none => some none
  | some (.array elements) => (elements.mapM wireCandidateIn).map some
  | some _ => none

/-- A payload in wire form. -/
def wirePayloadIn : Tree → Option WirePayload
  | .object members => do
    return ⟨← optionalTextIn "commit_text" (.object members),
      ← wireCandidatesIn (.object members)⟩
  | _ => none

/-- The vendored library, which reads the compact texts that it writes. -/
def vendored : Glaze where
  writeJson payload := some (writeJson (payloadWire payload))
  read text := (read text).bind wirePayloadIn

variable {payload : Payload}

/-- Wire forms are received as they were sent. -/
theorem wireCandidatesIn_wire (candidates : List Candidate) :
    (candidates.map candidateWire).mapM wireCandidateIn=
      some (candidates.map fun candidate => ⟨some candidate.text,some candidate.source⟩) := by
  have hcandidate : ∀ candidate,wireCandidateIn (candidateWire candidate)=
      some ⟨some candidate.text,some candidate.source⟩ :=
    fun candidate => rfl
  induction candidates with
  | nil => rfl
  | cons candidate rest ih =>
    rw [List.map_cons,List.mapM_cons,hcandidate,ih]
    rfl

/-- The members of a result are found in its tree. -/
theorem wirePayloadIn_wire (payload : Payload) :
    wirePayloadIn (payloadWire payload)=some (toWire payload) := by
  have hcandidates : wireCandidatesIn (payloadWire payload)=
      some (toWire payload).candidates :=
    congrArg (Option.map some) (wireCandidatesIn_wire payload.candidates)
  unfold payloadWire at hcandidates ⊢
  unfold wirePayloadIn
  dsimp only
  rw [hcandidates]
  rfl

/-- The strings of a result are its texts and the names of its members. -/
theorem plain_payload (hcommit : Plain payload.commitText)
    (h : ∀ candidate∈payload.candidates,Plain candidate.text ∧ Plain candidate.source) :
    ∀ text∈texts (payloadWire payload),Plain text := by
  have hbytes : word "commit_text"=[99,111,109,109,105,116,95,116,101,120,116] := rfl
  have hname : Plain (word "commit_text") := by
    rw [hbytes]
    exact plain_of_printable (by simp)
  intro text htext
  simp only [payloadWire,texts,textsMembers,List.mem_cons,List.mem_append,List.not_mem_nil,
    or_false] at htext
  rcases htext with rfl | rfl | rfl | hcandidate
  · exact hname
  · exact hcommit
  · exact plain_names _ (by simp)
  · rcases texts_candidates _ text hcandidate with hword | ⟨candidate,hmem,rfl | rfl⟩
    · simp only [List.mem_cons,List.not_mem_nil,or_false] at hword
      rcases hword with rfl | rfl <;> exact plain_names _ (by simp)
    · exact (h candidate hmem).1
    · exact (h candidate hmem).2

/-- A result without control characters that have no escape is read back. -/
theorem readsBack_vendored (hcommit : Plain payload.commitText)
    (h : ∀ candidate∈payload.candidates,Plain candidate.text ∧ Plain candidate.source) :
    vendored.ReadsBack payload := by
  have hread : read (writeJson (payloadWire payload))=some (payloadWire payload) :=
    read_write fun text htext => readable_inside (plain_payload hcommit h text htext)
  have hwire := wirePayloadIn_wire payload
  refine ⟨writeJson (payloadWire payload),List.cons_ne_nil _ _,rfl,?_⟩
  change (read (writeJson (payloadWire payload))).bind wirePayloadIn=some (toWire payload)
  rw [hread]
  exact hwire

end Results

end Vinput.ClientEvents
