import Vinput.ContextHistory
import Vinput.InterleavedRuns

/-!
# What the context history tells

What the engine hears, in order, is cut into chapters: one for each noted text
and one for each sentence typed into one input context. A typed chapter ends
with its sentence, or where a pause, a noted text or another input context comes
next, and nowhere else. Every chapter is one line of the history; only what waits
when the history is turned off is lost. The text the engine commits by itself is
not heard again.
-/

namespace Vinput.ContextHistoryRuns

open ContextHistory
open FrontendSession (InputContext)
open InterleavedRuns
open ProcessLines (Bytes)
open RecognitionResult

section Chapters

/-- What the engine hears. -/
inductive Piece where
  | typed (text : Bytes) (ic : InputContext)
  | noted (text source : Bytes)
  /-- Nothing is typed for a while, a recording begins or the input context goes away. -/
  | pause
  /-- The history is turned off. -/
  | off
deriving DecidableEq

/-- What is heard of a text that is appended: nothing when the history is off. -/
def notedPieces (engine : Engine) (text source : Bytes) : List Piece :=
  if engine.maxContextLines ≤ 0 ∨ text=[] then [] else [.noted text source]

/-- What is heard of the recognised text of a result. -/
def recognisedPieces (engine : Engine) (payload : Payload) (command : Option Bytes) : List Piece :=
  match asrCandidate payload command with
  | some candidate => notedPieces engine candidate.text kSourceAsr
  | none => []

/-- What is heard of a result. -/
def resultPieces (engine : Engine) (payload : Payload) (command : Option Bytes) : List Piece :=
  recognisedPieces engine payload command++
  if shouldShowResultMenu payload command then []
  else if commitFromLlm payload then notedPieces engine payload.commitText kSourceLlm
  else []

/-- What is heard of an event, whatever waits to be written. -/
def heardBy (library : Library) (engine : Engine) : Event → List Piece
  | .commitString text ic =>
    if engine.maxContextLines ≤ 0 ∨ text=[] ∨ engine.pendingSuppressedCommitText=some text then []
    else [.typed text ic]
  | .recognitionResult payloadText command (some _) =>
    let payload := Parse library.glaze payloadText
    if payload.commitText=[] then [] else resultPieces engine payload command
  | .selectResult index _ =>
    match engine.resultCandidates[index]? with
    | some chosen =>
      if chosen.source=kSourceLlm then notedPieces engine chosen.text kSourceLlm else []
    | none => []
  | .reloadSceneConfig contextLines => if contextLines.foldl max 0 ≤ 0 then [.off] else []
  | .startRecording => [.pause]
  | .contextFlushTimer => if engine.contextFlushTimer then [.pause] else []
  | .inputContextDestroyed ic => if engine.contextBufferIc=some ic then [.pause] else []
  | _ => []

/-- A stretch of what is heard. -/
inductive Chapter where
  | note (text source : Bytes)
  | typed (ic : InputContext) (texts : List Bytes)
  | pause
  /-- Typed, but not written before the history was turned off. -/
  | lost (ic : InputContext) (texts : List Bytes)

/-- Texts that are typed one after the other. -/
def typedPieces (ic : InputContext) (texts : List Bytes) : List Piece :=
  texts.map fun text => .typed text ic

/-- What is heard in a chapter. -/
def Chapter.pieces : Chapter → List Piece
  | .note text source => [.noted text source]
  | .typed ic texts => typedPieces ic texts
  | .pause => [.pause]
  | .lost ic texts => typedPieces ic texts++[.off]

variable (tables : UnicodeTables)

/-- Texts joined in order. -/
def joinAll (texts : List Bytes) : Bytes := texts.foldl (joinText tables) []

/-- Text and source of the line of a chapter. -/
def Chapter.entry : Chapter → Option (Bytes×Bytes)
  | .note text source => some (SanitizeUtf8 text,SanitizeUtf8 source)
  | .typed _ texts => some (SanitizeUtf8 (joinAll tables texts),SanitizeUtf8 kContextSourceUser)
  | .pause => none
  | .lost _ _ => none

/-- No sentence ends at any of the texts. -/
def Unfinished (texts : List Bytes) : Prop :=
  ∀ front≠[],front<+:texts → EndsWithSentenceTerminal tables (joinAll tables front)=false

/-- A typed chapter has a text, and a sentence ends at the last one at most. -/
def Chapter.Sound : Chapter → Prop
  | .typed _ texts => texts≠[] ∧ Unfinished tables texts.dropLast
  | _ => True

/-- A typed chapter ends before any piece but one typed into its own input context, and
but for the end of the history. -/
def Piece.ends (ic : InputContext) : Piece → Bool
  | .typed _ other => decide (other≠ic)
  | .off => false
  | _ => true

/-- A typed chapter ends with its sentence or with the next piece. -/
def Ended (ic : InputContext) (texts : List Bytes) (next : List Piece) : Prop :=
  EndsWithSentenceTerminal tables (joinAll tables texts)=true ∨
    ∃ piece,next.head?=some piece ∧ piece.ends ic=true

/-- Typed chapters end nowhere else. -/
def Cut (chapters : List Chapter) (next : List Piece) : Prop :=
  ∀ front ic texts back,chapters=front++.typed ic texts::back →
    Ended tables ic texts (back.flatMap Chapter.pieces++next)

/-- What has been heard is written or waits in the buffer. -/
structure Accounts (engine : Engine) (heard : List Piece) (chapters : List Chapter)
    (ic : InputContext) (waiting : List Bytes) : Prop where
  written : engine.written.map (fun entry => (entry.text,entry.source))=
    chapters.filterMap (Chapter.entry tables)
  heard : heard=chapters.flatMap Chapter.pieces++typedPieces ic waiting
  buffer : engine.contextBufferText=joinAll tables waiting
  owner : waiting≠[] → engine.contextBufferIc=some ic
  enabled : waiting≠[] → 0< engine.maxContextLines
  texts : ∀ text∈waiting,text≠[]
  unfinished : Unfinished tables waiting.dropLast
  sound : ∀ chapter∈chapters,chapter.Sound tables

/-- Between events no sentence is over, and the timer runs while a text waits. What is
heard next may be known. -/
structure Settled (engine : Engine) (heard : List Piece) (chapters : List Chapter)
    (ic : InputContext) (waiting : List Bytes) (next : List Piece) : Prop where
  accounts : Accounts tables engine heard chapters ic waiting
  cut : Cut tables chapters (typedPieces ic waiting++next)
  open_ : Unfinished tables waiting
  timer : engine.contextFlushTimer=true ↔ waiting≠[]

/-- What has been heard is explained by chapters and what still waits. -/
def Explained (engine : Engine) (heard : List Piece) : Prop :=
  ∃ chapters ic waiting,Settled tables engine heard chapters ic waiting []

end Chapters

section Joining

variable {tables : UnicodeTables} {texts : List Bytes} {text : Bytes}

/-- Joining a text leaves something in the buffer. -/
theorem joinText_ne_nil (buffer : Bytes) (h : text≠[]) : joinText tables buffer text≠[] := by
  unfold joinText
  exact List.append_ne_nil_of_right_ne_nil _ h

theorem joinAll_concat (texts : List Bytes) (text : Bytes) :
    joinAll tables (texts++[text])=joinText tables (joinAll tables texts) text := by
  unfold joinAll
  rw [List.foldl_append]
  rfl

/-- Only no texts make an empty buffer. -/
theorem joinAll_eq_nil_iff (h : ∀ text∈texts,text≠[]) : joinAll tables texts=[] ↔ texts=[] := by
  rcases List.eq_nil_or_concat texts with rfl | ⟨front,last,rfl⟩
  · exact iff_of_true rfl rfl
  · rw [List.concat_eq_append] at h ⊢
    have hlast : last≠[] := h last (List.mem_append_right _ List.mem_cons_self)
    rw [joinAll_concat]
    exact iff_of_false (joinText_ne_nil _ hlast) (by simp)

/-- No texts leave nothing unfinished. -/
theorem unfinished_nil : Unfinished tables [] := by
  intro front hne hfront
  exact absurd (List.prefix_nil.mp hfront) hne

/-- The texts before the last one were not finished either. -/
theorem Unfinished.dropLast (h : Unfinished tables texts) : Unfinished tables texts.dropLast :=
  fun front hne hfront => h front hne (hfront.trans (List.dropLast_prefix texts))

/-- A text that ends no sentence may be added. -/
theorem Unfinished.concat (h : Unfinished tables texts)
    (htext : EndsWithSentenceTerminal tables (joinAll tables (texts++[text]))=false) :
    Unfinished tables (texts++[text]) := by
  intro front hne hfront
  rcases List.prefix_concat_iff.mp hfront with rfl | hfront
  · exact htext
  · exact h front hne hfront

@[simp] theorem typedPieces_nil (ic : InputContext) : typedPieces ic []=[] := rfl

/-- Typed texts are pieces one by one. -/
theorem typedPieces_concat (ic : InputContext) :
    typedPieces ic (texts++[text])=typedPieces ic texts++[.typed text ic] := List.map_append

end Joining

section Cutting

variable {tables : UnicodeTables} {ic : InputContext} {texts : List Bytes}
  {chapters : List Chapter} {chapter : Chapter} {next : List Piece}

/-- A chapter that has ended stays so. -/
theorem Ended.more (h : Ended tables ic texts next) (later : List Piece) :
    Ended tables ic texts (next++later) := by
  refine h.imp_right ?_
  rintro ⟨piece,hpiece,hends⟩
  exact ⟨piece,by rw [List.head?_append,hpiece]; rfl,hends⟩

/-- No texts are cut off by anything. -/
theorem cut_nil : Cut tables [] next :=
  fun front ic texts back h => absurd h (by simp)

/-- What is heard later does not change where a chapter ended. -/
theorem Cut.more (h : Cut tables chapters next) (later : List Piece) :
    Cut tables chapters (next++later) := by
  intro front ic texts back hchapters
  rw [←List.append_assoc]
  exact (h front ic texts back hchapters).more later

/-- One more chapter, which is ended by what comes behind it. -/
theorem Cut.concat (h : Cut tables chapters (chapter.pieces++next))
    (hended : ∀ ic texts,chapter=.typed ic texts → Ended tables ic texts next) :
    Cut tables (chapters++[chapter]) next := by
  intro front ic texts back hchapters
  rcases List.eq_nil_or_concat back with rfl | ⟨between,last,rfl⟩
  · obtain ⟨-,hlast⟩ := List.append_inj' hchapters rfl
    exact hended ic texts (List.singleton_inj.mp hlast)
  · rw [List.concat_eq_append,←List.cons_append,←List.append_assoc] at hchapters
    obtain ⟨hfront,hlast⟩ := List.append_inj' hchapters rfl
    have hold := h front ic texts between hfront
    rw [List.singleton_inj.mp hlast] at hold
    rw [List.concat_eq_append,List.flatMap_append,List.append_assoc]
    simpa using hold

end Cutting

section Steps

variable {tables : UnicodeTables} {engine other : Engine} {heard : List Piece}
  {chapters : List Chapter} {ic : InputContext} {waiting : List Bytes} {next : List Piece}

/-- The account reads five fields of the engine. -/
structure SameHistory (engine other : Engine) : Prop where
  written : other.written=engine.written
  text : other.contextBufferText=engine.contextBufferText
  ic : other.contextBufferIc=engine.contextBufferIc
  timer : other.contextFlushTimer=engine.contextFlushTimer
  lines : other.maxContextLines=engine.maxContextLines

/-- The account only looks at the history. -/
theorem Accounts.frame (h : Accounts tables engine heard chapters ic waiting)
    (hsame : SameHistory engine other) : Accounts tables other heard chapters ic waiting where
  written := hsame.written ▸ h.written
  heard := h.heard
  buffer := hsame.text ▸ h.buffer
  owner := hsame.ic ▸ h.owner
  enabled := hsame.lines ▸ h.enabled
  texts := h.texts
  unfinished := h.unfinished
  sound := h.sound

theorem Settled.frame (h : Settled tables engine heard chapters ic waiting next)
    (hsame : SameHistory engine other) : Settled tables other heard chapters ic waiting next where
  accounts := h.accounts.frame hsame
  cut := h.cut
  open_ := h.open_
  timer := hsame.timer ▸ h.timer

/-- What explains a history explains every engine with the same one. -/
theorem Explained.frame (h : Explained tables engine heard) (hsame : SameHistory engine other) :
    Explained tables other heard := by
  obtain ⟨chapters,ic,waiting,hsettled⟩ := h
  exact ⟨chapters,ic,waiting,hsettled.frame hsame⟩

/-- The buffer is empty when no text waits. -/
theorem Accounts.buffer_empty (h : Accounts tables engine heard chapters ic waiting) :
    engine.contextBufferText=[] ↔ waiting=[] := by
  rw [h.buffer]
  exact joinAll_eq_nil_iff h.texts

/-- A flush writes what waits as one chapter, which ends there. -/
theorem Accounts.flush (h : Accounts tables engine heard chapters ic waiting)
    (hcut : Cut tables chapters (typedPieces ic waiting++next))
    (hended : waiting≠[] → Ended tables ic waiting next) :
    ∃ chapters,Accounts tables (flushContextBuffer engine) heard chapters ic [] ∧
      Cut tables chapters next := by
  by_cases hempty : waiting=[]
  · have htext : engine.contextBufferText=[] := h.buffer_empty.mpr hempty
    have hflush : flushContextBuffer engine={engine with contextBufferIc := none} := by
      simp [flushContextBuffer,htext]
    subst hempty
    refine ⟨chapters,?_,hcut⟩
    rw [hflush]
    exact ⟨h.written,h.heard,h.buffer,fun hne => absurd rfl hne,h.enabled,h.texts,h.unfinished,
      h.sound⟩
  · have htext : engine.contextBufferText≠[] := fun hnil => hempty (h.buffer_empty.mp hnil)
    have hon : ¬engine.maxContextLines ≤ 0 := not_le.mpr (h.enabled hempty)
    have hchapter : Cut tables (chapters++[.typed ic waiting]) next := by
      refine Cut.concat hcut fun other texts htyped => ?_
      cases htyped
      exact hended hempty
    refine ⟨chapters++[.typed ic waiting],⟨?_,?_,?_,?_,?_,?_,unfinished_nil,?_⟩,hchapter⟩
    · have hwritten : (flushContextBuffer engine).written=engine.written++
          [⟨SanitizeUtf8 engine.contextBufferText,SanitizeUtf8 kContextSourceUser,engine.now,
            engine.maxContextLines⟩] := by
        simp [flushContextBuffer,htext,hon,enqueue]
      rw [hwritten,List.map_append,h.written,List.filterMap_append,h.buffer]
      rfl
    · simp [h.heard,Chapter.pieces]
    · simp [flushContextBuffer,htext,hon,joinAll]
    · exact fun hne => absurd rfl hne
    · exact fun hne => absurd rfl hne
    · exact fun text htext => absurd htext List.not_mem_nil
    · intro chapter hchapter
      rcases List.mem_append.mp hchapter with hold | hnew
      · exact h.sound chapter hold
      · rw [List.mem_singleton.mp hnew]
        exact ⟨hempty,h.unfinished⟩

/-- A flush keeps the limit of lines. -/
theorem flush_lines (engine : Engine) :
    (flushContextBuffer engine).maxContextLines=engine.maxContextLines := by
  simp only [flushContextBuffer,enqueue]
  split_ifs <;> rfl

/-- After a flush the timer does not run. -/
theorem flush_timer (h : engine.contextFlushTimer=true → engine.contextBufferText≠[]) :
    (flushContextBuffer engine).contextFlushTimer=false := by
  simp only [flushContextBuffer]
  split_ifs with htext
  · exact Bool.eq_false_iff.mpr fun htimer => h htimer htext
  · rfl
  · rfl

/-- A flush ends the chapter of the texts that wait. -/
theorem Settled.flush (h : Settled tables engine heard chapters ic waiting next)
    (hended : waiting≠[] → Ended tables ic waiting next) :
    ∃ chapters,Settled tables (flushContextBuffer engine) heard chapters ic [] next := by
  obtain ⟨chapters',haccounts,hcut⟩ := h.accounts.flush h.cut hended
  have htimer : (flushContextBuffer engine).contextFlushTimer=false :=
    flush_timer fun hrun hnil => h.timer.mp hrun (h.accounts.buffer_empty.mp hnil)
  exact ⟨chapters',haccounts,hcut,unfinished_nil,by simp [htimer]⟩

/-- What is heard next is known. -/
theorem Settled.more (h : Settled tables engine heard chapters ic waiting []) (next : List Piece) :
    Settled tables engine heard chapters ic waiting next where
  accounts := h.accounts
  cut := by
    have hcut := h.cut.more next
    rw [List.append_nil] at hcut
    exact hcut
  open_ := h.open_
  timer := h.timer

/-- A chapter of its own, with nothing waiting. -/
theorem Settled.add (chapter : Chapter)
    (h : Settled tables engine heard chapters ic [] (chapter.pieces++next))
    (hwritten : other.written.map (fun entry => (entry.text,entry.source))=
      engine.written.map (fun entry => (entry.text,entry.source))++
        (chapter.entry tables).toList)
    (htext : other.contextBufferText=engine.contextBufferText)
    (htimer : other.contextFlushTimer=engine.contextFlushTimer)
    (huntyped : ∀ ic texts,chapter≠.typed ic texts) :
    Settled tables other (heard++chapter.pieces) (chapters++[chapter]) ic [] next where
  accounts :=
    { written := by
        rw [hwritten,h.accounts.written,List.filterMap_append]
        cases chapter with
        | _ => rfl
      heard := by rw [h.accounts.heard]; simp
      buffer := htext ▸ h.accounts.buffer
      owner := fun hne => absurd rfl hne
      enabled := fun hne => absurd rfl hne
      texts := h.accounts.texts
      unfinished := h.accounts.unfinished
      sound := by
        intro added hadded
        rcases List.mem_append.mp hadded with hold | hnew
        · exact h.accounts.sound added hold
        · rw [List.mem_singleton.mp hnew]
          cases chapter with
          | typed ic texts => exact absurd rfl (huntyped ic texts)
          | _ => trivial }
  cut := h.cut.concat fun ic texts htyped => absurd htyped (huntyped ic texts)
  open_ := h.open_
  timer := htimer ▸ h.timer

/-- A pause ends what is typed. -/
theorem Explained.pause (h : Explained tables engine heard) :
    Explained tables (flushContextBuffer engine) (heard++[.pause]) := by
  obtain ⟨chapters,ic,waiting,hsettled⟩ := h
  obtain ⟨chapters',hflushed⟩ :=
    (hsettled.more [.pause]).flush fun _ => .inr ⟨.pause,rfl,rfl⟩
  have hadded : Settled tables (flushContextBuffer engine) (heard++Chapter.pause.pieces)
      (chapters'++[.pause]) ic [] [] :=
    Settled.add .pause hflushed (List.append_nil _).symm rfl rfl fun _ _ => nofun
  exact ⟨_,ic,[],hadded⟩

/-- A noted text is a chapter by itself, behind what has been typed. -/
theorem Settled.note {text source : Bytes}
    (h : Settled tables engine heard chapters ic [] [.noted text source]) :
    Settled tables (enqueue engine text source) (heard++[.noted text source])
      (chapters++[.note text source]) ic [] [] :=
  Settled.add (.note text source) h List.map_append rfl rfl fun _ _ => nofun

/-- A text of another source is a chapter of its own. -/
theorem explained_append (h : Explained tables engine heard) (text : Bytes) {source : Bytes}
    (hsource : source≠kContextSourceUser) :
    Explained tables (appendContextEntry engine text source)
      (heard++notedPieces engine text source) := by
  by_cases hoff : engine.maxContextLines ≤ 0 ∨ text=[]
  · have hnothing : appendContextEntry engine text source=engine := if_pos hoff
    have hpieces : notedPieces engine text source=[] := if_pos hoff
    rw [hnothing,hpieces,List.append_nil]
    exact h
  · obtain ⟨chapters,ic,waiting,hsettled⟩ := h
    have hpieces : notedPieces engine text source=[.noted text source] := if_neg hoff
    have hnext := hsettled.more [.noted text source]
    rw [hpieces]
    by_cases htext : engine.contextBufferText=[]
    · have hwaiting : waiting=[] := hsettled.accounts.buffer_empty.mp htext
      subst hwaiting
      have happend : appendContextEntry engine text source=enqueue engine text source := by
        simp [appendContextEntry,hoff,htext]
      rw [happend]
      exact ⟨_,ic,[],hnext.note⟩
    · obtain ⟨chapters',hflushed⟩ := hnext.flush fun _ => .inr ⟨_,rfl,rfl⟩
      have happend : appendContextEntry engine text source=
          enqueue (flushContextBuffer engine) text source := by
        simp [appendContextEntry,hoff,htext,hsource]
      rw [happend]
      exact ⟨_,ic,[],hflushed.note⟩

/-- Appending keeps the limit of lines. -/
theorem append_lines (engine : Engine) (text source : Bytes) :
    (appendContextEntry engine text source).maxContextLines=engine.maxContextLines := by
  unfold appendContextEntry
  split_ifs
  · rfl
  · exact flush_lines engine
  · rfl

/-- A typed text waits behind the others. -/
theorem Settled.extended {text : Bytes}
    (h : Settled tables engine heard chapters ic waiting [.typed text ic])
    (htext : text≠[]) (hon : 0< engine.maxContextLines) :
    Accounts tables
      {engine with
        contextBufferIc := some ic
        contextBufferText := joinText tables engine.contextBufferText text}
      (heard++[.typed text ic]) chapters ic (waiting++[text]) where
  written := h.accounts.written
  heard := by rw [h.accounts.heard,typedPieces_concat,List.append_assoc]
  buffer := by rw [joinAll_concat,h.accounts.buffer]
  owner := fun _ => rfl
  enabled := fun _ => hon
  texts := by
    intro other hother
    rcases List.mem_append.mp hother with hold | hnew
    · exact h.accounts.texts other hold
    · exact List.mem_singleton.mp hnew ▸ htext
  unfinished := by rw [List.dropLast_concat]; exact h.open_
  sound := h.accounts.sound

/-- A typed text joins the chapter that waits or, by the rules of the buffer, ends it. -/
theorem Settled.extend {text : Bytes}
    (h : Settled tables engine heard chapters ic waiting [.typed text ic])
    (htext : text≠[]) (hon : 0< engine.maxContextLines) :
    Explained tables (extendContextBuffer tables engine text ic) (heard++[.typed text ic]) := by
  have haccounts := h.extended htext hon
  have hjoined := @joinAll_concat tables waiting text
  have hcut : Cut tables chapters (typedPieces ic (waiting++[text])++[]) := by
    rw [typedPieces_concat,List.append_nil]
    exact h.cut
  unfold extendContextBuffer
  dsimp only
  split
  · rename_i hover
    rw [h.accounts.buffer,←hjoined] at hover
    obtain ⟨chapters',hflushed,hended⟩ := haccounts.flush hcut fun _ => .inl hover
    have htimer := @flush_timer
      {engine with
        contextBufferIc := some ic
        contextBufferText := joinText tables engine.contextBufferText text}
      fun _ => joinText_ne_nil _ htext
    exact ⟨chapters',ic,[],hflushed,hended,unfinished_nil,by simp [htimer]⟩
  · rename_i hgoes
    have hgoes := Bool.eq_false_iff.mpr hgoes
    rw [h.accounts.buffer,←hjoined] at hgoes
    exact ⟨chapters,ic,waiting++[text],
      ⟨haccounts.written,haccounts.heard,haccounts.buffer,haccounts.owner,haccounts.enabled,
        haccounts.texts,haccounts.unfinished,haccounts.sound⟩,hcut,h.open_.concat hgoes,by simp⟩

/-- With nothing waiting, any input context may come next. -/
theorem Settled.turn (h : Settled tables engine heard chapters ic [] next) (other : InputContext) :
    Settled tables engine heard chapters other [] next where
  accounts := ⟨h.accounts.written,h.accounts.heard,h.accounts.buffer,fun hne => absurd rfl hne,
    h.accounts.enabled,h.accounts.texts,h.accounts.unfinished,h.accounts.sound⟩
  cut := h.cut
  open_ := h.open_
  timer := h.timer

/-- A typed text is explained, whichever context it comes from. -/
theorem explained_accumulate {text : Bytes} (h : Explained tables engine heard) (htext : text≠[])
    (hon : 0< engine.maxContextLines) (other : InputContext) :
    Explained tables (accumulateContextBuffer tables engine text other)
      (heard++[.typed text other]) := by
  obtain ⟨chapters,ic,waiting,hsettled⟩ := h
  have hnext := hsettled.more [.typed text other]
  unfold accumulateContextBuffer
  split
  · rename_i hleaves
    have hended : waiting≠[] → Ended tables ic waiting [.typed text other] := by
      intro hwaiting
      have howner := hsettled.accounts.owner hwaiting
      refine .inr ⟨_,rfl,decide_eq_true ?_⟩
      rintro rfl
      exact hleaves.1 howner
    obtain ⟨chapters',hflushed⟩ := hnext.flush hended
    exact (hflushed.turn other).extend htext ((flush_lines engine).symm ▸ hon)
  · rename_i hstays
    by_cases hwaiting : waiting=[]
    · subst hwaiting
      exact (hnext.turn other).extend htext hon
    · have hbuffer : engine.contextBufferText≠[] :=
        fun hnil => hwaiting (hsettled.accounts.buffer_empty.mp hnil)
      have howner : engine.contextBufferIc=some other := by
        by_contra hother
        exact hstays ⟨hother,hbuffer⟩
      have hsame : ic=other :=
        Option.some.inj ((hsettled.accounts.owner hwaiting).symm.trans howner)
      subst hsame
      exact hnext.extend htext hon

/-- What waits is lost when the history is turned off. -/
theorem explained_reload (h : Explained tables engine heard) (contextLines : List ℤ) :
    Explained tables (reloadSceneConfig engine contextLines)
      (heard++if contextLines.foldl max 0 ≤ 0 then [.off] else []) := by
  obtain ⟨chapters,ic,waiting,hsettled⟩ := h
  unfold reloadSceneConfig
  dsimp only
  split
  · have hcut : Cut tables (chapters++[.lost ic waiting]) [] := by
      refine Cut.concat ?_ fun _ _ => nofun
      rw [List.append_nil]
      exact (hsettled.more [.off]).cut
    refine ⟨chapters++[.lost ic waiting],ic,[],⟨?_,?_,rfl,?_,?_,?_,unfinished_nil,?_⟩,hcut,
      unfinished_nil,by simp⟩
    · simp [hsettled.accounts.written,Chapter.entry]
    · simp [hsettled.accounts.heard,Chapter.pieces]
    · exact fun hne => absurd rfl hne
    · exact fun hne => absurd rfl hne
    · exact fun text htext => absurd htext List.not_mem_nil
    · intro chapter hchapter
      rcases List.mem_append.mp hchapter with hold | hnew
      · exact hsettled.accounts.sound chapter hold
      · rw [List.mem_singleton.mp hnew]
        trivial
  · rename_i hon
    have haccounts := hsettled.accounts
    rw [List.append_nil]
    exact ⟨chapters,ic,waiting,⟨haccounts.written,haccounts.heard,haccounts.buffer,
      haccounts.owner,fun _ => not_le.mp hon,haccounts.texts,haccounts.unfinished,
      haccounts.sound⟩,hsettled.cut,hsettled.open_,hsettled.timer⟩

/-- Forgetting the menu leaves the history alone. -/
theorem explained_reset (h : Explained tables engine heard) :
    Explained tables (resetResultMenuState engine) heard :=
  h.frame ⟨rfl,rfl,rfl,rfl,rfl⟩

/-- A context that goes away ends the chapter it waits for. -/
theorem explained_destroyed (h : Explained tables engine heard) (gone : InputContext) :
    Explained tables (inputContextDestroyed engine gone)
      (heard++if engine.contextBufferIc=some gone then [.pause] else []) := by
  have hreset : Explained tables
      (if engine.resultMenuIc=some gone then resetResultMenuState engine else engine) heard := by
    split
    · exact explained_reset h
    · exact h
  have hic : (if engine.resultMenuIc=some gone then resetResultMenuState engine
      else engine).contextBufferIc=engine.contextBufferIc := by
    split <;> rfl
  unfold inputContextDestroyed
  dsimp only
  rw [hic]
  split
  · exact hreset.pause
  · rw [List.append_nil]
    exact hreset

/-- The pause is over: what waits is written. -/
theorem explained_timer (h : Explained tables engine heard) :
    Explained tables (contextFlushTimerFires engine)
      (heard++if engine.contextFlushTimer then [.pause] else []) := by
  unfold contextFlushTimerFires
  split
  · obtain ⟨chapters,ic,waiting,hsettled⟩ := h
    have haccounts := hsettled.accounts
    have hstopped : Accounts tables {engine with contextFlushTimer := false} heard chapters ic
        waiting :=
      ⟨haccounts.written,haccounts.heard,haccounts.buffer,haccounts.owner,haccounts.enabled,
        haccounts.texts,haccounts.unfinished,haccounts.sound⟩
    obtain ⟨chapters',hflushed,hcut⟩ :=
      hstopped.flush (hsettled.more [.pause]).cut fun _ => .inr ⟨.pause,rfl,rfl⟩
    have htimer := @flush_timer {engine with contextFlushTimer := false}
      fun hrun => absurd hrun Bool.false_ne_true
    have hquiet : Settled tables (flushContextBuffer {engine with contextFlushTimer := false})
        heard chapters' ic [] [.pause] :=
      ⟨hflushed,hcut,unfinished_nil,by simp [htimer]⟩
    exact ⟨_,ic,[],Settled.add .pause hquiet (List.append_nil _).symm rfl rfl fun _ _ => nofun⟩
  · rw [List.append_nil]
    exact h

/-- A commit is heard as a typed text, as one of its own or not at all. -/
theorem explained_commit (h : Explained tables engine heard) (library : Library) (text : Bytes)
    (next : InputContext) :
    Explained tables (onCommitString tables engine text next)
      (heard++heardBy library engine (.commitString text next)) := by
  have hcleared : Explained tables {engine with pendingSuppressedCommitText := none} heard :=
    h.frame ⟨rfl,rfl,rfl,rfl,rfl⟩
  unfold onCommitString heardBy
  dsimp only
  by_cases hoff : engine.maxContextLines ≤ 0 ∨ text=[]
  · rw [if_pos hoff,if_pos (hoff.imp_right .inl),List.append_nil]
    exact hcleared
  · rw [if_neg hoff]
    obtain ⟨hon,htext⟩ := not_or.mp hoff
    by_cases hown : engine.pendingSuppressedCommitText=some text
    · rw [if_pos hown,if_pos (.inr (.inr hown)),List.append_nil]
      exact hcleared
    · rw [if_neg hown,if_neg (by tauto)]
      exact explained_accumulate hcleared htext (not_le.mp hon) next

/-- Recognised texts are not from the user. -/
theorem kSourceAsr_ne_user : kSourceAsr≠kContextSourceUser := by decide

theorem kSourceLlm_ne_user : kSourceLlm≠kContextSourceUser := by decide

/-- The texts of a result are explained one after another. -/
theorem explained_recognised (h : Explained tables engine heard) (payload : Payload)
    (command : Option Bytes) :
    Explained tables (noteRecognised engine payload command)
      (heard++recognisedPieces engine payload command) := by
  unfold noteRecognised recognisedPieces
  cases asrCandidate payload command with
  | none => simpa using h
  | some candidate =>
    dsimp only
    split
    · exact explained_append h candidate.text kSourceAsr_ne_user
    · rename_i htext
      have hpieces : notedPieces engine candidate.text kSourceAsr=[] :=
        if_pos (.inr (not_not.mp htext))
      rw [hpieces,List.append_nil]
      exact h

/-- A result keeps the limit of lines. -/
theorem recognised_lines (engine : Engine) (payload : Payload) (command : Option Bytes) :
    (noteRecognised engine payload command).maxContextLines=engine.maxContextLines := by
  unfold noteRecognised
  split
  · split
    · exact append_lines _ _ _
    · rfl
  · rfl

/-- A result is explained, committed at once or shown in a menu. -/
theorem explained_result (h : Explained tables engine heard) (glaze : Glaze) (payloadText : Bytes)
    (command : Option Bytes) (ic : Option InputContext) {library : Library}
    (hlibrary : library.glaze=glaze) :
    Explained tables (onRecognitionResult glaze engine payloadText command ic).1
      (heard++heardBy library engine (.recognitionResult payloadText command ic)) := by
  subst hlibrary
  cases ic with
  | none =>
    rw [show heardBy library engine (.recognitionResult payloadText command none)=[] from rfl,
      List.append_nil]
    exact h
  | some ic =>
    have hreset := explained_reset h
    unfold onRecognitionResult heardBy
    dsimp only
    split
    · rw [List.append_nil]
      exact hreset
    · have hnoted := explained_recognised hreset (Parse library.glaze payloadText) command
      have hlines := recognised_lines (resetResultMenuState engine)
        (Parse library.glaze payloadText) command
      unfold resultPieces
      rw [←List.append_assoc]
      split
      · rw [List.append_nil]
        unfold showResultMenu
        split
        · exact hnoted
        · exact hnoted.frame ⟨rfl,rfl,rfl,rfl,rfl⟩
      · split
        · have hllm := explained_append hnoted (Parse library.glaze payloadText).commitText
            kSourceLlm_ne_user
          unfold notedPieces at hllm ⊢
          rw [hlines] at hllm
          exact hllm.frame ⟨rfl,rfl,rfl,rfl,rfl⟩
        · rw [List.append_nil]
          exact hnoted.frame ⟨rfl,rfl,rfl,rfl,rfl⟩

/-- A choice from the menu is explained. -/
theorem explained_select (h : Explained tables engine heard) (library : Library) (index : ℕ)
    (ic : InputContext) :
    Explained tables (selectResultCandidate engine index ic).1
      (heard++heardBy library engine (.selectResult index ic)) := by
  have hreset := explained_reset h
  unfold selectResultCandidate heardBy
  dsimp only
  cases engine.resultCandidates[index]? with
  | none => simpa using hreset
  | some chosen =>
    dsimp only
    split
    · exact (explained_append hreset chosen.text kSourceLlm_ne_user).frame ⟨rfl,rfl,rfl,rfl,rfl⟩
    · rw [List.append_nil]
      exact hreset.frame ⟨rfl,rfl,rfl,rfl,rfl⟩

/-- An event that nothing is heard of. -/
theorem explained_unheard {library : Library} {event : Event}
    (hnothing : heardBy library engine event=[])
    (h : Explained library.tables (step library engine event) heard) :
    Explained library.tables (step library engine event)
      (heard++heardBy library engine event) := by
  rw [hnothing,List.append_nil]
  exact h

/-- Every event extends the explanation by what is heard of it. -/
theorem explained_step {library : Library} (h : Explained library.tables engine heard)
    (event : Event) :
    Explained library.tables (step library engine event)
      (heard++heardBy library engine event) := by
  cases event with
  | commitString text ic => exact explained_commit h library text ic
  | recognitionResult payloadText command ic =>
    exact explained_result h library.glaze payloadText command ic rfl
  | selectResult index ic => exact explained_select h library index ic
  | hideResultMenu => exact explained_unheard rfl (explained_reset h)
  | startRecording => exact h.pause
  | inputContextDestroyed ic => exact explained_destroyed h ic
  | contextFlushTimer => exact explained_timer h
  | reloadSceneConfig contextLines => exact explained_reload h contextLines
  | clock now => exact explained_unheard rfl (h.frame ⟨rfl,rfl,rfl,rfl,rfl⟩)

end Steps

section Runs

variable (library : Library)

/-- The engine and what it has heard. -/
def heardStep : Engine×List Piece → Event → Engine×List Piece :=
  observed (step library) fun heard engine event => heard++heardBy library engine event

theorem explained_start (maxContextLines : ℤ) :
    Explained library.tables {maxContextLines := maxContextLines} [] :=
  ⟨[],0,[],⟨rfl,rfl,rfl,fun hne => absurd rfl hne,fun hne => absurd rfl hne,
    fun _ htext => absurd htext List.not_mem_nil,unfinished_nil,
    fun _ hchapter => absurd hchapter List.not_mem_nil⟩,cut_nil,unfinished_nil,by simp⟩

/-- Whatever happens, the history is handed what was heard, all of it, once and in
order: each noted text is one line, and so is what is typed up to the end of a
sentence, a pause, a noted text or another input context, and not less. What is
typed waits under a running timer. Only what waits when the history is turned off
is not told. -/
theorem history_explained (maxContextLines : ℤ) (events : List Event) :
    let final := run (heardStep library) ({maxContextLines := maxContextLines},[]) events
    Explained library.tables final.1 final.2 :=
  @run_invariant _ _ (heardStep library) (fun pair => Explained library.tables pair.1 pair.2)
    (fun _ event h => explained_step h event) _ events (explained_start library maxContextLines)

/-- What is heard of an event and of the engine's own commit right behind it. -/
def promptHeard (engine : Engine) (event : Event) : List Piece :=
  heardBy library engine event++
    match handle library engine event with
    | (_,none) => []
    | (after,some (text,ic)) =>
      heardBy library after (.commitString (library.commitFilter ic text) ic)

/-- What is committed by others while the history is on. -/
def userPieces (engine : Engine) : Event → List Piece
  | .commitString text ic =>
    if engine.maxContextLines ≤ 0 ∨ text=[] then [] else [.typed text ic]
  | _ => []

/-- The piece was typed by the user. -/
def Piece.isTyped : Piece → Bool
  | .typed _ _ => true
  | _ => false

/-- The engine, what it has heard and what others have committed. -/
def promptObserved : Engine×(List Piece×List Piece) → Event → Engine×(List Piece×List Piece) :=
  observed (promptStep library) fun told engine event =>
    (told.1++promptHeard library engine event,told.2++userPieces engine event)

/-- What the engine commits by itself is announced as it is. -/
def Unfiltered (state : Engine×(List Piece×List Piece)) (event : Event) : Prop :=
  ∀ text ic,(handle library state.1 event).2=some (text,ic) → library.commitFilter ic text=text

/-- The text that is waited for after a commit. -/
def armedBy : Option (Bytes×InputContext) → Option Bytes
  | none => none
  | some (text,_) => if text=[] then none else some text

end Runs

section Own

variable {library : Library} {engine : Engine} {heard : List Piece}

/-- A flush keeps the text that is to be ignored. -/
@[simp] theorem flush_pending (engine : Engine) :
    (flushContextBuffer engine).pendingSuppressedCommitText=
      engine.pendingSuppressedCommitText := by
  simp only [flushContextBuffer,enqueue]
  split_ifs <;> rfl

/-- Appending keeps the text that is to be ignored. -/
@[simp] theorem append_pending (engine : Engine) (text source : Bytes) :
    (appendContextEntry engine text source).pendingSuppressedCommitText=
      engine.pendingSuppressedCommitText := by
  unfold appendContextEntry
  split_ifs
  · rfl
  · exact flush_pending engine
  · rfl

theorem accumulate_pending (tables : UnicodeTables) (engine : Engine) (text : Bytes)
    (ic : InputContext) :
    (accumulateContextBuffer tables engine text ic).pendingSuppressedCommitText=
      engine.pendingSuppressedCommitText := by
  unfold accumulateContextBuffer extendContextBuffer
  dsimp only
  split_ifs <;> simp

/-- A commit event ends the waiting for a text. -/
theorem onCommitString_pending (tables : UnicodeTables) (engine : Engine) (text : Bytes)
    (ic : InputContext) :
    (onCommitString tables engine text ic).pendingSuppressedCommitText=none := by
  unfold onCommitString
  dsimp only
  split_ifs
  · rfl
  · rfl
  · exact accumulate_pending _ _ _ _

@[simp] theorem recognised_pending (engine : Engine) (payload : Payload)
    (command : Option Bytes) :
    (noteRecognised engine payload command).pendingSuppressedCommitText=
      engine.pendingSuppressedCommitText := by
  unfold noteRecognised
  split
  · split
    · exact append_pending _ _ _
    · rfl
  · rfl

/-- A result arms the text it commits. -/
theorem onRecognitionResult_pending (h : engine.pendingSuppressedCommitText=none) (glaze : Glaze)
    (payloadText : Bytes) (command : Option Bytes) (ic : Option InputContext) :
    (onRecognitionResult glaze engine payloadText command ic).1.pendingSuppressedCommitText=
      armedBy (onRecognitionResult glaze engine payloadText command ic).2 := by
  cases ic with
  | none => exact h
  | some ic =>
    unfold onRecognitionResult
    dsimp only
    split
    · exact h
    · split
      · unfold showResultMenu
        split_ifs
        · exact (recognised_pending _ _ _).trans h
        · exact (recognised_pending _ _ _).trans h
      · rfl

/-- A choice arms the text it commits. -/
theorem selectResultCandidate_pending (h : engine.pendingSuppressedCommitText=none) (index : ℕ)
    (ic : InputContext) :
    (selectResultCandidate engine index ic).1.pendingSuppressedCommitText=
      armedBy (selectResultCandidate engine index ic).2 := by
  unfold selectResultCandidate
  dsimp only
  cases engine.resultCandidates[index]? with
  | none => exact h
  | some chosen => rfl

/-- The engine waits for the text it has just committed, and for nothing else. -/
theorem handle_pending (h : engine.pendingSuppressedCommitText=none) (event : Event) :
    (handle library engine event).1.pendingSuppressedCommitText=
      armedBy (handle library engine event).2 := by
  cases event with
  | commitString text ic => exact onCommitString_pending _ _ _ _
  | recognitionResult payloadText command ic =>
    exact onRecognitionResult_pending h library.glaze payloadText command ic
  | selectResult index ic => exact selectResultCandidate_pending h index ic
  | hideResultMenu => exact h
  | startRecording => exact (flush_pending engine).trans h
  | inputContextDestroyed ic =>
    change (inputContextDestroyed engine ic).pendingSuppressedCommitText=none
    unfold inputContextDestroyed resetResultMenuState
    dsimp only
    split_ifs <;> simp [h]
  | contextFlushTimer =>
    change (contextFlushTimerFires engine).pendingSuppressedCommitText=none
    unfold contextFlushTimerFires
    split_ifs <;> simp [h]
  | reloadSceneConfig contextLines =>
    change (reloadSceneConfig engine contextLines).pendingSuppressedCommitText=none
    unfold reloadSceneConfig
    dsimp only
    split_ifs <;> exact h
  | clock now => exact h

/-- After a prompt the armed text was heard and ignored. -/
theorem promptStep_pending (h : engine.pendingSuppressedCommitText=none) (event : Event) :
    (promptStep library engine event).pendingSuppressedCommitText=none := by
  have hpending := @handle_pending library engine h event
  unfold promptStep
  split
  · rename_i after hhandle
    rw [hhandle] at hpending
    exact hpending
  · exact onCommitString_pending _ _ _ _

/-- The engine's own commit is not heard. -/
theorem promptHeard_eq (h : engine.pendingSuppressedCommitText=none) {event : Event}
    (hsame : ∀ text ic,(handle library engine event).2=some (text,ic) →
      library.commitFilter ic text=text) :
    promptHeard library engine event=heardBy library engine event := by
  have hpending := @handle_pending library engine h event
  unfold promptHeard
  split
  · exact List.append_nil _
  · rename_i after text ic hhandle
    rw [hhandle] at hpending
    rw [hsame text ic (congrArg Prod.snd hhandle)]
    have hown : heardBy library after (.commitString text ic)=[] := by
      refine if_pos (.inr ?_)
      by_cases htext : text=[]
      · exact .inl htext
      · exact .inr (hpending.trans (if_neg htext))
    rw [hown]
    exact List.append_nil _

/-- What is noted for another source was not typed. -/
theorem notedPieces_typed (engine : Engine) (text source : Bytes) :
    (notedPieces engine text source).filter Piece.isTyped=[] := by
  unfold notedPieces
  split_ifs <;> rfl

/-- The pieces of a result were not typed. -/
theorem resultPieces_typed (engine : Engine) (payload : Payload) (command : Option Bytes) :
    (resultPieces engine payload command).filter Piece.isTyped=[] := by
  have hrecognised : (recognisedPieces engine payload command).filter Piece.isTyped=[] := by
    unfold recognisedPieces
    split
    · exact notedPieces_typed _ _ _
    · rfl
  unfold resultPieces
  rw [List.filter_append,hrecognised]
  split_ifs
  · rfl
  · exact notedPieces_typed _ _ _
  · rfl

/-- While no text is waited for, what is heard as typed comes from others. -/
theorem heardBy_typed (h : engine.pendingSuppressedCommitText=none) (event : Event) :
    (heardBy library engine event).filter Piece.isTyped=userPieces engine event := by
  cases event with
  | commitString text ic =>
    unfold heardBy userPieces
    dsimp only
    by_cases hoff : engine.maxContextLines ≤ 0 ∨ text=[]
    · rw [if_pos hoff,if_pos (hoff.imp_right .inl)]
      rfl
    · have hheard : ¬(engine.maxContextLines ≤ 0 ∨ text=[] ∨
          engine.pendingSuppressedCommitText=some text) := by
        rw [h]
        simpa using hoff
      rw [if_neg hoff,if_neg hheard]
      rfl
  | recognitionResult payloadText command ic =>
    cases ic with
    | none => rfl
    | some ic =>
      unfold heardBy userPieces
      dsimp only
      split_ifs
      · rfl
      · exact resultPieces_typed _ _ _
  | selectResult index ic =>
    unfold heardBy userPieces
    dsimp only
    split
    · split_ifs
      · exact notedPieces_typed _ _ _
      · rfl
    · rfl
  | hideResultMenu => rfl
  | startRecording => rfl
  | inputContextDestroyed ic =>
    unfold heardBy userPieces
    dsimp only
    split_ifs <;> rfl
  | contextFlushTimer =>
    unfold heardBy userPieces
    dsimp only
    split_ifs <;> rfl
  | reloadSceneConfig contextLines =>
    unfold heardBy userPieces
    dsimp only
    split_ifs <;> rfl
  | clock now => rfl

/-- A step together with the announcement of its own commit is explained. -/
theorem explained_prompt (h : Explained library.tables engine heard) (event : Event) :
    Explained library.tables (promptStep library engine event)
      (heard++promptHeard library engine event) := by
  have hstep := explained_step h event
  unfold step at hstep
  unfold promptStep promptHeard
  rw [←List.append_assoc]
  rcases hhandle : handle library engine event with ⟨after,_ | ⟨text,ic⟩⟩
  · rw [hhandle] at hstep
    simpa using hstep
  · rw [hhandle] at hstep
    exact explained_commit hstep library (library.commitFilter ic text) ic

/-- What has been heard is explained, and what was typed of it came from others. -/
structure OthersOnly (library : Library) (state : Engine×(List Piece×List Piece)) : Prop where
  explained : Explained library.tables state.1 state.2.1
  pending : state.1.pendingSuppressedCommitText=none
  typed : state.2.1.filter Piece.isTyped=state.2.2

/-- Typed pieces only come from commits of others. -/
theorem othersOnly_step {state : Engine×(List Piece×List Piece)} (event : Event)
    (h : OthersOnly library state) (hsame : Unfiltered library state event) :
    OthersOnly library (promptObserved library state event) where
  explained := explained_prompt h.explained event
  pending := promptStep_pending h.pending event
  typed := by
    have hheard := @promptHeard_eq library _ h.pending event hsame
    have htyped := @heardBy_typed library _ h.pending event
    change (state.2.1++promptHeard library state.1 event).filter Piece.isTyped=
      state.2.2++userPieces state.1 event
    rw [hheard,List.filter_append,h.typed,htyped]

/-- Where the engine's own commit event comes before any other event and with the
text that was committed, what is heard as typed is exactly what others commit
while the history is on. -/
theorem own_commits_unheard (library : Library) (maxContextLines : ℤ) (events : List Event)
    (hsame : Along (promptObserved library) (Unfiltered library)
      ({maxContextLines := maxContextLines},[],[]) events) :
    let final := run (promptObserved library) ({maxContextLines := maxContextLines},[],[]) events
    Explained library.tables final.1 final.2.1 ∧
      final.2.1.filter Piece.isTyped=final.2.2 := by
  have hstart : OthersOnly library ({maxContextLines := maxContextLines},[],[]) :=
    ⟨explained_start library maxContextLines,rfl,rfl⟩
  have hfinal := @Along.invariant _ _ (promptObserved library) (Unfiltered library)
    (OthersOnly library) (fun _ event h hstep => othersOnly_step event h hstep) _ _ hsame hstart
  exact ⟨hfinal.explained,hfinal.typed⟩

/-- The result "hi" as it is published. -/
def sampleResult : Bytes := bytes "\x7b\"commit_text\":\"hi\",\"candidates\":[]\x7d"

/-- A library that knows this result, ends sentences at full stops, and announces
texts as they are. -/
def sampleLibrary : Library where
  tables := ⟨fun _ => false,fun _ => false,fun cp => decide (cp=46)⟩
  glaze := ⟨fun _ => none,fun text =>
    if text=sampleResult then some ⟨some (bytes "hi"),some []⟩ else none⟩
  commitFilter _ text := text

/-- A result is committed, and then others type. -/
def sampleEvents : List Event :=
  [.recognitionResult sampleResult none (some 7),.commitString (bytes "ok") 7]

/-- A result that is committed is no typed line. -/
theorem own_commits_unheard_sample :
    (run (promptObserved sampleLibrary) ({maxContextLines := 2},[],[]) sampleEvents).2.1.filter
      Piece.isTyped=[.typed (bytes "ok") 7] := by
  have hsame : Along (promptObserved sampleLibrary) (Unfiltered sampleLibrary)
      ({maxContextLines := 2},[],[]) sampleEvents :=
    along_of_labels (fun _ _ _ _ _ _ => rfl) _
  exact (own_commits_unheard sampleLibrary 2 sampleEvents hsame).2.trans rfl

end Own

end Vinput.ContextHistoryRuns
