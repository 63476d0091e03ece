import Vinput.HotwordFile
import Vinput.HotwordScores
import Vinput.LineSplitting
import Vinput.TextWords

/-!
# Hotwords and their scores

Each line of a hotword file is a hotword, perhaps with a score behind its last
colon. The lines that go to the recogniser have the score as a word of its own,
which starts with a colon. No word of a hotword looks like that, except at the
start of a line.
-/

namespace Vinput.HotwordEntries

open AsrSettings HotwordFile HotwordScores LineSplitting ProcessLines TextWords

section Entries

/-- A word with its score. -/
structure HotwordEntry where
  text : Bytes
  score : Bytes
deriving DecidableEq

/-- The score of the line is no number. -/
def invalidScore (line : Bytes) : Bytes :=
  bytesOf "invalid hotword score; use 'word:3.5' without spaces: "++line

/-- The line has a score only. -/
def missingWord (line : Bytes) : Bytes :=
  bytesOf "hotword score has no preceding word or phrase: "++line

/-- A colon stands behind white space. -/
def hasSeparatedColon : Bytes → Bool
  | before::byte::rest =>
    decide (byte=58) && isHotwordWhitespace before || hasSeparatedColon (byte::rest)
  | _ => false

/-- The entry of a line. -/
def parseHotwordEntry (fits : Range) (rawLine : Bytes) : Except Bytes HotwordEntry :=
  let line := trim rawLine
  if line=[] then .ok ⟨[],[]⟩
  else if hasSeparatedColon line then .error (invalidScore line)
  else
    match rsplitOnce 58 line with
    | none => .ok ⟨line,[]⟩
    | some (rawText,rawScore) =>
      let score := trim rawScore
      let text := trim rawText
      let whitespaceBefore := rawText.getLast?.any isHotwordWhitespace
      let whitespaceAfter := decide (rawScore≠score)
      if isValidScore fits score then
        if whitespaceBefore || whitespaceAfter then .error (invalidScore line)
        else if text=[] then .error (missingWord line)
        else .ok ⟨text,score⟩
      else if whitespaceBefore || whitespaceAfter || looksLikeScore score then
        .error (invalidScore line)
      else .ok ⟨line,[]⟩

/-- The lines of a text. -/
def splitLines (text : Bytes) : List Bytes :=
  let split := splitAtNewlines newline text
  split.1.map stripReturn++if split.2=[] then [] else [split.2]

/-- The loop over the lines. -/
def parseLines (fits : Range) : List Bytes → Except Bytes (List HotwordEntry)
  | [] => .ok []
  | line::lines =>
    match parseHotwordEntry fits line with
    | .error error => .error error
    | .ok entry =>
      match parseLines fits lines with
      | .error error => .error error
      | .ok entries => .ok (if entry.text=[] then entries else entry::entries)

/-- The entries of a file. -/
def loadHotwordEntries (fits : Range) (path : Bytes) (file : FileView) :
    Except Bytes (List HotwordEntry) :=
  match readHotwordFile path file with
  | .error error => .error error
  | .ok content => parseLines fits (splitLines content)

/-- The line of an entry, with its score as a word of its own. -/
def emittedLine (entry : HotwordEntry) : Bytes :=
  entry.text++if entry.score=[] then [] else 32::58::entry.score

/-- The text that the recogniser gets. -/
def loadTransducerHotwords (fits : Range) (path : Bytes) (file : FileView) : Except Bytes Bytes :=
  match loadHotwordEntries fits path file with
  | .error error => .error error
  | .ok entries => .ok (entries.flatMap fun entry => emittedLine entry++[newline])

variable {fits : Range}

/-- A colon behind white space marks a score. -/
theorem hasSeparatedColon_iff (line : Bytes) :
    hasSeparatedColon line=true ↔ MarkedBehind isHotwordWhitespace 58 line := by
  induction line with
  | nil =>
    constructor
    · intro h
      cases h
    · rintro ⟨before,white,after,htext,-⟩
      exact absurd (congrArg List.length htext) (by simp)
  | cons first rest ih =>
    rw [markedBehind_cons]
    cases rest with
    | nil =>
      constructor
      · intro h
        cases h
      · rintro (⟨-,hhead⟩ | hbehind)
        · cases hhead
        · exact ih.mpr hbehind
    | cons byte rest =>
      unfold hasSeparatedColon
      rw [Bool.or_eq_true,Bool.and_eq_true,decide_eq_true_iff,ih,List.head?_cons,Option.some_inj,
        and_comm]

/-- What an entry takes from its line. -/
structure EntryOf (line : Bytes) (entry : HotwordEntry) : Prop where
  text_ne : entry.text≠[]
  head : entry.text.head?=(trim line).head?
  apart : ¬MarkedBehind isSpace 58 entry.text
  mem : ∀ byte∈entry.text++entry.score, byte∈line
  word : ∀ byte∈entry.score, isSpace byte=false

/-- The start of a line without a separated colon. -/
theorem apart_of_line {line text back : Bytes} (hallowed : ∀ byte∈line, Allowed byte)
    (hline : hasSeparatedColon line=false) (h : line=text++back) :
    ¬MarkedBehind isSpace 58 text := by
  rintro ⟨before,white,after,htext,hwhite⟩
  have hmem : white∈line := by
    rw [h,htext]
    simp
  have hbehind : MarkedBehind isHotwordWhitespace 58 line :=
    ⟨before,white,after++back,by rw [h,htext]; simp,hallowed white hmem hwhite⟩
  rw [(hasSeparatedColon_iff line).mpr hbehind] at hline
  cases hline

/-- A line is kept as it is, or its score is cut off. -/
theorem parseHotwordEntry_spec {rawLine : Bytes} {entry : HotwordEntry}
    (hallowed : ∀ byte∈rawLine, Allowed byte)
    (h : parseHotwordEntry fits rawLine=.ok entry) :
    (trim rawLine=[] ∧ entry.text=[]) ∨ EntryOf rawLine entry := by
  have htrimmed : ∀ byte∈trim rawLine, Allowed byte :=
    fun byte hmem => hallowed byte (mem_of_mem_trimmed hmem)
  unfold parseHotwordEntry at h
  dsimp only at h
  by_cases hempty : trim rawLine=[]
  · rw [if_pos hempty] at h
    cases h
    exact Or.inl ⟨hempty,rfl⟩
  rw [if_neg hempty] at h
  cases hcolon : hasSeparatedColon (trim rawLine) with
  | true =>
    rw [hcolon] at h
    cases h
  | false =>
    have hwhole : EntryOf rawLine ⟨trim rawLine,[]⟩ := by
      refine ⟨hempty,rfl,apart_of_line htrimmed hcolon (List.append_nil _).symm,?_,?_⟩
      · intro byte hmem
        rw [List.append_nil] at hmem
        exact mem_of_mem_trimmed hmem
      · exact fun byte hmem => absurd hmem List.not_mem_nil
    rw [hcolon,if_neg Bool.false_ne_true] at h
    cases hsplit : rsplitOnce 58 (trim rawLine) with
    | none =>
      rw [hsplit] at h
      cases h
      exact Or.inr hwhole
    | some pair =>
      obtain ⟨rawText,rawScore⟩ := pair
      rw [hsplit] at h
      dsimp only at h
      split at h
      · rename_i hvalid
        split at h
        · cases h
        · split at h
          · cases h
          · rename_i htext
            cases h
            obtain ⟨hline,-⟩ := rsplitOnce_some hsplit
            have hfirst : ∀ byte∈(trim rawLine).head?, isSpace byte=false := head_trimmed
            have hstart : ∀ byte∈rawText.head?, isSpace byte=false := by
              intro byte hbyte
              refine hfirst byte ?_
              rw [hline,List.head?_append,hbyte]
              rfl
            obtain ⟨back,hback,-⟩ := append_of_head hstart
            have hfront : trim rawLine=trim rawText++(back++58::rawScore) := by
              rw [hline]
              nth_rewrite 1 [hback]
              exact List.append_assoc ..
            refine Or.inr ⟨htext,?_,apart_of_line htrimmed hcolon hfront,?_,
              (isValidScore_word hvalid).2⟩
            · dsimp only
              obtain ⟨byte,rest,hcons⟩ := List.exists_cons_of_ne_nil htext
              rw [hfront,hcons]
              rfl
            · intro byte hmem
              have hkept : byte∈trim rawLine := by
                rcases List.mem_append.mp hmem with hleft | hright
                · rw [hfront]
                  exact List.mem_append_left _ hleft
                · rw [hline]
                  exact List.mem_append_right _ (List.mem_cons_of_mem _ (mem_of_mem_trimmed hright))
              exact mem_of_mem_trimmed hkept
      · split at h
        · cases h
        · cases h
          exact Or.inr hwhole

/-- Every line that is not blank has its entry, and the entries are these. -/
theorem parseLines_spec {lines : List Bytes} {entries : List HotwordEntry}
    (hallowed : ∀ line∈lines, ∀ byte∈line, Allowed byte)
    (h : parseLines fits lines=.ok entries) :
    (∀ entry∈entries, ∃ line∈lines, EntryOf line entry) ∧
      ∀ line∈lines, trim line≠[] → ∃ entry∈entries, EntryOf line entry := by
  induction lines generalizing entries with
  | nil =>
    cases h
    exact ⟨fun _ hmem => absurd hmem List.not_mem_nil,fun _ hmem => absurd hmem List.not_mem_nil⟩
  | cons line lines ih =>
    unfold parseLines at h
    cases hline : parseHotwordEntry fits line with
    | error error =>
      rw [hline] at h
      cases h
    | ok entry =>
      rw [hline] at h
      dsimp only at h
      cases hlines : parseLines fits lines with
      | error error =>
        rw [hlines] at h
        cases h
      | ok others =>
        rw [hlines] at h
        dsimp only at h
        obtain ⟨hof,hall⟩ := ih (fun other hmem => hallowed other (List.mem_cons_of_mem _ hmem)) hlines
        have hlater : ∀ other∈others, ∃ below∈line::lines, EntryOf below other := by
          intro other hmem
          obtain ⟨below,hbelow,entryOf⟩ := hof other hmem
          exact ⟨below,List.mem_cons_of_mem _ hbelow,entryOf⟩
        rcases parseHotwordEntry_spec (hallowed line List.mem_cons_self) hline with
          ⟨hblank,htext⟩ | entryOf
        · rw [if_pos htext] at h
          cases h
          refine ⟨hlater,?_⟩
          intro other hmem hother
          rcases List.mem_cons.mp hmem with hfirst | hbelow
          · exact absurd (hfirst ▸ hblank) hother
          · exact hall other hbelow hother
        · rw [if_neg entryOf.text_ne] at h
          cases h
          constructor
          · intro other hmem
            rcases List.mem_cons.mp hmem with hfirst | hbelow
            · exact ⟨line,List.mem_cons_self,hfirst ▸ entryOf⟩
            · exact hlater other hbelow
          · intro other hmem hother
            rcases List.mem_cons.mp hmem with hfirst | hbelow
            · exact ⟨entry,List.mem_cons_self,hfirst ▸ entryOf⟩
            · obtain ⟨kept,hkept,keptOf⟩ := hall other hbelow hother
              exact ⟨kept,List.mem_cons_of_mem _ hkept,keptOf⟩

/-- A line has no newline and nothing that its text has not. -/
theorem splitLines_spec {text line : Bytes} (h : line∈splitLines text) :
    newline∉line ∧ ∀ byte∈line, byte∈text := by
  have splits := splits_splitAtNewlines newline text
  unfold splitLines at h
  dsimp only at h
  rcases List.mem_append.mp h with hline | htail
  · obtain ⟨whole,hwhole,rfl⟩ := List.mem_map.mp hline
    have hkept : ∀ byte∈stripReturn whole, byte∈whole := by
      intro byte hmem
      unfold stripReturn at hmem
      split at hmem
      · exact List.dropLast_subset whole hmem
      · exact hmem
    refine ⟨fun hnewline => splits.line_clean whole hwhole (hkept newline hnewline),?_⟩
    intro byte hmem
    rw [splits.text_eq]
    refine List.mem_append_left _ ?_
    unfold joinLines
    exact List.mem_flatten.mpr ⟨_,List.mem_map.mpr ⟨whole,hwhole,rfl⟩,
      List.mem_append_left _ (hkept byte hmem)⟩
  · split at htail
    · exact absurd htail List.not_mem_nil
    · rw [List.mem_singleton.mp htail]
      refine ⟨splits.tail_clean,?_⟩
      intro byte hmem
      rw [splits.text_eq]
      exact List.mem_append_right _ hmem

end Entries

section Emitted

/-- The score of an entry can be seen in a line: one word starts with a colon,
the last one, or none if there is no score. -/
structure Shows (entry : HotwordEntry) (line : Bytes) : Prop where
  marked : (∃ token∈tokens isSpace line, token.head?=some 58) ↔ entry.score≠[]
  last : entry.score≠[] → ∃ front, tokens isSpace line=front++[58::entry.score] ∧
    ∀ token∈front, token.head?≠some 58

/-- Read an entry back: what follows the colon of the last word is its score. -/
def recoverLine (line : Bytes) : HotwordEntry :=
  match (tokens isSpace line).getLast? with
  | none => ⟨line,[]⟩
  | some token =>
    if token.head?=some 58 then ⟨line.take (line.length-(token.length+1)),token.tail⟩
    else ⟨line,[]⟩

/-- Read the entries back from what the recogniser gets. -/
def recoverEntries (hotwords : Bytes) : List HotwordEntry :=
  (splitAtNewlines newline hotwords).1.map recoverLine

/-- The lines show their entries, and the entries come back from them. -/
structure ScoresApart (entries : List HotwordEntry) (hotwords : Bytes) : Prop where
  lines : List.Forall₂ Shows entries (splitAtNewlines newline hotwords).1
  complete : (splitAtNewlines newline hotwords).2=[]
  recovered : recoverEntries hotwords=entries

variable {fits : Range} {line : Bytes} {entry : HotwordEntry}

/-- A line with a score has the score as its last token. -/
theorem tokens_scored (hscore : entry.score≠[]) (hword : ∀ byte∈entry.score, isSpace byte=false) :
    tokens isSpace (emittedLine entry)=tokens isSpace entry.text++[58::entry.score] := by
  have hline : emittedLine entry=entry.text++32::58::entry.score := by
    unfold emittedLine
    rw [if_neg hscore]
  rw [hline,tokens_append_cons _ _ (by decide),tokens_word (List.cons_ne_nil _ _)]
  intro byte hmem
  rcases List.mem_cons.mp hmem with hcolon | hbehind
  · rw [hcolon]
    decide
  · exact hword byte hbehind

/-- A word of the text starts with a colon only where the line does. -/
theorem EntryOf.marked_iff (entryOf : EntryOf line entry) :
    (∃ token∈tokens isSpace entry.text, token.head?=some 58) ↔ (trim line).head?=some 58 := by
  rw [exists_token_iff (by decide),entryOf.head]
  exact or_iff_left entryOf.apart

/-- A line shows its entry unless it starts with a colon. -/
theorem EntryOf.shows_iff (entryOf : EntryOf line entry) :
    Shows entry (emittedLine entry) ↔ (trim line).head?≠some 58 := by
  rw [ne_eq,←entryOf.marked_iff]
  by_cases hscore : entry.score=[]
  · have hline : emittedLine entry=entry.text := by
      unfold emittedLine
      rw [if_pos hscore,List.append_nil]
    rw [hline]
    constructor
    · intro shows hmarked
      exact shows.marked.mp hmarked hscore
    · intro hunmarked
      exact ⟨⟨fun hmarked => absurd hmarked hunmarked,fun hno => absurd hscore hno⟩,
        fun hno => absurd hscore hno⟩
  · have htokens := tokens_scored hscore entryOf.word
    constructor
    · intro shows
      obtain ⟨front,hfront,hunmarked⟩ := shows.last hscore
      rw [htokens] at hfront
      have hsame : tokens isSpace entry.text=front := List.append_cancel_right hfront
      rw [hsame]
      rintro ⟨token,hmem,hhead⟩
      exact hunmarked token hmem hhead
    · intro hunmarked
      refine ⟨⟨fun _ => hscore,fun _ => ?_⟩,fun _ => ⟨_,htokens,?_⟩⟩
      · rw [htokens]
        exact ⟨_,List.mem_append_right _ (List.mem_singleton_self _),rfl⟩
      · exact fun token hmem hhead => hunmarked ⟨token,hmem,hhead⟩

/-- An entry comes back from its line. -/
theorem EntryOf.recovered (entryOf : EntryOf line entry) (h : (trim line).head?≠some 58) :
    recoverLine (emittedLine entry)=entry := by
  have hunmarked := mt entryOf.marked_iff.mp h
  unfold recoverLine
  by_cases hscore : entry.score=[]
  · have hline : emittedLine entry=entry.text := by
      unfold emittedLine
      rw [if_pos hscore,List.append_nil]
    have hentry : (⟨entry.text,[]⟩ : HotwordEntry)=entry := by rw [←hscore]
    rw [hline]
    cases hlast : (tokens isSpace entry.text).getLast? with
    | none => exact hentry
    | some token =>
      dsimp only
      rw [if_neg fun hhead => hunmarked ⟨token,List.mem_of_getLast? hlast,hhead⟩]
      exact hentry
  · have hline : emittedLine entry=entry.text++32::58::entry.score := by
      unfold emittedLine
      rw [if_neg hscore]
    rw [tokens_scored hscore entryOf.word,List.getLast?_concat]
    dsimp only
    rw [if_pos List.head?_cons,List.tail_cons,hline]
    have hlength : (entry.text++32::58::entry.score).length-((58::entry.score).length+1)=
        entry.text.length := by
      rw [List.length_append,List.length_cons,List.length_cons]
      omega
    rw [hlength,List.take_left]

/-- The text for the recogniser is made of the lines of the entries. -/
theorem splits_emitted {entries : List HotwordEntry}
    (h : ∀ entry∈entries, newline∉entry.text++entry.score) :
    Splits newline (entries.flatMap fun entry => emittedLine entry++[newline])
      (entries.map emittedLine) [] := by
  refine ⟨?_,?_,List.not_mem_nil⟩
  · unfold joinLines
    rw [List.append_nil,List.map_map,List.flatMap_def]
    rfl
  · intro line hline hnewline
    obtain ⟨entry,hmem,rfl⟩ := List.mem_map.mp hline
    refine h entry hmem ?_
    unfold emittedLine at hnewline
    rcases List.mem_append.mp hnewline with htext | hscore
    · exact List.mem_append_left _ htext
    · split at hscore
      · exact absurd hscore List.not_mem_nil
      · rcases List.mem_cons.mp hscore with hspace | hbehind
        · exact absurd hspace (by decide)
        · rcases List.mem_cons.mp hbehind with hcolon | hlater
          · exact absurd hcolon (by decide)
          · exact List.mem_append_right _ hlater

/-- The lines of an accepted file show their entries, and the entries come back
from them, if and only if no line of the file starts with a colon. -/
theorem scores_apart_iff {path hotwords : Bytes} {file : FileView}
    (h : loadTransducerHotwords fits path file=.ok hotwords) :
    (∃ entries, loadHotwordEntries fits path file=.ok entries ∧ ScoresApart entries hotwords) ↔
      ∀ content, readHotwordFile path file=.ok content →
        ∀ line∈splitLines content, (trim line).head?≠some 58 := by
  unfold loadTransducerHotwords at h
  cases hloaded : loadHotwordEntries fits path file with
  | error error =>
    rw [hloaded] at h
    cases h
  | ok entries =>
    rw [hloaded] at h
    cases h
    unfold loadHotwordEntries at hloaded
    cases hread : readHotwordFile path file with
    | error error =>
      rw [hread] at hloaded
      cases hloaded
    | ok content =>
      rw [hread] at hloaded
      dsimp only at hloaded
      have hallowed : ∀ line∈splitLines content, ∀ byte∈line, Allowed byte :=
        fun line hline byte hmem =>
          readHotwordFile_allowed hread byte ((splitLines_spec hline).2 byte hmem)
      obtain ⟨hof,hall⟩ := parseLines_spec hallowed hloaded
      have hclean : ∀ entry∈entries, newline∉entry.text++entry.score := by
        intro entry hmem hnewline
        obtain ⟨line,hline,entryOf⟩ := hof entry hmem
        exact (splitLines_spec hline).1 (entryOf.mem newline hnewline)
      obtain ⟨hlines,htail⟩ := (splits_splitAtNewlines newline _).unique (splits_emitted hclean)
      constructor
      · rintro ⟨others,hothers,apart⟩ whole hwhole line hline hcolon
        cases hothers
        cases hwhole
        have hkept : trim line≠[] := by
          intro hblank
          rw [hblank] at hcolon
          cases hcolon
        obtain ⟨entry,hmem,entryOf⟩ := hall line hline hkept
        have hshown := apart.lines
        rw [hlines,List.forall₂_map_right_iff,List.forall₂_same] at hshown
        exact entryOf.shows_iff.mp (hshown entry hmem) hcolon
      · intro hcolons
        have hplain : ∀ entry∈entries, ∃ line, EntryOf line entry ∧ (trim line).head?≠some 58 := by
          intro entry hmem
          obtain ⟨line,hline,entryOf⟩ := hof entry hmem
          exact ⟨line,entryOf,hcolons content rfl line hline⟩
        refine ⟨entries,rfl,?_,htail,?_⟩
        · rw [hlines,List.forall₂_map_right_iff,List.forall₂_same]
          intro entry hmem
          obtain ⟨line,entryOf,hcolon⟩ := hplain entry hmem
          exact entryOf.shows_iff.mpr hcolon
        · unfold recoverEntries
          rw [hlines,List.map_map]
          refine (List.map_congr_left ?_).trans (List.map_id entries)
          intro entry hmem
          obtain ⟨line,entryOf,hcolon⟩ := hplain entry hmem
          exact entryOf.recovered hcolon

/-- A regular file with these bytes. -/
def plainFile (content : Bytes) : FileView := ⟨true,.ok content.length,some content⟩

/-- The hotword `a` with the score `2`. -/
theorem scores_apart_scored : ∃ entries,
    loadHotwordEntries (fun _ _ => true) [47] (plainFile [97,58,50,10])=.ok entries ∧
      ScoresApart entries [97,32,58,50,10] := by
  have hloaded : loadTransducerHotwords (fun _ _ => true) [47] (plainFile [97,58,50,10])=
      .ok [97,32,58,50,10] := by decide +kernel
  have hread : readHotwordFile [47] (plainFile [97,58,50,10])=.ok [97,58,50,10] := by
    decide +kernel
  refine (scores_apart_iff hloaded).mpr ?_
  intro content hcontent
  rw [hread] at hcontent
  cases hcontent
  have hlines : splitLines [97,58,50,10]=[[97,58,50]] := by decide +kernel
  intro line hline
  rw [hlines] at hline
  rw [List.mem_singleton.mp hline]
  decide +kernel

/-- A line that starts with a colon is taken for a hotword without a score, and
its only word looks like a score. -/
theorem leading_colon_misread :
    loadTransducerHotwords (fun _ _ => true) [47] (plainFile [58,102,111,111,10])=
        .ok [58,102,111,111,10] ∧
      loadHotwordEntries (fun _ _ => true) [47] (plainFile [58,102,111,111,10])=
        .ok [⟨[58,102,111,111],[]⟩] ∧
      ¬ScoresApart [⟨[58,102,111,111],[]⟩] [58,102,111,111,10] := by
  refine ⟨by decide +kernel,by decide +kernel,?_⟩
  intro apart
  have hlines : (splitAtNewlines newline [58,102,111,111,10]).1=[[58,102,111,111]] := by decide
  have hshown := apart.lines
  rw [hlines] at hshown
  cases hshown with
  | cons shows others =>
    have hword : [58,102,111,111]∈tokens isSpace [58,102,111,111] := by decide +kernel
    exact shows.marked.mp ⟨_,hword,rfl⟩ rfl

end Emitted

end Vinput.HotwordEntries
