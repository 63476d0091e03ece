import Vinput.LineDraining

/-!
# Interpolation of placeholders

A text may hold placeholders with a dollar and braces or with double braces. A
resolver gives their values. The scan gives up on a form once one of its
markers is never closed; it agrees with a plain scan that tries both forms at
every byte.
-/

namespace Vinput.Interpolation

open ProcessLines

section Search

/-- Where a delimiter stands first. -/
def find (delimiter : Bytes) : Bytes → Option ℕ
  | [] => none
  | byte::rest =>
    if delimiter.isPrefixOf (byte::rest) then some 0 else (find delimiter rest).map (·+1)

/-- A text without the delimiter has none in what is left of it. -/
theorem find_of_suffix {delimiter text rest : Bytes} (h : find delimiter text=none)
    (hrest : rest <:+ text) : find delimiter rest=none := by
  induction text with
  | nil => rw [List.suffix_nil.mp hrest]; rfl
  | cons byte tail ih =>
    rcases List.suffix_cons_iff.mp hrest with hsame | htail
    · rw [hsame]
      exact h
    · unfold find at h
      split at h
      · cases h
      · exact ih (Option.map_eq_none_iff.mp h) htail

end Search

section Placeholders

/-- A placeholder of a text. -/
structure Placeholder where
  raw : Bytes
  scheme : Bytes
  key : Bytes
deriving DecidableEq

/-- A placeholder at the beginning of a text, with its length. -/
structure ParsedPlaceholder where
  placeholder : Placeholder
  length : ℕ
  /-- It takes something. -/
  positive : 0<length

/-- `$`, `{` and `}`. -/
def dollar : UInt8 := 36
/-- The opening brace. -/
def opening : UInt8 := 123
/-- The closing brace. -/
def closing : UInt8 := 125

/-- The scheme of the dollar form. -/
def envScheme : Bytes := [101,110,118]

/-- Where a form is closed that begins with two bytes. -/
def closes (delimiter remaining : Bytes) : Option ℕ := (find delimiter (remaining.drop 2)).map (·+2)

/-- The dollar form up to where it is closed. -/
def parseDollar (remaining : Bytes) (stop : ℕ) : Option ParsedPlaceholder :=
  let inner := trim ((remaining.take stop).drop 2)
  if inner≠[] then
    some ⟨⟨remaining.take (stop+1),envScheme,inner⟩,stop+1,Nat.succ_pos stop⟩
  else none

/-- Separates a scheme from its key. -/
def isSeparator (byte : UInt8) : Bool := decide (byte=46) || decide (byte=58)

/-- The form with double braces up to where it is closed. -/
def parseBrace (remaining : Bytes) (stop : ℕ) : Option ParsedPlaceholder :=
  let raw := remaining.take (stop+2)
  let inner := trim ((remaining.take stop).drop 2)
  if inner≠[] then
    if inner.any isSeparator then
      let scheme := trim (inner.takeWhile fun byte => !isSeparator byte)
      let key := trim ((inner.dropWhile fun byte => !isSeparator byte).drop 1)
      if scheme≠[] ∧ key≠[] then some ⟨⟨raw,scheme,key⟩,stop+2,Nat.succ_pos (stop+1)⟩ else none
    else some ⟨⟨raw,[],inner⟩,stop+2,Nat.succ_pos (stop+1)⟩
  else none

/-- The marker of the dollar form. -/
def startsDollar (remaining : Bytes) : Bool := [dollar,opening].isPrefixOf remaining

/-- The marker of double braces. -/
def startsBrace (remaining : Bytes) : Bool := [opening,opening].isPrefixOf remaining

/-- A placeholder at the beginning of a text, and whether markers of each
form may still be closed. -/
def tryParsePlaceholder (remaining : Bytes) (canCloseDollar canCloseBrace : Bool) :
    Option ParsedPlaceholder×Bool×Bool :=
  let first : Option ParsedPlaceholder×Bool :=
    if canCloseDollar && startsDollar remaining then
      match closes [closing] remaining with
      | none => (none,false)
      | some stop => (parseDollar remaining stop,canCloseDollar)
    else (none,canCloseDollar)
  match first with
  | (some parsed,left) => (some parsed,left,canCloseBrace)
  | (none,left) =>
    if canCloseBrace && startsBrace remaining then
      match closes [closing,closing] remaining with
      | none => (none,left,false)
      | some stop => (parseBrace remaining stop,left,canCloseBrace)
    else (none,left,canCloseBrace)

/-- Gives the value of a placeholder it knows. -/
abbrev Resolver := Placeholder → Option Bytes

/-- Bytes that may begin a placeholder. -/
def isMarker : Bool → Bool → UInt8 → Bool
  | true,true,byte => decide (byte=dollar) || decide (byte=opening)
  | true,false,byte => decide (byte=dollar)
  | false,_,byte => decide (byte=opening)

/-- What is appended for a text from a position on. -/
def interpolateFrom (resolver : Resolver) (rest : Bytes) (canCloseDollar canCloseBrace : Bool) :
    Bytes :=
  if !canCloseDollar && !canCloseBrace then rest
  else
    match _h : rest.dropWhile fun byte => !isMarker canCloseDollar canCloseBrace byte with
    | [] => rest
    | byte::tail =>
      let found := tryParsePlaceholder (byte::tail) canCloseDollar canCloseBrace
      rest.takeWhile (fun byte => !isMarker canCloseDollar canCloseBrace byte)++
        match found.1 with
        | some parsed =>
          match resolver parsed.placeholder with
          | some replacement =>
            replacement++interpolateFrom resolver ((byte::tail).drop parsed.length) found.2.1
              found.2.2
          | none => byte::interpolateFrom resolver tail found.2.1 found.2.2
        | none => byte::interpolateFrom resolver tail found.2.1 found.2.2
termination_by rest.length
decreasing_by
  all_goals
    have hle := (List.dropWhile_suffix
      fun byte => !isMarker canCloseDollar canCloseBrace byte : _ <:+ rest).length_le
    rw [_h,List.length_cons] at hle
    have hpositive : ∀ parsed : ParsedPlaceholder, 0<parsed.length := fun parsed => parsed.positive
    try simp only [List.length_drop,List.length_cons]
    try have := hpositive ‹_›
    omega

/-- A text with its placeholders replaced. -/
def interpolate (text : Bytes) : Option Resolver → Bytes
  | none => text
  | some resolver => if text=[] then text else interpolateFrom resolver text true true

end Placeholders

section Plain

/-- A closed placeholder in the dollar form. -/
def dollarAt (remaining : Bytes) : Option ParsedPlaceholder :=
  if startsDollar remaining then (closes [closing] remaining).bind (parseDollar remaining)
  else none

/-- A closed placeholder in double braces. -/
def braceAt (remaining : Bytes) : Option ParsedPlaceholder :=
  if startsBrace remaining then (closes [closing,closing] remaining).bind (parseBrace remaining)
  else none

/-- A placeholder in either form. -/
def placeholderAt (remaining : Bytes) : Option ParsedPlaceholder :=
  (dollarAt remaining).or (braceAt remaining)

/-- A placeholder with the value the resolver gives it. -/
def resolvedAt (resolver : Resolver) (remaining : Bytes) : Option (ParsedPlaceholder×Bytes) :=
  (placeholderAt remaining).bind fun parsed =>
    (resolver parsed.placeholder).map fun value => (parsed,value)

/-- The plain scan: at every byte a placeholder is replaced and skipped, or
the byte is copied. -/
def scan (resolver : Resolver) : Bytes → Bytes
  | [] => []
  | byte::tail =>
    match resolvedAt resolver (byte::tail) with
    | some (parsed,value) => value++scan resolver ((byte::tail).drop parsed.length)
    | none => byte::scan resolver tail
termination_by text => text.length
decreasing_by
  · have hpositive := parsed.positive
    simp only [List.length_drop,List.length_cons]
    omega
  · simp only [List.length_cons]
    omega

/-- Markers of a form that is given up are never closed. -/
def GivenUp (canClose : Bool) (delimiter rest : Bytes) : Prop :=
  canClose=false → closes delimiter rest=none

/-- What is given up stays so further on. -/
theorem GivenUp.suffix {canClose : Bool} {delimiter text rest : Bytes}
    (h : GivenUp canClose delimiter text) (hrest : rest <:+ text) :
    GivenUp canClose delimiter rest := by
  intro hflag
  have htext := h hflag
  unfold closes at htext ⊢
  rw [Option.map_eq_none_iff] at htext ⊢
  obtain ⟨before,rfl⟩ := hrest
  refine find_of_suffix htext ?_
  have hlength : (before++rest).length=before.length+rest.length := List.length_append
  refine List.suffix_of_suffix_length_le
    ((List.drop_suffix 2 rest).trans (List.suffix_append before rest))
    (List.drop_suffix 2 (before++rest)) ?_
  simp only [List.length_drop]
  omega

/-- A form that is given up has no placeholder. -/
theorem dollarAt_of_givenUp {rest : Bytes} (h : closes [closing] rest=none) :
    dollarAt rest=none := by
  unfold dollarAt
  rw [h]
  simp

/-- Without its end there is no placeholder. -/
theorem braceAt_of_givenUp {rest : Bytes} (h : closes [closing,closing] rest=none) :
    braceAt rest=none := by
  unfold braceAt
  rw [h]
  simp

/-- A byte that is no marker of a form that goes on begins no placeholder. -/
theorem placeholderAt_of_copied {canCloseDollar canCloseBrace : Bool} {byte : UInt8}
    {tail : Bytes} (hdollar : GivenUp canCloseDollar [closing] (byte::tail))
    (hbrace : GivenUp canCloseBrace [closing,closing] (byte::tail))
    (h : canCloseDollar=false ∧ canCloseBrace=false ∨
      isMarker canCloseDollar canCloseBrace byte=false) : placeholderAt (byte::tail)=none := by
  have hfirst : canCloseDollar=false ∨ byte≠dollar := by
    rcases h with ⟨hflag,_⟩ | hmarker
    · exact .inl hflag
    · cases canCloseDollar with
      | false => exact .inl rfl
      | true => cases canCloseBrace <;> simp_all [isMarker]
  have hsecond : canCloseBrace=false ∨ byte≠opening := by
    rcases h with ⟨_,hflag⟩ | hmarker
    · exact .inl hflag
    · cases canCloseBrace with
      | false => exact .inl rfl
      | true => cases canCloseDollar <;> simp_all [isMarker]
  have hnodollar : dollarAt (byte::tail)=none := by
    rcases hfirst with hflag | hbyte
    · exact dollarAt_of_givenUp (hdollar hflag)
    · simp [dollarAt,startsDollar,List.isPrefixOf,Ne.symm hbyte]
  have hnobrace : braceAt (byte::tail)=none := by
    rcases hsecond with hflag | hbyte
    · exact braceAt_of_givenUp (hbrace hflag)
    · simp [braceAt,startsBrace,List.isPrefixOf,Ne.symm hbyte]
  rw [placeholderAt,hnodollar,hnobrace]
  rfl

/-- A try finds what is there, and gives up only forms that are never closed. -/
structure Agrees (remaining : Bytes) (found : Option ParsedPlaceholder×Bool×Bool) : Prop where
  parsed : found.1=placeholderAt remaining
  dollar : GivenUp found.2.1 [closing] remaining
  brace : GivenUp found.2.2 [closing,closing] remaining

/-- The parser agrees with the scan while what is given up has no end. -/
theorem tryParsePlaceholder_agrees {canCloseDollar canCloseBrace : Bool} {remaining : Bytes}
    (hdollar : GivenUp canCloseDollar [closing] remaining)
    (hbrace : GivenUp canCloseBrace [closing,closing] remaining) :
    Agrees remaining (tryParsePlaceholder remaining canCloseDollar canCloseBrace) := by
  have hfirst : ∃ left, GivenUp left [closing] remaining ∧
      (if canCloseDollar && startsDollar remaining then
        match closes [closing] remaining with
        | none => (none,false)
        | some stop => (parseDollar remaining stop,canCloseDollar)
      else (none,canCloseDollar))=(dollarAt remaining,left) := by
    cases hstarts : startsDollar remaining with
    | false =>
      refine ⟨canCloseDollar,hdollar,?_⟩
      simp [dollarAt,hstarts]
    | true =>
      cases hcloses : closes [closing] remaining with
      | none =>
        cases canCloseDollar <;> refine ⟨false,fun _ => hcloses,?_⟩ <;>
          simp [dollarAt,hstarts,hcloses]
      | some stop =>
        have hflag : canCloseDollar=true := by
          by_contra hoff
          have hnone := hdollar (Bool.eq_false_of_not_eq_true hoff)
          rw [hnone] at hcloses
          cases hcloses
        refine ⟨canCloseDollar,hdollar,?_⟩
        simp [dollarAt,hstarts,hcloses,hflag]
  obtain ⟨left,hleft,hsame⟩ := hfirst
  unfold tryParsePlaceholder
  simp only [hsame]
  cases hparsed : dollarAt remaining with
  | some parsed => exact ⟨by simp [placeholderAt,hparsed],hleft,hbrace⟩
  | none =>
    have hplace : placeholderAt remaining=braceAt remaining := by simp [placeholderAt,hparsed]
    cases hstarts : startsBrace remaining with
    | false =>
      have hnone : braceAt remaining=none := by simp [braceAt,hstarts]
      simp only [Bool.and_false,Bool.false_eq_true,if_false]
      exact ⟨hnone.symm.trans hplace.symm,hleft,hbrace⟩
    | true =>
      cases hcloses : closes [closing,closing] remaining with
      | none =>
        have hnone := braceAt_of_givenUp hcloses
        cases canCloseBrace
        · exact ⟨hnone.symm.trans hplace.symm,hleft,fun _ => hcloses⟩
        · exact ⟨hnone.symm.trans hplace.symm,hleft,fun _ => hcloses⟩
      | some stop =>
        have hflag : canCloseBrace=true := by
          by_contra hoff
          have hnone := hbrace (Bool.eq_false_of_not_eq_true hoff)
          rw [hnone] at hcloses
          cases hcloses
        have hsome : braceAt remaining=parseBrace remaining stop := by
          simp [braceAt,hstarts,hcloses]
        subst hflag
        exact ⟨hsome.symm.trans hplace.symm,hleft,hbrace⟩

/-- Bytes before the next marker are copied. -/
theorem scan_copied {resolver : Resolver} {canCloseDollar canCloseBrace : Bool}
    {before rest : Bytes} (hdollar : GivenUp canCloseDollar [closing] (before++rest))
    (hbrace : GivenUp canCloseBrace [closing,closing] (before++rest))
    (h : canCloseDollar=false ∧ canCloseBrace=false ∨
      ∀ byte∈before, isMarker canCloseDollar canCloseBrace byte=false) :
    scan resolver (before++rest)=before++scan resolver rest := by
  induction before with
  | nil => rfl
  | cons byte tail ih =>
    have hsuffix : tail++rest <:+ (byte::tail)++rest := List.suffix_cons byte (tail++rest)
    have hnone : placeholderAt (byte::(tail++rest))=none :=
      placeholderAt_of_copied hdollar hbrace (h.imp_right fun hall => hall byte List.mem_cons_self)
    have hrest := ih (hdollar.suffix hsuffix) (hbrace.suffix hsuffix)
      (h.imp_right fun hall other hother => hall other (List.mem_cons_of_mem _ hother))
    rw [List.cons_append,scan]
    simp only [resolvedAt,hnone,Option.bind_none,hrest,List.cons_append]

theorem scan_unmarked {resolver : Resolver} {canCloseDollar canCloseBrace : Bool} {text : Bytes}
    (hdollar : GivenUp canCloseDollar [closing] text)
    (hbrace : GivenUp canCloseBrace [closing,closing] text)
    (h : canCloseDollar=false ∧ canCloseBrace=false ∨
      ∀ byte∈text, isMarker canCloseDollar canCloseBrace byte=false) :
    scan resolver text=text := by
  rw [← List.append_nil text] at hdollar hbrace
  have hcopied : scan resolver (text++[])=text++scan resolver [] := scan_copied hdollar hbrace h
  rw [scan,List.append_nil] at hcopied
  exact hcopied

/-- The scan that gives up forms agrees with the plain scan. -/
theorem interpolateFrom_eq_scan {resolver : Resolver} (rest : Bytes)
    (canCloseDollar canCloseBrace : Bool)
    (hdollar : GivenUp canCloseDollar [closing] rest)
    (hbrace : GivenUp canCloseBrace [closing,closing] rest) :
    interpolateFrom resolver rest canCloseDollar canCloseBrace=scan resolver rest := by
  induction hlength : rest.length using Nat.strong_induction_on
    generalizing rest canCloseDollar canCloseBrace with
  | _ length ih =>
    subst hlength
    rw [interpolateFrom]
    split
    · rename_i hflags
      have hoff : canCloseDollar=false ∧ canCloseBrace=false := by simpa using hflags
      exact (scan_unmarked hdollar hbrace (.inl hoff)).symm
    · have hbefore :
          ∀ byte∈rest.takeWhile (fun byte => !isMarker canCloseDollar canCloseBrace byte),
          isMarker canCloseDollar canCloseBrace byte=false := by
        intro byte hbyte
        simpa using List.all_eq_true.mp List.all_takeWhile byte hbyte
      have hparts := List.takeWhile_append_dropWhile
        (p := fun byte => !isMarker canCloseDollar canCloseBrace byte) (l := rest)
      generalize rest.takeWhile
        (fun byte => !isMarker canCloseDollar canCloseBrace byte)=before at hbefore hparts ⊢
      split
      · rename_i hend
        rw [hend,List.append_nil] at hparts
        rw [hparts] at hbefore
        exact (scan_unmarked hdollar hbrace (.inr hbefore)).symm
      · rename_i byte tail hhere
        rw [hhere] at hparts
        have hsuffix : byte::tail <:+ rest := ⟨before,hparts⟩
        have agrees := tryParsePlaceholder_agrees (hdollar.suffix hsuffix) (hbrace.suffix hsuffix)
        have hcopied : scan resolver rest=before++scan resolver (byte::tail) := by
          rw [← hparts] at hdollar hbrace ⊢
          exact scan_copied hdollar hbrace (.inr hbefore)
        have hrest : ∀ {left : Bytes}, left <:+ byte::tail → left.length<(byte::tail).length →
            interpolateFrom resolver left
              (tryParsePlaceholder (byte::tail) canCloseDollar canCloseBrace).2.1
              (tryParsePlaceholder (byte::tail) canCloseDollar canCloseBrace).2.2=
                scan resolver left := by
          intro left hleft hshorter
          have hle := hsuffix.length_le
          exact ih left.length (by omega) left _ _ (agrees.dollar.suffix hleft)
            (agrees.brace.suffix hleft) rfl
        rw [hcopied,scan,resolvedAt]
        simp only [agrees.parsed]
        cases hplace : placeholderAt (byte::tail) with
        | none =>
          simp only [Option.bind_none]
          rw [hrest (List.suffix_cons byte tail) (by simp)]
        | some parsed =>
          simp only [Option.bind_some]
          cases hvalue : resolver parsed.placeholder with
          | none =>
            simp only [Option.map_none]
            rw [hrest (List.suffix_cons byte tail) (by simp)]
          | some value =>
            simp only [Option.map_some]
            have hpositive := parsed.positive
            have hshorter : ((byte::tail).drop parsed.length).length<(byte::tail).length := by
              simp only [List.length_drop,List.length_cons]
              omega
            rw [hrest (List.drop_suffix _ _) hshorter]

end Plain

section Pieces

/-- What a scan does with a part of the text. -/
inductive Piece where
  | copied (byte : UInt8)
  | replaced (placeholder : Placeholder) (value : Bytes)

/-- The part of the text a piece comes from. -/
def Piece.source : Piece → Bytes
  | .copied byte => [byte]
  | .replaced placeholder _ => placeholder.raw

/-- What stands for it in the result. -/
def Piece.outcome : Piece → Bytes
  | .copied byte => [byte]
  | .replaced _ value => value

/-- Only values of the resolver replace a part of the text. -/
def Piece.Answered (resolver : Resolver) : Piece → Prop
  | .copied _ => True
  | .replaced placeholder value => resolver placeholder=some value

/-- A text split into pieces that give the result. -/
structure Split (resolver : Resolver) (text result : Bytes) (pieces : List Piece) : Prop where
  source : text=pieces.flatMap Piece.source
  outcome : result=pieces.flatMap Piece.outcome
  answered : ∀ piece∈pieces, piece.Answered resolver

/-- A split goes on with a piece in front. -/
theorem Split.cons {resolver : Resolver} {text result : Bytes} {pieces : List Piece} {piece : Piece}
    (h : Split resolver text result pieces) (hpiece : piece.Answered resolver) :
    Split resolver (piece.source++text) (piece.outcome++result) (piece::pieces) := by
  constructor
  · rw [List.flatMap_cons,← h.source]
  · rw [List.flatMap_cons,← h.outcome]
  · intro other hother
    rcases List.mem_cons.mp hother with rfl | hrest
    · exact hpiece
    · exact h.answered other hrest

theorem raw_of_parseDollar {remaining : Bytes} {stop : ℕ} {parsed : ParsedPlaceholder}
    (h : parseDollar remaining stop=some parsed) :
    parsed.placeholder.raw=remaining.take parsed.length := by
  simp only [parseDollar] at h
  split at h
  · cases h
    rfl
  · cases h

theorem raw_of_parseBrace {remaining : Bytes} {stop : ℕ} {parsed : ParsedPlaceholder}
    (h : parseBrace remaining stop=some parsed) :
    parsed.placeholder.raw=remaining.take parsed.length := by
  simp only [parseBrace] at h
  split at h
  · split at h
    · split at h
      · cases h
        rfl
      · cases h
    · cases h
      rfl
  · cases h

/-- A placeholder is what the text begins with. -/
theorem raw_of_placeholderAt {remaining : Bytes} {parsed : ParsedPlaceholder}
    (h : placeholderAt remaining=some parsed) :
    parsed.placeholder.raw=remaining.take parsed.length := by
  rcases Option.or_eq_some_iff.mp h with hdollar | ⟨_,hbrace⟩
  · simp only [dollarAt,Option.ite_none_right_eq_some,Option.bind_eq_some_iff] at hdollar
    obtain ⟨_,stop,_,hparsed⟩ := hdollar
    exact raw_of_parseDollar hparsed
  · simp only [braceAt,Option.ite_none_right_eq_some,Option.bind_eq_some_iff] at hbrace
    obtain ⟨_,stop,_,hparsed⟩ := hbrace
    exact raw_of_parseBrace hparsed

/-- The plain scan goes over every part of the text once. -/
theorem scan_split (resolver : Resolver) (text : Bytes) :
    ∃ pieces, Split resolver text (scan resolver text) pieces := by
  fun_induction scan resolver text with
  | case1 => exact ⟨[],⟨rfl,rfl,by simp⟩⟩
  | case2 byte tail parsed value hvalue ih =>
    obtain ⟨pieces,hpieces⟩ := ih
    simp only [resolvedAt,Option.bind_eq_some_iff,Option.map_eq_some_iff,Prod.mk.injEq] at hvalue
    obtain ⟨found,hplace,answer,hanswer,rfl,rfl⟩ := hvalue
    refine ⟨.replaced found.placeholder answer::pieces,?_⟩
    have hanswered : Piece.Answered resolver (.replaced found.placeholder answer) := hanswer
    have hsplit := hpieces.cons hanswered
    have hsource : found.placeholder.raw++(byte::tail).drop found.length=byte::tail := by
      rw [raw_of_placeholderAt hplace,List.take_append_drop]
    simp only [Piece.source,Piece.outcome,hsource] at hsplit
    exact hsplit
  | case3 byte tail _ ih =>
    obtain ⟨pieces,hpieces⟩ := ih
    have hcopied : Piece.Answered resolver (.copied byte) := trivial
    exact ⟨.copied byte::pieces,hpieces.cons hcopied⟩

/-- A resolver that answers nothing changes nothing. -/
theorem scan_silent {resolver : Resolver} (h : ∀ placeholder, resolver placeholder=none)
    (text : Bytes) : scan resolver text=text := by
  fun_induction scan resolver text with
  | case1 => rfl
  | case2 byte tail parsed value hvalue _ =>
    simp [resolvedAt,h] at hvalue
  | case3 byte tail _ ih => rw [ih]

/-- The resolver that is called, if there is one. -/
def called (resolver : Option Resolver) : Resolver := resolver.getD fun _ => none

/-- The result is that of the plain scan: every part of the text is copied or
replaced by a value of the resolver. -/
theorem interpolate_eq_scan (text : Bytes) (resolver : Option Resolver) :
    interpolate text resolver=scan (called resolver) text ∧
      (∃ pieces, Split (called resolver) text (interpolate text resolver) pieces) ∧
      ((∀ placeholder, called resolver placeholder=none) → interpolate text resolver=text) := by
  have hsame : interpolate text resolver=scan (called resolver) text := by
    cases resolver with
    | none => exact (scan_silent (fun _ => rfl) text).symm
    | some resolver =>
      simp only [interpolate,called,Option.getD_some]
      split
      · rename_i hempty
        rw [hempty,scan]
      · have hopen : ∀ delimiter, GivenUp true delimiter text := by
          intro delimiter hflag
          cases hflag
        exact interpolateFrom_eq_scan text true true (hopen _) (hopen _)
  rw [hsame]
  exact ⟨rfl,scan_split _ text,fun h => scan_silent h text⟩

end Pieces

end Vinput.Interpolation
