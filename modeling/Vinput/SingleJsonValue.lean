import Mathlib.Data.List.TakeWhile
import Mathlib.Tactic.NormNum
import Vinput.JsonGrammar
import Vinput.LineDraining

/-!
# Whether a text is one JSON value

The check in front of the reader finds the end of a value without parsing it.
It counts brackets outside of strings, finds the quote that ends a string, and
takes anything else up to the next white space.
-/

namespace Vinput.SingleJsonValue

open JsonGrammar ProcessLines

section Scanner

/-- Where a byte stands; the byte behind a backslash is passed over. -/
inductive Place where
  | outside
  | inString
  | escaped

/-- What is left behind the bracket that closes the first one; `none` inside if
no bracket closes it, outside if the depth exceeds an `int`. -/
def skipBrackets (depth : ℤ) : Place → List UInt8 → Option (Option (List UInt8))
  | _,[] => some none
  | .escaped,_::rest => skipBrackets depth .inString rest
  | .inString,c::rest =>
    if c=code '\\' then skipBrackets depth .escaped rest
    else if c=code '"' then skipBrackets depth .outside rest
    else skipBrackets depth .inString rest
  | .outside,c::rest =>
    if c=code '"' then skipBrackets depth .inString rest
    else if c=code '{' ∨ c=code '[' then
      if depth=2^31-1 then none else skipBrackets (depth+1) .outside rest
    else if c=code '}' ∨ c=code ']' then
      if depth-1=0 then some (some rest)
      else if depth-1<0 then some none
      else skipBrackets (depth-1) .outside rest
    else skipBrackets depth .outside rest

/-- What is left behind the quote that ends a string. A backslash at the end
moves the position beyond the end of the text, which `none` stands for. -/
def skipString : (escaped : Bool) → List UInt8 → Option (List UInt8)
  | true,[] => none
  | false,[] => some []
  | true,_::rest => skipString false rest
  | false,c::rest =>
    if c=code '\\' then skipString true rest
    else if c=code '"' then some rest
    else skipString false rest

/-- Only white space is left. -/
def atEnd (rest : List UInt8) : Bool := (rest.dropWhile isSpace).isEmpty

/-- `none` stands for an overflow of the depth. -/
def isSingleJsonValue (text : List UInt8) : Option Bool :=
  match text.dropWhile isSpace with
  | [] => some false
  | first::rest =>
    if first=code '{' ∨ first=code '[' then
      (skipBrackets 0 .outside (first::rest)).map fun found => found.elim false atEnd
    else if first=code '"' then some ((skipString false rest).elim false atEnd)
    else some (atEnd ((first::rest).dropWhile fun byte => !isSpace byte))

end Scanner

section Skipping

/-- A byte that is no quote and no bracket. -/
def Neutral (byte : UInt8) : Prop :=
  byte≠code '"' ∧ byte≠code '{' ∧ byte≠code '[' ∧ byte≠code '}' ∧ byte≠code ']'

variable {byte : UInt8} {depth : ℤ} {text content rest : List UInt8}

/-- A neutral byte changes no depth. -/
theorem skipBrackets_neutral (h : Neutral byte) (depth : ℤ) (rest : List UInt8) :
    skipBrackets depth .outside (byte::rest)=skipBrackets depth .outside rest := by
  obtain ⟨hquote,hbrace,hbracket,hclose,hend⟩ := h
  rw [skipBrackets]
  simp [hquote,hbrace,hbracket,hclose,hend]

theorem skipBrackets_neutrals (h : ∀ byte∈text, Neutral byte) (depth : ℤ) (rest : List UInt8) :
    skipBrackets depth .outside (text++rest)=skipBrackets depth .outside rest := by
  induction text with
  | nil => rfl
  | cons byte text ih =>
    rw [List.cons_append,skipBrackets_neutral (h byte List.mem_cons_self),
      ih fun other hother => h other (List.mem_cons_of_mem _ hother)]

theorem skipBrackets_quote (depth : ℤ) (rest : List UInt8) :
    skipBrackets depth .outside (34::rest)=skipBrackets depth .inString rest := by
  rw [skipBrackets]
  exact if_pos rfl

/-- An opening bracket goes down, as far as an integer counts. -/
theorem skipBrackets_open (hbracket : byte=123 ∨ byte=91) (depth : ℤ) (rest : List UInt8) :
    skipBrackets depth .outside (byte::rest)=
      if depth=2^31-1 then none else skipBrackets (depth+1) .outside rest := by
  rw [skipBrackets]
  rcases hbracket with rfl | rfl <;> rfl

/-- A closing bracket goes up and ends the value at the top. -/
theorem skipBrackets_close (hbracket : byte=125 ∨ byte=93) (hdepth : 0<depth) (rest : List UInt8) :
    skipBrackets depth .outside (byte::rest)=
      if depth-1=0 then some (some rest) else skipBrackets (depth-1) .outside rest := by
  have hpositive : ¬depth-1<0 := by omega
  rw [skipBrackets]
  rcases hbracket with rfl | rfl
  all_goals
    show (if depth-1=0 then _ else if depth-1<0 then _ else _)=_
    rw [if_neg hpositive]

/-- Inside a string a plain byte is passed. -/
theorem skipBrackets_letter (hescape : byte≠92) (hquote : byte≠34) (depth : ℤ) (rest : List UInt8) :
    skipBrackets depth .inString (byte::rest)=skipBrackets depth .inString rest := by
  rw [skipBrackets]
  exact (if_neg hescape).trans (if_neg hquote)

theorem skipBrackets_letters (h : ∀ byte∈text, byte≠92 ∧ byte≠34) (depth : ℤ) (rest : List UInt8) :
    skipBrackets depth .inString (text++rest)=skipBrackets depth .inString rest := by
  induction text with
  | nil => rfl
  | cons byte text ih =>
    obtain ⟨hescape,hquote⟩ := h byte List.mem_cons_self
    rw [List.cons_append,skipBrackets_letter hescape hquote,
      ih fun other hother => h other (List.mem_cons_of_mem _ hother)]

/-- Plain bytes are passed in front of the closing quote. -/
theorem skipString_letters (h : ∀ byte∈text, byte≠92 ∧ byte≠34) (rest : List UInt8) :
    skipString false (text++rest)=skipString false rest := by
  induction text with
  | nil => rfl
  | cons byte text ih =>
    obtain ⟨hescape,hquote⟩ := h byte List.mem_cons_self
    rw [List.cons_append,skipString]
    refine (if_neg hescape).trans ((if_neg hquote).trans ?_)
    exact ih fun other hother => h other (List.mem_cons_of_mem _ hother)

/-- A hexadecimal digit is a plain byte. -/
theorem hexDigit_letter (h : HexDigit byte) : byte≠92 ∧ byte≠34 := by
  unfold HexDigit Digit at h
  constructor <;> grind

theorem letter_bytes {letter : Char} (hquote : letter≠ '"') (hbackslash : letter≠ '\\')
    (h : byte∈String.utf8EncodeChar letter) : byte≠92 ∧ byte≠34 := by
  have hq : letter.toNat≠34 := fun hnat => hquote (Char.toNat_inj.mp hnat)
  have hb : letter.toNat≠92 := fun hnat => hbackslash (Char.toNat_inj.mp hnat)
  have hbyte := mem_utf8EncodeChar h
  constructor
  · rintro rfl
    simp only [UInt8.reduceToNat] at hbyte
    omega
  · rintro rfl
    simp only [UInt8.reduceToNat] at hbyte
    omega

/-- The inside of a string is skipped up to its quote. -/
theorem skipBrackets_content (h : Content content) (depth : ℤ) (rest : List UInt8) :
    skipBrackets depth .inString (content++34::rest)=skipBrackets depth .outside rest := by
  induction h with
  | empty =>
    rw [List.nil_append,skipBrackets]
    rfl
  | letter printable hquote hbackslash content ih =>
    rw [List.append_assoc,skipBrackets_letters fun byte => letter_bytes hquote hbackslash,ih]
  | escape known content ih =>
    rw [List.cons_append,List.cons_append,skipBrackets]
    exact ih
  | @unicode digits text four hex content ih =>
    rw [List.cons_append,List.cons_append,List.append_assoc,skipBrackets]
    show skipBrackets depth .inString (digits++(text++34::rest))=_
    rw [skipBrackets_letters fun byte hbyte => hexDigit_letter (hex byte hbyte),ih]

/-- The content of a string ends at its quote. -/
theorem skipString_content (h : Content content) (rest : List UInt8) :
    skipString false (content++34::rest)=some rest := by
  induction h with
  | empty => rfl
  | letter printable hquote hbackslash content ih =>
    rw [List.append_assoc,skipString_letters fun byte => letter_bytes hquote hbackslash,ih]
  | escape known content ih =>
    rw [List.cons_append,List.cons_append,skipString]
    exact ih
  | @unicode digits text four hex content ih =>
    rw [List.cons_append,List.cons_append,List.append_assoc,skipString]
    show skipString false (digits++(text++34::rest))=_
    rw [skipString_letters fun byte hbyte => hexDigit_letter (hex byte hbyte),ih]

/-- A whole string changes no depth. -/
theorem skipBrackets_quoted (h : Quoted text) (depth : ℤ) (rest : List UInt8) :
    skipBrackets depth .outside (text++rest)=skipBrackets depth .outside rest := by
  obtain ⟨content,rfl,hcontent⟩ := h
  rw [List.cons_append,List.cons_append,skipBrackets_quote,List.append_assoc,List.singleton_append,
    skipBrackets_content hcontent]

theorem blank_neutral (h : Blank byte) : Neutral byte := by
  rcases h with rfl | rfl | rfl | rfl
  all_goals
    unfold Neutral
    decide

theorem plain_neutral (h : Plain byte) : Neutral byte := by
  unfold Plain Digit at h
  have hcodes : code '"'=34 ∧ code '{'=123 ∧ code '['=91 ∧ code '}'=125 ∧ code ']'=93 := by decide
  unfold Neutral
  grind

theorem skipBrackets_blanks (h : Blanks text) (depth : ℤ) (rest : List UInt8) :
    skipBrackets depth .outside (text++rest)=skipBrackets depth .outside rest :=
  skipBrackets_neutrals (fun byte hbyte => blank_neutral (h byte hbyte)) depth rest

theorem skipBrackets_scalar (h : Scalar text) (depth : ℤ) (rest : List UInt8) :
    skipBrackets depth .outside (text++rest)=skipBrackets depth .outside rest :=
  skipBrackets_neutrals (fun byte hbyte => plain_neutral (h.plain.2 byte hbyte)) depth rest

theorem comma_neutral : Neutral 44 := by
  unfold Neutral
  decide

theorem colon_neutral : Neutral 58 := by
  unfold Neutral
  decide

/-- What is skipped one after the other needs the larger of the two depths. -/
theorem limit_max (depth : ℤ) (levels more : ℕ) (found : Option (Option (List UInt8))) :
    (if depth+levels<2^31 then if depth+more<2^31 then found else none else none)=
      if depth+(max levels more : ℕ)<2^31 then found else none := by
  split_ifs <;> first | rfl | omega

/-- What stands in brackets is skipped if this holds of its inside one level down. -/
theorem skipBrackets_inside {opening closing : UInt8} {levels : ℕ} {inner : List UInt8}
    (hopen : opening=123 ∨ opening=91) (hclose : closing=125 ∨ closing=93)
    (hdepth : 0 ≤ depth) (hlimit : depth<2^31) (rest : List UInt8)
    (hinner : depth+1<2^31 → skipBrackets (depth+1) .outside (inner++closing::rest)=
      if depth+1+levels<2^31 then skipBrackets (depth+1) .outside (closing::rest) else none) :
    skipBrackets depth .outside (opening::inner++[closing]++rest)=
      if depth+(levels+1 : ℕ)<2^31 then
        if depth=0 then some (some rest) else skipBrackets depth .outside rest
      else none := by
  have htext : opening::inner++[closing]++rest=opening::(inner++closing::rest) := by simp
  rw [htext,skipBrackets_open hopen]
  by_cases hfull : depth=2^31-1
  · rw [if_pos hfull,if_neg (by omega)]
  · rw [if_neg hfull,hinner (by omega),skipBrackets_close hclose (by omega)]
    have hlevels : depth+1+levels<2^31 ↔ depth+(levels+1 : ℕ)<2^31 := by omega
    have hback : depth+1-1=depth := by omega
    rw [hback]
    simp only [hlevels]

/-- An empty inside has no brackets. -/
theorem skipBrackets_space (h : Blanks text) (hlimit : depth<2^31) (rest : List UInt8) :
    skipBrackets depth .outside (text++rest)=
      if depth+(0 : ℕ)<2^31 then skipBrackets depth .outside rest else none := by
  rw [skipBrackets_blanks h,if_pos (by omega)]

/-- A part of a value is skipped unless its brackets exceed the depth that an
`int` can count. -/
theorem skipBrackets_derives {part : Part} {levels : ℕ} (h : Derives part levels text)
    (hdepth : 0<depth) (hlimit : depth<2^31) (rest : List UInt8) :
    skipBrackets depth .outside (text++rest)=
      if depth+levels<2^31 then skipBrackets depth .outside rest else none := by
  induction h generalizing depth rest with
  | scalar scalar => rw [skipBrackets_scalar scalar,if_pos (by omega)]
  | quoted quoted => rw [skipBrackets_quoted quoted,if_pos (by omega)]
  | emptyArray blanks =>
    rw [skipBrackets_inside (.inr rfl) (.inr rfl) hdepth.le hlimit rest,if_neg hdepth.ne']
    intro hnext
    exact skipBrackets_space blanks hnext _
  | array elements ih =>
    rw [skipBrackets_inside (.inr rfl) (.inr rfl) hdepth.le hlimit rest,if_neg hdepth.ne']
    intro hnext
    exact ih (by omega) hnext _
  | emptyObject blanks =>
    rw [skipBrackets_inside (.inl rfl) (.inl rfl) hdepth.le hlimit rest,if_neg hdepth.ne']
    intro hnext
    exact skipBrackets_space blanks hnext _
  | object members ih =>
    rw [skipBrackets_inside (.inl rfl) (.inl rfl) hdepth.le hlimit rest,if_neg hdepth.ne']
    intro hnext
    exact ih (by omega) hnext _
  | element before value after ih =>
    rw [List.append_assoc,List.append_assoc,skipBrackets_blanks before,ih hdepth hlimit,
      skipBrackets_blanks after]
  | elements first others ihfirst ihothers =>
    rw [List.append_assoc,ihfirst hdepth hlimit,List.cons_append,
      skipBrackets_neutral comma_neutral,ihothers hdepth hlimit,limit_max]
  | member before quoted between leading value after ih =>
    simp only [List.append_assoc,List.cons_append]
    rw [skipBrackets_blanks before,skipBrackets_quoted quoted,skipBrackets_blanks between,
      skipBrackets_neutral colon_neutral,skipBrackets_blanks leading,ih hdepth hlimit,
      skipBrackets_blanks after]
  | members first others ihfirst ihothers =>
    rw [List.append_assoc,ihfirst hdepth hlimit,List.cons_append,
      skipBrackets_neutral comma_neutral,ihothers hdepth hlimit,limit_max]

end Skipping

section Checks

/-- What is behind a value passes for white space. Behind a number or a literal
other bytes up to the first white space pass, too. -/
def Passes (value behind : List UInt8) : Prop :=
  ∃ junk space, behind=junk++space ∧ (∀ byte∈junk, isSpace byte=false) ∧
    (∀ byte∈space, isSpace byte=true) ∧ (junk=[] ∨ Scalar value)

/-- Texts that are one value are told from texts where something is behind it. -/
structure Checked (text : List UInt8) : Prop where
  complete : ∀ front levels value behind, text=front++value++behind → Blanks front →
    Derives .value levels value → Blanks behind → isSingleJsonValue text=some true
  sound : ∀ front levels value behind, text=front++value++behind → Blanks front →
    Derives .value levels value → First value behind → ¬Blanks behind →
    isSingleJsonValue text=some false

variable {byte : UInt8} {front value behind text : List UInt8} {levels : ℕ}

/-- White space of the grammar is white space of the program. -/
theorem blank_isSpace (h : Blank byte) : isSpace byte=true := by
  rcases h with rfl | rfl | rfl | rfl <;> decide

theorem plain_isSpace (h : Plain byte) : isSpace byte=false := by
  unfold Plain Digit at h
  unfold isSpace
  simp only [Bool.or_eq_false_iff,decide_eq_false_iff_not]
  grind

/-- Only white space is left at the end. -/
theorem atEnd_iff (rest : List UInt8) : atEnd rest=true ↔ ∀ byte∈rest, isSpace byte=true := by
  unfold atEnd
  rw [List.isEmpty_iff,List.dropWhile_eq_nil_iff]

/-- Behind a container or a string the rest has to be white space. -/
theorem atEnd_behind_iff (hvalue : ¬Scalar value) (behind : List UInt8) :
    atEnd behind=true ↔ Passes value behind := by
  rw [atEnd_iff]
  constructor
  · intro h
    exact ⟨[],behind,rfl,nofun,h,.inl rfl⟩
  · rintro ⟨junk,space,rfl,-,hspace,hjunk⟩
    obtain rfl := hjunk.resolve_right hvalue
    exact hspace

/-- Behind a scalar the rest counts from the next white space on. -/
theorem atEnd_scalar_iff (hvalue : Scalar value) (behind : List UInt8) :
    atEnd (behind.dropWhile fun byte => !isSpace byte)=true ↔ Passes value behind := by
  rw [atEnd_iff]
  constructor
  · intro h
    refine ⟨_,_,List.takeWhile_append_dropWhile.symm,?_,h,.inr hvalue⟩
    intro byte hbyte
    simpa using List.mem_takeWhile_imp hbyte
  · rintro ⟨junk,space,rfl,hjunk,hspace,-⟩ byte hbyte
    rw [List.dropWhile_append_of_pos (by simpa using hjunk)] at hbyte
    exact hspace byte ((List.dropWhile_sublist _).subset hbyte)

/-- A check begins at the value. -/
theorem isSingle_front (hfront : Blanks front) (text : List UInt8) :
    isSingleJsonValue (front++text)=isSingleJsonValue text := by
  unfold isSingleJsonValue
  rw [List.dropWhile_append_of_pos fun byte hbyte => blank_isSpace (hfront byte hbyte)]

/-- The bracket that closes the first one is found. -/
theorem skipBrackets_closed {opening closing : UInt8} {inner : List UInt8}
    (hopen : opening=123 ∨ opening=91) (hclose : closing=125 ∨ closing=93) (behind : List UInt8)
    (hinner : (0 : ℤ)+1<2^31 → skipBrackets (0+1) .outside (inner++closing::behind)=
      if 0+1+(levels : ℤ)<2^31 then skipBrackets (0+1) .outside (closing::behind) else none) :
    skipBrackets 0 .outside (opening::inner++[closing]++behind)=
      if levels+1<2^31 then some (some behind) else none := by
  have hcast : (0 : ℤ)+(levels+1 : ℕ)<2^31 ↔ levels+1<2^31 := by omega
  rw [skipBrackets_inside hopen hclose le_rfl (by norm_num) behind hinner,if_pos rfl]
  simp only [hcast]

/-- A value is a number or a literal, a string, or in brackets that are found. -/
theorem skipBrackets_container (h : Derives .value levels value) :
    (Scalar value ∧ levels=0) ∨ (Quoted value ∧ levels=0) ∨
      (∃ first rest, value=first::rest ∧ (first=123 ∨ first=91)) ∧
      ∀ behind, skipBrackets 0 .outside (value++behind)=
        if levels<2^31 then some (some behind) else none := by
  cases h with
  | scalar scalar => exact .inl ⟨scalar,rfl⟩
  | quoted quoted => exact .inr (.inl ⟨quoted,rfl⟩)
  | emptyArray blanks =>
    refine .inr (.inr ⟨⟨_,_,rfl,.inr rfl⟩,fun behind => ?_⟩)
    exact skipBrackets_closed (.inr rfl) (.inr rfl) behind fun hone =>
      skipBrackets_space blanks hone _
  | array elements =>
    refine .inr (.inr ⟨⟨_,_,rfl,.inr rfl⟩,fun behind => ?_⟩)
    exact skipBrackets_closed (.inr rfl) (.inr rfl) behind fun hone =>
      skipBrackets_derives elements (by norm_num) hone _
  | emptyObject blanks =>
    refine .inr (.inr ⟨⟨_,_,rfl,.inl rfl⟩,fun behind => ?_⟩)
    exact skipBrackets_closed (.inl rfl) (.inl rfl) behind fun hone =>
      skipBrackets_space blanks hone _
  | object members =>
    refine .inr (.inr ⟨⟨_,_,rfl,.inl rfl⟩,fun behind => ?_⟩)
    exact skipBrackets_closed (.inl rfl) (.inl rfl) behind fun hone =>
      skipBrackets_derives members (by norm_num) hone _

/-- A scalar starts with a neutral byte that is no white space. -/
theorem scalar_first {first : UInt8} {rest : List UInt8} (h : Scalar (first::rest)) :
    isSpace first=false ∧ Neutral first := by
  have hplain := h.plain.2 first List.mem_cons_self
  exact ⟨plain_isSpace hplain,plain_neutral hplain⟩

/-- What the check says of a text that begins with a value. -/
theorem isSingle_value (h : Derives .value levels value) (behind : List UInt8) :
    ∃ result, isSingleJsonValue (value++behind)=(if levels<2^31 then some result else none) ∧
      (result=true ↔ Passes value behind) := by
  rcases skipBrackets_container h with
    ⟨hscalar,rfl⟩ | ⟨⟨content,rfl,hcontent⟩,rfl⟩ | ⟨⟨first,rest,hvalue,hfirst⟩,hskip⟩
  · refine ⟨_,?_,atEnd_scalar_iff hscalar behind⟩
    obtain ⟨hne,hplain⟩ := hscalar.plain
    obtain ⟨first,rest,rfl⟩ := List.exists_cons_of_ne_nil hne
    obtain ⟨hspace,hquote,hbrace,hbracket,-⟩ := scalar_first hscalar
    unfold isSingleJsonValue
    rw [List.cons_append,List.dropWhile_cons_of_neg (by simp [hspace])]
    dsimp only
    rw [if_neg (by simp [hbrace,hbracket]),if_neg hquote,←List.cons_append,
      List.dropWhile_append_of_pos,if_pos (by norm_num)]
    intro byte hbyte
    rw [plain_isSpace (hplain byte hbyte)]
    rfl
  · have hscalar : ¬Scalar (34::content++[34]) := by
      intro hscalar
      exact (scalar_first hscalar).2.1 rfl
    refine ⟨atEnd behind,?_,atEnd_behind_iff hscalar behind⟩
    have htext : 34::content++[34]++behind=34::(content++34::behind) := by simp
    have hstring : isSingleJsonValue (34::(content++34::behind))=
        some ((skipString false (content++34::behind)).elim false atEnd) := rfl
    rw [htext,hstring,skipString_content hcontent,if_pos (by norm_num)]
    rfl
  · have hspace : isSpace first=false := by rcases hfirst with rfl | rfl <;> rfl
    have hcode : first=code '{' ∨ first=code '[' := hfirst
    have hscalar : ¬Scalar value := by
      intro hscalar
      rw [hvalue] at hscalar
      obtain ⟨-,-,hbrace,hbracket,-⟩ := scalar_first hscalar
      exact hcode.elim hbrace hbracket
    refine ⟨atEnd behind,?_,atEnd_behind_iff hscalar behind⟩
    have htext := hskip behind
    unfold isSingleJsonValue
    rw [hvalue,List.cons_append] at htext ⊢
    rw [List.dropWhile_cons_of_neg (by simp [hspace])]
    dsimp only
    rw [if_pos hcode,htext]
    split <;> rfl

/-- Exactly the texts for which the check tells single values from others: no
value in front is nested beyond what an `int` counts, and what is behind it
passes for white space only if it is. -/
theorem checked_iff (text : List UInt8) : Checked text ↔
    ∀ front levels value behind, text=front++value++behind → Blanks front →
      Derives .value levels value → First value behind →
      levels<2^31 ∧ (Passes value behind → Blanks behind) := by
  constructor
  · intro h front levels value behind htext hfront hvalue hfirst
    obtain ⟨result,hcheck,hresult⟩ := isSingle_value hvalue behind
    have hsame : isSingleJsonValue text=isSingleJsonValue (value++behind) := by
      rw [htext,List.append_assoc,isSingle_front hfront]
    by_cases hbehind : Blanks behind
    · refine ⟨?_,fun _ => hbehind⟩
      by_contra hlevels
      have htrue := h.complete front levels value behind htext hfront hvalue hbehind
      rw [hsame,hcheck,if_neg hlevels] at htrue
      cases htrue
    · have hfalse := h.sound front levels value behind htext hfront hvalue hfirst hbehind
      rw [hsame,hcheck] at hfalse
      split at hfalse
      · rename_i hlevels
        obtain rfl := Option.some.inj hfalse
        refine ⟨hlevels,fun hpasses => ?_⟩
        cases hresult.mpr hpasses
      · cases hfalse
  · intro h
    constructor
    · intro front levels value behind htext hfront hvalue hbehind
      have hfirst := @first_of_blanks value behind hbehind
      obtain ⟨hlevels,-⟩ := h front levels value behind htext hfront hvalue hfirst
      obtain ⟨result,hcheck,hresult⟩ := isSingle_value hvalue behind
      have hpasses : Passes value behind :=
        ⟨[],behind,rfl,nofun,fun byte hbyte => blank_isSpace (hbehind byte hbyte),.inl rfl⟩
      rw [htext,List.append_assoc,isSingle_front hfront,hcheck,if_pos hlevels,hresult.mpr hpasses]
    · intro front levels value behind htext hfront hvalue hfirst hbehind
      obtain ⟨hlevels,hblanks⟩ := h front levels value behind htext hfront hvalue hfirst
      obtain ⟨result,hcheck,hresult⟩ := isSingle_value hvalue behind
      have hfalse : result=false := by
        rw [Bool.eq_false_iff]
        exact fun htrue => hbehind (hblanks (hresult.mp htrue))
      rw [htext,List.append_assoc,isSingle_front hfront,hcheck,if_pos hlevels,hfalse]

/-- A comma behind a number is taken for a part of it. -/
theorem second_value_overlooked : ¬Checked [49,44,50] := by
  intro h
  have hone : Derives .value 0 [49] := by
    have hwhole : Whole [49] := by
      refine .inr ⟨49,[],rfl,by decide,?_,nofun⟩
      unfold Digit
      decide
    exact .scalar (.inr ⟨[],[49],[],[],rfl,.inl rfl,hwhole,.inl rfl,.inl rfl⟩)
  have hfirst : First [49] [44,50] := by
    rintro more rest depth hmore hvalue
    by_contra hne
    obtain ⟨byte,others,rfl⟩ := List.exists_cons_of_ne_nil hne
    obtain rfl : 44=byte := (List.cons.inj hmore).1
    rcases skipBrackets_container hvalue with
      ⟨hscalar,-⟩ | ⟨⟨content,htext,-⟩,-⟩ | ⟨⟨first,behind,htext,hbracket⟩,-⟩
    · have hcomma := hscalar.plain.2 44 (by simp)
      unfold Plain Digit at hcomma
      revert hcomma
      decide
    · cases (List.cons.inj htext).1
    · obtain rfl := (List.cons.inj htext).1
      revert hbracket
      decide
  have hbehind : ¬Blanks [44,50] := by
    intro hblanks
    have hcomma := hblanks 44 List.mem_cons_self
    unfold Blank at hcomma
    revert hcomma
    decide
  cases h.sound [] 0 [49] [44,50] rfl nofun hone hfirst hbehind

end Checks

end Vinput.SingleJsonValue
