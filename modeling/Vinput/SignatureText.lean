import Mathlib
import Vinput.AsrSettings

/-!
# What a signature tells of its parts

The compact JSON text of a runtime signature is read from the front: every
quoted text ends at its own closing quote, a number at the comma behind it.
Two equal signatures therefore have equal parts, where a text counts by what
the writer made of it. The writer makes the same of two texts only if one
of them holds a control byte without an escape.
-/

namespace Vinput.SignatureText

open AsrSettings

section Delimiting

variable {α : Type*}

/-- The code of a value ends at a place that what follows cannot move. -/
def Delimited (code : α → List UInt8) : Prop :=
  ∀ left right restLeft restRight, code left++restLeft=code right++restRight →
    code left=code right ∧ restLeft=restRight

/-- Codes with commas between them. -/
def separated (code : α → List UInt8) : List α → List UInt8
  | [] => []
  | [value] => code value
  | value::rest => code value++44::separated code rest

theorem separated_cons (code : α → List UInt8) (value : α) (rest : List α) :
    separated code (value::rest)=
      code value++if rest=[] then [] else 44::separated code rest := by
  cases rest with
  | nil => simp [separated]
  | cons next rest => simp [separated]

/-- A closed list of codes ends at its closing byte, if no code begins with
that byte. -/
theorem separated_delimited {code : α → List UInt8} {close : UInt8} (hcode : Delimited code)
    (hclose : close≠44) (hhead : ∀ value, ∃ byte rest, code value=byte::rest ∧ byte≠close)
    {left right : List α} {restLeft restRight : List UInt8}
    (h : separated code left++close::restLeft=separated code right++close::restRight) :
    left.map code=right.map code ∧ restLeft=restRight := by
  have hempty : ∀ (value : α) (rest : List α) (before after : List UInt8),
      close::before≠separated code (value::rest)++close::after := by
    intro value rest before after heq
    obtain ⟨byte,tail,hvalue,hne⟩ := hhead value
    rw [separated_cons,hvalue] at heq
    simp only [List.cons_append] at heq
    exact hne (List.cons.inj heq).1.symm
  induction left generalizing right with
  | nil =>
    cases right with
    | nil => exact ⟨rfl,(List.cons.inj h).2⟩
    | cons value rest => exact absurd h (hempty value rest _ _)
  | cons value rest ih =>
    cases right with
    | nil => exact absurd h.symm (hempty value rest _ _)
    | cons other others =>
      rw [separated_cons,separated_cons,List.append_assoc,List.append_assoc] at h
      obtain ⟨hvalue,hrest⟩ := hcode _ _ _ _ h
      rw [List.map_cons,List.map_cons,hvalue]
      by_cases hnil : rest=[]
      · by_cases hnone : others=[]
        · rw [if_pos hnil,if_pos hnone] at hrest
          exact ⟨by rw [hnil,hnone],(List.cons.inj hrest).2⟩
        · rw [if_pos hnil,if_neg hnone] at hrest
          exact absurd (List.cons.inj hrest).1 hclose
      · by_cases hnone : others=[]
        · rw [if_neg hnil,if_pos hnone] at hrest
          exact absurd (List.cons.inj hrest).1.symm hclose
        · rw [if_neg hnil,if_neg hnone] at hrest
          obtain ⟨hothers,htail⟩ := ih (List.cons.inj hrest).2
          exact ⟨by rw [hothers],htail⟩

end Delimiting

section Quoted

/-- The inside of a quoted text as a reader takes it: a backslash takes the
next byte along, and no other byte is a quote. -/
inductive Inside : List UInt8 → Prop
  | nil : Inside []
  | copied {byte : UInt8} {rest : List UInt8} (hquote : byte≠34) (hback : byte≠92)
      (hrest : Inside rest) : Inside (byte::rest)
  | escaped {byte : UInt8} {rest : List UInt8} (hrest : Inside rest) : Inside (92::byte::rest)

/-- Two texts that stay inside a string do so together. -/
theorem Inside.append {front back : List UInt8} (hfront : Inside front) (hback : Inside back) :
    Inside (front++back) := by
  induction hfront with
  | nil => exact hback
  | copied hquote hslash _ ih => exact .copied hquote hslash ih
  | escaped _ ih => exact .escaped ih

/-- The closing quote is found. -/
theorem Inside.delimited {left right restLeft restRight : List UInt8} (hleft : Inside left)
    (hright : Inside right) (h : left++34::restLeft=right++34::restRight) :
    left=right ∧ restLeft=restRight := by
  induction hleft generalizing right with
  | nil =>
    cases hright with
    | nil => exact ⟨rfl,(List.cons.inj h).2⟩
    | copied hquote _ _ => exact absurd (List.cons.inj h).1.symm hquote
    | escaped _ => exact absurd (List.cons.inj h).1 (by decide)
  | copied hquote hback _ ih =>
    cases hright with
    | nil => exact absurd (List.cons.inj h).1 hquote
    | copied _ _ hrest =>
      obtain ⟨hbyte,htail⟩ := List.cons.inj h
      obtain ⟨hinside,hbehind⟩ := ih hrest htail
      exact ⟨by rw [hbyte,hinside],hbehind⟩
    | escaped _ => exact absurd (List.cons.inj h).1 hback
  | escaped _ ih =>
    cases hright with
    | nil => exact absurd (List.cons.inj h).1 (by decide)
    | copied _ hback _ => exact absurd (List.cons.inj h).1.symm hback
    | escaped hrest =>
      obtain ⟨hbyte,htail⟩ := List.cons.inj (List.cons.inj h).2
      obtain ⟨hinside,hbehind⟩ := ih hrest htail
      exact ⟨by rw [hbyte,hinside],hbehind⟩

/-- The byte that the letter behind a backslash stands for. -/
def unescape (letter : UInt8) : UInt8 :=
  if letter=98 then 8
  else if letter=116 then 9
  else if letter=110 then 10
  else if letter=102 then 12
  else if letter=114 then 13
  else letter

/-- An escape is a backslash with one letter behind it, which tells the
byte. -/
theorem escapeOf_eq_some {byte : UInt8} {escape : List UInt8} (h : escapeOf byte=some escape) :
    ∃ letter, escape=[92,letter] ∧ byte=unescape letter := by
  simp only [escapeOf] at h
  split_ifs at h with hbyte hbyte hbyte hbyte hbyte hbyte hbyte <;>
    exact ⟨_,(Option.some.inj h).symm,by rw [hbyte]; decide⟩

/-- Bytes without an escape are no quote and no backslash. -/
theorem escapeOf_eq_none {byte : UInt8} (h : escapeOf byte=none) : byte≠34 ∧ byte≠92 := by
  constructor <;> intro heq <;> rw [heq] at h <;> exact absurd h (by decide)

/-- An escape stays inside the string. -/
theorem escape_inside {fallback : List UInt8} (byte : UInt8)
    (h : escapeOf byte=none → Inside fallback) : Inside ((escapeOf byte).getD fallback) := by
  cases hescape : escapeOf byte with
  | none => exact h hescape
  | some escape =>
    obtain ⟨letter,hletter,-⟩ := escapeOf_eq_some hescape
    rw [Option.getD_some,hletter]
    exact .escaped .nil

/-- A byte without an escape stays inside. -/
theorem single_inside {byte : UInt8} (h : escapeOf byte=none) : Inside [byte] :=
  .copied (escapeOf_eq_none h).1 (escapeOf_eq_none h).2 .nil

theorem escapeTail_cons (byte : UInt8) (rest : List UInt8) :
    escapeTail (byte::rest)=(escapeOf byte).getD [byte]++escapeTail rest := by
  simp [escapeTail]

/-- Two texts are escaped one after the other. -/
theorem escapeTail_append (front back : List UInt8) :
    escapeTail (front++back)=escapeTail front++escapeTail back := by
  simp [escapeTail]

/-- An escaped text stays inside the string. -/
theorem escapeTail_inside (bytes : List UInt8) : Inside (escapeTail bytes) := by
  induction bytes with
  | nil => exact .nil
  | cons byte rest ih =>
    rw [escapeTail_cons]
    exact (escape_inside byte single_inside).append ih

/-- Bytes that stop no block have no escape. -/
theorem escapeOf_of_stopsBlock {byte : UInt8} (h : stopsBlock byte=false) :
    escapeOf byte=none := by
  simp only [stopsBlock,Bool.or_eq_false_iff,decide_eq_false_iff_not] at h
  obtain ⟨⟨hquote,hback⟩,hcontrol⟩ := h
  have hne : ∀ control : UInt8, control<32 → byte≠control := by
    intro control hlt heq
    exact hcontrol (heq ▸ hlt)
  simp [escapeOf,hquote,hback,hne 8 (by decide),hne 9 (by decide),hne 10 (by decide),
    hne 12 (by decide),hne 13 (by decide)]

/-- Bytes that were copied in a block are not touched by escaping. -/
theorem escapeTail_copied {bytes : List UInt8} (h : ∀ byte∈bytes, stopsBlock byte=false) :
    escapeTail bytes=bytes := by
  induction bytes with
  | nil => rfl
  | cons byte rest ih =>
    have hbyte := escapeOf_of_stopsBlock (h byte List.mem_cons_self)
    have hrest := ih fun other hother => h other (List.mem_cons_of_mem _ hother)
    rw [escapeTail_cons,hrest,hbyte]
    rfl

/-- What is copied at once needs no escape. -/
theorem copied_stopsBlock {bytes : List UInt8} :
    ∀ byte∈bytes.takeWhile (fun byte => !stopsBlock byte), stopsBlock byte=false := by
  intro byte hbyte
  have := List.mem_takeWhile_imp hbyte
  simpa using this

/-- One round of the writer: everything is left to the byte by byte loop, or
bytes that stop nothing are copied, up to a stopping byte or not. -/
theorem escapeBlocks_cases (fuel : ℕ) (bytes : List UInt8) :
    escapeBlocks (fuel+1) bytes=escapeTail bytes ∨
      ∃ copied, (∀ byte∈copied, stopsBlock byte=false) ∧
        ((∃ rest, bytes=copied++rest ∧
          escapeBlocks (fuel+1) bytes=copied++escapeBlocks fuel rest) ∨
        ∃ byte rest, bytes=copied++byte::rest ∧ stopsBlock byte=true ∧
          escapeBlocks (fuel+1) bytes=
            copied++(escapeOf byte).getD [0,0]++escapeBlocks fuel rest) := by
  by_cases hshort : bytes.length≤7
  · exact .inl (by rw [escapeBlocks,if_pos hshort])
  right
  obtain ⟨copied,hcopied⟩ :
      ∃ copied, copied=(bytes.take 8).takeWhile fun byte => !stopsBlock byte := ⟨_,rfl⟩
  obtain ⟨behind,hbehind⟩ :
      ∃ behind, behind=(bytes.take 8).dropWhile fun byte => !stopsBlock byte := ⟨_,rfl⟩
  have hblock : copied++behind=bytes.take 8 := by
    rw [hcopied,hbehind,List.takeWhile_append_dropWhile]
  have hsplit : bytes=copied++(behind++bytes.drop 8) := by
    rw [← List.append_assoc,hblock,List.take_append_drop]
  have hdrop : bytes.drop copied.length=behind++bytes.drop 8 := by
    nth_rewrite 1 [hsplit]
    exact List.drop_left
  have hlength : copied.length+behind.length=8 := by
    rw [← List.length_append,hblock,List.length_take]
    omega
  refine ⟨copied,hcopied ▸ copied_stopsBlock,?_⟩
  rw [escapeBlocks,if_neg hshort]
  dsimp only
  rw [← hcopied,hdrop]
  cases hstop : behind with
  | nil =>
    have hfull : copied.length=8 := by
      rw [hstop,List.length_nil] at hlength
      omega
    left
    refine ⟨bytes.drop 8,by rw [hstop,List.nil_append] at hsplit; exact hsplit,?_⟩
    rw [List.nil_append]
    cases bytes.drop 8 with
    | nil =>
      have hnil : escapeBlocks fuel []=[] := by cases fuel <;> rfl
      simp [hnil]
    | cons byte rest => simp [hfull]
  | cons byte rest =>
    have hstopped : copied.length≠8 := by
      rw [hstop,List.length_cons] at hlength
      omega
    right
    refine ⟨byte,rest++bytes.drop 8,by rw [hstop] at hsplit; exact hsplit,?_,?_⟩
    · have hhead := List.head?_dropWhile_not (fun byte => !stopsBlock byte) (bytes.take 8)
      rw [← hbehind,hstop] at hhead
      simpa using hhead
    · simp [hstopped]

/-- A text that is escaped in blocks stays inside too. -/
theorem escapeBlocks_inside (fuel : ℕ) (bytes : List UInt8) :
    Inside (escapeBlocks fuel bytes) := by
  have hcopied : ∀ {copied : List UInt8}, (∀ byte∈copied, stopsBlock byte=false) →
      Inside copied := by
    intro copied h
    rw [← escapeTail_copied h]
    exact escapeTail_inside copied
  induction fuel generalizing bytes with
  | zero => exact escapeTail_inside bytes
  | succ fuel ih =>
    obtain htail | ⟨copied,hbytes,⟨rest,-,hrest⟩ | ⟨byte,rest,-,-,hrest⟩⟩ :=
      escapeBlocks_cases fuel bytes
    · rw [htail]
      exact escapeTail_inside bytes
    · rw [hrest]
      exact (hcopied hbytes).append (ih rest)
    · rw [hrest]
      have hbyte : Inside ((escapeOf byte).getD [0,0]) :=
        escape_inside byte fun _ => .copied (by decide) (by decide)
          (.copied (by decide) (by decide) .nil)
      exact ((hcopied hbytes).append hbyte).append (ih rest)

/-- A quoted text ends at its closing quote. -/
theorem quoted_delimited : Delimited quoted := by
  intro left right restLeft restRight h
  simp only [quoted,List.cons_append,List.append_assoc] at h
  obtain ⟨hinside,hrest⟩ := (escapeBlocks_inside _ _).delimited (escapeBlocks_inside _ _)
    (List.cons.inj h).2
  exact ⟨by simp only [quoted]; rw [hinside],hrest⟩

end Quoted

section Plain

/-- No control byte of the text is without an escape. -/
def Plain (text : String) : Prop :=
  ∀ byte∈bytesOf text, byte<32 → escapeOf byte≠none

instance (text : String) : Decidable (Plain text) :=
  inferInstanceAs (Decidable (∀ byte∈bytesOf text, byte<32 → escapeOf byte≠none))

/-- A stopping byte without an escape is a control byte. -/
theorem control_of_stopsBlock {byte : UInt8} (hstop : stopsBlock byte=true)
    (hescape : escapeOf byte=none) : byte<32 := by
  obtain ⟨hquote,hback⟩ := escapeOf_eq_none hescape
  simpa [stopsBlock,hquote,hback] using hstop

/-- Without such control bytes the blocks make no difference. -/
theorem escapeBlocks_of_plain {bytes : List UInt8}
    (h : ∀ byte∈bytes, byte<32 → escapeOf byte≠none) (fuel : ℕ) :
    escapeBlocks fuel bytes=escapeTail bytes := by
  induction fuel generalizing bytes with
  | zero => rfl
  | succ fuel ih =>
    obtain htail | ⟨copied,hbytes,⟨rest,hsplit,hrest⟩ | ⟨byte,rest,hsplit,hstop,hrest⟩⟩ :=
      escapeBlocks_cases fuel bytes
    · exact htail
    · have hplain : escapeBlocks fuel rest=escapeTail rest := ih fun other hother =>
        h other (by rw [hsplit]; exact List.mem_append_right _ hother)
      rw [hrest,hplain,hsplit,escapeTail_append,escapeTail_copied hbytes]
    · have hplain : escapeBlocks fuel rest=escapeTail rest := ih fun other hother =>
        h other (by rw [hsplit]; exact List.mem_append_right _ (List.mem_cons_of_mem _ hother))
      have hbyte : (escapeOf byte).getD [0,0]=(escapeOf byte).getD [byte] := by
        cases hescape : escapeOf byte with
        | none =>
          exact absurd hescape (h byte (by rw [hsplit]; simp)
            (control_of_stopsBlock hstop hescape))
        | some escape => rfl
      rw [hrest,hplain,hbyte,hsplit,escapeTail_append,escapeTail_copied hbytes,escapeTail_cons,
        List.append_assoc]

/-- Bytes are recovered from their escapes. -/
theorem escapeTail_inj {left right : List UInt8} (h : escapeTail left=escapeTail right) :
    left=right := by
  have hempty : ∀ (byte : UInt8) (rest : List UInt8), escapeTail (byte::rest)≠[] := by
    intro byte rest hnil
    rw [escapeTail_cons,List.append_eq_nil_iff] at hnil
    cases hescape : escapeOf byte with
    | none => simp [hescape] at hnil
    | some escape =>
      obtain ⟨letter,hletter,-⟩ := escapeOf_eq_some hescape
      simp [hescape,hletter] at hnil
  induction left generalizing right with
  | nil =>
    cases right with
    | nil => rfl
    | cons byte rest => exact absurd h.symm (hempty byte rest)
  | cons byte rest ih =>
    cases right with
    | nil => exact absurd h (hempty byte rest)
    | cons other others =>
      rw [escapeTail_cons,escapeTail_cons] at h
      cases hbyte : escapeOf byte with
      | none =>
        cases hother : escapeOf other with
        | none =>
          rw [hbyte,hother] at h
          obtain ⟨heq,htail⟩ := List.cons.inj h
          rw [heq,ih htail]
        | some escape =>
          obtain ⟨letter,hletter,-⟩ := escapeOf_eq_some hother
          rw [hbyte,hother,hletter] at h
          exact absurd (List.cons.inj h).1 (escapeOf_eq_none hbyte).2
      | some escape =>
        obtain ⟨letter,hletter,hvalue⟩ := escapeOf_eq_some hbyte
        cases hother : escapeOf other with
        | none =>
          rw [hbyte,hother,hletter] at h
          exact absurd (List.cons.inj h).1.symm (escapeOf_eq_none hother).2
        | some second =>
          obtain ⟨mark,hmark,hmeant⟩ := escapeOf_eq_some hother
          rw [hbyte,hother,hletter,hmark] at h
          obtain ⟨heq,htail⟩ := List.cons.inj (List.cons.inj h).2
          rw [hvalue,hmeant,heq,ih htail]

/-- A string is recovered from its bytes. -/
theorem bytesOf_inj {left right : String} (h : bytesOf left=bytesOf right) : left=right := by
  apply String.toByteArray_inj.mp
  exact ByteArray.ext (Array.toList_inj.mp h)

/-- Texts that the writer does not spoil are told apart. -/
theorem quoted_inj {left right : String} (hleft : Plain left) (hright : Plain right)
    (h : quoted left=quoted right) : left=right := by
  simp only [quoted,escapeBlocks_of_plain hleft,escapeBlocks_of_plain hright] at h
  have hinside : escapeTail (bytesOf left)=escapeTail (bytesOf right) :=
    List.append_cancel_right (List.cons.inj h).2
  exact bytesOf_inj (escapeTail_inj hinside)

-- spoiled texts are not told apart: both control bytes become two zero bytes
example : quoted "a\x01bcdefgh"=quoted "a\x02bcdefgh" := by decide

end Plain

section Parts

/-- The bytes of a string are those of its characters. -/
theorem bytesOf_eq_flatMap (text : String) :
    bytesOf text=text.toList.flatMap String.utf8EncodeChar := by
  have h : text.toByteArray=text.toList.utf8Encode := by
    rw [← String.toByteArray_ofList,String.ofList_toList]
  have hbytes : bytesOf text=text.toByteArray.data.toList := rfl
  rw [hbytes,h,List.utf8Encode]
  simp

/-- Characters of a written integer. -/
theorem mem_toString_int {number : ℤ} {letter : Char} (h : letter∈(toString number).toList) :
    letter= '-' ∨ letter.isDigit=true := by
  have hdigits : ∀ value : ℕ, letter∈value.repr.toList → letter.isDigit=true := by
    intro value hmem
    rw [Nat.repr,String.toList_ofList] at hmem
    exact Nat.isDigit_of_mem_toDigits (by omega) (by omega) hmem
  cases number with
  | ofNat value => exact .inr (hdigits value h)
  | negSucc value =>
    have hsplit : (toString (Int.negSucc value)).toList= '-'::(value+1).repr.toList := by
      change ("-"++(value+1).repr).toList=_
      simp
    rw [hsplit,List.mem_cons] at h
    exact h.imp_right (hdigits (value+1))

/-- No comma is among the bytes of an integer. -/
theorem comma_notMem_number (number : ℤ) : (44 : UInt8)∉bytesOf (toString number) := by
  intro hmem
  rw [bytesOf_eq_flatMap,List.mem_flatMap] at hmem
  obtain ⟨letter,hletter,hbyte⟩ := hmem
  rcases mem_toString_int hletter with hsign | hdigit
  · rw [hsign] at hbyte
    exact absurd hbyte (by decide)
  · obtain ⟨hlow,hhigh⟩ : 48≤letter.toNat ∧ letter.toNat≤57 := by
      simpa [Char.isDigit,UInt32.le_iff_toNat_le] using hdigit
    have hvalue := Char.ofNat_toNat letter
    interval_cases letter.toNat <;> exact absurd (hvalue ▸ hbyte) (by decide)

/-- A number ends at the comma behind it. -/
theorem number_delimited {left right : ℤ} {restLeft restRight : List UInt8}
    (h : toText (.number left)++44::restLeft=toText (.number right)++44::restRight) :
    left=right ∧ restLeft=restRight := by
  simp only [toText] at h
  have hfront : ∀ (number : ℤ) (rest : List UInt8),
      (bytesOf (toString number)++44::rest).takeWhile (fun byte => byte≠44)=
        bytesOf (toString number) := by
    intro number rest
    rw [List.takeWhile_append_of_pos,List.takeWhile_cons_of_neg (by decide),List.append_nil]
    intro byte hbyte
    refine decide_eq_true fun hcomma => ?_
    exact comma_notMem_number number (hcomma ▸ hbyte)
  have hbytes := hfront left restLeft
  rw [h,hfront right restRight] at hbytes
  rw [hbytes] at h
  refine ⟨?_,(List.cons.inj (List.append_cancel_left h)).2⟩
  exact (Int.repr_injective (bytesOf_inj hbytes)).symm

/-- A member whose value is a text. -/
def entryText (entry : String×String) : List UInt8 :=
  quoted entry.1++58::quoted entry.2

/-- An entry is split into its name and its value. -/
theorem entryText_parts {left right : String×String} {restLeft restRight : List UInt8}
    (h : entryText left++restLeft=entryText right++restRight) :
    (quoted left.1=quoted right.1 ∧ quoted left.2=quoted right.2) ∧ restLeft=restRight := by
  simp only [entryText,List.append_assoc,List.cons_append] at h
  obtain ⟨hkey,hvalue⟩ := quoted_delimited _ _ _ _ h
  obtain ⟨hvalue,hrest⟩ := quoted_delimited _ _ _ _ (List.cons.inj hvalue).2
  exact ⟨⟨hkey,hvalue⟩,hrest⟩

theorem entryText_delimited : Delimited entryText := by
  intro left right restLeft restRight h
  obtain ⟨⟨hkey,hvalue⟩,hrest⟩ := entryText_parts h
  exact ⟨by rw [entryText,entryText,hkey,hvalue],hrest⟩

/-- Strings of an array are quoted and separated. -/
theorem elementsText_texts (values : List String) :
    elementsText (values.map .text)=separated quoted values := by
  induction values with
  | nil => rfl
  | cons value rest ih =>
    cases rest with
    | nil => simp [elementsText,separated,toText]
    | cons next rest =>
      have hcomma : bytesOf ","=[44] := by decide
      simp only [List.map_cons] at ih
      simp [elementsText,separated,toText,hcomma,ih]

theorem membersText_entries (entries : List (String×String)) :
    membersText (entries.map fun entry => (entry.1,.text entry.2))=
      separated entryText entries := by
  induction entries with
  | nil => rfl
  | cons entry rest ih =>
    have hcolon : bytesOf ":"=[58] := by decide
    cases rest with
    | nil => simp [membersText,separated,toText,entryText,hcolon]
    | cons next rest =>
      have hcomma : bytesOf ","=[44] := by decide
      simp only [List.map_cons] at ih
      simp [membersText,separated,toText,entryText,hcomma,hcolon,ih]

/-- An array of strings is split into its strings. -/
theorem fromStrings_parts {left right : List String} {restLeft restRight : List UInt8}
    (h : toText (fromStrings left)++restLeft=toText (fromStrings right)++restRight) :
    left.map quoted=right.map quoted ∧ restLeft=restRight := by
  have hclose : bytesOf "]"=[93] := by decide
  simp only [fromStrings,toText,elementsText_texts,hclose,List.append_assoc,List.singleton_append]
    at h
  refine separated_delimited quoted_delimited (by decide) ?_ (List.append_cancel_left h)
  intro value
  exact ⟨34,_,rfl,by decide⟩

/-- An object of strings is split into its entries. -/
theorem fromStringMap_parts {left right : StringMap} {restLeft restRight : List UInt8}
    (h : toText (fromStringMap left)++restLeft=toText (fromStringMap right)++restRight) :
    left.entries.map entryText=right.entries.map entryText ∧ restLeft=restRight := by
  simp only [fromStringMap,toText,membersText_entries,List.cons_append,List.append_assoc,
    List.nil_append] at h
  refine separated_delimited entryText_delimited (by decide) ?_ (List.cons.inj h).2
  intro entry
  exact ⟨34,_,rfl,by decide⟩

end Parts

section Signatures

/-- A signature, from the selected identity and the members of the provider
object. -/
def signatureText (activeProvider : String) (provider : List UInt8) : List UInt8 :=
  123::(quoted "active_provider"++58::(quoted activeProvider++44::(quoted "provider"++
    58::123::(provider++[125,125]))))

/-- Members of a local provider. -/
def localText (provider : LocalAsrProvider) (vadEnabled : Bool) : List UInt8 :=
  quoted "hotwords_file"++58::(quoted provider.hotwordsFile++44::(quoted "id"++
    58::(quoted provider.id++44::(quoted "model"++58::(quoted provider.model++
      44::(quoted "timeout_ms"++58::(toText (.number provider.timeoutMs)++
        44::(quoted "type"++58::(quoted "local"++44::(quoted "vad_enabled"++
          58::toText (.bool vadEnabled)))))))))))

/-- Members of a command provider. -/
def commandText (provider : CommandAsrProvider) : List UInt8 :=
  quoted "args"++58::(toText (fromStrings provider.args)++44::(quoted "command"++
    58::(quoted provider.command++44::(quoted "env"++58::(toText (fromStringMap provider.env)++
      44::(quoted "id"++58::(quoted provider.id++44::(quoted "timeout_ms"++
        58::(toText (.number provider.timeoutMs)++44::(quoted "type"++
          58::quoted "command"))))))))))

/-- The signature of a local provider. -/
theorem localSignature_eq {config : CoreConfig} {provider : LocalAsrProvider}
    (h : activeAsrProvider config=some (.localProvider provider)) :
    buildRuntimeSignature config=
      signatureText config.activeProvider (localText provider config.vadEnabled) := by
  have hsignature : buildRuntimeSignature config=toText (.object
      [("active_provider",.text config.activeProvider),("provider",.object
        [("hotwords_file",.text provider.hotwordsFile),("id",.text provider.id),
          ("model",.text provider.model),("timeout_ms",.number provider.timeoutMs),
          ("type",.text "local"),("vad_enabled",.bool config.vadEnabled)])]) := by
    rw [buildRuntimeSignature,h]
    rfl
  have hcolon : bytesOf ":"=[58] := by decide
  have hcomma : bytesOf ","=[44] := by decide
  rw [hsignature]
  simp [toText,membersText,signatureText,localText,hcolon,hcomma]

/-- The signature of a command provider. -/
theorem commandSignature_eq {config : CoreConfig} {provider : CommandAsrProvider}
    (h : activeAsrProvider config=some (.commandProvider provider)) :
    buildRuntimeSignature config=
      signatureText config.activeProvider (commandText provider) := by
  have hsignature : buildRuntimeSignature config=toText (.object
      [("active_provider",.text config.activeProvider),("provider",.object
        [("args",fromStrings provider.args),("command",.text provider.command),
          ("env",fromStringMap provider.env),("id",.text provider.id),
          ("timeout_ms",.number provider.timeoutMs),("type",.text "command")])]) := by
    rw [buildRuntimeSignature,h]
    rfl
  have hcolon : bytesOf ":"=[58] := by decide
  have hcomma : bytesOf ","=[44] := by decide
  rw [hsignature]
  simp [toText,membersText,signatureText,commandText,hcolon,hcomma]

/-- Equal signatures have the same selected identity and the same provider
object. -/
theorem signatureText_parts {left right : String} {provider other : List UInt8}
    (h : signatureText left provider=signatureText right other) :
    quoted left=quoted right ∧ provider++[125,125]=other++[125,125] := by
  have hactive := (List.cons.inj (List.append_cancel_left (List.cons.inj h).2)).2
  obtain ⟨htext,hrest⟩ := quoted_delimited _ _ _ _ hactive
  have hprovider := List.append_cancel_left (List.cons.inj hrest).2
  exact ⟨htext,(List.cons.inj (List.cons.inj hprovider).2).2⟩

/-- A local provider is split into its settings. -/
theorem localText_parts {left right : LocalAsrProvider} {vadLeft vadRight : Bool}
    {restLeft restRight : List UInt8}
    (h : localText left vadLeft++restLeft=localText right vadRight++restRight) :
    quoted left.hotwordsFile=quoted right.hotwordsFile ∧ quoted left.id=quoted right.id ∧
      quoted left.model=quoted right.model ∧ left.timeoutMs=right.timeoutMs ∧
      vadLeft=vadRight := by
  simp only [localText,List.append_assoc,List.cons_append] at h
  have hhotwords := (List.cons.inj (List.append_cancel_left h)).2
  obtain ⟨hhotwords,hrest⟩ := quoted_delimited _ _ _ _ hhotwords
  have hid := (List.cons.inj (List.append_cancel_left (List.cons.inj hrest).2)).2
  obtain ⟨hid,hrest⟩ := quoted_delimited _ _ _ _ hid
  have hmodel := (List.cons.inj (List.append_cancel_left (List.cons.inj hrest).2)).2
  obtain ⟨hmodel,hrest⟩ := quoted_delimited _ _ _ _ hmodel
  have htimeout := (List.cons.inj (List.append_cancel_left (List.cons.inj hrest).2)).2
  obtain ⟨htimeout,hrest⟩ := number_delimited htimeout
  have htype := (List.cons.inj (List.append_cancel_left hrest)).2
  have hvad := (List.cons.inj (List.append_cancel_left htype)).2
  have hvad := (List.cons.inj (List.append_cancel_left hvad)).2
  refine ⟨hhotwords,hid,hmodel,htimeout,?_⟩
  have htrue : bytesOf "true"=[116,114,117,101] := by decide
  have hfalse : bytesOf "false"=[102,97,108,115,101] := by decide
  cases vadLeft <;> cases vadRight <;> simp [toText,htrue,hfalse] at hvad ⊢

/-- A command provider is split into its settings. -/
theorem commandText_parts {left right : CommandAsrProvider} {restLeft restRight : List UInt8}
    (h : commandText left++restLeft=commandText right++restRight) :
    left.args.map quoted=right.args.map quoted ∧ quoted left.command=quoted right.command ∧
      left.env.entries.map entryText=right.env.entries.map entryText ∧
      quoted left.id=quoted right.id ∧ left.timeoutMs=right.timeoutMs := by
  simp only [commandText,List.append_assoc,List.cons_append] at h
  have hargs := (List.cons.inj (List.append_cancel_left h)).2
  obtain ⟨hargs,hrest⟩ := fromStrings_parts hargs
  have hcommand := (List.cons.inj (List.append_cancel_left (List.cons.inj hrest).2)).2
  obtain ⟨hcommand,hrest⟩ := quoted_delimited _ _ _ _ hcommand
  have henv := (List.cons.inj (List.append_cancel_left (List.cons.inj hrest).2)).2
  obtain ⟨henv,hrest⟩ := fromStringMap_parts henv
  have hid := (List.cons.inj (List.append_cancel_left (List.cons.inj hrest).2)).2
  obtain ⟨hid,hrest⟩ := quoted_delimited _ _ _ _ hid
  have htimeout := (List.cons.inj (List.append_cancel_left (List.cons.inj hrest).2)).2
  obtain ⟨htimeout,-⟩ := number_delimited htimeout
  exact ⟨hargs,hcommand,henv,hid,htimeout⟩

/-- The kinds of the providers cannot be taken for each other. -/
theorem localText_ne_commandText {provider : LocalAsrProvider} {vadEnabled : Bool}
    {other : CommandAsrProvider} {restLeft restRight : List UInt8} :
    localText provider vadEnabled++restLeft≠commandText other++restRight := by
  intro h
  simp only [localText,commandText,List.append_assoc,List.cons_append] at h
  have hkey := (quoted_delimited _ _ _ _ h).1
  exact absurd hkey (by decide)

end Signatures

end Vinput.SignatureText
