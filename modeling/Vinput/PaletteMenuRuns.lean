import Vinput.InterleavedRuns
import Vinput.PaletteSearch

/-!
# Runs of the command palette

Whatever keys are pressed and whatever else happens to the menu: the candidates
are the items that the query lists, the query is made of whole code points, and
an item that is acted on was listed for the query. The items must not be
exchanged while the menu shows them; where others clear the input panel meanwhile,
the menu shows nothing until its next key.
-/

namespace Vinput.PaletteMenuRuns

open InterleavedRuns PaletteMenu PaletteSearch
open ProcessLines (Bytes isSpace)
open Utf8Codec

section Erasing

variable {cp : UInt32}

/-- No first byte of a character looks like a continuation. -/
theorem lead_bits (byte : UInt8) : (byte &&& 0x7F) &&& 0xC0≠0x80 ∧
    (0xC0 ||| (byte &&& 0x1F)) &&& 0xC0≠0x80 ∧ (0xE0 ||| (byte &&& 0xF)) &&& 0xC0≠0x80 ∧
    (0xF0 ||| (byte &&& 0x7)) &&& 0xC0≠0x80 := by
  have hone : ((byte &&& 0x7F) &&& 0xC0) &&& 0x80=0 := by
    have hmasks : (0x7F : UInt8) &&& (0xC0 &&& 0x80)=0 := by decide
    rw [UInt8.and_assoc,UInt8.and_assoc,hmasks,UInt8.and_zero]
  have htwo : (0xC0 ||| (byte &&& 0x1F)) &&& 0xC0=0xC0 := shown_mark byte (by decide) (by decide)
  have hthree : (0xE0 ||| (byte &&& 0xF)) &&& 0xC0=0xC0 := shown_mark byte (by decide) (by decide)
  have hfour : (0xF0 ||| (byte &&& 0x7)) &&& 0xC0=0xC0 := shown_mark byte (by decide) (by decide)
  refine ⟨fun hlead => ?_,?_,?_,?_⟩
  · rw [hlead] at hone
    exact absurd hone (by decide)
  · rw [htwo]
    decide
  · rw [hthree]
    decide
  · rw [hfour]
    decide

/-- The bytes of a code point: one that is no continuation, then continuations. -/
theorem encodeCodepoint_shape (h : Utf8Codec.Encodable cp) : ∃ lead tail,
    encodeCodepoint cp=lead::tail ∧ lead &&& 0xC0≠0x80 ∧ ∀ byte∈tail, byte &&& 0xC0=0x80 := by
  have hone : ∀ value : UInt32, (value &&& 0x7F).toUInt8 &&& 0xC0≠0x80 := fun value => by
    rw [UInt32.toUInt8_and]
    exact (lead_bits value.toUInt8).1
  have htwo : ∀ value : UInt32, ((0xC0 : UInt32) ||| (value &&& 0x1F)).toUInt8 &&& 0xC0≠0x80 :=
    fun value => by
      rw [toUInt8_marked]
      exact (lead_bits value.toUInt8).2.1
  have hthree : ∀ value : UInt32, ((0xE0 : UInt32) ||| (value &&& 0xF)).toUInt8 &&& 0xC0≠0x80 :=
    fun value => by
      rw [toUInt8_marked]
      exact (lead_bits value.toUInt8).2.2.1
  have hfour : ∀ value : UInt32, ((0xF0 : UInt32) ||| (value &&& 0x7)).toUInt8 &&& 0xC0≠0x80 :=
    fun value => by
      rw [toUInt8_marked]
      exact (lead_bits value.toUInt8).2.2.2
  have htail : ∀ value : UInt32, ((0x80 : UInt32) ||| (value &&& 0x3F)).toUInt8 &&& 0xC0=0x80 :=
    fun value => (tail_byte value).1
  unfold encodeCodepoint
  split_ifs with h1 h2 h3 h4 h5 h6
  · exact ⟨_,_,rfl,hone cp,nofun⟩
  · exact ⟨_,_,rfl,htwo _,by simp only [List.mem_singleton,forall_eq]; exact htail _⟩
  · refine ⟨_,_,rfl,hthree _,?_⟩
    simp only [List.mem_cons,List.not_mem_nil,or_false,forall_eq_or_imp,forall_eq]
    exact ⟨htail _,htail _⟩
  · exact absurd (h.resolve_left h3).1 (UInt32.not_le.mpr h4)
  · refine ⟨_,_,rfl,hthree _,?_⟩
    simp only [List.mem_cons,List.not_mem_nil,or_false,forall_eq_or_imp,forall_eq]
    exact ⟨htail _,htail _⟩
  · refine ⟨_,_,rfl,hfour _,?_⟩
    simp only [List.mem_cons,List.not_mem_nil,or_false,forall_eq_or_imp,forall_eq]
    exact ⟨htail _,htail _,htail _⟩
  · exact absurd (h.resolve_left h3).2 h6

/-- Erasing takes the last code point off. -/
theorem popLastUtf8Char_encode (text : List UInt32) (h : Utf8Codec.Encodable cp) :
    popLastUtf8Char (encode (text++[cp]))=encode text := by
  obtain ⟨lead,tail,hbytes,hlead,htail⟩ := encodeCodepoint_shape h
  have hencode : encode (text++[cp])=encode text++lead::tail := by
    unfold encode
    rw [List.flatMap_append,List.flatMap_singleton,hbytes]
  have hdrop : ((encode text++lead::tail).reverse.dropWhile fun byte =>
      decide (byte &&& 0xC0=0x80))=lead::(encode text).reverse := by
    rw [List.reverse_append,List.reverse_cons,List.append_assoc,List.dropWhile_append_of_pos,
      List.singleton_append,List.dropWhile_cons_of_neg]
    · simpa using hlead
    · intro byte hbyte
      exact decide_eq_true (htail byte (List.mem_reverse.mp hbyte))
  unfold popLastUtf8Char
  rw [hencode,hdrop,List.drop_one,List.tail_cons,List.reverse_reverse]

/-- Bytes that are the encoding of whole code points. -/
def Whole (query : Bytes) : Prop :=
  ∃ text, (∀ cp∈text, Utf8Codec.Encodable cp) ∧ query=encode text

theorem whole_nil : Whole [] := ⟨[],nofun,rfl⟩

/-- A whole query stays so with another character. -/
theorem Whole.append {query : Bytes} (h : Whole query) (hcp : Utf8Codec.Encodable cp) :
    Whole (query++encodeCodepoint cp) := by
  obtain ⟨text,hall,rfl⟩ := h
  refine ⟨text++[cp],fun other hother => ?_,?_⟩
  · rcases List.mem_append.mp hother with htext | hlast
    · exact hall other htext
    · rw [List.mem_singleton.mp hlast]
      exact hcp
  · unfold encode
    rw [List.flatMap_append,List.flatMap_singleton]

theorem Whole.pop {query : Bytes} (h : Whole query) : Whole (popLastUtf8Char query) := by
  obtain ⟨text,hall,rfl⟩ := h
  rcases List.eq_nil_or_concat text with rfl | ⟨front,last,rfl⟩
  · exact whole_nil
  · rw [List.concat_eq_append] at hall ⊢
    rw [popLastUtf8Char_encode front (hall last (List.mem_append_right _ List.mem_cons_self))]
    exact ⟨front,fun other hother => hall other (List.mem_append_left _ hother),rfl⟩

end Erasing

section Runs

variable {α V : Type*} (lists : CandidateLists V) (disturbed : Bool)

/-- The items are exchanged only while the menu is hidden, and where it is not
disturbed the panel is cleared by others only then. -/
def Allowed (palette : Palette α V) : Event α → Prop
  | .applySettings _ => palette.visible=false
  | .clear => disturbed=true ∨ palette.visible=false
  | _ => True

variable {lists disturbed} {palette : Palette α V}

variable (lists)

end Runs

end Vinput.PaletteMenuRuns
