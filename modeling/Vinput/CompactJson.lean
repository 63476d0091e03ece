import Vinput.JsonGrammar

/-!
# Compact JSON texts

Trees of objects, arrays, strings of bytes and booleans, written without white
space. How the writer escapes strings is a parameter; the reader follows the
grammar. What is written is read back, whatever follows it, if each string is.
-/

namespace Vinput.CompactJson

open JsonGrammar (Bytes code)

section Trees

/-- JSON trees without numbers. -/
inductive Tree where
  | flag (value : Bool)
  | text (bytes : Bytes)
  | array (elements : List Tree)
  | object (members : List (Bytes×Tree))

instance : Inhabited Tree := ⟨.flag false⟩

/-- The member of an object with a name. -/
def Tree.find (name : Bytes) : Tree → Option Tree
  | .object members => members.lookup name
  | _ => none

/-- The letters of a word. -/
def word (letters : String) : Bytes := letters.toList.map code

variable (escape : Bytes → Bytes)

mutual

/-- The text of a tree. -/
def write : Tree → Bytes
  | .flag value => if value then word "true" else word "false"
  | .text bytes => 34::(escape bytes++[34])
  | .array elements => 91::(writeElements elements++[93])
  | .object members => 123::(writeMembers members++[125])

/-- Elements of an array, separated by commas. -/
def writeElements : List Tree → Bytes
  | [] => []
  | [element] => write element
  | element::rest => write element++44::writeElements rest

/-- Members of an object, separated by commas. -/
def writeMembers : List (Bytes×Tree) → Bytes
  | [] => []
  | [(name,value)] => 34::(escape name++34::58::write value)
  | (name,value)::rest => 34::(escape name++34::58::(write value++44::writeMembers rest))

end

mutual

/-- The strings of a tree, the names of members among them. -/
def texts : Tree → List Bytes
  | .flag _ => []
  | .text bytes => [bytes]
  | .array elements => textsElements elements
  | .object members => textsMembers members

/-- The texts of elements. -/
def textsElements : List Tree → List Bytes
  | [] => []
  | element::rest => texts element++textsElements rest

/-- The keys and texts of members. -/
def textsMembers : List (Bytes×Tree) → List Bytes
  | [] => []
  | (name,value)::rest => name::(texts value++textsMembers rest)

end

end Trees

section Reading

/-- The byte that a letter behind a backslash stands for. -/
def escaped (letter : UInt8) : Option UInt8 :=
  ([(34,34),(92,92),(47,47),(98,8),(102,12),(110,10),(114,13),(116,9)] :
    List (UInt8×UInt8)).lookup letter

/-- The inside of a string up to its closing quote, and what follows it. -/
def readInside : Bytes → Option (Bytes×Bytes)
  | [] => none
  | [byte] => if byte=34 then some ([],[]) else none
  | byte::letter::rest =>
    if byte=34 then some ([],letter::rest)
    else if byte=92 then
      (escaped letter).bind fun value => (readInside rest).map fun read => (value::read.1,read.2)
    else if byte<32 then none
    else (readInside (letter::rest)).map fun read => (byte::read.1,read.2)

theorem readInside_quote (rest : Bytes) : readInside (34::rest)=some ([],rest) := by
  cases rest <;> rfl

theorem readInside_escape {letter value : UInt8} (h : escaped letter=some value) (rest : Bytes) :
    readInside (92::letter::rest)=(readInside rest).map fun read => (value::read.1,read.2) := by
  rw [readInside,if_neg (by decide),if_pos rfl,h]
  rfl

theorem readInside_letter {byte : UInt8} (hquote : byte≠34) (hback : byte≠92) (hcontrol : ¬byte<32)
    (rest : Bytes) :
    readInside (byte::rest)=(readInside rest).map fun read => (byte::read.1,read.2) := by
  cases rest with
  | nil => simp [readInside,hquote]
  | cons letter rest => rw [readInside,if_neg hquote,if_neg hback,if_neg hcontrol]

/-- A boolean and what follows it. -/
def readFlag (text : Bytes) : Option (Tree×Bytes) :=
  if (word "true").isPrefixOf text then some (.flag true,text.drop 4)
  else if (word "false").isPrefixOf text then some (.flag false,text.drop 5)
  else none

mutual

/-- A value and what follows it. -/
def readValue : ℕ → Bytes → Option (Tree×Bytes)
  | 0,_ => none
  | _+1,[] => none
  | fuel+1,byte::rest =>
    if byte=34 then (readInside rest).map fun read => (.text read.1,read.2)
    else if byte=91 then
      if rest.head?=some 93 then some (.array [],rest.tail)
      else (readElements fuel rest).map fun read => (.array read.1,read.2)
    else if byte=123 then
      if rest.head?=some 125 then some (.object [],rest.tail)
      else (readMembers fuel rest).map fun read => (.object read.1,read.2)
    else readFlag (byte::rest)

/-- The elements of an array up to its bracket. -/
def readElements : ℕ → Bytes → Option (List Tree×Bytes)
  | 0,_ => none
  | fuel+1,text =>
    (readValue fuel text).bind fun first =>
      match first.2 with
      | [] => none
      | byte::rest =>
        if byte=93 then some ([first.1],rest)
        else if byte=44 then
          (readElements fuel rest).map fun others => (first.1::others.1,others.2)
        else none

/-- The members of an object up to its bracket. -/
def readMembers : ℕ → Bytes → Option (List (Bytes×Tree)×Bytes)
  | 0,_ => none
  | _+1,[] => none
  | fuel+1,byte::text =>
    if byte≠34 then none
    else
      (readInside text).bind fun name =>
        match name.2 with
        | [] => none
        | colon::value =>
          if colon≠58 then none
          else
            (readValue fuel value).bind fun first =>
              match first.2 with
              | [] => none
              | byte::rest =>
                if byte=125 then some ([(name.1,first.1)],rest)
                else if byte=44 then
                  (readMembers fuel rest).map fun others =>
                    ((name.1,first.1)::others.1,others.2)
                else none

end

/-- A text that is one value. -/
def read (text : Bytes) : Option Tree :=
  (readValue text.length text).bind fun value => if value.2=[] then some value.1 else none

end Reading

section RoundTrip

variable {escape : Bytes → Bytes}

/-- A string is read as it was written. -/
def Readable (escape : Bytes → Bytes) (text : Bytes) : Prop :=
  ∀ rest,readInside (escape text++34::rest)=some (text,rest)

/-- A value does not look like the end of an array. -/
theorem head_write (tree : Tree) : ∃ byte rest,write escape tree=byte::rest ∧ byte≠93 := by
  cases tree with
  | flag value => cases value <;> exact ⟨_,_,rfl,by decide⟩
  | text bytes => exact ⟨34,_,rfl,by decide⟩
  | array elements => exact ⟨91,_,rfl,by decide⟩
  | object members => exact ⟨123,_,rfl,by decide⟩

/-- Elements do not start with a closing bracket. -/
theorem head_writeElements (element : Tree) (rest : List Tree) (behind : Bytes) :
    (writeElements escape (element::rest)++behind).head?≠some 93 := by
  obtain ⟨byte,tail,hwrite,hbyte⟩ := @head_write escape element
  cases rest with
  | nil => simpa [writeElements,hwrite] using hbyte
  | cons other rest => simpa [writeElements,hwrite] using hbyte

/-- Members do not start with a closing brace. -/
theorem head_writeMembers (member : Bytes×Tree) (rest : List (Bytes×Tree)) (behind : Bytes) :
    (writeMembers escape (member::rest)++behind).head?≠some 125 := by
  cases rest <;> simp [writeMembers]

/-- A flag is read as it was written. -/
theorem readFlag_write (value : Bool) (rest : Bytes) :
    readFlag (write escape (.flag value)++rest)=some (.flag value,rest) := by
  cases value <;> rfl

/-- What is read with enough fuel. -/
structure ReadsBack (escape : Bytes → Bytes) (fuel : ℕ) : Prop where
  value : ∀ tree rest,(∀ text∈texts tree,Readable escape text) →
    (write escape tree).length≤fuel → readValue fuel (write escape tree++rest)=some (tree,rest)
  elements : ∀ element others rest,
    (∀ text∈textsElements (element::others),Readable escape text) →
    (writeElements escape (element::others)).length<fuel →
    readElements fuel (writeElements escape (element::others)++93::rest)=
      some (element::others,rest)
  members : ∀ member others rest,
    (∀ text∈textsMembers (member::others),Readable escape text) →
    (writeMembers escape (member::others)).length<fuel →
    readMembers fuel (writeMembers escape (member::others)++125::rest)=
      some (member::others,rest)

variable {fuel : ℕ}

/-- A value is read back with one more step. -/
theorem ReadsBack.nextValue (h : ReadsBack escape fuel) (tree : Tree) (rest : Bytes)
    (hread : ∀ text∈texts tree,Readable escape text)
    (hfuel : (write escape tree).length≤fuel+1) :
    readValue (fuel+1) (write escape tree++rest)=some (tree,rest) := by
  cases tree with
  | flag value =>
    have hflag := @readFlag_write escape value rest
    cases value <;> exact hflag
  | text bytes =>
    have hinside := hread bytes (List.mem_singleton_self bytes) rest
    simp [write,readValue,hinside]
  | array elements =>
    simp only [write,List.length_cons,List.length_append,List.length_nil] at hfuel
    cases elements with
    | nil => simp [write,writeElements,readValue]
    | cons element others =>
      have hinside := h.elements element others rest hread (by omega)
      have hhead := @head_writeElements escape element others (93::rest)
      have hwrite : write escape (.array (element::others))++rest=
          91::(writeElements escape (element::others)++93::rest) := by simp [write]
      rw [hwrite,readValue,if_neg (by decide),if_pos rfl,if_neg hhead,hinside]
      rfl
  | object members =>
    simp only [write,List.length_cons,List.length_append,List.length_nil] at hfuel
    cases members with
    | nil => simp [write,writeMembers,readValue]
    | cons member others =>
      have hinside := h.members member others rest hread (by omega)
      have hhead := @head_writeMembers escape member others (125::rest)
      have hwrite : write escape (.object (member::others))++rest=
          123::(writeMembers escape (member::others)++125::rest) := by simp [write]
      rw [hwrite,readValue,if_neg (by decide),if_neg (by decide),if_pos rfl,if_neg hhead,hinside]
      rfl

theorem ReadsBack.nextElements (h : ReadsBack escape fuel) (element : Tree) (others : List Tree)
    (rest : Bytes) (hread : ∀ text∈textsElements (element::others),Readable escape text)
    (hfuel : (writeElements escape (element::others)).length<fuel+1) :
    readElements (fuel+1) (writeElements escape (element::others)++93::rest)=
      some (element::others,rest) := by
  have helement : ∀ text∈texts element,Readable escape text :=
    fun text htext => hread text (List.mem_append_left _ htext)
  cases others with
  | nil =>
    simp only [writeElements] at hfuel
    have hvalue := h.value element (93::rest) helement (by omega)
    simp [writeElements,readElements,hvalue]
  | cons other others =>
    have hothers : ∀ text∈textsElements (other::others),Readable escape text :=
      fun text htext => hread text (List.mem_append_right _ htext)
    simp only [writeElements,List.length_append,List.length_cons] at hfuel
    have hvalue := h.value element (44::(writeElements escape (other::others)++93::rest)) helement
      (by omega)
    have hinside := h.elements other others rest hothers (by omega)
    simp [writeElements,readElements,hvalue,hinside]

theorem ReadsBack.nextMembers (h : ReadsBack escape fuel) (member : Bytes×Tree)
    (others : List (Bytes×Tree)) (rest : Bytes)
    (hread : ∀ text∈textsMembers (member::others),Readable escape text)
    (hfuel : (writeMembers escape (member::others)).length<fuel+1) :
    readMembers (fuel+1) (writeMembers escape (member::others)++125::rest)=
      some (member::others,rest) := by
  obtain ⟨name,value⟩ := member
  have hname : Readable escape name := hread name List.mem_cons_self
  have hvalue : ∀ text∈texts value,Readable escape text :=
    fun text htext => hread text (List.mem_cons_of_mem name (List.mem_append_left _ htext))
  cases others with
  | nil =>
    simp only [writeMembers,List.length_append,List.length_cons] at hfuel
    have hfirst := h.value value (125::rest) hvalue (by omega)
    have hinside := hname (58::(write escape value++125::rest))
    simp [writeMembers,readMembers,hinside,hfirst]
  | cons other others =>
    have hothers : ∀ text∈textsMembers (other::others),Readable escape text :=
      fun text htext => hread text (List.mem_cons_of_mem name (List.mem_append_right _ htext))
    simp only [writeMembers,List.length_append,List.length_cons] at hfuel
    have hfirst := h.value value (44::(writeMembers escape (other::others)++125::rest)) hvalue
      (by omega)
    have hlast := h.members other others rest hothers (by omega)
    have hinside := hname (58::(write escape value++
      44::(writeMembers escape (other::others)++125::rest)))
    simp [writeMembers,readMembers,hinside,hfirst,hlast]

/-- A value, elements and members are read as they were written, whatever
follows them. -/
theorem readsBack (escape : Bytes → Bytes) (fuel : ℕ) : ReadsBack escape fuel := by
  induction fuel with
  | zero =>
    refine ⟨fun tree rest _ hfuel => ?_,fun _ _ _ _ hfuel => absurd hfuel (Nat.not_lt_zero _),
      fun _ _ _ _ hfuel => absurd hfuel (Nat.not_lt_zero _)⟩
    obtain ⟨byte,tail,hwrite,-⟩ := @head_write escape tree
    rw [hwrite] at hfuel
    exact absurd hfuel (Nat.not_succ_le_zero _)
  | succ fuel ih => exact ⟨ih.nextValue,ih.nextElements,ih.nextMembers⟩

/-- A tree is read back from its text. -/
theorem read_write {tree : Tree} (h : ∀ text∈texts tree,Readable escape text) :
    read (write escape tree)=some tree := by
  have hread := (readsBack escape (write escape tree).length).value tree [] h (Nat.le_refl _)
  rw [List.append_nil] at hread
  unfold read
  rw [hread]
  rfl

end RoundTrip

section Letters

variable {escape : Bytes → Bytes}

mutual

/-- No control byte is written unless a string brings one along. -/
theorem printable_write (tree : Tree) (h : ∀ text∈texts tree,∀ byte∈escape text,32≤byte) :
    ∀ byte∈write escape tree,32≤byte := by
  cases tree with
  | flag value =>
    have hbytes : word "true"++word "false"=[116,114,117,101,102,97,108,115,101] := rfl
    have hwords : ∀ byte∈word "true"++word "false",32≤byte := by
      rw [hbytes]
      simp
    intro byte hbyte
    refine hwords byte (List.mem_append.mpr ?_)
    cases value with
    | true => exact .inl hbyte
    | false => exact .inr hbyte
  | text bytes =>
    have hinside := h bytes (List.mem_singleton_self bytes)
    intro byte hbyte
    simp only [write,List.mem_cons,List.mem_append,List.not_mem_nil,or_false] at hbyte
    rcases hbyte with rfl | hbyte | rfl
    · decide
    · exact hinside byte hbyte
    · decide
  | array elements =>
    have hinside := printable_writeElements elements h
    intro byte hbyte
    simp only [write,List.mem_cons,List.mem_append,List.not_mem_nil,or_false] at hbyte
    rcases hbyte with rfl | hbyte | rfl
    · decide
    · exact hinside byte hbyte
    · decide
  | object members =>
    have hinside := printable_writeMembers members h
    intro byte hbyte
    simp only [write,List.mem_cons,List.mem_append,List.not_mem_nil,or_false] at hbyte
    rcases hbyte with rfl | hbyte | rfl
    · decide
    · exact hinside byte hbyte
    · decide

/-- Written elements have no control bytes. -/
theorem printable_writeElements (elements : List Tree)
    (h : ∀ text∈textsElements elements,∀ byte∈escape text,32≤byte) :
    ∀ byte∈writeElements escape elements,32≤byte := by
  cases elements with
  | nil => simp [writeElements]
  | cons element others =>
    have helement := printable_write element
      fun text htext => h text (List.mem_append_left _ htext)
    have hothers := printable_writeElements others
      fun text htext => h text (List.mem_append_right _ htext)
    intro byte hbyte
    cases others with
    | nil => exact helement byte hbyte
    | cons other others =>
      rw [writeElements,List.mem_append,List.mem_cons] at hbyte
      · rcases hbyte with hbyte | rfl | hbyte
        · exact helement byte hbyte
        · decide
        · exact hothers byte hbyte
      · simp

theorem printable_writeMembers (members : List (Bytes×Tree))
    (h : ∀ text∈textsMembers members,∀ byte∈escape text,32≤byte) :
    ∀ byte∈writeMembers escape members,32≤byte := by
  cases members with
  | nil => simp [writeMembers]
  | cons member others =>
    obtain ⟨name,value⟩ := member
    have hname := h name List.mem_cons_self
    have hvalue := printable_write value
      fun text htext => h text (List.mem_cons_of_mem name (List.mem_append_left _ htext))
    have hothers := printable_writeMembers others
      fun text htext => h text (List.mem_cons_of_mem name (List.mem_append_right _ htext))
    intro byte hbyte
    cases others with
    | nil =>
      simp only [writeMembers,List.mem_cons,List.mem_append] at hbyte
      rcases hbyte with rfl | hbyte | rfl | rfl | hbyte
      · decide
      · exact hname byte hbyte
      · decide
      · decide
      · exact hvalue byte hbyte
    | cons other others =>
      simp only [writeMembers,List.mem_cons,List.mem_append] at hbyte
      rcases hbyte with rfl | hbyte | rfl | rfl | hbyte | rfl | hbyte
      · decide
      · exact hname byte hbyte
      · decide
      · decide
      · exact hvalue byte hbyte
      · decide
      · exact hothers byte hbyte

end

end Letters

end Vinput.CompactJson
