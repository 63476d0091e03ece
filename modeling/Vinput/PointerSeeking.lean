import Vinput.ConfigRouter
import Vinput.JsonPointer

/-!
# Following a pointer

A pointer is decoded one segment at a time while the tree is walked. An index
is read by `std::from_chars`, which takes zeros in front of a number, too.
-/

namespace Vinput.PointerSeeking

open JsonTree JsonLocation JsonPointer ConfigRouter

section Scanner

/-- The segment at the front of a text, and what is left from the next slash on. -/
def scanSegment : List Char → Option (List Char×List Char)
  | [] => some ([],[])
  | [current] =>
    if current= '/' then some ([],[current])
    else if current= '~' then none
    else some ([current],[])
  | current::escaped::rest =>
    if current= '/' then some ([],current::escaped::rest)
    else if current= '~' then
      if escaped= '1' then (scanSegment rest).map fun found => ('/'::found.1,found.2)
      else if escaped= '0' then (scanSegment rest).map fun found => ('~'::found.1,found.2)
      else none
    else (scanSegment (escaped::rest)).map fun found => (current::found.1,found.2)

variable {text raw rest segment : List Char} {names : List (List Char)}

theorem scanSegment_slash (rest : List Char) : scanSegment ('/'::rest)=some ([],'/'::rest) := by
  cases rest <;> rfl

/-- Any letter but a slash or a tilde is taken as it is. -/
theorem scanSegment_cons {letter : Char} (hslash : letter≠ '/') (htilde : letter≠ '~')
    (rest : List Char) :
    scanSegment (letter::rest)=(scanSegment rest).map fun found => (letter::found.1,found.2) := by
  cases rest with
  | nil =>
    unfold scanSegment
    rw [if_neg hslash,if_neg htilde]
    rfl
  | cons next behind =>
    conv_lhs => unfold scanSegment
    rw [if_neg hslash,if_neg htilde]

/-- A token is read up to the slash behind it. -/
theorem scanSegment_of_token (htoken : ReferenceToken raw)
    (hrest : ∀ first behind, rest=first::behind → first= '/') :
    scanSegment (raw++rest)=some (unescape raw,rest) := by
  induction htoken with
  | empty =>
    cases rest with
    | nil => rfl
    | cons first behind =>
      obtain rfl := hrest first behind rfl
      exact scanSegment_slash behind
  | unescaped slash tilde token ih =>
    rw [List.cons_append,scanSegment_cons slash tilde,ih,unescape_cons tilde]
    rfl
  | @escaped digit token digits htoken ih =>
    rcases digits with rfl | rfl
    · rw [List.cons_append,List.cons_append,unescape_tilde]
      unfold scanSegment
      rw [if_neg (by decide),if_pos rfl,if_neg (by decide),if_pos rfl,ih]
      rfl
    · rw [List.cons_append,List.cons_append,unescape_slash]
      unfold scanSegment
      rw [if_neg (by decide),if_pos rfl,if_pos rfl,ih]
      rfl

/-- A segment with a letter in front was scanned behind it. -/
theorem scanned_cons {letter : Char} {behind : List Char}
    (h : ((scanSegment text).map fun found => (letter::found.1,found.2))=some (segment,behind)) :
    ∃ below, scanSegment text=some (below,behind) ∧ segment=letter::below := by
  obtain ⟨⟨below,rest⟩,hfound,hpair⟩ := Option.map_eq_some_iff.mp h
  obtain ⟨rfl,rfl⟩ := Prod.mk.inj hpair
  exact ⟨below,hfound,rfl⟩

/-- What is read is a token, and a slash or nothing is left. -/
theorem scanSegment_sound (h : scanSegment text=some (segment,rest)) :
    ∃ raw, text=raw++rest ∧ ReferenceToken raw ∧ unescape raw=segment ∧
      ∀ first behind, rest=first::behind → first= '/' := by
  fun_induction scanSegment text generalizing segment rest with
  | case1 =>
    obtain ⟨rfl,rfl⟩ := Prod.mk.inj (Option.some.inj h)
    exact ⟨[],rfl,.empty,rfl,nofun⟩
  | case2 =>
    obtain ⟨rfl,rfl⟩ := Prod.mk.inj (Option.some.inj h)
    refine ⟨[],rfl,.empty,rfl,?_⟩
    rintro first behind ⟨⟩
    rfl
  | case3 => cases h
  | case4 current hslash htilde =>
    obtain ⟨rfl,rfl⟩ := Prod.mk.inj (Option.some.inj h)
    exact ⟨[current],rfl,.unescaped hslash htilde .empty,unescape_cons htilde [],nofun⟩
  | case5 escaped behind =>
    obtain ⟨rfl,rfl⟩ := Prod.mk.inj (Option.some.inj h)
    refine ⟨[],rfl,.empty,rfl,?_⟩
    rintro first behind ⟨⟩
    rfl
  | case6 behind hslash ih =>
    obtain ⟨below,hfound,rfl⟩ := scanned_cons h
    obtain ⟨raw,rfl,htoken,hsegment,hrest⟩ := ih hfound
    refine ⟨'~' :: '1'::raw,rfl,.escaped (.inr rfl) htoken,?_,hrest⟩
    rw [unescape_slash,hsegment]
  | case7 behind hslash hone ih =>
    obtain ⟨below,hfound,rfl⟩ := scanned_cons h
    obtain ⟨raw,rfl,htoken,hsegment,hrest⟩ := ih hfound
    refine ⟨'~' :: '0'::raw,rfl,.escaped (.inl rfl) htoken,?_,hrest⟩
    rw [unescape_tilde,hsegment]
  | case8 => cases h
  | case9 current escaped behind hslash htilde ih =>
    obtain ⟨below,hfound,rfl⟩ := scanned_cons h
    obtain ⟨raw,htext,htoken,hsegment,hrest⟩ := ih hfound
    refine ⟨current::raw,?_,.unescaped hslash htilde htoken,?_,hrest⟩
    · rw [htext]
      rfl
    · rw [unescape_cons htilde,hsegment]

/-- A segment leaves no more than there was. -/
theorem scanSegment_length (h : scanSegment text=some (segment,rest)) :
    rest.length ≤ text.length := by
  obtain ⟨raw,rfl,-⟩ := scanSegment_sound h
  rw [List.length_append]
  omega

/-- The place a pointer leads to from a node. -/
def seekPointer (node : Json) : List Char → Option Location
  | [] => some []
  | first::text =>
    if first≠ '/' then none
    else
      match _hscan : scanSegment text with
      | none => none
      | some (segment,rest) =>
        (childAt node segment).bind fun step => (child node step).bind fun next =>
          (seekPointer next rest).map (step::·)
termination_by text => text.length
decreasing_by
  have hlength := scanSegment_length _hscan
  exact Nat.lt_succ_of_le hlength

/-- A pointer is followed segment by segment. -/
theorem seekPointer_slash (node : Json) (text : List Char) : seekPointer node ('/'::text)=
    (scanSegment text).bind fun found => (childAt node found.1).bind fun step =>
      (child node step).bind fun next => (seekPointer next found.2).map (step::·) := by
  rw [seekPointer,if_neg (by decide)]
  split
  · rename_i hscan
    rw [hscan]
    rfl
  · rename_i segment rest hscan
    rw [hscan]
    rfl

/-- Decoding every segment first finds the same segments. -/
theorem segmentsFrom_eq (text : List Char) : segmentsFrom text=
    (scanSegment text).bind fun found =>
      (pointerSegments found.2).map fun rest => (found.1,rest) := by
  fun_induction scanSegment text with
  | case1 => rfl
  | case2 => rfl
  | case3 => rfl
  | case4 current hslash htilde => simp [segmentsFrom,pointerSegments]
  | case5 escaped rest => simp [segmentsFrom,pointerSegments,Function.comp_def]
  | case6 rest hslash ih =>
    rw [segmentsFrom,ih]
    cases scanSegment rest with
    | none => rfl
    | some found => simp [Function.comp_def]
  | case7 rest hslash hone ih =>
    rw [segmentsFrom,ih]
    cases scanSegment rest with
    | none => rfl
    | some found => simp [Function.comp_def]
  | case8 escaped rest hone hzero =>
    rw [segmentsFrom]
    · rfl
    · intro behind htext
      exact hone (List.cons.inj htext).1
    · intro behind htext
      exact hzero (List.cons.inj htext).1
  | case9 current escaped rest hslash htilde ih =>
    rw [segmentsFrom,ih]
    · cases scanSegment (escaped::rest) with
      | none => rfl
      | some found => simp [Function.comp_def]
    · exact hslash
    · intro behind hletter htext
      exact htilde hletter
    · intro behind hletter htext
      exact htilde hletter
    · exact htilde

/-- Decoding every segment before the walk gives the same place. -/
theorem seekPointer_eq (root : Json) (pointer : String) :
    seekPointer root pointer.toList=ConfigRouter.seekPointer root pointer := by
  unfold ConfigRouter.seekPointer
  generalize pointer.toList=text
  fun_induction seekPointer root text with
  | case1 root => rfl
  | case2 root first text hfirst =>
    rw [pointerSegments]
    · rfl
    · exact nofun
    · intro rest htext
      exact hfirst (List.cons.inj htext).1
  | case3 root first text hfirst hscan =>
    obtain rfl : first= '/' := not_not.mp hfirst
    rw [pointerSegments,segmentsFrom_eq,hscan]
    rfl
  | case4 root first text hfirst segment rest hscan ih =>
    obtain rfl : first= '/' := not_not.mp hfirst
    rw [pointerSegments,segmentsFrom_eq,hscan]
    dsimp only [Option.bind_some]
    cases hsegments : pointerSegments rest with
    | none =>
      rw [hsegments] at ih
      simp [ih]
    | some segments =>
      rw [hsegments] at ih
      simp [seekSegments,ih,Option.map_eq_bind]

end Scanner

section Resolution

/-- A vector has a size. -/
def Storable (root : Json) : Prop :=
  ∀ place elements, nodeAt place root=some (.array elements) → elements.length<2^64

variable {node next : Json} {step : Step} {name text : List Char} {place : Location}

/-- The value of digits is that of their number. -/
theorem digitsValue_eq (name : List Char) : digitsValue name=Nat.ofDigitChars 10 name 0 := by
  rw [Nat.ofDigitChars_eq_foldl]
  unfold digitsValue
  congr 1
  funext value digit
  rw [mul_comm]

/-- What can be stored has children that can. -/
theorem Storable.child (h : Storable node) (hchild : child node step=some next) :
    Storable next := by
  intro place elements hplace
  apply h (step::place)
  unfold nodeAt
  rw [hchild]
  exact hplace

/-- Digits that a size can hold are an index. -/
theorem parseIndex_of_digits (hdigits : Digits name) (hvalue : Nat.ofDigitChars 10 name 0<2^64) :
    parseIndex name=some (Nat.ofDigitChars 10 name 0) := by
  unfold parseIndex
  rw [digitsValue_eq]
  exact if_pos ⟨hdigits.1,hdigits.2,hvalue⟩

theorem childAt_object (members : List (String×Json)) (name : List Char)
    (h : members.lookup (String.ofList name)=some next) :
    childAt (.object members) name=some (.key (String.ofList name)) := by
  have hsome : (members.lookup (String.ofList name)).isSome=true := by
    rw [h]
    rfl
  exact if_pos hsome

/-- An element is found by its digits. -/
theorem childAt_array {elements : List Json} (hdigits : Digits name)
    (hlength : Nat.ofDigitChars 10 name 0<elements.length)
    (hsize : Nat.ofDigitChars 10 name 0<2^64) :
    childAt (.array elements) name=some (.index (Nat.ofDigitChars 10 name 0)) := by
  dsimp only [childAt]
  rw [parseIndex_of_digits hdigits hsize,Option.bind_some,if_pos hlength]

/-- A segment that leads from a node to a child is a name in its object or a
number in its array. -/
theorem designates_of_childAt (hstep : childAt node name=some step)
    (hchild : child node step=some next)
    {names : List (List Char)} (below : Designates Digits next names place) :
    Designates Digits node (name::names) (step::place) := by
  cases node with
  | object members =>
    dsimp only [childAt] at hstep
    split at hstep
    · obtain rfl := Option.some.inj hstep
      exact .member hchild below
    · cases hstep
  | array elements =>
    dsimp only [childAt] at hstep
    obtain ⟨position,hposition,hlength⟩ := Option.bind_eq_some_iff.mp hstep
    unfold parseIndex at hposition
    rw [digitsValue_eq] at hposition
    split at hposition
    · rename_i hdigits
      obtain rfl := Option.some.inj hposition
      split at hlength
      · obtain rfl := Option.some.inj hlength
        exact .element ⟨hdigits.1,hdigits.2.1⟩ hchild below
      · cases hlength
    · cases hposition
  | _ => cases hstep

/-- A place that is found is one the pointer designates. -/
theorem seekPointer_sound (h : seekPointer node text=some place) :
    ∃ names, Pointer text names ∧ Designates Digits node names place := by
  fun_induction seekPointer node text generalizing place with
  | case1 node =>
    obtain rfl := Option.some.inj h
    exact ⟨[],.root,.here⟩
  | case2 => cases h
  | case3 => cases h
  | case4 node first text hfirst segment rest hscan ih =>
    obtain ⟨step,hstep,hbelow⟩ := Option.bind_eq_some_iff.mp h
    obtain ⟨next,hnext,hplace⟩ := Option.bind_eq_some_iff.mp hbelow
    obtain ⟨below,hseek,rfl⟩ := Option.map_eq_some_iff.mp hplace
    obtain ⟨names,hpointer,hbelow⟩ := ih _ hseek
    obtain ⟨raw,rfl,htoken,rfl,-⟩ := scanSegment_sound hscan
    obtain rfl : first= '/' := not_not.mp hfirst
    exact ⟨_,.token htoken hpointer,designates_of_childAt hstep hnext hbelow⟩

/-- A place that the pointer designates is found. -/
theorem seekPointer_complete {names : List (List Char)}
    (hplace : Designates Digits node names place)
    (hpointer : Pointer text names) (hstorable : Storable node) :
    seekPointer node text=some place := by
  induction hplace generalizing text with
  | here =>
    cases hpointer
    rw [seekPointer]
  | member found below ih =>
    rcases hpointer with _ | ⟨htoken,hrest⟩
    have hchild : child (.object _) (.key _)=some _ := found
    rw [List.cons_append,seekPointer_slash,scanSegment_of_token htoken hrest.eq_slash]
    dsimp only [Option.bind_some]
    rw [childAt_object _ _ found,Option.bind_some,hchild,Option.bind_some,
      ih hrest (hstorable.child hchild)]
    rfl
  | @element elements segment value names place digits found below ih =>
    rcases hpointer with _ | @⟨raw,rest,_,htoken,hrest⟩
    obtain ⟨hlength,-⟩ := List.getElem?_eq_some_iff.mp found
    have hsize : elements.length<2^64 := hstorable [] elements rfl
    have hstep := childAt_array digits hlength (hlength.trans hsize)
    have hchild : child (.array elements) (.index _)=some value := found
    rw [List.cons_append,seekPointer_slash,scanSegment_of_token htoken hrest.eq_slash]
    dsimp only [Option.bind_some]
    rw [hstep,Option.bind_some,hchild,Option.bind_some,ih hrest (hstorable.child hchild)]
    rfl

/-- A text is a pointer with one list of names only. -/
theorem pointer_unique {names others : List (List Char)} (h : Pointer text names)
    (hother : Pointer text others) : names=others := by
  induction h generalizing others with
  | root =>
    cases hother
    rfl
  | @token raw rest names htoken hbelow ih =>
    generalize htext : '/'::raw++rest=text at hother
    cases hother with
    | root => cases htext
    | @token raw' rest' others htoken' hbelow' =>
      have hscan := scanSegment_of_token htoken hbelow.eq_slash
      have hscan' := scanSegment_of_token htoken' hbelow'.eq_slash
      have hsame : raw++rest=raw'++rest' := (List.cons.inj htext).2
      rw [hsame,hscan'] at hscan
      obtain ⟨hname,rfl⟩ := Prod.mk.inj (Option.some.inj hscan)
      rw [hname,ih hbelow']

/-- An array of one letter can be stored. -/
theorem storable_letter : Storable (.array [.text "a"]) := by
  intro place elements hplace
  cases place with
  | nil =>
    obtain rfl := Json.array.inj (Option.some.inj hplace)
    decide
  | cons step below =>
    obtain ⟨next,hnext,hbelow⟩ := Option.bind_eq_some_iff.mp hplace
    cases step with
    | key name => cases hnext
    | index position =>
      obtain rfl := List.mem_singleton.mp (List.mem_of_getElem? hnext)
      cases below with
      | nil => cases hbelow
      | cons step below => cases hbelow

/-- A pointer is resolved as the standard says exactly if no way it leads to
goes to an element of an array by a number with a zero in front. -/
theorem resolution_exact_iff (root : Json) (pointer : String) (hstorable : Storable root) :
    (∀ place, seekPointer root pointer.toList=some place ↔ Evaluates root pointer.toList place) ↔
    (∀ names place, Pointer pointer.toList names → Designates Digits root names place →
      Unpadded names place) := by
  constructor
  · intro h names place hpointer hplace
    obtain ⟨others,hothers,hdesignates⟩ :=
      (h place).mp (seekPointer_complete hplace hpointer hstorable)
    rw [pointer_unique hpointer hothers]
    exact (designates_arrayIndex_iff.mp hdesignates).2
  · intro h place
    constructor
    · intro hseek
      obtain ⟨names,hpointer,hplace⟩ := seekPointer_sound hseek
      exact ⟨names,hpointer,designates_arrayIndex_iff.mpr ⟨hplace,h names place hpointer hplace⟩⟩
    · rintro ⟨names,hpointer,hplace⟩
      exact seekPointer_complete (designates_arrayIndex_iff.mp hplace).1 hpointer hstorable

/-- Whether resolving in it is exact depends on padded indices. -/
theorem resolution_exact_letter :
    (∀ place, seekPointer (.array [.text "a"]) "/0".toList=some place ↔
      Evaluates (.array [.text "a"]) "/0".toList place) ↔
    (∀ names place, Pointer "/0".toList names →
      Designates Digits (.array [.text "a"]) names place → Unpadded names place) :=
  resolution_exact_iff (.array [.text "a"]) "/0" storable_letter

/-- The standard knows no index with a zero in front. -/
theorem padded_index_resolved : ¬∀ place,
    seekPointer (.array [.text "a"]) "/00".toList=some place ↔
      Evaluates (.array [.text "a"]) "/00".toList place := by
  intro h
  have hseek : seekPointer (.array [.text "a"]) "/00".toList=some [.index 0] := by
    rw [seekPointer_eq]
    decide +kernel
  have htext : "/00".toList=['/','0','0'] := by decide +kernel
  have hpointer : Pointer "/00".toList [['0','0']] := by
    rw [htext]
    have hzero : ReferenceToken ['0'] := .unescaped (by decide) (by decide) .empty
    exact .token (.unescaped (by decide) (by decide) hzero) .root
  obtain ⟨names,hnames,hplace⟩ := (h _).mp hseek
  obtain rfl := pointer_unique hnames hpointer
  have hindex : ArrayIndex ['0','0'] :=
    (designates_arrayIndex_iff.mp hplace).2 _ List.mem_cons_self 0 rfl
  rcases hindex with hzero | ⟨first,rest,hname,hfirst,-⟩
  · cases hzero
  · exact hfirst (List.cons.inj hname).1.symm

end Resolution

end Vinput.PointerSeeking
