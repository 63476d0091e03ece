import Mathlib.Data.List.Destutter
import Vinput.BackendSessionRuns
import Vinput.OnlineRecognition

/-!
# What the streaming session tells

The texts seen after the steps of decoding depend on the audio and on how it is
cut into chunks, not on when the owner polls. The session tells every change of
them and, at the end, the last of them. In general, a value is told unless it is
blank or was told last: what is told of a list is what is left of its values
that are not blank once repetitions next to each other are dropped.
-/

namespace Vinput.ChangedValues

variable {α : Type*}

/-- The value that is told last. -/
def lastTold (last : α) (told : List α) : α := told.getLast?.getD last

@[simp] theorem lastTold_nil (last : α) : lastTold last []=last := rfl

/-- A value that is told is the last one. -/
@[simp] theorem lastTold_cons (last value : α) (values : List α) :
    lastTold last (value::values)=lastTold value values := by
  unfold lastTold
  rw [List.getLast?_cons]
  rfl

/-- Values are told one after the other. -/
theorem lastTold_append (last : α) (values later : List α) :
    lastTold last (values++later)=lastTold (lastTold last values) later := by
  induction values generalizing last with
  | nil => rfl
  | cons value rest ih => rw [List.cons_append,lastTold_cons,lastTold_cons,ih]

variable [DecidableEq α] (blank : α)

/-- What is told of a list, after a value that was told last. -/
def changed (last : α) : List α → List α
  | [] => []
  | value::rest =>
    if value=blank ∨ value=last then changed last rest else value::changed value rest

variable {blank} {last value : α} {values later : List α}

/-- A blank value or the same again is no change. -/
theorem changed_cons_skip (h : value=blank ∨ value=last) :
    changed blank last (value::values)=changed blank last values := if_pos h

theorem changed_cons_told (h : ¬(value=blank ∨ value=last)) :
    changed blank last (value::values)=value::changed blank value values := if_neg h

/-- A list can be told piece by piece. -/
theorem changed_append : changed blank last (values++later)=
    changed blank last values++changed blank (lastTold last (changed blank last values)) later := by
  induction values generalizing last with
  | nil => rfl
  | cons value rest ih =>
    by_cases hskip : value=blank ∨ value=last
    · rw [List.cons_append,changed_cons_skip hskip,changed_cons_skip hskip,ih]
    · rw [List.cons_append,changed_cons_told hskip,changed_cons_told hskip,ih,List.cons_append,
        lastTold_cons]

/-- After a value that was told, further repetitions are dropped. -/
theorem destutter'_eq_changed (hvalue : value≠blank) :
    (values.filter fun other => decide (other≠blank)).destutter' (· ≠ ·) value=
      value::changed blank value values := by
  induction values generalizing value with
  | nil => rfl
  | cons next rest ih =>
    by_cases hblank : next=blank
    · rw [List.filter_cons_of_neg (by simpa using hblank),changed_cons_skip (.inl hblank),
        ih hvalue]
    · rw [List.filter_cons_of_pos (by simpa using hblank)]
      by_cases hsame : next=value
      · rw [List.destutter'_cons_neg _ (by simpa using hsame.symm),ih hvalue,
          changed_cons_skip (.inr hsame)]
      · rw [List.destutter'_cons_pos _ (fun h => hsame h.symm),ih hblank,
          changed_cons_told (by rintro (h | h) <;> contradiction)]

/-- What is told from the start. -/
theorem changed_eq_destutter (values : List α) : changed blank blank values=
    (values.filter fun value => decide (value≠blank)).destutter (· ≠ ·) := by
  induction values with
  | nil => rfl
  | cons value rest ih =>
    by_cases hblank : value=blank
    · rw [List.filter_cons_of_neg (by simpa using hblank),changed_cons_skip (.inl hblank),ih]
    · rw [List.filter_cons_of_pos (by simpa using hblank),List.destutter_cons',
        destutter'_eq_changed hblank,changed_cons_told (by rintro (h | h) <;> contradiction)]

/-- A value that is not blank is the one told last. -/
theorem lastTold_changed_concat (h : value≠blank) :
    lastTold last (changed blank last (values++[value]))=value := by
  rw [changed_append,lastTold_append]
  generalize lastTold last (changed blank last values)=before
  by_cases hsame : value=before
  · rw [changed_cons_skip (.inr hsame),hsame]
    rfl
  · rw [changed_cons_told (by rintro (h | h) <;> contradiction)]
    rfl

end Vinput.ChangedValues

namespace Vinput.OnlineRecognitionRuns

open InterleavedRuns EventSessions ChangedValues OnlineRecognition
open RuntimeController (RecognitionEvent)
open BackendSessions (Text completed)

variable {σ α : Type*} {recognizer : OnlineRecognizer σ α}

section Telling

/-- Partial results are the changes of the text. -/
theorem partials_eq (texts : List Text) :
    partials texts=(changed [] [] texts).map partialEvent := by
  unfold partials
  rw [changed_eq_destutter]

/-- A session told of these texts, one after the other. -/
def tellAll (texts : List Text) (session : Session σ) : Session σ :=
  {session with
    lastPartialText := lastTold session.lastPartialText (changed [] session.lastPartialText texts)
    events := session.events++(changed [] session.lastPartialText texts).map partialEvent}

theorem tellAll_nil (session : Session σ) : tellAll [] session=session := by
  unfold tellAll
  rw [changed,List.map_nil,List.append_nil,lastTold_nil]

/-- Texts are told one after the other. -/
theorem tellAll_append (first second : List Text) (session : Session σ) :
    tellAll (first++second) session=tellAll second (tellAll first session) := by
  unfold tellAll
  rw [changed_append,List.map_append,lastTold_append,List.append_assoc]

theorem tellPartial_eq (text : Text) (session : Session σ) :
    tellPartial text session=tellAll [text] session := by
  unfold tellPartial tellAll
  by_cases htold : text≠[] ∧ text≠session.lastPartialText
  · rw [if_pos htold,changed_cons_told (by rintro (h | h); exacts [htold.1 h,htold.2 h])]
    rfl
  · have hskip : text=[] ∨ text=session.lastPartialText := by
      by_contra hneither
      exact htold ⟨fun h => hneither (.inl h),fun h => hneither (.inr h)⟩
    rw [if_neg htold,changed_cons_skip hskip,changed,List.map_nil,List.append_nil,lastTold_nil]

/-- A stream that is ready is decoded once more. -/
theorem settle_ready {stream : σ} (h : recognizer.isReady stream=true) :
    settle recognizer stream=((settle recognizer (recognizer.decode stream)).1,
      currentText recognizer (recognizer.decode stream)::
        (settle recognizer (recognizer.decode stream)).2) := by
  conv_lhs => unfold settle
  rw [dif_pos h]

/-- A stream that is not ready stays as it is. -/
theorem settle_idle {stream : σ} (h : ¬recognizer.isReady stream=true) :
    settle recognizer stream=(stream,[]) := by
  unfold settle
  rw [dif_neg h]

/-- The loop of decoding tells the texts it sees. -/
theorem decodeLoop_eq (stream : σ) (session : Session σ) :
    decodeLoop recognizer stream session=
      {tellAll (settle recognizer stream).2 session with
        stream := some (settle recognizer stream).1} := by
  fun_induction decodeLoop recognizer stream session with
  | case1 stream session hready ih =>
    rw [ih,settle_ready hready,tellPartial_eq,←tellAll_append]
    rfl
  | case2 stream session hready =>
    rw [settle_idle hready,tellAll_nil]

/-- The text at the end is told as a partial text first, where it is news. -/
theorem tellFinal_eq (text : Text) (session : Session σ) :
    (tellFinal text session).finished=session.finished ∧
    (tellFinal text session).events++[completed]=(tellAll [text] session).events++ending text := by
  rw [←tellPartial_eq]
  unfold tellFinal tellPartial ending
  by_cases hempty : text=[]
  · rw [if_neg (not_not.mpr hempty),if_neg fun h => h.1 hempty,if_pos hempty]
    exact ⟨rfl,rfl⟩
  · rw [if_pos hempty,if_neg hempty]
    dsimp only
    by_cases hnews : text≠session.lastPartialText
    · rw [if_pos hnews,if_pos ⟨hempty,hnews⟩]
      exact ⟨rfl,List.append_assoc _ _ _⟩
    · rw [if_neg hnews,if_neg fun h => hnews h.2]
      exact ⟨rfl,List.append_assoc _ _ _⟩

end Telling

section Hearing

theorem hear_empty {chunk : List α} (h : chunk.isEmpty=true) (stream : σ)
    (rest : List (List α)) : hear recognizer stream (chunk::rest)=hear recognizer stream rest := by
  conv_lhs => unfold hear
  rw [if_pos h]

theorem hear_chunk {chunk : List α} (h : chunk.isEmpty≠true) (stream : σ)
    (rest : List (List α)) : hear recognizer stream (chunk::rest)=
      ((hear recognizer (settle recognizer (recognizer.acceptWaveform chunk stream)).1 rest).1,
        (settle recognizer (recognizer.acceptWaveform chunk stream)).2++
          (hear recognizer (settle recognizer (recognizer.acceptWaveform chunk stream)).1
            rest).2) := by
  conv_lhs => unfold hear
  rw [if_neg h]

/-- The stream and the texts of one more chunk. -/
theorem hear_append (stream : σ) (chunks later : List (List α)) :
    hear recognizer stream (chunks++later)=
      ((hear recognizer (hear recognizer stream chunks).1 later).1,
        (hear recognizer stream chunks).2++
          (hear recognizer (hear recognizer stream chunks).1 later).2) := by
  induction chunks generalizing stream with
  | nil => rfl
  | cons chunk rest ih =>
    rw [List.cons_append]
    by_cases hempty : chunk.isEmpty=true
    · rw [hear_empty hempty,hear_empty hempty,ih]
    · rw [hear_chunk hempty,hear_chunk hempty,ih]
      dsimp only
      rw [List.append_assoc]

/-- A session that has heard these chunks on a stream that was fresh. -/
structure Hearing (recognizer : OnlineRecognizer σ α) (stream : σ) (chunks : List (List α))
    (session : Session σ) : Prop where
  unfinished : session.finished=false
  stream_eq : session.stream=some (hear recognizer stream chunks).1
  total : session.totalSamples=chunks.flatten.length
  last : session.lastPartialText=lastTold [] (changed [] [] (hear recognizer stream chunks).2)

variable {stream : σ} {chunks : List (List α)} {session : Session σ}

/-- A push tells what is heard of its samples. -/
theorem pushAudio_hearing (h : Hearing recognizer stream chunks session) {samples : List α}
    (hsamples : samples.isEmpty≠true) : (pushAudio recognizer samples session).1=
      {tellAll (hear recognizer (hear recognizer stream chunks).1 [samples]).2 session with
        stream := some (hear recognizer stream (chunks++[samples])).1
        totalSamples := (chunks++[samples]).flatten.length} := by
  unfold pushAudio
  rw [if_neg (by rw [h.unfinished]; decide),h.stream_eq]
  dsimp only
  rw [if_neg hsamples]
  unfold decodeAvailable
  dsimp only
  rw [decodeLoop_eq,hear_append,hear_chunk hsamples,h.total,List.flatten_append,
    List.length_append,List.flatten_singleton]
  dsimp only [tellAll,hear]
  rw [List.append_nil]

/-- A push extends what is heard and what is told alike. -/
theorem hearing_push (h : Hearing recognizer stream chunks session) (samples : List α) :
    Hearing recognizer stream (chunks++[samples]) (pushAudio recognizer samples session).1 ∧
    ∃ more, (pushAudio recognizer samples session).1.events=session.events++more ∧
      heardSoFar recognizer stream (chunks++[samples])=
        heardSoFar recognizer stream chunks++more := by
  have hlines : heardSoFar recognizer stream (chunks++[samples])=
      heardSoFar recognizer stream chunks++(changed [] session.lastPartialText
        (hear recognizer (hear recognizer stream chunks).1 [samples]).2).map partialEvent := by
    unfold heardSoFar
    rw [partials_eq,partials_eq,hear_append,h.last]
    rw [changed_append,List.map_append]
  by_cases hempty : samples.isEmpty=true
  · have hsame : (pushAudio recognizer samples session).1=session := by
      unfold pushAudio
      rw [if_neg (by rw [h.unfinished]; decide),h.stream_eq]
      dsimp only
      rw [if_pos hempty]
    have hnothing : hear recognizer (hear recognizer stream chunks).1 [samples]=
        ((hear recognizer stream chunks).1,[]) := by
      rw [hear_empty hempty]
      rfl
    rw [hnothing] at hlines
    rw [hsame]
    refine ⟨⟨h.unfinished,?_,?_,?_⟩,[],(List.append_nil _).symm,hlines⟩
    · rw [h.stream_eq,hear_append,hnothing]
    · rw [h.total,List.isEmpty_iff.mp hempty]
      simp
    · rw [h.last,hear_append,hnothing,List.append_nil]
  · rw [pushAudio_hearing h hempty]
    refine ⟨⟨h.unfinished,rfl,rfl,?_⟩,_,rfl,hlines⟩
    dsimp only [tellAll]
    rw [hear_append,h.last]
    rw [changed_append,lastTold_append]

/-- What Finish tells, behind what was told before. -/
theorem heardOut_eq [Zero α] (stream : σ) (chunks : List (List α)) :
    heardOut recognizer stream chunks=heardSoFar recognizer stream chunks++
      ((changed [] (lastTold [] (changed [] [] (hear recognizer stream chunks).2))
        ((settle recognizer (closeInput recognizer chunks.flatten.length
          (hear recognizer stream chunks).1)).2++
            [(hearOut recognizer stream chunks).2])).map partialEvent++
        ending (hearOut recognizer stream chunks).2) := by
  unfold heardOut heardSoFar
  dsimp only [hearOut]
  rw [partials_eq,partials_eq,List.append_assoc (hear recognizer stream chunks).2,changed_append,
    List.map_append,List.append_assoc]

/-- A finish tells what is still to be heard. -/
theorem hearing_finish [Zero α] (h : Hearing recognizer stream chunks session) :
    (finish recognizer session).1.finished=true ∧
    ∃ more, (finish recognizer session).1.events=session.events++more ∧
      heardOut recognizer stream chunks=heardSoFar recognizer stream chunks++more := by
  have hlast : lastTold [] (changed [] [] (hear recognizer stream chunks).2)=
      session.lastPartialText := h.last.symm
  unfold finish
  rw [if_neg (by rw [h.unfinished]; decide),h.stream_eq]
  dsimp only
  unfold decodeAvailable
  dsimp only
  rw [decodeLoop_eq]
  dsimp only [getCurrentText]
  rw [(tellFinal_eq _ _).1,(tellFinal_eq _ _).2,h.total]
  refine ⟨rfl,_,?_,heardOut_eq stream chunks⟩
  rw [hlast,changed_append,List.map_append]
  dsimp only [tellAll,hearOut]
  rw [List.append_assoc,List.append_assoc,List.append_assoc]

end Hearing

section Protocols

variable [Zero α] (recognizer) (stream : σ)

/-- The streaming session tells the changes of its text while it listens. -/
def protocol : Protocol (machine recognizer) (createSession stream) completed
    (heardSoFar recognizer stream) (heardOut recognizer stream) where
  finished session := session.finished=true
  listens := Hearing recognizer stream
  started := ⟨⟨rfl,rfl,rfl,rfl⟩,rfl,rfl⟩
  push_listens := fun _ samples _ h => hearing_push h samples
  finish_listens := fun _ _ h => hearing_finish h
  poll_listens := fun _ _ h => ⟨h.unfinished,h.stream_eq,h.total,h.last⟩
  push_finished := by
    intro samples session h
    show (pushAudio recognizer samples session).1=session
    unfold pushAudio
    rw [if_pos h]
  finish_finished := by
    intro session h
    show (finish recognizer session).1=session
    unfold finish
    rw [if_pos h]
  poll_finished := fun _ h => h
  poll_events := fun _ => ⟨rfl,rfl⟩
  cancel_finished := fun _ => ⟨rfl,rfl⟩

theorem partialEvent_injective {first second : Text} (h : partialEvent first=partialEvent second) :
    first=second := String.ofList_injective (congrArg RecognitionEvent.text h)

/-- The text of what is told last of a list of texts, where there is one. -/
theorem partials_getLast {texts : List Text} {last : Text} (h : last≠[]) :
    (partials (texts++[last])).getLast?=some (partialEvent last) := by
  have hlast := @lastTold_changed_concat _ _ [] [] _ texts h
  rw [partials_eq,List.getLast?_map]
  unfold lastTold at hlast
  cases hfound : (changed [] [] (texts++[last])).getLast? with
  | none => rw [hfound] at hlast; exact absurd hlast.symm h
  | some told => rw [hfound] at hlast; rw [←hlast]; rfl

/-- Whatever is called on a streaming session and in which order: it tells each
change of the text that its recognizer shows, then the text at the end and that
it is over, and a cancel puts that it is over in the place of what was not
polled. No partial text is empty or told twice in a row, and the text at the end
is the last partial text. -/
theorem changes_told :
    Tells (machine recognizer) (createSession stream) completed (heardSoFar recognizer stream)
      (heardOut recognizer stream) ∧
    (∀ texts, partialEvent []∉partials texts ∧ (partials texts).IsChain (· ≠ ·)) ∧
    ∀ chunks, (hearOut recognizer stream chunks).2≠[] →
      ∃ front, heardOut recognizer stream chunks=
        front++[partialEvent (hearOut recognizer stream chunks).2,
          finalEvent (hearOut recognizer stream chunks).2,completed] := by
  refine ⟨tells (protocol recognizer stream),fun texts => ⟨?_,?_⟩,fun chunks hlast => ?_⟩
  · intro hmem
    obtain ⟨text,htext,hblank⟩ := List.mem_map.mp hmem
    have hkept := (List.destutter_sublist _ _).subset htext
    have hne := (List.mem_filter.mp hkept).2
    rw [partialEvent_injective hblank] at hne
    cases hne
  · refine (List.isChain_map _).mpr ((List.isChain_destutter _ _).imp ?_)
    exact fun first second hne heq => hne (partialEvent_injective heq)
  · obtain ⟨front,hfront⟩ := List.getLast?_eq_some_iff.mp
      (@partials_getLast (hearOut recognizer stream chunks).1 _ hlast)
    refine ⟨front,?_⟩
    unfold heardOut ending
    dsimp only
    rw [hfront,if_neg hlast,List.append_assoc]
    rfl

/-- A recognizer that hears a letter in every ten thousand samples. -/
def letterRecognizer : OnlineRecognizer (ℕ×ℕ) ℤ where
  acceptWaveform samples stream := (stream.1+samples.length,stream.2)
  inputFinished := id
  isReady stream := decide (10000≤ stream.1)
  decode stream := (stream.1-10000,stream.2+1)
  getText stream := List.replicate stream.2 'a'
  waiting := Prod.fst
  settles := by
    intro stream h
    have hready := of_decide_eq_true h
    dsimp only
    omega

/-- Less than a second of silence. -/
def chunk : List ℤ := List.replicate 12000 0

/-- One chunk is pushed, what it gives is polled, and the session is finished. -/
def pushedAndFinished : List (Call (List ℤ)) := [.push chunk,.poll,.finish]

/-- A letter is heard in the audio and another one in the silence behind it. -/
theorem changes_told_letters :
    told (machine letterRecognizer)
        (after (machine letterRecognizer) (createSession (0,0)) pushedAndFinished)=
      [partialEvent ['a'],partialEvent ['a','a'],finalEvent ['a','a'],completed] ∧
    told (machine letterRecognizer)
        (after (machine letterRecognizer) (createSession (0,0)) (pushedAndFinished++[.cancel]))=
      [partialEvent ['a'],completed] := by
  have htells := (changes_told letterRecognizer (0,0)).1
  have hlength : chunk.length=12000 := List.length_replicate
  have hchunk : chunk.isEmpty≠true := by
    intro hempty
    rw [List.isEmpty_iff.mp hempty] at hlength
    cases hlength
  have haccepted : letterRecognizer.acceptWaveform chunk (0,0)=(12000,0) := by
    dsimp only [letterRecognizer]
    rw [hlength]
  have hpushed : settle letterRecognizer (12000,0)=((2000,1),[['a']]) := by
    rw [settle_ready (by decide),settle_idle (by decide)]
    rfl
  have hpadded : closeInput letterRecognizer [chunk].flatten.length (2000,1)=(12560,1) := by
    unfold closeInput
    rw [List.flatten_singleton,hlength,if_pos (by decide)]
    dsimp only [letterRecognizer]
    rw [List.length_replicate]
    rfl
  have hclosed : settle letterRecognizer (12560,1)=((2560,2),[['a','a']]) := by
    rw [settle_ready (by decide),settle_idle (by decide)]
    rfl
  have hheard : hear letterRecognizer (0,0) [chunk]=((2000,1),[['a']]) := by
    rw [hear_chunk hchunk,haccepted,hpushed]
    rfl
  refine ⟨?_,?_⟩
  · rw [htells.uncut _ (by simp [pushedAndFinished])]
    show heardOut letterRecognizer (0,0) [chunk]=_
    unfold heardOut hearOut
    dsimp only
    rw [hheard,hpadded,hclosed]
    rfl
  · rw [htells.cancelled _ [] (by simp)]
    have hpolled := htells.polled [.push chunk] [.finish] (by simp)
    rw [htells.uncut _ (by simp)] at hpolled
    show (after (machine letterRecognizer) (createSession (0,0))
      ([.push chunk]++.poll::[.finish])).polled++[completed]=_
    rw [hpolled]
    show heardSoFar letterRecognizer (0,0) [chunk]++[completed]=_
    unfold heardSoFar
    rw [hheard]
    rfl

end Protocols

end Vinput.OnlineRecognitionRuns
