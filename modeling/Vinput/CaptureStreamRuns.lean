import Vinput.CaptureStream

/-!
# The microphone is open only while recording

Over every run, a recording has an active stream on the target it asked for,
and outside a recording a stream that is kept is inactive and has a deadline.
A reused stream that refuses to become active is the one way out of this.
-/

namespace Vinput.CaptureStreamRuns

open InterleavedRuns CaptureStream

section Policy

/-- The grace is never negative and never longer than ten minutes. -/
theorem graceMs_bounds (policy : Policy) :
    0 ≤ policy.graceMs ∧ policy.graceMs ≤ kMaxIdleDestroyMs := by
  unfold Policy.graceMs idleDestroyMs
  split
  · decide
  · split
    · decide
    · split
      · decide
      · next hparsed =>
        refine ⟨le_min (not_lt.mp hparsed) (by decide),min_le_right _ _⟩

end Policy

section Invariant

variable {policy : Policy} {c : Capture}

/-- What every call keeps. -/
structure Inv (c : Capture) : Prop where
  /-- A stream needs the loop. -/
  loop : c.stream≠none → c.loop=true
  /-- The member tells what the audio server does. -/
  activity : ∀ stream, c.stream=some stream → stream.active=c.streamActive
  /-- And where the stream is connected. -/
  target : ∀ stream, c.stream=some stream → c.connectedTargetObject=remembered stream.target
  /-- It is the stream for the target that the last recording asked for. -/
  wanted : ∀ stream, c.stream=some stream → remembered stream.target=remembered c.wanted
  /-- A recording has an active stream. -/
  recording : c.recording=true → ∃ stream, c.stream=some stream ∧ stream.active=true
  /-- A stream that is kept is inactive and has a deadline. -/
  resting : c.recording=false → ∀ stream, c.stream=some stream → stream.active=false ∧
    ∃ deadline, c.idleDestroyDeadline=some deadline ∧ c.endedAt ≤ deadline ∧
      deadline ≤ c.endedAt+kMaxIdleDestroyMs
  /-- Queued audio belongs to the last recording. -/
  queue : ∀ chunk∈c.queue, chunk.1=c.number

/-- Without a stream and a recording only the queue matters. -/
theorem inv_of_none (hstream : c.stream=none) (hrecording : c.recording=false)
    (hqueue : ∀ chunk∈c.queue, chunk.1=c.number) : Inv c where
  loop h := absurd hstream h
  activity stream h := by rw [hstream] at h; cases h
  target stream h := by rw [hstream] at h; cases h
  wanted stream h := by rw [hstream] at h; cases h
  recording h := by rw [hrecording] at h; cases h
  resting _ stream h := by rw [hstream] at h; cases h
  queue := hqueue

/-- Destroying leaves no stream and no recording, and the queue as it was. -/
theorem destroyStream_spec (hloop : c.stream≠none → c.loop=true) :
    (destroyStream c).stream=none ∧ (destroyStream c).recording=false ∧
    (destroyStream c).queue=c.queue ∧ (destroyStream c).number=c.number ∧
    (destroyStream c).targetObject=c.targetObject ∧ (destroyStream c).wanted=c.wanted := by
  unfold destroyStream
  dsimp only
  split
  · next hgone =>
    refine ⟨?_,rfl,rfl,rfl,rfl,rfl⟩
    rcases hgone with hgone | hgone
    · by_contra hstream
      rw [hloop hstream] at hgone
      cases hgone
    · exact hgone
  · exact ⟨rfl,rfl,rfl,rfl,rfl,rfl⟩

/-- Destroying the stream keeps the invariant. -/
theorem inv_destroyStream (hloop : c.stream≠none → c.loop=true)
    (hqueue : ∀ chunk∈c.queue, chunk.1=c.number) : Inv (destroyStream c) := by
  obtain ⟨hstream,hrecording,hsame,hnumber,-,-⟩ := destroyStream_spec hloop
  refine inv_of_none hstream hrecording ?_
  rw [hsame,hnumber]
  exact hqueue

/-- A target is remembered as itself or as nothing, never as the default. -/
theorem remembered_cases (target : Text) : remembered target=[] ∨
    (remembered target=target ∧ target≠"default".toList) := by
  unfold remembered
  split
  · exact .inl rfl
  · next h => exact .inr ⟨rfl,fun hdefault => h (.inr hdefault)⟩

/-- A stream is reused exactly on the target it is connected to. -/
theorem canReuse_iff {stream : Stream} (hstream : c.stream=some stream)
    (hconnected : c.connectedTargetObject=remembered stream.target) :
    canReuseStreamLocked c=true ↔ remembered stream.target=remembered c.targetObject := by
  unfold canReuseStreamLocked
  rw [if_neg (by rw [hstream]; exact Option.some_ne_none _),hconnected]
  by_cases hwanted : c.targetObject=[] ∨ c.targetObject="default".toList
  · have hright : remembered c.targetObject=[] := if_pos hwanted
    rw [if_pos hwanted,hright,decide_eq_true_eq]
    refine ⟨fun h => ?_,.inl⟩
    rcases h with hempty | hdefault
    · exact hempty
    · rcases remembered_cases stream.target with hnone | ⟨hsame,hne⟩
      · exact hnone
      · exact absurd (hsame.symm.trans hdefault) hne
  · have hright : remembered c.targetObject=c.targetObject := if_neg hwanted
    rw [if_neg hwanted,hright,decide_eq_true_eq]

/-- A stream that is asked to become what it is, or that obeys. -/
theorem setStreamActive_obeyed {stream : Stream} {active : Bool} {answer : Activation}
    (hstream : c.stream=some stream) (hloop : c.loop=true)
    (hactivity : stream.active=c.streamActive) (hanswer : c.streamActive=active ∨ answer=.done) :
    setStreamActive active answer c=({c with
      stream := some {stream with active := active}
      streamActive := active},none) := by
  unfold setStreamActive
  rw [hstream]
  dsimp only
  rw [if_neg (by rw [hloop]; exact Bool.noConfusion)]
  split
  · next hsame =>
    have hstream' : {stream with active := active}=stream := by rw [←hsame,←hactivity]
    rw [hstream',←hstream,←hsame]
  · next hdiffers =>
    rcases hanswer with hsame | rfl
    · exact absurd hsame hdiffers
    · rfl

/-- A text in front makes a text that is not empty. -/
theorem append_ne_empty {front : String} (h : front≠"") (back : String) : front++back≠"" := by
  intro hempty
  have hlist := congrArg String.toList hempty
  rw [String.toList_append] at hlist
  exact h (String.toList_injective (List.append_eq_nil_iff.mp hlist).1)

/-- A stream that does not obey. -/
theorem setStreamActive_refusal {stream : Stream} {active left : Bool} {reason : String}
    (hstream : c.stream=some stream) (hloop : c.loop=true) (hdiffers : c.streamActive≠active) :
    ∃ error, error≠"" ∧ setStreamActive active (.refused left reason) c=
      ({c with stream := some {stream with active := left}},some error) := by
  unfold setStreamActive
  rw [hstream]
  dsimp only
  rw [if_neg (by rw [hloop]; exact Bool.noConfusion),if_neg hdiffers]
  refine ⟨_,?_,rfl⟩
  exact append_ne_empty (append_ne_empty (append_ne_empty (by decide) _) _) _

/-- A change of activity touches the stream only. -/
theorem setStreamActive_frame (active : Bool) (answer : Activation) (c : Capture) :
    (c.stream=none → (setStreamActive active answer c).1.stream=none) ∧
    ((setStreamActive active answer c).1.loop,(setStreamActive active answer c).1.queue,
      (setStreamActive active answer c).1.number)=(c.loop,c.queue,c.number) := by
  unfold setStreamActive
  cases hstream : c.stream with
  | none => exact ⟨fun _ => hstream,rfl⟩
  | some stream =>
    refine ⟨nofun,?_⟩
    dsimp only
    split
    · rfl
    · split
      · rfl
      · cases answer <;> rfl

/-- After a change of activity the stream can be destroyed. -/
theorem inv_destroy_changed {active : Bool} {answer : Activation}
    (hloop : c.stream≠none → c.loop=true) (hqueue : ∀ chunk∈c.queue, chunk.1=c.number) :
    Inv (destroyStream (setStreamActive active answer c).1) := by
  obtain ⟨hstream,hframe⟩ := setStreamActive_frame active answer c
  have hsame := congrArg Prod.fst hframe
  have hqueue' := congrArg (fun parts => parts.2.1) hframe
  have hnumber := congrArg (fun parts => parts.2.2) hframe
  dsimp only at hsame hqueue' hnumber
  refine inv_destroyStream ?_ ?_
  · intro hsome
    rw [hsame]
    exact hloop fun hnone => hsome (hstream hnone)
  · rw [hqueue',hnumber]
    exact hqueue

end Invariant

section Begin

variable {policy : Policy} {c : Capture} {answers : Answers}

/-- A recording with an active stream on its target. -/
theorem inv_of_recording {stream : Stream} (hstream : c.stream=some stream) (hloop : c.loop=true)
    (hstreamActive : stream.active=true) (hmember : c.streamActive=true)
    (htarget : c.connectedTargetObject=remembered stream.target)
    (hwanted : remembered stream.target=remembered c.wanted) (hrecording : c.recording=true)
    (hqueue : ∀ chunk∈c.queue, chunk.1=c.number) : Inv c where
  loop _ := hloop
  activity other hother := by
    rw [hstream] at hother
    cases hother
    rw [hstreamActive,hmember]
  target other hother := by
    rw [hstream] at hother
    cases hother
    exact htarget
  wanted other hother := by
    rw [hstream] at hother
    cases hother
    exact hwanted
  recording _ := ⟨stream,hstream,hstreamActive⟩
  resting h := by rw [hrecording] at h; cases h
  queue := hqueue

/-- The capture object with a new stream. -/
def made (inactive : Bool) (c : Capture) : Capture :=
  {c with
    stream := some ⟨c.targetObject,!inactive⟩
    streamActive := !inactive
    connectedTargetObject := remembered c.targetObject}

/-- A new stream is made, or there is none and an error text. -/
theorem createStream_cases (inactive : Bool) (create : Creation) (hstream : c.stream=none) :
    (∃ unmade error, error≠"" ∧ createStream inactive create c=(unmade,some error) ∧
      unmade.stream=none ∧ unmade.queue=c.queue ∧ unmade.number=c.number) ∨
    (c.loop=true ∧ createStream inactive create c=(made inactive c,none)) := by
  unfold createStream
  by_cases hloop : c.loop=false
  · rw [if_pos hloop]
    exact .inl ⟨c,_,by decide,rfl,hstream,rfl,rfl⟩
  · rw [if_neg hloop,if_neg (not_not_intro hstream)]
    cases create with
    | noProperties => exact .inl ⟨c,_,by decide,rfl,hstream,rfl,rfl⟩
    | noStream => exact .inl ⟨c,_,by decide,rfl,hstream,rfl,rfl⟩
    | notConnected reason =>
      exact .inl ⟨_,_,append_ne_empty (by decide) reason,rfl,hstream,rfl,rfl⟩
    | connected => exact .inr ⟨Bool.of_not_eq_false hloop,rfl⟩

/-- A stream on the target that is asked for is made and active, or there is
none and no recording. -/
structure Connected (c after : Capture) : Prop where
  stream : after.stream=some ⟨c.targetObject,true⟩
  recording : after.recording=c.recording
  inv : c.recording=true → Inv after

/-- Connecting either leaves a connected stream or reports why not. -/
theorem connectAndActivate_spec (inactive : Bool) (create : Creation) (activate : Activation)
    (hstream : c.stream=none) (hwanted : c.wanted=c.targetObject)
    (hqueue : ∀ chunk∈c.queue, chunk.1=c.number) :
    (∃ after, connectAndActivate inactive create activate c=(after,none) ∧ Connected c after) ∨
    ∃ after error, connectAndActivate inactive create activate c=(after,some error) ∧ error≠"" ∧
      after.stream=none ∧ after.recording=false ∧ Inv after := by
  unfold connectAndActivate
  rcases createStream_cases inactive create hstream with
    ⟨unmade,error,herror,hunmade,hnone,hsame,hnumber⟩ | ⟨hloop,hmade⟩
  · rw [hunmade]
    refine .inr ⟨_,error,rfl,herror,hnone,rfl,inv_of_none hnone rfl ?_⟩
    dsimp only
    rw [hsame,hnumber]
    exact hqueue
  · have hwanted' : remembered c.targetObject=remembered c.wanted := by rw [hwanted]
    rw [hmade]
    cases inactive with
    | false =>
      exact .inl ⟨_,rfl,rfl,rfl,fun hrecording =>
        inv_of_recording rfl hloop rfl rfl rfl hwanted' hrecording hqueue⟩
    | true =>
      dsimp only
      rw [if_pos rfl]
      cases activate with
      | done =>
        have hdone : setStreamActive true .done (made true c)=({made true c with
            stream := some ⟨c.targetObject,true⟩, streamActive := true},none) :=
          setStreamActive_obeyed (c:=made true c) rfl hloop rfl (.inr rfl)
        rw [hdone]
        exact .inl ⟨_,rfl,rfl,rfl,fun hrecording =>
          inv_of_recording rfl hloop rfl rfl rfl hwanted' hrecording hqueue⟩
      | refused left reason =>
        obtain ⟨error,herror,hrefused⟩ := @setStreamActive_refusal (made true c)
          ⟨c.targetObject,false⟩ true left reason rfl hloop Bool.noConfusion
        rw [hrefused]
        have hdestroyed : Inv (destroyStream {made true c with
            stream := some ⟨c.targetObject,left⟩, recording := false}) :=
          inv_destroyStream (fun _ => hloop) hqueue
        obtain ⟨hnone,hrecording,-⟩ := destroyStream_spec (c:={made true c with
          stream := some ⟨c.targetObject,left⟩, recording := false}) fun _ => hloop
        exact .inr ⟨_,error,rfl,herror,hnone,hrecording,hdestroyed⟩

/-- What BeginRecording reports is so. -/
structure Reported (policy : Policy) (answers : Answers) (c after : Capture) (begun : Begun) :
    Prop where
  /-- On success there is an active stream for the target that is set. -/
  active : begun.ok=true → ∃ stream, after.stream=some stream ∧ stream.active=true ∧
    remembered stream.target=remembered c.targetObject
  /-- A failure leaves nothing and an error text. -/
  nothing : begun.ok=false → after.stream=none ∧ after.recording=false ∧ begun.error≠""
  /-- It is a success exactly when there is a recording, where the stream obeys. -/
  recording : fallsBack policy answers c=false → after.recording=begun.ok
  /-- No flag is set where it does not. -/
  fallen : fallsBack policy answers c=true → after.recording=false
  /-- A stream is reused exactly if that is allowed, and it obeys and is connected
  for the target that is set. -/
  reused : begun.streamReused=true ↔ policy.reuses=true ∧ fallsBack policy answers c=false ∧
    ∃ stream, c.stream=some stream ∧ remembered stream.target=remembered c.targetObject

/-- A stream is reused when it is there for the same target. -/
theorem reused_iff (h : Inv c) : canReuseStreamLocked c=true ↔
    ∃ stream, c.stream=some stream ∧ remembered stream.target=remembered c.targetObject := by
  cases hstream : c.stream with
  | none =>
    refine ⟨fun hcan => ?_,fun hsome => by obtain ⟨_,hnone,_⟩ := hsome; cases hnone⟩
    unfold canReuseStreamLocked at hcan
    rw [if_pos hstream] at hcan
    cases hcan
  | some stream =>
    rw [canReuse_iff hstream (h.target stream hstream)]
    refine ⟨fun hsame => ⟨stream,rfl,hsame⟩,fun hsome => ?_⟩
    obtain ⟨_,hother,hsame⟩ := hsome
    cases hother
    exact hsame

/-- A kept stream that obeys is reused. -/
theorem begin_reused (h : Inv c) (hpolicy : policy.reuses=true) (hcan : canReuseStreamLocked c=true)
    (hfalls : fallsBack policy answers c=false) :
    Reported policy answers c (beginRecording policy answers c).1
        (beginRecording policy answers c).2 ∧
      Inv (beginRecording policy answers c).1 := by
  obtain ⟨stream,hstream,htarget⟩ := (reused_iff h).mp hcan
  have hloop := h.loop (by rw [hstream]; exact Option.some_ne_none _)
  have hanswer : c.streamActive=true ∨ answers.activate=.done := by
    by_contra hnot
    obtain ⟨hinactive,hrefused⟩ := not_or.mp hnot
    unfold fallsBack at hfalls
    rw [hpolicy,hcan,hloop,Bool.eq_false_iff.mpr hinactive,decide_eq_true hrefused] at hfalls
    cases hfalls
  have hreuse : (policy.reuses && canReuseStreamLocked (openRecording c))=true :=
    Bool.and_eq_true_iff.mpr ⟨hpolicy,hcan⟩
  unfold beginRecording
  dsimp only
  rw [if_pos hreuse,setStreamActive_obeyed (c:={openRecording c with recording := true}) hstream
    hloop (h.activity stream hstream) hanswer]
  refine ⟨⟨fun _ => ⟨_,rfl,rfl,htarget⟩,nofun,fun _ => rfl,?_,?_⟩,?_⟩
  · intro hfallen
    rw [hfalls] at hfallen
    cases hfallen
  · exact ⟨fun _ => ⟨hpolicy,hfalls,stream,hstream,htarget⟩,fun _ => rfl⟩
  · exact inv_of_recording rfl hloop rfl rfl (h.target stream hstream) htarget rfl nofun

/-- A new stream takes the place of one that is not reused. -/
theorem begin_made (h : Inv c) (hreuse : (policy.reuses && canReuseStreamLocked c)=false) :
    Reported policy answers c (beginRecording policy answers c).1
        (beginRecording policy answers c).2 ∧
      Inv (beginRecording policy answers c).1 := by
  have hfalls : fallsBack policy answers c=false := by
    unfold fallsBack
    rw [hreuse]
    rfl
  have hnot : ¬(policy.reuses=true ∧ fallsBack policy answers c=false ∧ ∃ stream,
      c.stream=some stream ∧ remembered stream.target=remembered c.targetObject) := by
    rintro ⟨hpolicy,-,hsome⟩
    rw [hpolicy,(reused_iff h).mpr hsome] at hreuse
    cases hreuse
  have hskip : ¬(policy.reuses && canReuseStreamLocked (openRecording c))=true :=
    Bool.not_eq_true _ ▸ hreuse
  obtain ⟨hstream,-,hqueue,-,htarget,hwanted⟩ := destroyStream_spec (c:=openRecording c) h.loop
  have hempty : ∀ chunk∈(destroyStream (openRecording c)).queue,
      chunk.1=(destroyStream (openRecording c)).number := by
    rw [hqueue]
    exact nofun
  unfold beginRecording
  dsimp only
  rw [if_neg hskip]
  rcases connectAndActivate_spec policy.reuses answers.create answers.activate
    (c:={destroyStream (openRecording c) with recording := true}) hstream
    (hwanted.trans htarget.symm) hempty with
    ⟨after,hafter,hconnected⟩ | ⟨after,error,hafter,herror,hnone,hrecording,hinv⟩
  · rw [hafter]
    refine ⟨⟨fun _ => ⟨_,hconnected.stream,rfl,?_⟩,nofun,fun _ => hconnected.recording,?_,?_⟩,
      hconnected.inv rfl⟩
    · exact congrArg remembered htarget
    · exact fun hfallen => absurd (hfalls.symm.trans hfallen) Bool.noConfusion
    · exact ⟨nofun,fun hsome => absurd hsome hnot⟩
  · rw [hafter]
    refine ⟨⟨nofun,fun _ => ⟨hnone,hrecording,herror⟩,fun _ => hrecording,fun _ => hrecording,?_⟩,
      hinv⟩
    exact ⟨nofun,fun hsome => absurd hsome hnot⟩

/-- A new stream takes the place of one that refuses, and no flag is set. -/
theorem begin_fallen (hfalls : fallsBack policy answers c=true) :
    Reported policy answers c (beginRecording policy answers c).1
      (beginRecording policy answers c).2 := by
  have hparts := hfalls
  unfold fallsBack at hparts
  simp only [Bool.and_eq_true,Bool.not_eq_true',decide_eq_true_eq] at hparts
  obtain ⟨⟨⟨⟨hpolicy,hcan⟩,hinactive⟩,hloop⟩,hrefused⟩ := hparts
  have hreuse : (policy.reuses && canReuseStreamLocked (openRecording c))=true :=
    Bool.and_eq_true_iff.mpr ⟨hpolicy,hcan⟩
  have hsome : c.stream≠none := by
    intro hnone
    unfold canReuseStreamLocked at hcan
    rw [if_pos hnone] at hcan
    cases hcan
  obtain ⟨stream,hstream⟩ := Option.ne_none_iff_exists'.mp hsome
  have hdiffers : c.streamActive≠true := fun hactive => by
    rw [hinactive] at hactive
    cases hactive
  obtain ⟨left,reason,hleft⟩ : ∃ left reason, answers.activate=.refused left reason := by
    cases hanswer : answers.activate with
    | done => exact absurd hanswer hrefused
    | refused left reason => exact ⟨left,reason,rfl⟩
  obtain ⟨refusal,-,hset⟩ := @setStreamActive_refusal {openRecording c with recording := true} stream
    true left reason hstream hloop hdiffers
  obtain ⟨hnone,hoff,hqueue,-,htarget,hwanted⟩ := destroyStream_spec (c:={openRecording c with
    recording := true, stream := some {stream with active := left}}) fun _ => hloop
  unfold beginRecording
  dsimp only
  rw [if_pos hreuse,hleft,hset]
  dsimp only
  have hnever : ¬(policy.reuses=true ∧ fallsBack policy answers c=false ∧ ∃ stream,
      c.stream=some stream ∧ remembered stream.target=remembered c.targetObject) :=
    fun hboth => absurd (hfalls.symm.trans hboth.2.1) Bool.noConfusion
  have hobeys : ∀ {result : Prop}, fallsBack policy answers c=false → result :=
    fun hfine => absurd (hfalls.symm.trans hfine) Bool.noConfusion
  rcases connectAndActivate_spec true answers.recreate answers.reactivate hnone
    (hwanted.trans htarget.symm) (by rw [hqueue]; exact nofun) with
    ⟨after,hafter,hconnected⟩ | ⟨after,error,hafter,herror,hempty,hrecording,-⟩
  · rw [hafter]
    refine ⟨fun _ => ⟨_,hconnected.stream,rfl,?_⟩,nofun,hobeys,
      fun _ => hconnected.recording.trans hoff,nofun,fun hboth => absurd hboth hnever⟩
    exact congrArg remembered htarget
  · rw [hafter]
    exact ⟨nofun,fun _ => ⟨hempty,hrecording,herror⟩,hobeys,fun _ => hrecording,nofun,
      fun hboth => absurd hboth hnever⟩

/-- Where the stream obeys, BeginRecording keeps the invariant. -/
theorem begin_spec (h : Inv c) (hfalls : fallsBack policy answers c=false) :
    Reported policy answers c (beginRecording policy answers c).1
        (beginRecording policy answers c).2 ∧
      Inv (beginRecording policy answers c).1 := by
  by_cases hreuse : (policy.reuses && canReuseStreamLocked c)=true
  · obtain ⟨hpolicy,hcan⟩ := Bool.and_eq_true_iff.mp hreuse
    exact begin_reused h hpolicy hcan hfalls
  · exact begin_made h (Bool.eq_false_iff.mpr hreuse)

end Begin

section Calls

variable {policy : Policy} {c : Capture}

/-- A stream that is kept after a recording is inactive and has a deadline. -/
theorem inv_deactivateOrDestroy (h : Inv c) (now : ℤ) (answer : Activation) :
    Inv (deactivateOrDestroy policy now answer (closeRecording now c)) := by
  unfold deactivateOrDestroy
  cases hset : setStreamActive false answer (closeRecording now c) with
  | mk next result =>
    cases result with
    | some error =>
      have hdestroy :=
        @inv_destroy_changed (closeRecording now c) false answer h.loop h.queue
      rw [hset] at hdestroy
      exact hdestroy
    | none =>
      cases hstream : c.stream with
      | none =>
        unfold setStreamActive at hset
        dsimp only [closeRecording] at hset
        rw [hstream] at hset
        cases hset
      | some stream =>
        have hloop := h.loop (by rw [hstream]; exact Option.some_ne_none _)
        have hanswer : c.streamActive=false ∨ answer=.done := by
          by_contra hnot
          obtain ⟨hactive,hne⟩ := not_or.mp hnot
          cases answer with
          | done => exact hne rfl
          | refused left reason =>
            obtain ⟨_,_,hrefusal⟩ := @setStreamActive_refusal (closeRecording now c) stream false
              left reason hstream hloop hactive
            rw [hrefusal] at hset
            cases hset
        have hobeyed := setStreamActive_obeyed (c:=closeRecording now c) hstream hloop
          (h.activity stream hstream) hanswer
        rw [hobeyed] at hset
        cases hset
        dsimp only
        split
        · exact inv_destroyStream (fun _ => hloop) h.queue
        · next hgrace =>
          have hbound := (graceMs_bounds policy).2
          unfold scheduleIdleDestroy
          rw [if_neg hgrace]
          refine ⟨fun _ => hloop,?_,?_,?_,nofun,?_,h.queue⟩
          · intro other hother
            cases hother
            rfl
          · intro other hother
            cases hother
            exact h.target stream hstream
          · intro other hother
            cases hother
            exact h.wanted stream hstream
          · intro _ other hother
            cases hother
            refine ⟨rfl,now+policy.graceMs,rfl,?_,?_⟩ <;> dsimp only [closeRecording] <;> omega

/-- Ending a recording keeps the invariant. -/
theorem inv_endRecording (h : Inv c) (hpolicy : policy.reuses=true) (now : ℤ)
    (answer : Activation) : Inv (endRecording policy now answer c) := by
  unfold endRecording
  dsimp only
  split
  · exact inv_deactivateOrDestroy h now answer
  · next hnot =>
    have hnone : c.stream=none := by
      by_contra hsome
      exact hnot ⟨hpolicy,hsome⟩
    exact inv_of_none hnone rfl h.queue

theorem inv_stopAndGetBuffer (h : Inv c) (now : ℤ) (answer : Activation) :
    Inv (stopAndGetBuffer policy now answer c).1 := by
  have hkept : Inv (if policy.reuses=true ∧ (closeRecording now c).stream≠none then
      deactivateOrDestroy policy now answer (closeRecording now c)
      else destroyStream (closeRecording now c)) := by
    split
    · exact inv_deactivateOrDestroy h now answer
    · exact inv_destroyStream (c:=closeRecording now c) h.loop h.queue
  exact ⟨hkept.loop,hkept.activity,hkept.target,hkept.wanted,hkept.recording,hkept.resting,nofun⟩

theorem inv_stop (h : Inv c) : Inv (stop c) := by
  obtain ⟨hstream,hrecording,-⟩ :=
    destroyStream_spec (c:=cancelIdleDestroy {c with recording := false}) h.loop
  exact inv_of_none hstream hrecording nofun

theorem inv_setTargetObject (h : Inv c) (target : Text) : Inv (setTargetObject target c) := by
  unfold setTargetObject
  split
  · exact h
  · dsimp only
    split
    · exact inv_destroyStream (c:={c with targetObject := target}) h.loop h.queue
    · exact ⟨h.loop,h.activity,h.target,h.wanted,h.recording,h.resting,h.queue⟩

theorem inv_maybeDestroyExpiredStream (h : Inv c) (now : ℤ) :
    Inv (maybeDestroyExpiredStream now c).1 := by
  unfold maybeDestroyExpiredStream
  split
  · exact h
  · split
    · exact h
    · split
      · exact h
      · split
        · exact h
        · exact inv_destroyStream h.loop h.queue

theorem inv_tryDequeue (h : Inv c) : Inv (tryDequeue c).1 := by
  unfold tryDequeue
  cases hqueue : c.queue with
  | nil => exact h
  | cons chunk rest =>
    refine ⟨h.loop,h.activity,h.target,h.wanted,h.recording,h.resting,?_⟩
    intro other hmem
    refine h.queue other ?_
    rw [hqueue]
    exact List.mem_cons_of_mem _ hmem

theorem inv_processCallback (h : Inv c) (chunk : RecordingBuffer.AudioPcmChunk) (fits : Bool) :
    Inv (processCallback chunk fits c) := by
  unfold processCallback
  split
  · refine ⟨h.loop,h.activity,h.target,h.wanted,h.recording,h.resting,?_⟩
    intro other hmem
    rcases List.mem_append.mp hmem with hold | hnew
    · exact h.queue other hold
    · rw [List.mem_singleton.mp hnew]
  · exact h

theorem inv_startLoop (h : Inv c) (created : Bool) : Inv (startLoop created c) := by
  unfold startLoop
  split
  · exact h
  · next hloop =>
    have hnone : c.stream=none := by
      by_contra hsome
      exact hloop (h.loop hsome)
    exact ⟨fun hsome => absurd hnone hsome,h.activity,h.target,h.wanted,h.recording,h.resting,
      h.queue⟩

/-- EndRecording is called while streams are reused, and no reused stream
refuses to become active. -/
def Allowed (policy : Policy) (c : Capture) : Call → Prop
  | .endRecording _ _ => policy.reuses=true
  | .begin answers => fallsBack policy answers c=false
  | _ => True

/-- Every call that is allowed keeps the invariant. -/
theorem inv_perform (call : Call) (h : Inv c) (hallowed : Allowed policy c call) :
    Inv (perform policy c call) := by
  cases call with
  | start created => exact inv_startLoop h created
  | begin answers => exact (begin_spec h hallowed).2
  | endRecording now answer => exact inv_endRecording h hallowed now answer
  | stopAndGetBuffer now answer => exact inv_stopAndGetBuffer h now answer
  | stop => exact inv_stop h
  | setTargetObject target => exact inv_setTargetObject h target
  | maybeDestroyExpiredStream now => exact inv_maybeDestroyExpiredStream h now
  | tryDequeue => exact inv_tryDequeue h
  | process chunk fits => exact inv_processCallback h chunk fits

/-- The state after a run of calls. -/
def reached (policy : Policy) (calls : List Call) : Capture := run (perform policy) {} calls

/-- Every allowed run keeps the invariant. -/
theorem inv_reached {calls : List Call} (h : Along (perform policy) (Allowed policy) {} calls) :
    Inv (reached policy calls) :=
  h.invariant (fun _ call hinv hallowed => inv_perform call hinv hallowed)
    (inv_of_none rfl rfl nofun)

end Calls

section Results

variable {policy : Policy} {calls : List Call}

/-- Over every allowed run: while recording there is an active stream;
otherwise a stream is inactive and is destroyed by the first check after its
deadline, at most ten minutes after the end; a stream is the one for the target
that was set when the last recording began; and all queued audio is of that
recording. -/
theorem microphone_guarded (h : Along (perform policy) (Allowed policy) {} calls) :
    let c := reached policy calls
    (c.recording=true → ∃ stream, c.stream=some stream ∧ stream.active=true) ∧
    (c.recording=false → ∀ stream, c.stream=some stream → stream.active=false ∧
      ∃ deadline, deadline ≤ c.endedAt+kMaxIdleDestroyMs ∧
        ∀ now, deadline ≤ now → (maybeDestroyExpiredStream now c).1.stream=none) ∧
    (∀ stream, c.stream=some stream → remembered stream.target=remembered c.wanted) ∧
    ∀ chunk∈c.queue, chunk.1=c.number := by
  intro c
  have hinv := inv_reached h
  refine ⟨hinv.recording,?_,hinv.wanted,hinv.queue⟩
  intro hrecording stream hstream
  obtain ⟨hinactive,deadline,hdeadline,-,hbound⟩ := hinv.resting hrecording stream hstream
  refine ⟨hinactive,deadline,hbound,?_⟩
  intro now hnow
  unfold maybeDestroyExpiredStream
  rw [if_neg (by rw [hrecording]; exact Bool.noConfusion),
    if_neg (by rw [hstream]; exact Option.some_ne_none _),hdeadline]
  dsimp only
  rw [if_neg (not_lt.mpr hnow)]
  exact (destroyStream_spec hinv.loop).1

/-- One recording, after which the stream is kept. -/
def kept : List Call :=
  [.start true,.begin ⟨.connected,.done,.connected,.done⟩,.endRecording 5 .done]

/-- The calls of the sample are allowed. -/
theorem kept_allowed : Along (perform {}) (Allowed {}) {} kept :=
  ⟨trivial,rfl,rfl,trivial⟩

/-- A stream that is kept is gone ten minutes later. -/
theorem microphone_guarded_kept : (reached {} kept).stream=some ⟨[],false⟩ ∧
    ∃ deadline, deadline ≤ 600005 ∧
      (maybeDestroyExpiredStream deadline (reached {} kept)).1.stream=none := by
  refine ⟨rfl,?_⟩
  obtain ⟨-,deadline,hbound,hdestroyed⟩ := (microphone_guarded kept_allowed).2.1 rfl ⟨[],false⟩ rfl
  exact ⟨deadline,hbound,hdestroyed deadline (le_refl _)⟩

/-- After an allowed run BeginRecording reports what is so, whatever the audio
server answers. -/
theorem begin_reports (h : Along (perform policy) (Allowed policy) {} calls) (answers : Answers) :
    Reported policy answers (reached policy calls)
      (beginRecording policy answers (reached policy calls)).1
      (beginRecording policy answers (reached policy calls)).2 := by
  cases hfalls : fallsBack policy answers (reached policy calls) with
  | false => exact (begin_spec (inv_reached h) hfalls).1
  | true => exact begin_fallen hfalls

/-- The kept stream refuses and a new one is made. -/
def refusing : Answers := ⟨.connected,.refused false "Broken pipe",.connected,.done⟩

/-- A stream is reported, but the flag stays clear. -/
theorem begin_reports_kept :
    (beginRecording {} refusing (reached {} kept)).1.recording=false ∧
    ∃ stream, (beginRecording {} refusing (reached {} kept)).1.stream=some stream ∧
      stream.active=true := by
  have hreported := begin_reports kept_allowed refusing
  obtain ⟨stream,hstream,hactive,-⟩ := hreported.active (by decide)
  exact ⟨hreported.fallen (by decide),stream,hstream,hactive⟩

end Results

end Vinput.CaptureStreamRuns
