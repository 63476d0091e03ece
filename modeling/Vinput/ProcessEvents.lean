import Mathlib.Data.Bool.Basic
import Vinput.ProcessSession

/-!
# The event stream of a child process

What the pump may do is a small automaton: live, cancelled, over. Every
step of the pump is admitted by it, whatever the other threads do, and the
shape of the stream follows from that. Output reaches the owner byte for
byte, and a child that can be reaped brings the stream to its end.
-/

namespace Vinput.ProcessEvents

open InterleavedRuns ProcessSession

section Streams

/-- Stages of a stream. -/
inductive Stage where
  | live
  | cancelled
  | over
deriving DecidableEq

/-- The stage after an action, if the action is admitted. -/
def Stage.after : Stage → PumpAction → Option Stage
  | .over,_ => none
  | stage,.queued .cancelled => if stage=.live then some .cancelled else none
  | stage,.queued (.exited _ killedByUs) =>
    if killedByUs=decide (stage=.cancelled) then some .over else none
  | stage,.wrote _ => if stage=.live then some stage else none
  | stage,_ => some stage

/-- The stage after a whole trace, if all of it is admitted. -/
def admits : Stage → List PumpAction → Option Stage
  | stage,[] => some stage
  | stage,action::rest => (stage.after action).bind fun later => admits later rest

/-- Two traces are admitted one after the other. -/
theorem admits_append (stage : Stage) (first second : List PumpAction) :
    admits stage (first++second)=(admits stage first).bind fun later => admits later second := by
  induction first generalizing stage with
  | nil => rfl
  | cons action rest ih =>
    dsimp only [List.cons_append,admits]
    cases stage.after action with
    | none => rfl
    | some later => exact ih later

/-- One more admitted action. -/
theorem admits_snoc {trace : List PumpAction} {stage later : Stage} {action : PumpAction}
    (h : admits .live trace=some stage) (hafter : stage.after action=some later) :
    admits .live (trace++[action])=some later := by
  rw [admits_append,h]
  dsimp only [Option.bind,admits]
  rw [hafter]

/-- An action that writes to the child. -/
def isWrite : PumpAction → Bool
  | .wrote _ => true
  | _ => false

/-- What may follow what: nothing an exit, and neither a write nor another
cancel a cancel. -/
def MayFollow (earlier later : PumpAction) : Prop :=
  (∀ code killedByUs, earlier≠.queued (.exited code killedByUs)) ∧
    (earlier=.queued .cancelled → later≠.queued .cancelled ∧ isWrite later=false)

/-- What an admitted action says about its stages. -/
theorem after_cases {stage later : Stage} {action : PumpAction}
    (h : stage.after action=some later) :
    (stage=.live ∧ action=.queued .cancelled ∧ later=.cancelled) ∨
      (stage≠.over ∧ later=.over ∧
        ∃ code, action=.queued (.exited code (decide (stage=.cancelled)))) ∨
      (stage≠.over ∧ later=stage ∧ action≠.queued .cancelled ∧
        (∀ code killedByUs, action≠.queued (.exited code killedByUs)) ∧
        (isWrite action=true → stage=.live)) := by
  unfold Stage.after at h
  split at h
  · cases h
  · rename_i hne
    split at h
    · rename_i hlive
      cases h
      exact .inl ⟨hlive,rfl,rfl⟩
    · cases h
  · rename_i code killedByUs hne
    split at h
    · rename_i hkilled
      cases h
      refine .inr (.inl ⟨fun hover => hne hover,rfl,code,?_⟩)
      rw [hkilled]
    · cases h
  · rename_i bytes hne
    split at h
    · rename_i hlive
      cases h
      exact .inr (.inr ⟨fun hover => hne hover,rfl,nofun,nofun,fun _ => hlive⟩)
    · cases h
  · rename_i hne hcancelled hexited hwrote
    cases h
    refine .inr (.inr ⟨fun hover => hne hover,rfl,fun heq => hcancelled heq,
      fun code killedByUs heq => hexited code killedByUs heq,?_⟩)
    intro hwrites
    cases action with
    | wrote bytes => exact absurd rfl (hwrote bytes)
    | _ => cases hwrites

/-- Nothing is admitted after the end. -/
theorem admits_over {trace : List PumpAction} {stage : Stage}
    (h : admits .over trace=some stage) : trace=[] := by
  cases trace with
  | nil => rfl
  | cons action rest => cases h

/-- After a cancel neither another cancel nor a write is admitted. -/
theorem admits_cancelled {trace : List PumpAction} {stage : Stage}
    (h : admits .cancelled trace=some stage) :
    ∀ action∈trace, action≠.queued .cancelled ∧ isWrite action=false := by
  induction trace with
  | nil => nofun
  | cons first rest ih =>
    obtain ⟨later,hafter,hrest⟩ := Option.bind_eq_some_iff.mp h
    intro action hmem
    rcases after_cases hafter with ⟨hlive,_⟩ | ⟨_,hover,code,hexit⟩ |
      ⟨_,hsame,hcancel,_,hwrite⟩
    · cases hlive
    · rw [hover] at hrest
      rw [admits_over hrest,List.mem_singleton] at hmem
      rw [hmem,hexit]
      exact ⟨nofun,rfl⟩
    · rw [hsame] at hrest
      rcases List.mem_cons.mp hmem with hfirst | hlater
      · rw [hfirst]
        refine ⟨hcancel,?_⟩
        by_contra hwrites
        cases hwrite (Bool.eq_true_of_not_eq_false hwrites)
      · exact ih hrest action hlater

/-- In an admitted trace everything follows what it may follow. -/
theorem pairwise_of_admits {trace : List PumpAction} {stage later : Stage}
    (h : admits stage trace=some later) : trace.Pairwise MayFollow := by
  induction trace generalizing stage with
  | nil => exact .nil
  | cons first rest ih =>
    obtain ⟨middle,hafter,hrest⟩ := Option.bind_eq_some_iff.mp h
    refine .cons ?_ (ih hrest)
    intro action hmem
    rcases after_cases hafter with ⟨_,hfirst,hcancelled⟩ | ⟨_,hover,_⟩ |
      ⟨_,_,hcancel,hexit,_⟩
    · rw [hcancelled] at hrest
      rw [hfirst]
      exact ⟨nofun,fun _ => admits_cancelled hrest action hmem⟩
    · rw [hover] at hrest
      rw [admits_over hrest] at hmem
      cases hmem
    · exact ⟨hexit,fun hfirst => absurd hfirst hcancel⟩

/-- An admitted exit tells whether the stream was cancelled. -/
theorem killed_of_admits {trace : List PumpAction} {stage later : Stage}
    (h : admits stage trace=some later) {code : Int} {killedByUs : Bool}
    (hmem : .queued (.exited code killedByUs)∈trace) :
    killedByUs=true ↔ stage=.cancelled ∨ .queued .cancelled∈trace := by
  induction trace generalizing stage with
  | nil => cases hmem
  | cons first rest ih =>
    obtain ⟨middle,hafter,hrest⟩ := Option.bind_eq_some_iff.mp h
    rcases after_cases hafter with ⟨_,hfirst,hmiddle⟩ | ⟨_,hover,exitCode,hexit⟩ |
      ⟨_,hsame,hcancel,hexit,_⟩
    · rw [hfirst,List.mem_cons] at hmem
      have hlater := hmem.resolve_left nofun
      have hrest := (ih hrest hlater).mpr (.inl hmiddle)
      rw [hfirst]
      exact ⟨fun _ => .inr List.mem_cons_self,fun _ => hrest⟩
    · rw [hover] at hrest
      rw [admits_over hrest,hexit,List.mem_singleton] at hmem
      rw [admits_over hrest,hexit,List.mem_singleton]
      cases hmem
      rw [decide_eq_true_eq]
      exact ⟨.inl,fun hor => hor.resolve_right nofun⟩
    · have hlater := (List.mem_cons.mp hmem).resolve_left (hexit code killedByUs).symm
      rw [hsame] at hrest
      rw [ih hrest hlater,List.mem_cons]
      refine or_congr_right ?_
      exact ⟨.inr,fun hor => hor.resolve_left hcancel.symm⟩

/-- A stream that is over has an exit. -/
theorem exit_of_admits {trace : List PumpAction} {stage : Stage} (hstage : stage≠.over)
    (h : admits stage trace=some .over) :
    ∃ code killedByUs, .queued (.exited code killedByUs)∈trace := by
  induction trace generalizing stage with
  | nil => exact absurd (Option.some.inj h) hstage
  | cons first rest ih =>
    obtain ⟨middle,hafter,hrest⟩ := Option.bind_eq_some_iff.mp h
    by_cases hover : middle=.over
    · rcases after_cases hafter with ⟨_,_,hcancelled⟩ | ⟨_,_,code,hexit⟩ | ⟨hne,hsame,_⟩
      · cases hcancelled.symm.trans hover
      · rw [hexit]
        exact ⟨code,_,List.mem_cons_self⟩
      · exact absurd (hsame.symm.trans hover) hne
    · obtain ⟨code,killedByUs,hmem⟩ := ih hover hrest
      exact ⟨code,killedByUs,List.mem_cons_of_mem _ hmem⟩

end Streams

section Pump

/-- What the stream depends on. -/
structure View where
  /-- Actions of the pump. -/
  trace : List PumpAction
  /-- A cancel has been seen. -/
  cancelSeen : Bool
  /-- The session asked the child to die. -/
  killedByUs : Bool
  /-- The child's input is open. -/
  stdinOpen : Bool
  /-- Standard output goes to a sink. -/
  stdoutSink : Bool
  /-- Standard error goes to a sink. -/
  stderrSink : Bool

/-- A channel goes to a sink. -/
def View.sink (seen : View) : Channel → Bool
  | .stdout => seen.stdoutSink
  | .stderr => seen.stderrSink

/-- The view of a memory. -/
def view (shared : Shared) : View :=
  ⟨shared.trace,shared.cancelSeen,shared.killedByUs,shared.stdinOpen,shared.stdoutSink,
    shared.stderrSink⟩

/-- The view shows whether a channel has a sink. -/
theorem sink_view (shared : Shared) (channel : Channel) :
    (view shared).sink channel=hasSink shared channel := by
  cases channel <;> rfl

/-- The stage of the stream at a point of the pump. -/
def stageAt (seen : View) : PumpPoint → Stage
  | .queue .cancelled _ => .live
  | .count _ .finishing => .over
  | .signal .finishing => .over
  | .finish => .over
  | .finishSignal => .over
  | .done => .over
  | _ => if seen.cancelSeen then .cancelled else .live

/-- What is known at a point of the pump. -/
def Agrees (seen : View) : PumpPoint → Prop
  | .drainStdin ready => ready.input≠.quiet → seen.stdinOpen=true
  | .write ready => ready.input≠.quiet → seen.stdinOpen=true
  | .cancelStore => seen.cancelSeen=false
  | .queue .cancelled back => back=.killing ∧ seen.cancelSeen=true
  | .queue (.exited _ killedByUs) back => back=.finishing ∧ killedByUs=seen.killedByUs
  | .queue (.chunk channel _) back =>
    (∃ site count, back=.reading site channel count) ∧ seen.sink channel=false
  | _ => True

/-- Bytes an action reads from a channel. -/
def readOn (channel : Channel) : PumpAction → List UInt8
  | .read source bytes => if source=channel then bytes else []
  | _ => []

/-- Bytes an action queues for a channel. -/
def chunkOn (channel : Channel) : PumpAction → List UInt8
  | .queued (.chunk source data) => if source=channel then data else []
  | _ => []

/-- Bytes an action passes to the sink of a channel. -/
def sankOn (channel : Channel) : PumpAction → List UInt8
  | .sank source bytes => if source=channel then bytes else []
  | _ => []

/-- Bytes of a channel that the pump has read and is about to queue. -/
def held (channel : Channel) : PumpPoint → List UInt8
  | .queue (.chunk source data) _ => if source=channel then data else []
  | _ => []

/-- What was read from a channel has been queued or sunk in order, up to
what the pump still holds. -/
structure Copied (seen : View) (channel : Channel) (rest : List UInt8) : Prop where
  /-- Nothing is lost, repeated or moved. -/
  complete : seen.trace.flatMap (readOn channel)=
    seen.trace.flatMap (chunkOn channel)++seen.trace.flatMap (sankOn channel)++rest
  /-- A channel with a sink queues nothing. -/
  toSink : seen.sink channel=true → seen.trace.flatMap (chunkOn channel)=[] ∧ rest=[]
  /-- A channel without a sink sinks nothing. -/
  toQueue : seen.sink channel=false → seen.trace.flatMap (sankOn channel)=[]

/-- Invariant of the stream. -/
structure StreamInv (seen : View) (point : PumpPoint) : Prop where
  /-- The trace is admitted up to the current stage. -/
  admitted : admits .live seen.trace=some (stageAt seen point)
  /-- A kill is asked for exactly by a cancel. -/
  killed : seen.killedByUs=seen.cancelSeen
  /-- A cancel closes the input. -/
  closed : seen.cancelSeen=true → seen.stdinOpen=false
  /-- What is known at the point. -/
  agrees : Agrees seen point
  /-- Output is copied. -/
  copied : ∀ channel, Copied seen channel (held channel point)

/-- The stage away from the ends of the stream. -/
def stageOf (seen : View) : Stage := if seen.cancelSeen then .cancelled else .live

/-- A point inside the stream where the pump holds no output. -/
def resting : PumpPoint → Bool
  | .queue _ _ => false
  | .count _ .finishing => false
  | .signal .finishing => false
  | .finish => false
  | .finishSignal => false
  | .done => false
  | _ => true

/-- A resting point at which nothing special is known. -/
def plain : PumpPoint → Bool
  | .drainStdin _ => false
  | .write _ => false
  | .cancelStore => false
  | point => resting point

/-- At a resting point the stage is that of the view. -/
theorem stageAt_resting {point : PumpPoint} (h : resting point=true) (seen : View) :
    stageAt seen point=stageOf seen := by
  cases point with
  | count size back => cases back <;> first | rfl | cases h
  | signal back => cases back <;> first | rfl | cases h
  | _ => first | rfl | cases h

/-- At a resting point no bytes are in hand. -/
theorem held_resting {point : PumpPoint} (h : resting point=true) (channel : Channel) :
    held channel point=[] := by
  cases point <;> first | rfl | cases h

theorem resting_of_plain {point : PumpPoint} (h : plain point=true) : resting point=true := by
  cases point <;> first | exact h | rfl

/-- A plain point agrees with every view. -/
theorem agrees_plain {point : PumpPoint} (h : plain point=true) (seen : View) :
    Agrees seen point := by
  cases point <;> trivial

/-- A step that leaves the view alone and goes on to a plain point. -/
theorem StreamInv.moves {seen : View} {point later : PumpPoint} (h : StreamInv seen point)
    (hbefore : resting point=true) (hafter : plain later=true) : StreamInv seen later := by
  have hlater := resting_of_plain hafter
  refine ⟨?_,h.killed,h.closed,agrees_plain hafter seen,?_⟩
  · rw [h.admitted,stageAt_resting hbefore,stageAt_resting hlater]
  · intro channel
    rw [held_resting hlater,← held_resting hbefore channel]
    exact h.copied channel

/-- An action that is admitted at any stage before the end and moves no
output. -/
structure Harmless (action : PumpAction) : Prop where
  /-- The action does not change the stage. -/
  admitted : ∀ stage : Stage, stage≠.over → stage.after action=some stage
  /-- Nothing is read, queued or sunk. -/
  silent : ∀ channel, readOn channel action=[] ∧ chunkOn channel action=[] ∧
    sankOn channel action=[]

/-- The view alone never shows the end. -/
theorem stageOf_ne_over (seen : View) : stageOf seen≠.over := by
  unfold stageOf
  split
  · nofun
  · nofun

/-- An action without output keeps the copies. -/
theorem Copied.silent {seen : View} {channel : Channel} {rest : List UInt8}
    (h : Copied seen channel rest) {action : PumpAction}
    (hsilent : readOn channel action=[] ∧ chunkOn channel action=[] ∧ sankOn channel action=[]) :
    Copied {seen with trace := seen.trace++[action]} channel rest := by
  have hread : ∀ select : PumpAction → List UInt8, select action=[] →
      (seen.trace++[action]).flatMap select=seen.trace.flatMap select := by
    intro select hselect
    rw [List.flatMap_append,List.flatMap_singleton,hselect,List.append_nil]
  refine ⟨?_,?_,?_⟩
  · dsimp only
    rw [hread _ hsilent.1,hread _ hsilent.2.1,hread _ hsilent.2.2]
    exact h.complete
  · dsimp only
    rw [hread _ hsilent.2.1]
    exact h.toSink
  · dsimp only
    rw [hread _ hsilent.2.2]
    exact h.toQueue

/-- A harmless action on the way to a plain point. -/
theorem StreamInv.acts {seen : View} {point later : PumpPoint} {action : PumpAction}
    (h : StreamInv seen point) (hbefore : resting point=true) (haction : Harmless action)
    (hafter : plain later=true) :
    StreamInv {seen with trace := seen.trace++[action]} later := by
  have hmoved := h.moves hbefore hafter
  have hlater := resting_of_plain hafter
  refine ⟨?_,h.killed,h.closed,agrees_plain hafter _,?_⟩
  · have hadmitted := h.admitted
    rw [stageAt_resting hbefore] at hadmitted
    rw [stageAt_resting hlater]
    exact admits_snoc hadmitted (haction.admitted _ (stageOf_ne_over seen))
  · intro channel
    exact (hmoved.copied channel).silent (haction.silent channel)

theorem harmless_killed (force : Bool) : Harmless (.killed force) := by
  refine ⟨?_,fun _ => ⟨rfl,rfl,rfl⟩⟩
  intro stage hstage
  cases stage <;> first | rfl | exact absurd rfl hstage

theorem harmless_closedStdin : Harmless .closedStdin := by
  refine ⟨?_,fun _ => ⟨rfl,rfl,rfl⟩⟩
  intro stage hstage
  cases stage <;> first | rfl | exact absurd rfl hstage

/-- Closing the input on the way to a plain point. -/
theorem StreamInv.closes {shared : Shared} {point later : PumpPoint}
    (h : StreamInv (view shared) point) (hbefore : resting point=true)
    (hafter : plain later=true) : StreamInv (view (closeStdinChannel shared)) later := by
  have hacted := h.acts hbefore harmless_closedStdin hafter
  have hmoved := h.moves hbefore hafter
  unfold closeStdinChannel view
  cases hopen : shared.stdinOpen with
  | true =>
    exact ⟨hacted.admitted,h.killed,fun _ => rfl,agrees_plain hafter _,
      fun channel => ⟨(hacted.copied channel).complete,(hacted.copied channel).toSink,
        (hacted.copied channel).toQueue⟩⟩
  | false =>
    exact ⟨hmoved.admitted,h.killed,fun _ => rfl,agrees_plain hafter _,
      fun channel => ⟨(hmoved.copied channel).complete,(hmoved.copied channel).toSink,
        (hmoved.copied channel).toQueue⟩⟩

/-- Behind a service the pump is at a plain point. -/
theorem plain_afterService (shared : Shared) (site : Site) (channel : Channel) (count : ℕ) :
    plain (afterService shared site channel count)=true := by
  unfold afterService
  (repeat' split) <;> rfl

theorem plain_afterWrite (ready : Ready) : plain (afterWrite ready)=true := by
  unfold afterWrite
  (repeat' split) <;> rfl

theorem plain_drainStep (oracle : Oracle) (shared : Shared) :
    plain (drainStep oracle shared)=true := by
  unfold drainStep
  (repeat' split) <;> rfl

/-- Nothing is written after a cancel: the input it would go to is open. -/
theorem stream_advance {shared : Shared} {ready : Ready} {count : ℕ}
    (h : StreamInv (view shared) (.write ready)) (hopen : shared.stdinOpen=true) :
    StreamInv (view (advance count shared)) (afterWrite ready) := by
  have hafter := plain_afterWrite ready
  have hmoved := h.moves rfl hafter
  have hlive : stageOf (view shared)=.live := by
    have hseen : (view shared).cancelSeen=false := by
      by_contra hcancelled
      exact absurd ((h.closed (Bool.eq_true_of_not_eq_false hcancelled)).symm.trans hopen)
        Bool.false_ne_true
    unfold stageOf
    rw [hseen]
    rfl
  have hadmitted : admits .live shared.trace=some .live := h.admitted.trans (congrArg some hlive)
  have hwrote : ∀ bytes, StreamInv {view shared with trace := shared.trace++[.wrote bytes]}
      (afterWrite ready) := by
    intro bytes
    refine ⟨?_,h.killed,h.closed,agrees_plain hafter _,?_⟩
    · rw [stageAt_resting (resting_of_plain hafter)]
      refine (admits_snoc hadmitted rfl).trans ?_
      exact congrArg some hlive.symm
    · intro channel
      exact (hmoved.copied channel).silent ⟨rfl,rfl,rfl⟩
  unfold advance
  dsimp only
  split
  · exact hmoved
  · split
    · exact hwrote _
    · exact hwrote _

/-- Bytes read from a channel are held. -/
theorem Copied.reads {seen : View} {channel source : Channel} {bytes : List UInt8}
    (h : Copied seen channel []) (hsink : seen.sink source=false) :
    Copied {seen with trace := seen.trace++[.read source bytes]} channel
      (if source=channel then bytes else []) := by
  have hcomplete := h.complete
  refine ⟨?_,?_,?_⟩
  · simp only [List.flatMap_append,List.flatMap_singleton,readOn,chunkOn,sankOn,
      List.append_nil] at hcomplete ⊢
    rw [hcomplete]
  · intro hthis
    refine ⟨?_,?_⟩
    · simp only [List.flatMap_append,List.flatMap_singleton,chunkOn,List.append_nil]
      exact (h.toSink hthis).1
    · refine if_neg ?_
      intro hsame
      rw [hsame] at hsink
      exact absurd (hsink.symm.trans hthis) Bool.false_ne_true
  · intro hthis
    simp only [List.flatMap_append,List.flatMap_singleton,sankOn,List.append_nil]
    exact h.toQueue hthis

/-- Bytes read from a channel go to its sink at once. -/
theorem Copied.sinks {seen : View} {channel source : Channel} {bytes : List UInt8}
    (h : Copied seen channel []) (hsink : seen.sink source=true) :
    Copied {seen with trace := seen.trace++[.read source bytes]++[.sank source bytes]}
      channel [] := by
  have hcomplete := h.complete
  refine ⟨?_,?_,?_⟩
  · simp only [List.flatMap_append,List.flatMap_singleton,readOn,chunkOn,sankOn,
      List.append_nil] at hcomplete ⊢
    rw [hcomplete,List.append_assoc]
  · intro hthis
    refine ⟨?_,rfl⟩
    simp only [List.flatMap_append,List.flatMap_singleton,chunkOn,List.append_nil]
    exact (h.toSink hthis).1
  · intro hthis
    simp only [List.flatMap_append,List.flatMap_singleton,sankOn]
    rw [h.toQueue hthis,List.nil_append]
    refine if_neg ?_
    intro hsame
    rw [hsame] at hsink
    exact absurd (hthis.symm.trans hsink) Bool.false_ne_true

/-- Held bytes are queued. -/
theorem Copied.queues {seen : View} {channel source : Channel} {bytes : List UInt8}
    (h : Copied seen channel (if source=channel then bytes else []))
    (hsink : seen.sink source=false) :
    Copied {seen with trace := seen.trace++[.queued (.chunk source bytes)]} channel [] := by
  have hcomplete := h.complete
  refine ⟨?_,?_,?_⟩
  · simp only [List.flatMap_append,List.flatMap_singleton,readOn,chunkOn,sankOn,
      List.append_nil] at hcomplete ⊢
    rw [hcomplete]
    by_cases hsame : source=channel
    · rw [hsame] at hsink
      rw [h.toQueue hsink,List.append_nil,List.append_nil]
    · rw [if_neg hsame,List.append_nil,List.append_nil]
  · intro hthis
    refine ⟨?_,rfl⟩
    simp only [List.flatMap_append,List.flatMap_singleton,chunkOn]
    rw [(h.toSink hthis).1,(h.toSink hthis).2]
    rfl
  · intro hthis
    simp only [List.flatMap_append,List.flatMap_singleton,sankOn,List.append_nil]
    exact h.toQueue hthis

/-- Reading a channel. -/
theorem stream_read {shared : Shared} {site : Site} {channel : Channel} {count : ℕ}
    (oracle : Oracle) (h : StreamInv (view shared) (.read site channel count)) :
    StreamInv (view (readStep oracle site channel count shared).1)
      (readStep oracle site channel count shared).2 := by
  have hclose : ∀ later, plain later=true →
      StreamInv (view (closeOutputChannel shared channel)) later := by
    intro later hlater
    cases channel <;> exact h.moves rfl hlater
  have hadmitted : ∀ bytes, admits .live (shared.trace++[.read channel bytes])=
      some (stageOf (view shared)) := by
    intro bytes
    refine admits_snoc h.admitted ?_
    change (stageOf (view shared)).after _=_
    unfold stageOf
    split <;> rfl
  unfold readStep
  split
  · exact h.moves rfl (plain_afterService _ _ _ _)
  · split
    · exact h.moves rfl (plain_afterService _ _ _ _)
    · exact hclose _ (plain_afterService _ _ _ _)
    · dsimp only
      split
      · exact hclose _ (plain_afterService _ _ _ _)
      · split
        · rename_i hsink
          rw [← sink_view] at hsink
          refine ⟨?_,h.killed,h.closed,trivial,fun other => (h.copied other).sinks hsink⟩
          refine admits_snoc (hadmitted _) ?_
          change (stageOf (view shared)).after _=some (stageOf (view shared))
          unfold stageOf
          split <;> rfl
        · rename_i hsink
          rw [← sink_view] at hsink
          have hnoSink := Bool.eq_false_of_not_eq_true hsink
          exact ⟨hadmitted _,h.killed,h.closed,⟨⟨site,_,rfl⟩,hnoSink⟩,
            fun other => (h.copied other).reads hnoSink⟩

/-- Queueing an event. -/
theorem stream_queue {shared : Shared} {event : ChildEvent} {back : Return}
    (h : StreamInv (view shared) (.queue event back)) (size : ℕ) :
    StreamInv (view (record (.queued event) shared)) (.count size back) := by
  cases event with
  | chunk channel data =>
    obtain ⟨⟨site,count,hback⟩,hsink⟩ := h.agrees
    subst hback
    refine ⟨?_,h.killed,h.closed,trivial,fun other => (h.copied other).queues hsink⟩
    refine admits_snoc h.admitted ?_
    change (stageOf (view shared)).after _=some (stageOf (view shared))
    unfold stageOf
    split <;> rfl
  | cancelled =>
    obtain ⟨hback,hseen⟩ := h.agrees
    subst hback
    refine ⟨?_,h.killed,h.closed,trivial,fun other => (h.copied other).silent ⟨rfl,rfl,rfl⟩⟩
    have hstage : stageAt (view (record (.queued .cancelled) shared)) (.count size .killing)=
        .cancelled := if_pos hseen
    rw [hstage]
    exact admits_snoc h.admitted rfl
  | exited code killedByUs =>
    obtain ⟨hback,hkilled⟩ := h.agrees
    subst hback
    refine ⟨?_,h.killed,h.closed,trivial,fun other => (h.copied other).silent ⟨rfl,rfl,rfl⟩⟩
    refine admits_snoc h.admitted ?_
    change (stageOf (view shared)).after _=some .over
    rw [hkilled,h.killed]
    unfold stageOf
    cases (view shared).cancelSeen <;> rfl

/-- Every step of the pump keeps the stream admitted. -/
theorem stream_pump {shared : Shared} {point : PumpPoint} (oracle : Oracle)
    (h : StreamInv (view shared) point) :
    StreamInv (view (nextPump oracle shared point).1) (nextPump oracle shared point).2 := by
  cases point with
  | reap =>
    dsimp only [nextPump,reapStep]
    split
    · exact h.moves rfl rfl
    · dsimp only
      split
      · exact h.acts rfl (harmless_killed true) rfl
      · exact h.moves rfl rfl
  | deadline =>
    dsimp only [nextPump,deadlineStep]
    split
    · split
      · exact h.acts rfl (harmless_killed true) rfl
      · exact h.moves rfl rfl
    · exact h.moves rfl rfl
  | stdin =>
    dsimp only [nextPump,stdinStep]
    (repeat' split) <;> exact h.moves rfl rfl
  | readClosed =>
    dsimp only [nextPump]
    split
    · exact h.closes rfl rfl
    · exact h.moves rfl rfl
  | pressure => exact h.moves rfl rfl
  | poll pressure =>
    dsimp only [nextPump]
    split
    · exact h.moves rfl rfl
    · exact h.moves rfl rfl
    · exact h.moves rfl rfl
    · refine ⟨h.admitted,h.killed,h.closed,?_,h.copied⟩
      intro hinput
      dsimp only [polled] at hinput
      split at hinput
      · rename_i hwatched
        exact (Bool.and_eq_true_iff.mp hwatched).1
      · exact absurd rfl hinput
  | drainStdin ready =>
    dsimp only [nextPump]
    split <;> exact ⟨h.admitted,h.killed,h.closed,h.agrees,h.copied⟩
  | write ready =>
    dsimp only [nextPump,writeStep]
    split
    · exact h.moves rfl (plain_afterWrite ready)
    · exact h.closes rfl (plain_afterWrite ready)
    · rename_i hinput
      have hopen : shared.stdinOpen=true := by
        refine h.agrees ?_
        rw [hinput]
        nofun
      split
      · exact stream_advance h hopen
      · exact h.moves rfl (plain_afterWrite ready)
      · exact h.closes rfl (plain_afterWrite ready)
  | service site channel =>
    dsimp only [nextPump]
    split
    · exact h.moves rfl (plain_afterService _ _ _ _)
    · exact h.moves rfl rfl
  | read site channel count => exact stream_read oracle h
  | queue event back => exact stream_queue h event.size
  | count size back => cases back <;> exact ⟨h.admitted,h.killed,h.closed,trivial,h.copied⟩
  | signal back => cases back <;> exact ⟨h.admitted,h.killed,h.closed,trivial,h.copied⟩
  | cancel ready =>
    dsimp only [nextPump]
    split
    · split
      · exact h.moves rfl rfl
      · rename_i hseen
        exact ⟨h.admitted,h.killed,h.closed,Bool.eq_false_of_not_eq_true hseen,h.copied⟩
    · exact h.moves rfl rfl
  | cancelStore =>
    have hseen : shared.cancelSeen=false := h.agrees
    have hclosed : StreamInv (view (closeStdinChannel shared)) .cancelStore := by
      have hplain : StreamInv (view (closeStdinChannel shared)) .reap :=
        h.closes rfl rfl
      exact ⟨hplain.admitted,hplain.killed,hplain.closed,hseen,hplain.copied⟩
    refine ⟨?_,rfl,fun _ => rfl,⟨rfl,rfl⟩,?_⟩
    rotate_left
    · intro channel
      exact ⟨(hclosed.copied channel).complete,(hclosed.copied channel).toSink,
        (hclosed.copied channel).toQueue⟩
    refine hclosed.admitted.trans ?_
    exact congrArg some (if_neg (Bool.eq_false_iff.mp hseen))
  | kill => exact h.acts rfl (harmless_killed false) rfl
  | drainCheck => exact h.moves rfl (plain_drainStep oracle shared)
  | drainPoll =>
    dsimp only [nextPump]
    split <;> exact h.moves rfl rfl
  | lastProbe =>
    dsimp only [nextPump,lastProbeStep]
    split <;> exact h.moves rfl rfl
  | closeAll =>
    have hclosed : StreamInv (view (closeStdinChannel shared)) .reap :=
      h.closes rfl rfl
    exact ⟨hclosed.admitted,hclosed.killed,hclosed.closed,⟨rfl,rfl⟩,hclosed.copied⟩
  | finish => exact ⟨h.admitted,h.killed,h.closed,trivial,h.copied⟩
  | finishSignal => exact ⟨h.admitted,h.killed,h.closed,trivial,h.copied⟩
  | done => exact h

end Pump

section Progress

/-- Most steps a read of a channel takes, with the bytes read so far and
what comes after it. -/
def readSteps (after count : ℕ) : ℕ := after+1+4*(readBudgetBytes-count)

/-- Most steps from the end of a channel's reading to the end of the pump. -/
def serviceSteps : Site → Channel → ℕ
  | .loop _,.stderr => 15
  | .loop _,.stdout => 17+4*readBudgetBytes
  | .drain _,.stderr => 9
  | .drain _,.stdout => 11+4*readBudgetBytes

/-- Most steps of the pump after an event is queued. -/
def returnSteps : Return → ℕ
  | .reading site channel count => readSteps (serviceSteps site channel) count
  | .killing => 10
  | .finishing => 2

/-- Most steps of the pump to its end, once the child can be reaped and the
deadlines have passed. -/
def stepsLeft : PumpPoint → ℕ
  | .reap => 9
  | .deadline => 26+8*readBudgetBytes
  | .stdin => 25+8*readBudgetBytes
  | .readClosed => 24+8*readBudgetBytes
  | .pressure => 23+8*readBudgetBytes
  | .poll _ => 22+8*readBudgetBytes
  | .drainStdin _ => 21+8*readBudgetBytes
  | .write _ => 20+8*readBudgetBytes
  | .service site channel => readSteps (serviceSteps site channel) 0+1
  | .read site channel count => readSteps (serviceSteps site channel) count
  | .queue _ back => returnSteps back+3
  | .count _ back => returnSteps back+2
  | .signal back => returnSteps back+1
  | .cancel _ => 15
  | .cancelStore => 14
  | .kill => 10
  | .drainCheck => 8
  | .drainPoll => 9
  | .lastProbe => 7
  | .closeAll => 6
  | .finish => 2
  | .finishSignal => 1
  | .done => 0

/-- Behind a service no more steps are left than before. -/
theorem stepsLeft_afterService (shared : Shared) (site : Site) (channel : Channel) (count : ℕ) :
    stepsLeft (afterService shared site channel count) ≤ serviceSteps site channel := by
  unfold afterService
  (repeat' split) <;> simp only [stepsLeft,serviceSteps,readSteps] <;> omega

/-- Behind a write the steps of the reads are left. -/
theorem stepsLeft_afterWrite (ready : Ready) :
    stepsLeft (afterWrite ready)<20+8*readBudgetBytes := by
  unfold afterWrite
  (repeat' split) <;> simp only [stepsLeft,serviceSteps,readSteps] <;> omega

/-- A return leaves the steps of where it leads. -/
theorem stepsLeft_return (back : Return) : stepsLeft back.point=returnSteps back := by
  cases back <;> rfl

theorem stepsLeft_read {shared : Shared} {site : Site} {channel : Channel} {count : ℕ}
    (oracle : Oracle) :
    stepsLeft (readStep oracle site channel count shared).2<
      stepsLeft (.read site channel count) := by
  have hservice : ∀ after : Shared, stepsLeft (afterService after site channel count)<
      stepsLeft (.read site channel count) := by
    intro after
    have hbound := stepsLeft_afterService after site channel count
    simp only [stepsLeft,readSteps] at hbound ⊢
    omega
  unfold readStep
  split
  · exact hservice shared
  · split
    · exact hservice shared
    · exact hservice _
    · dsimp only
      split
      · exact hservice _
      · rename_i hsome
        have hlength := List.length_pos_iff.mpr hsome
        split <;> simp only [stepsLeft,returnSteps,readSteps] <;> omega

/-- The child can be reaped and the deadlines have passed. -/
def Ending (oracle : Oracle) : Prop := oracle.reaped.isSome=true ∧ oracle.expired=true

/-- Each step of the pump brings its end closer. -/
theorem stepsLeft_pump {oracle : Oracle} (hending : Ending oracle) (shared : Shared)
    {point : PumpPoint} (hpoint : point≠.done) :
    stepsLeft (nextPump oracle shared point).2<stepsLeft point := by
  obtain ⟨hreaped,hexpired⟩ := hending
  cases point with
  | reap =>
    obtain ⟨code,hcode⟩ := Option.isSome_iff_exists.mp hreaped
    dsimp only [nextPump,reapStep]
    rw [hcode]
    exact Nat.lt_succ_self 8
  | deadline =>
    dsimp only [nextPump,deadlineStep]
    (repeat' split) <;> simp only [stepsLeft] <;> omega
  | stdin =>
    dsimp only [nextPump,stdinStep]
    (repeat' split) <;> simp only [stepsLeft] <;> omega
  | poll pressure =>
    dsimp only [nextPump]
    split <;> simp only [stepsLeft] <;> omega
  | write ready => exact stepsLeft_afterWrite ready
  | service site channel =>
    have hbound := stepsLeft_afterService shared site channel 0
    dsimp only [nextPump]
    split
    · simp only [stepsLeft,readSteps] at hbound ⊢
      omega
    · exact Nat.lt_succ_self _
  | read site channel count => exact stepsLeft_read oracle
  | queue event back => exact Nat.lt_succ_self _
  | count size back => exact Nat.lt_succ_self _
  | signal back =>
    dsimp only [nextPump]
    rw [stepsLeft_return]
    exact Nat.lt_succ_self _
  | cancel ready =>
    dsimp only [nextPump]
    (repeat' split) <;> simp only [stepsLeft] <;> omega
  | cancelStore => exact Nat.lt_succ_self 13
  | drainCheck =>
    dsimp only [nextPump,drainStep]
    rw [hexpired]
    (repeat' split) <;> first | exact Nat.lt_succ_self 7 | contradiction
  | drainPoll =>
    dsimp only [nextPump]
    split <;> simp only [stepsLeft] <;> omega
  | done => exact absurd rfl hpoint
  | _ =>
    simp only [nextPump,stepsLeft,returnSteps]
    omega

end Progress

section Runs

/-- Events that were queued, oldest first. -/
def queuedEvents (trace : List PumpAction) : List ChildEvent :=
  trace.filterMap fun action => match action with
    | .queued event => some event
    | _ => none

/-- A thread that is not the pump. -/
def besidePump : Pc → Bool
  | .pump _ => false
  | _ => true

/-- Two memories with the same fields have the same view. -/
theorem view_congr {first second : Shared} (htrace : first.trace=second.trace)
    (hseen : first.cancelSeen=second.cancelSeen) (hkilled : first.killedByUs=second.killedByUs)
    (hopen : first.stdinOpen=second.stdinOpen) (hstdout : first.stdoutSink=second.stdoutSink)
    (hstderr : first.stderrSink=second.stderrSink) : view first=view second := by
  unfold view
  rw [htrace,hseen,hkilled,hopen,hstdout,hstderr]

/-- Only the pump touches what the stream depends on. -/
theorem view_beside {pc : Pc} (h : besidePump pc=true) (oracle : Oracle) (shared : Shared) :
    view (next oracle shared pc).1=view shared := by
  cases pc with
  | pump point => cases h
  | owner point =>
    cases point <;> dsimp only [next,nextOwner] <;> (repeat' split) <;>
      exact view_congr rfl rfl rfl rfl rfl rfl
  | bystander =>
    dsimp only [next]
    split <;> exact view_congr rfl rfl rfl rfl rfl rfl

/-- Threads beside the pump stay beside it. -/
theorem beside_next {pc : Pc} (h : besidePump pc=true) (oracle : Oracle) (shared : Shared) :
    besidePump (next oracle shared pc).2=true := by
  cases pc with
  | pump point => cases h
  | _ => rfl

/-- Invariant of a session. -/
structure EventInv (pool : System) : Prop where
  /-- Thread zero is the pump and its stream is admitted. -/
  pump : ∃ point, pool.pcs 0=.pump point ∧ StreamInv (view pool.shared) point
  /-- No other thread is. -/
  beside : ∀ t, t≠0 → besidePump (pool.pcs t)=true

/-- Every step of every thread keeps the invariant. -/
theorem machine_events (pool : System) (label : ℕ×Oracle) (inv : EventInv pool) :
    EventInv (machine pool label) := by
  obtain ⟨thread,oracle⟩ := label
  obtain ⟨point,hpoint,hstream⟩ := inv.pump
  by_cases hthread : thread=0
  · subst hthread
    refine ⟨⟨(nextPump oracle pool.shared point).2,?_,?_⟩,?_⟩
    · rw [Pool.step_pcs_self,hpoint]
      rfl
    · rw [Pool.step_shared,hpoint]
      exact stream_pump oracle hstream
    · intro t ht
      rw [Pool.step_pcs_of_ne ht]
      exact inv.beside t ht
  · have hbeside := inv.beside thread hthread
    refine ⟨⟨point,?_,?_⟩,?_⟩
    · rw [Pool.step_pcs_of_ne (Ne.symm hthread)]
      exact hpoint
    · rw [Pool.step_shared,view_beside hbeside]
      exact hstream
    · intro t ht
      by_cases hself : t=thread
      · subst hself
        rw [Pool.step_pcs_self]
        exact beside_next hbeside oracle pool.shared
      · rw [Pool.step_pcs_of_ne hself]
        exact inv.beside t ht

/-- The invariant holds at the start. -/
theorem startup_events (sinks : Sinks) : EventInv (startup sinks) := by
  refine ⟨⟨.reap,rfl,rfl,rfl,nofun,trivial,fun channel => ⟨rfl,fun _ => ⟨rfl,rfl⟩,fun _ => rfl⟩⟩,?_⟩
  intro t ht
  match t with
  | 0 => exact absurd rfl ht
  | 1 => rfl
  | _+2 => rfl

/-- Steps of the pump in a schedule. -/
def pumpSteps (schedule : List (ℕ×Oracle)) : ℕ := (schedule.filter fun label => label.1=0).length

/-- A pump that takes its steps comes to its end. -/
theorem pump_ends {pool : System} {point : PumpPoint} (hpoint : pool.pcs 0=.pump point)
    {later : List (ℕ×Oracle)} (hending : ∀ label∈later, label.1=0 → Ending label.2)
    (hsteps : stepsLeft point ≤ pumpSteps later) :
    (run machine pool later).pcs 0=.pump .done := by
  induction later generalizing pool point with
  | nil =>
    have hzero : stepsLeft point=0 := Nat.le_zero.mp hsteps
    have hdone : point=.done := by
      cases point <;> simp only [stepsLeft,readSteps] at hzero <;> first | rfl | omega
    rw [run_nil,hpoint,hdone]
  | cons label rest ih =>
    have hrest : ∀ other∈rest, other.1=0 → Ending other.2 :=
      fun other hother => hending other (List.mem_cons_of_mem _ hother)
    obtain ⟨thread,oracle⟩ := label
    by_cases hthread : thread=0
    · subst hthread
      have hnext : (machine pool (0,oracle)).pcs 0=
          .pump (nextPump oracle pool.shared point).2 := by
        rw [Pool.step_pcs_self,hpoint]
        rfl
      refine ih hnext hrest ?_
      have hcount : pumpSteps ((0,oracle)::rest)=pumpSteps rest+1 := rfl
      by_cases hdone : point=.done
      · rw [hdone]
        exact Nat.zero_le _
      · have hnow : Ending oracle := hending (0,oracle) List.mem_cons_self rfl
        have hless := stepsLeft_pump hnow pool.shared hdone
        omega
    · have hsame : (machine pool (thread,oracle)).pcs 0=.pump point := by
        rw [Pool.step_pcs_of_ne (Ne.symm hthread)]
        exact hpoint
      refine ih hsame hrest ?_
      have hcount : pumpSteps ((thread,oracle)::rest)=pumpSteps rest := by
        unfold pumpSteps
        rw [List.filter_cons_of_neg]
        simpa using hthread
      omega

/-- Enough steps for the pump from everywhere. -/
def enoughSteps : ℕ := 26+8*readBudgetBytes

/-- There is a bound on the steps that are left. -/
theorem stepsLeft_le (point : PumpPoint) : stepsLeft point ≤ enoughSteps := by
  have hreturn : ∀ back : Return, returnSteps back+3 ≤ enoughSteps := by
    intro back
    cases back with
    | reading site channel count =>
      cases site <;> cases channel <;>
        simp only [returnSteps,readSteps,serviceSteps,enoughSteps] <;> omega
    | _ =>
      simp only [returnSteps,enoughSteps]
      omega
  cases point with
  | service site channel =>
    cases site <;> cases channel <;>
      simp only [stepsLeft,readSteps,serviceSteps,enoughSteps] <;> omega
  | read site channel count =>
    cases site <;> cases channel <;>
      simp only [stepsLeft,readSteps,serviceSteps,enoughSteps] <;> omega
  | queue event back => exact hreturn back
  | count size back =>
    have hback := hreturn back
    simp only [stepsLeft]
    omega
  | signal back =>
    have hback := hreturn back
    simp only [stepsLeft]
    omega
  | _ =>
    simp only [stepsLeft,enoughSteps]
    omega

/-- A queued event is an action of the trace. -/
theorem mem_queuedEvents {trace : List PumpAction} {event : ChildEvent} :
    event∈queuedEvents trace ↔ .queued event∈trace := by
  unfold queuedEvents
  rw [List.mem_filterMap]
  constructor
  · rintro ⟨action,hmem,hqueued⟩
    split at hqueued
    · cases hqueued
      exact hmem
    · cases hqueued
  · intro hmem
    exact ⟨_,hmem,rfl⟩

/-- Queued events follow each other as their actions do. -/
theorem pairwise_queuedEvents {trace : List PumpAction} (h : trace.Pairwise MayFollow) :
    (queuedEvents trace).Pairwise fun earlier later =>
      (∀ code killedByUs, earlier≠.exited code killedByUs) ∧
        (earlier=.cancelled → later≠.cancelled) := by
  unfold queuedEvents
  rw [List.pairwise_filterMap]
  refine h.imp ?_
  intro first second hfollow earlier hearlier later hlater
  split at hearlier
  · cases hearlier
    split at hlater
    · cases hlater
      refine ⟨fun code killedByUs heq => hfollow.1 code killedByUs (congrArg _ heq),?_⟩
      intro hcancelled hsecond
      exact (hfollow.2 (congrArg _ hcancelled)).1 (congrArg _ hsecond)
    · cases hlater
  · cases hearlier

/-- Bytes of a channel among the queued events. -/
def chunkBytes (channel : Channel) (trace : List PumpAction) : List UInt8 :=
  trace.flatMap (chunkOn channel)

/-- Bytes read from a channel. -/
def readBytes (channel : Channel) (trace : List PumpAction) : List UInt8 :=
  trace.flatMap (readOn channel)

/-- The contract of the event stream. -/
structure StreamContract (pool : System) : Prop where
  /-- Nothing is queued after an exit. -/
  last : ∀ front back code killedByUs,
    queuedEvents pool.shared.trace=front++.exited code killedByUs::back → back=[]
  /-- A cancel is queued at most once. -/
  once : ∀ front back, queuedEvents pool.shared.trace=front++.cancelled::back → .cancelled∉back
  /-- Nothing is written to the child after a queued cancel. -/
  silent : ∀ front back, pool.shared.trace=front++.queued .cancelled::back →
    ∀ bytes, .wrote bytes∉back
  /-- The exit tells whether a cancel was queued. -/
  killed : ∀ code killedByUs, .exited code killedByUs∈queuedEvents pool.shared.trace →
    (killedByUs=true ↔ .cancelled∈queuedEvents pool.shared.trace)
  /-- The chunks of a channel are the bytes read from it, in order and from
  the beginning. -/
  copied : ∀ channel,
    chunkBytes channel pool.shared.trace<+:readBytes channel pool.shared.trace
  /-- A pump at its end has queued one exit, and all it has read unless a
  sink took it. -/
  finished : pool.pcs 0=.pump .done →
    (∃ front code killedByUs,
      queuedEvents pool.shared.trace=front++[.exited code killedByUs] ∧
      ∀ other killed, .exited other killed∉front) ∧
    ∀ channel, hasSink pool.shared channel=false →
      chunkBytes channel pool.shared.trace=readBytes channel pool.shared.trace
  /-- A pump whose child can be reaped comes to its end. -/
  ends : ∀ later : List (ℕ×Oracle), (∀ label∈later, label.1=0 → Ending label.2) →
    enoughSteps ≤ pumpSteps later → (run machine pool later).pcs 0=.pump .done

/-- An event that is followed by nothing is the only one of its kind. -/
theorem exited_alone {events : List ChildEvent}
    (hlast : ∀ front back code killedByUs, events=front++.exited code killedByUs::back → back=[])
    {code : Int} {killedByUs : Bool} (hmem : .exited code killedByUs∈events) :
    ∃ front, events=front++[.exited code killedByUs] ∧
      ∀ other killed, .exited other killed∉front := by
  obtain ⟨front,back,hevents⟩ := List.append_of_mem hmem
  have hback := hlast front back code killedByUs hevents
  rw [hback] at hevents
  refine ⟨front,hevents,?_⟩
  intro other killed hother
  obtain ⟨before,after,hfront⟩ := List.append_of_mem hother
  have hnil := hlast before (after++[.exited code killedByUs]) other killed
    (by rw [hevents,hfront,List.append_assoc,List.cons_append])
  exact List.append_ne_nil_of_right_ne_nil after (List.cons_ne_nil _ _) hnil

/-- The contract follows from the invariant. -/
theorem contract_of_inv {pool : System} (inv : EventInv pool) : StreamContract pool := by
  obtain ⟨point,hpoint,hstream⟩ := inv.pump
  have hadmitted : admits .live pool.shared.trace=some (stageAt (view pool.shared) point) :=
    hstream.admitted
  have hpairwise := pairwise_of_admits hadmitted
  have hevents := pairwise_queuedEvents hpairwise
  have hlast : ∀ front back code killedByUs,
      queuedEvents pool.shared.trace=front++.exited code killedByUs::back → back=[] := by
    intro front back code killedByUs heq
    rw [heq] at hevents
    by_contra hback
    obtain ⟨event,hevent⟩ := List.exists_mem_of_ne_nil back hback
    have hfollow := (List.pairwise_cons.mp (List.pairwise_append.mp hevents).2.1).1 event hevent
    exact hfollow.1 code killedByUs rfl
  refine ⟨hlast,?_,?_,?_,?_,?_,?_⟩
  · intro front back heq hmem
    rw [heq] at hevents
    have hfollow := (List.pairwise_cons.mp (List.pairwise_append.mp hevents).2.1).1 .cancelled hmem
    exact hfollow.2 rfl rfl
  · intro front back heq bytes hmem
    rw [heq] at hpairwise
    have hfollow := (List.pairwise_cons.mp (List.pairwise_append.mp hpairwise).2.1).1 _ hmem
    have hwrites := (hfollow.2 rfl).2
    cases hwrites
  · intro code killedByUs hmem
    rw [mem_queuedEvents] at hmem ⊢
    rw [killed_of_admits hadmitted hmem]
    exact ⟨fun hor => hor.resolve_left nofun,.inr⟩
  · intro channel
    have hcopied := (hstream.copied channel).complete
    unfold chunkBytes readBytes
    exact ⟨_,(List.append_assoc _ _ _).symm.trans hcopied.symm⟩
  · intro hdone
    rw [hpoint] at hdone
    cases hdone
    have hover : admits .live pool.shared.trace=some .over := hadmitted
    obtain ⟨code,killedByUs,hmem⟩ := exit_of_admits (by decide) hover
    obtain ⟨front,hfront,halone⟩ := exited_alone hlast (mem_queuedEvents.mpr hmem)
    refine ⟨⟨front,code,killedByUs,hfront,halone⟩,?_⟩
    intro channel hsink
    have hcopied := hstream.copied channel
    have hsank := hcopied.toQueue ((sink_view _ _).trans hsink)
    have hcomplete := hcopied.complete
    rw [hsank,List.append_nil] at hcomplete
    exact ((List.append_nil _).symm.trans hcomplete.symm)
  · intro later hending hsteps
    exact pump_ends hpoint hending (Nat.le_trans (stepsLeft_le point) hsteps)

/-- In every run of a session the event stream keeps its contract. -/
theorem event_stream_contract (sinks : Sinks) (schedule : List (ℕ×Oracle)) :
    StreamContract (run machine (startup sinks) schedule) :=
  contract_of_inv (run_invariant machine_events schedule (startup_events sinks))

end Runs

end Vinput.ProcessEvents
