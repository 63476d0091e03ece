import Mathlib.Data.List.Induction
import Vinput.ControllerHistory
import Vinput.ControllerCancel

/-!
# Which text is submitted

The events of a chunked session are polled in batches while it records and
once more when the worker finishes it. The polls fold them into the latest
final text, which the order carries, and the worker folds its last batch
into the result of the run. However the events fall into batches, the text
that goes to post-processing is that of the last final event.
-/

namespace Vinput.ControllerText

open InterleavedRuns RuntimePhases RuntimeController ControllerCore ControllerAudio
open ControllerHistory

section Texts

/-- The text of the last final event, empty if there is none. -/
def lastFinalText (events : List RecognitionEvent) : String :=
  (((events.filter fun event => event.kind=.finalText).getLast?).map RecognitionEvent.text).getD ""

/-- Some event is an error. -/
def hasError (events : List RecognitionEvent) : Bool :=
  events.any fun event => decide (event.kind=.error)

/-- Final events carry a text. -/
def Spoken (events : List RecognitionEvent) : Prop :=
  ∀ event∈events, event.kind=.finalText → event.text≠""

instance (events : List RecognitionEvent) : Decidable (Spoken events) :=
  inferInstanceAs (Decidable (∀ event∈events, event.kind=.finalText → event.text≠""))

/-- The last event decides when it is a final text. -/
theorem lastFinalText_concat (events : List RecognitionEvent) (event : RecognitionEvent) :
    lastFinalText (events++[event])=
      if event.kind=.finalText then event.text else lastFinalText events := by
  unfold lastFinalText
  rw [List.filter_append]
  split
  · rename_i hkind
    simp [hkind]
  · rename_i hkind
    simp [hkind]

/-- An error is in one of two batches. -/
theorem hasError_append (left right : List RecognitionEvent) :
    hasError (left++right)=(hasError left || hasError right) := List.any_append

/-- Final texts of both batches are not empty. -/
theorem spoken_append {left right : List RecognitionEvent} :
    Spoken (left++right) ↔ Spoken left ∧ Spoken right := List.forall_mem_append

/-- Batches are applied one after the other. -/
theorem applyRecognitionEvents_append (latest : String) (left right : List RecognitionEvent) :
    applyRecognitionEvents latest (left++right)=
      applyRecognitionEvents (applyRecognitionEvents latest left) right := List.foldl_append

/-- The polls keep the text of the last final event. -/
theorem applyRecognitionEvents_eq {events : List RecognitionEvent} (h : Spoken events) :
    applyRecognitionEvents "" events=lastFinalText events := by
  induction events using List.reverseRecOn with
  | nil => rfl
  | append_singleton events event ih =>
    obtain ⟨hbefore,hevent⟩ := spoken_append.mp h
    rw [applyRecognitionEvents_append,lastFinalText_concat,ih hbefore]
    show (if event.kind=.finalText ∧ event.text≠"" then event.text else lastFinalText events)=_
    by_cases hkind : event.kind=.finalText
    · rw [if_pos hkind,if_pos ⟨hkind,hevent event List.mem_cons_self hkind⟩]
    · rw [if_neg hkind,if_neg fun hboth => hkind hboth.1]

/-- Errors that a poll leaves out carry no text. -/
theorem applyRecognitionEvents_pollEvents (latest : String) (events : List RecognitionEvent)
    (asyncFailure : Option String) :
    applyRecognitionEvents latest (pollEvents events asyncFailure)=
      applyRecognitionEvents latest events := by
  unfold pollEvents
  split
  · unfold applyRecognitionEvents
    rw [List.foldl_filter]
    refine List.foldl_ext _ _ _ fun text event _ => ?_
    split
    · rfl
    · rename_i hkind
      have herror : event.kind=.error := not_not.mp fun h => hkind (decide_eq_true h)
      rw [if_neg]
      rintro ⟨hfinal,_⟩
      cases herror.symm.trans hfinal
  · rfl

/-- A poll with an error fails. -/
theorem pollFailure_of_hasError {events : List RecognitionEvent} (h : hasError events=true)
    (asyncFailure : Option String) : (pollFailure events asyncFailure).isSome=true := by
  unfold pollFailure
  cases asyncFailure with
  | some error => rfl
  | none =>
    dsimp only
    cases hfind : events.find? (fun event => decide (event.kind=.error)) with
    | some event => rfl
    | none =>
      obtain ⟨event,hevent,hkind⟩ := List.any_eq_true.mp h
      exact absurd hkind (List.find?_eq_none.mp hfind event hevent)

/-- An event that is collected replaces the text when it is final. -/
theorem collectEvent_text (result : RecognitionRunResult) (event : RecognitionEvent) :
    (collectEvent result event).text=
      if event.kind=.finalText then event.text else result.text := by
  unfold collectEvent
  cases event.kind with
  | error => dsimp only; split <;> rfl
  | _ => rfl

/-- The last batch, folded into the result of a run. -/
theorem collect_text (events : List RecognitionEvent) (start : RecognitionRunResult) :
    (events.foldl collectEvent start).text=
      if events.any (fun event => decide (event.kind=.finalText)) then lastFinalText events
      else start.text := by
  induction events using List.reverseRecOn with
  | nil => rfl
  | append_singleton events event ih =>
    rw [List.foldl_append,List.foldl_cons,List.foldl_nil,collectEvent_text,lastFinalText_concat,
      List.any_append,ih]
    by_cases hkind : event.kind=.finalText
    · simp [hkind]
    · simp [hkind]

/-- A run fails when finishing fails or an event is an error. -/
theorem collect_failed (events : List RecognitionEvent) (start : RecognitionRunResult) :
    (events.foldl collectEvent start).ok=(start.ok && !hasError events) := by
  induction events generalizing start with
  | nil => exact (Bool.and_true _).symm
  | cons event events ih =>
    rw [List.foldl_cons,ih]
    unfold hasError collectEvent
    cases hkind : event.kind with
    | error => dsimp only; split <;> simp [hkind]
    | _ => simp [hkind]

/-- A run without an error event keeps the error it began with. -/
theorem collect_error {events : List RecognitionEvent} (h : hasError events=false)
    (start : RecognitionRunResult) : (events.foldl collectEvent start).error=start.error := by
  induction events generalizing start with
  | nil => rfl
  | cons event events ih =>
    unfold hasError at h ih
    rw [List.any_cons,Bool.or_eq_false_iff] at h
    rw [List.foldl_cons,ih h.2]
    unfold collectEvent
    cases hkind : event.kind with
    | error => exact absurd hkind (of_decide_eq_false h.1)
    | _ => rfl

/-- A batch without final events leaves the latest text alone. -/
theorem applyRecognitionEvents_silent {events : List RecognitionEvent}
    (h : (events.any fun event => decide (event.kind=.finalText))=false) (latest : String) :
    applyRecognitionEvents latest events=latest := by
  induction events with
  | nil => rfl
  | cons event events ih =>
    rw [List.any_cons,Bool.or_eq_false_iff] at h
    show applyRecognitionEvents (if _ then _ else _) events=_
    rw [if_neg fun hboth => of_decide_eq_false h.1 hboth.1]
    exact ih h.2

/-- A batch with a final event replaces the latest text. -/
theorem applyRecognitionEvents_final {events : List RecognitionEvent} (hspoken : Spoken events)
    (h : (events.any fun event => decide (event.kind=.finalText))=true) (latest : String) :
    applyRecognitionEvents latest events=lastFinalText events ∧ lastFinalText events≠"" := by
  induction events using List.reverseRecOn with
  | nil => cases h
  | append_singleton events event ih =>
    obtain ⟨hbefore,hevent⟩ := spoken_append.mp hspoken
    rw [applyRecognitionEvents_append,lastFinalText_concat]
    show (if event.kind=.finalText ∧ event.text≠"" then event.text
      else applyRecognitionEvents latest events)=_ ∧ _
    by_cases hkind : event.kind=.finalText
    · have htext := hevent event List.mem_cons_self hkind
      rw [if_pos hkind,if_pos ⟨hkind,htext⟩]
      exact ⟨rfl,htext⟩
    · have hearlier : (events.any fun event => decide (event.kind=.finalText))=true := by
        simpa [hkind] using h
      rw [if_neg hkind,if_neg fun hboth => hkind hboth.1]
      exact ih hbefore hearlier

/-- The text after a last batch is that of the last final event of all. -/
theorem finished_text {before last : List RecognitionEvent} (hbefore : Spoken before)
    (hlast : Spoken last) {order : RecognitionOrder} {start : RecognitionRunResult}
    (hstart : start.text="")
    (horder : order.postprocessRequest.text=applyRecognitionEvents "" before) :
    (finishedOrder (last.foldl collectEvent start) order).postprocessRequest.text=
      lastFinalText (before++last) := by
  have hall : Spoken (before++last) := spoken_append.mpr ⟨hbefore,hlast⟩
  rw [← applyRecognitionEvents_eq hall,applyRecognitionEvents_append,← horder]
  unfold finishedOrder
  rw [collect_text,hstart]
  by_cases hfinal : (last.any fun event => decide (event.kind=.finalText))=true
  · obtain ⟨htext,hne⟩ := applyRecognitionEvents_final hlast hfinal order.postprocessRequest.text
    rw [if_pos hfinal,if_neg hne]
    exact htext.symm
  · rw [if_neg hfinal]
    exact (applyRecognitionEvents_silent (Bool.eq_false_of_not_eq_true hfinal) _).symm

end Texts

section Steps

/-- What a step polls, and from which session. -/
def polls (oracle : Oracle) (shared : Shared) : Pc → Option (ℕ×List RecognitionEvent)
  | .flush _ .pollEnter =>
    match shared.active with
    | none => none
    | some id =>
      if shared.phase≠.recording || usesBufferedDelivery shared.activeBackend then none
      else some (id,oracle.events)
  | _ => none

/-- Effects that forget the latest text. -/
def forgets : Effect → Bool
  | .install _ => true
  | .discard => true
  | .cancel => true
  | .fail => true
  | .reset => true
  | _ => false

/-- A session polled with a failure that is about to be failed. -/
def failing : Pc → Option ℕ
  | .flush _ (.failActive id .polling) => some id
  | _ => none

/-- The order a worker takes to its session. -/
def inHand : Pc → Option RecognitionOrder
  | .worker (.push order) => some order
  | .worker (.finish order) => some order
  | _ => none

/-- The events a step polls. -/
def polledEvents (polled : Option (ℕ×List RecognitionEvent)) : List RecognitionEvent :=
  match polled with
  | some (_,events) => events
  | none => []

/-- A poll applies its batch to the latest text. -/
theorem latest_poll (oracle : Oracle) (shared : Shared) (resume : Resume) :
    (next oracle shared (.flush resume .pollEnter)).1.latestFinalText=
      applyRecognitionEvents shared.latestFinalText
        (polledEvents (polls oracle shared (.flush resume .pollEnter))) := by
  dsimp only [next,nextFlush,polls]
  cases shared.active with
  | none => rfl
  | some id =>
    dsimp only
    split
    · rfl
    · exact applyRecognitionEvents_pollEvents shared.latestFinalText oracle.events _

/-- The latest text changes by a poll only, unless it is forgotten. -/
theorem latest_next (oracle : Oracle) (shared : Shared) (pc : Pc)
    (hkept : forgets (effect shared pc)=false) : (next oracle shared pc).1.latestFinalText=
      applyRecognitionEvents shared.latestFinalText
        (polledEvents (polls oracle shared pc)) := by
  cases pc with
  | ready last =>
    dsimp only [next]
    cases oracle.call <;> dsimp only [begin] <;> (repeat' split) <;> rfl
  | start call point =>
    cases point with
    | install id backend =>
      dsimp only [next,nextStart,effect] at hkept ⊢
      split
      · rfl
      · rename_i hidle
        rw [if_neg hidle] at hkept
        cases hkept
    | _ =>
      dsimp only [next,nextStart]
      (repeat' split) <;> rfl
  | stop ime sceneId point =>
    cases point with
    | submit pcm =>
      dsimp only [next,nextStop,effect] at hkept ⊢
      unfold submitEffect at hkept
      unfold submitLocked
      cases hactive : shared.active with
      | none => rfl
      | some id =>
        rw [hactive] at hkept
        dsimp only at hkept ⊢
        split
        · rename_i hshort
          rw [if_pos hshort] at hkept
          cases hkept
        · rfl
    | _ =>
      dsimp only [next,nextStop]
      (repeat' split) <;> rfl
  | cancel ime commitRawText point =>
    cases point with
    | enter =>
      dsimp only [next,nextCancel,effect] at hkept ⊢
      split at hkept
      · cases hkept
      · rename_i hother
        obtain ⟨_,_,_,_,hshared⟩ := cancelLocked_other hother ime commitRawText
        rw [hshared]
        show (cancelStartLocked shared).latestFinalText=_
        unfold cancelStartLocked
        split <;> rfl
    | _ => rfl
  | flush resume point =>
    cases point with
    | pollEnter => exact latest_poll oracle shared resume
    | failActive id after =>
      dsimp only [next,nextFlush,effect] at hkept ⊢
      split
      · rfl
      · rename_i hactive
        rw [if_neg hactive] at hkept
        cases hkept
    | _ =>
      dsimp only [next,nextFlush,popNext,pushAudio]
      (repeat' split) <;> rfl
  | resetToIdle resume => cases hkept
  | worker point =>
    cases point <;> dsimp only [next,nextWorker,pushAudio] <;> (repeat' split) <;> rfl
  | shutdown point =>
    cases point <;> dsimp only [next,nextShutdown] <;> (repeat' split) <;> rfl
  | _ =>
    dsimp only [next,injectLocked]
    (repeat' split) <;> rfl

/-- An install leaves no text. -/
theorem latest_install (oracle : Oracle) {shared : Shared} {pc : Pc} {id : ℕ}
    (h : effect shared pc=.install id) : (next oracle shared pc).1.latestFinalText="" := by
  obtain ⟨call,backend,_,hnext⟩ := ControllerStart.returns_of_install oracle h
  rw [hnext]
  rfl

/-- Neither does a reset. -/
theorem latest_reset (oracle : Oracle) {shared : Shared} {pc : Pc}
    (h : effect shared pc=.reset) : (next oracle shared pc).1.latestFinalText="" := by
  cases origin_of_effect h with
  | reset => rfl

/-- Only the active session is polled, and a poll changes nothing else. -/
theorem active_of_polls {oracle : Oracle} {shared : Shared} {pc : Pc} {id : ℕ}
    {events : List RecognitionEvent} (h : polls oracle shared pc=some (id,events)) :
    shared.active=some id ∧ effect shared pc=.keep ∧ (hasError events=true →
      failing (next oracle shared pc).2=some id) := by
  unfold polls at h
  split at h
  · split at h
    · cases h
    · rename_i resume found hactive
      split at h
      · cases h
      · rename_i hrecording
        obtain ⟨rfl,rfl⟩ := Prod.mk.inj (Option.some.inj h)
        refine ⟨hactive,rfl,fun herror => ?_⟩
        obtain ⟨failure,hfailure⟩ := Option.isSome_iff_exists.mp
          (pollFailure_of_hasError herror oracle.asyncFailure)
        dsimp only [next,nextFlush]
        rw [hactive]
        dsimp only
        rw [if_neg hrecording,hfailure]
        rfl
  · cases h

/-- A worker has an order in hand because it took it from the slot, or
because it goes on with it. -/
theorem inHand_next {oracle : Oracle} {shared : Shared} {pc : Pc} {order : RecognitionOrder}
    {id : ℕ} (h : inHand (next oracle shared pc).2=some order) (hsession : order.session=some id) :
    shared.currentOrder=.queued order ∨ ∃ before, inHand pc=some before ∧
      before.session=some id ∧ order.postprocessRequest=before.postprocessRequest := by
  have hsome : (inHand (next oracle shared pc).2).isSome=true := by
    rw [h]
    rfl
  have hworker : routine pc=.worker := by
    refine routine_of_next (fun pc => (inHand pc).isSome) ?_ ?_ hsome
    · intro pc hhand
      cases pc <;> first | rfl | cases hhand
    · intro pc hhand
      cases pc with
      | worker point => cases point <;> first | rfl | cases hhand
      | _ => cases hhand
  cases pc with
  | worker point =>
    cases point with
    | wait =>
      dsimp only [next,nextWorker] at h
      cases hslot : shared.currentOrder with
      | queued queued =>
        rw [hslot] at h
        obtain rfl := Option.some.inj h
        exact .inl rfl
      | movedFrom =>
        rw [hslot] at h
        obtain rfl := Option.some.inj h
        cases hsession
      | empty =>
        rw [hslot] at h
        dsimp only at h
        split at h <;> cases h
    | push before =>
      refine .inr ⟨before,rfl,?_⟩
      dsimp only [next,nextWorker] at h
      split at h
      · cases h
      · split at h
        · cases h
        · split at h
          · obtain rfl := Option.some.inj h
            exact ⟨hsession,rfl⟩
          · dsimp only at h
            split at h
            · obtain rfl := Option.some.inj h
              exact ⟨hsession,rfl⟩
            · cases h
    | _ =>
      dsimp only [next,nextWorker] at h
      (repeat' split at h) <;> cases h
  | _ => cases hworker

/-- The order of a stop carries the session and its latest text. -/
theorem order_of_submit {shared : Shared} {pc : Pc} {order : RecognitionOrder}
    (h : effect shared pc=.submit order) : order.session=shared.active ∧
      shared.active≠none ∧ order.postprocessRequest.text=shared.latestFinalText := by
  obtain ⟨ime,sceneId,pcm,_,hsubmit⟩ := ControllerCancel.pc_of_submit h
  unfold submitEffect at hsubmit
  cases hactive : shared.active with
  | none =>
    rw [hactive] at hsubmit
    cases hsubmit
  | some id =>
    rw [hactive] at hsubmit
    dsimp only at hsubmit
    split at hsubmit
    · cases hsubmit
    · cases hsubmit
      exact ⟨rfl,Option.some_ne_none id,rfl⟩

/-- An order is in the slot because it was there, or because it has just
been put there. -/
theorem slot_next {oracle : Oracle} {shared : Shared} {pc : Pc} {order : RecognitionOrder} {id : ℕ}
    (h : (next oracle shared pc).1.currentOrder=.queued order) (hsession : order.session=some id) :
    shared.currentOrder=.queued order ∨ effect shared pc=.submit order := by
  have hslot := (congrArg Core.slot (core_next oracle shared pc)).symm.trans h
  cases heffect : effect shared pc with
  | submit other =>
    rw [heffect] at hslot
    cases hslot
    exact .inr rfl
  | inject other =>
    rw [heffect] at hslot
    cases hslot
    rw [session_of_inject heffect] at hsession
    cases hsession
  | _ =>
    rw [heffect] at hslot
    first | exact .inl hslot | cases hslot

end Steps

section Histories

/-- What sessions have reported, and how far they have come. -/
structure TextHistory where
  /-- Events polled from each session while it recorded. -/
  events : ℕ → List RecognitionEvent := fun _ => []
  /-- Sessions that have been installed. -/
  installed : ℕ → Bool := fun _ => false
  /-- Sessions that a stop has submitted. -/
  submitted : ℕ → Bool := fun _ => false

/-- Events of all sessions after a step. -/
def eventsAfter (events : ℕ → List RecognitionEvent) :
    Option (ℕ×List RecognitionEvent) → ℕ → List RecognitionEvent
  | some (id,polled) => Function.update events id (events id++polled)
  | none => events

/-- Sessions that have been installed after an effect. -/
def textInstalled (installed : ℕ → Bool) : Effect → ℕ → Bool
  | .install id => Function.update installed id true
  | _ => installed

/-- Sessions that have been submitted after an effect. -/
def textSubmitted (active : Option ℕ) (submitted : ℕ → Bool) : Effect → ℕ → Bool
  | .submit _ => fun id => submitted id || decide (active=some id)
  | _ => submitted

/-- The history reads every poll and every effect. -/
def observeText (history : TextHistory) (pool : System) (label : ℕ×Oracle) : TextHistory :=
  let pc := pool.pcs label.1
  {events := eventsAfter history.events (polls label.2 pool.shared pc)
   installed := textInstalled history.installed (effect pool.shared pc)
   submitted := textSubmitted pool.shared.active history.submitted (effect pool.shared pc)}

/-- What goes to post-processing when the worker finishes a session: the text
of the last final event of all, or nothing if anything failed. -/
structure TextSubmitted (pair : System×TextHistory) (label : ℕ×Oracle) : Prop where
  /-- The text of the last final event. -/
  text : ∀ order id, pair.1.pcs label.1=.worker (.finish order) → order.session=some id →
    Spoken (pair.2.events id++label.2.events) →
    hasError (pair.2.events id++label.2.events)=false → label.2.finished=true →
    label.2.throws=false → ∃ submitted,
      (next label.2 pair.1.shared (pair.1.pcs label.1)).2=.worker (.arm submitted) ∧
        submitted.postprocessRequest.text=lastFinalText (pair.2.events id++label.2.events)
  /-- Nothing after an error. -/
  withheld : ∀ order id, pair.1.pcs label.1=.worker (.finish order) → order.session=some id →
    hasError (pair.2.events id++label.2.events)=true ∨ label.2.finished=false →
    ∀ submitted, (next label.2 pair.1.shared (pair.1.pcs label.1)).2≠.worker (.arm submitted)

/-- No reset forgets the text of an active session, and no stop submits a
session between a poll that failed and its failure. -/
def textApart (pool : System) (label : ℕ×Oracle) : Prop :=
  match effect pool.shared (pool.pcs label.1) with
  | .reset => pool.shared.active=none ∨ pool.shared.latestFinalText=""
  | .submit _ => ∀ t, failing (pool.pcs t)≠pool.shared.active
  | _ => True

/-- What an order carries of its session. -/
structure Carried (history : TextHistory) (order : RecognitionOrder) (id : ℕ) : Prop where
  submitted : history.submitted id=true
  text : order.postprocessRequest.text=applyRecognitionEvents "" (history.events id)
  sound : hasError (history.events id)=false

/-- Invariant of the texts. -/
structure TextInv (pair : System×TextHistory) : Prop where
  /-- A session about to be installed is a new one. -/
  fresh : ∀ t id, installing (pair.1.pcs t)=some id →
    id<pair.1.shared.sessions ∧ pair.2.installed id=false
  /-- No two threads are about to install one session. -/
  distinct : ∀ t u id, t≠u → installing (pair.1.pcs t)=some id →
    installing (pair.1.pcs u)≠some id
  /-- Installed sessions have been created. -/
  known : ∀ id, pair.2.installed id=true → id<pair.1.shared.sessions
  /-- A session that was never installed has reported nothing. -/
  unheard : ∀ id, pair.2.installed id=false → pair.2.events id=[] ∧ pair.2.submitted id=false
  /-- The active session is installed and not submitted. -/
  active : ∀ id, pair.1.shared.active=some id →
    pair.2.installed id=true ∧ pair.2.submitted id=false
  /-- The latest text is that of the active session. -/
  latest : ∀ id, pair.1.shared.active=some id →
    pair.1.shared.latestFinalText=applyRecognitionEvents "" (pair.2.events id)
  /-- A session with an error is about to be failed. -/
  failed : ∀ id, pair.1.shared.active=some id → hasError (pair.2.events id)=true →
    ∃ t, failing (pair.1.pcs t)=some id
  /-- A queued order carries its session's text. -/
  queued : ∀ order id, pair.1.shared.currentOrder=.queued order → order.session=some id →
    Carried pair.2 order id
  /-- So does an order in the hands of the worker. -/
  held : ∀ t order id, inHand (pair.1.pcs t)=some order → order.session=some id →
    Carried pair.2 order id

end Histories

section Invariant

variable {pool : System} {history : TextHistory} {thread : ℕ} {oracle : Oracle}

/-- A poll of another session adds no events. -/
theorem eventsAfter_of_ne {events : ℕ → List RecognitionEvent}
    {polled : Option (ℕ×List RecognitionEvent)} {id : ℕ}
    (h : ∀ batch, polled≠some (id,batch)) : eventsAfter events polled id=events id := by
  cases polled with
  | none => rfl
  | some pair =>
    obtain ⟨other,batch⟩ := pair
    refine Function.update_of_ne ?_ _ events
    rintro rfl
    exact h batch rfl

/-- Steps with an effect poll nothing. -/
theorem events_of_effect {pc : Pc} (h : effect pool.shared pc≠.keep) (oracle : Oracle) (id : ℕ) :
    eventsAfter history.events (polls oracle pool.shared pc) id=history.events id :=
  eventsAfter_of_ne fun _ hpolls => h (active_of_polls hpolls).2.1

/-- A session is installed by its install only. -/
theorem installed_after {installed : ℕ → Bool} {change : Effect} {id : ℕ} :
    textInstalled installed change id=true ↔ installed id=true ∨ change=.install id := by
  cases change with
  | install other =>
    dsimp only [textInstalled]
    by_cases hid : id=other
    · subst hid
      simp
    · rw [Function.update_of_ne hid]
      constructor
      · exact .inl
      · rintro (hbefore | hinstall)
        · exact hbefore
        · injection hinstall with hsame
          exact absurd hsame.symm hid
  | _ => simp [textInstalled]

theorem submitted_mono {active : Option ℕ} {submitted : ℕ → Bool} {id : ℕ} (change : Effect)
    (h : submitted id=true) : textSubmitted active submitted change id=true := by
  cases change with
  | submit order => exact Bool.or_eq_true_iff.mpr (.inl h)
  | _ => exact h

/-- A session is submitted while it is active. -/
theorem submitted_after {active : Option ℕ} {submitted : ℕ → Bool} {change : Effect} {id : ℕ}
    (h : textSubmitted active submitted change id=true) : submitted id=true ∨
      active=some id ∧ ∃ order, change=.submit order := by
  cases change with
  | submit order =>
    rcases Bool.or_eq_true_iff.mp h with hbefore | hactive
    · exact .inl hbefore
    · exact .inr ⟨of_decide_eq_true hactive,order,rfl⟩
  | _ => exact .inl h

/-- A session that is installed was not installed before. -/
theorem fresh_of_install (inv : TextInv (pool,history)) {id : ℕ}
    (h : effect pool.shared (pool.pcs thread)=.install id) :
    id<pool.shared.sessions ∧ history.installed id=false := by
  obtain ⟨call,backend,hpc,_⟩ := ControllerStart.returns_of_install {} h
  refine inv.fresh thread id ?_
  dsimp only
  rw [hpc]
  rfl

theorem fresh_step (inv : TextInv (pool,history)) :
    ∀ t id, installing ((machine pool (thread,oracle)).pcs t)=some id →
      id<(machine pool (thread,oracle)).shared.sessions ∧
        (observeText history pool (thread,oracle)).installed id=false := by
  intro t id hinstalling
  rw [Pool.step_shared]
  dsimp only
  by_cases hself : t=thread
  · subst hself
    rw [Pool.step_pcs_self] at hinstalling
    obtain ⟨hid,hsessions⟩ := installing_next hinstalling
    refine ⟨by omega,Bool.eq_false_of_not_eq_true fun hinstalled => ?_⟩
    rcases installed_after.mp hinstalled with hbefore | heffect
    · have hknown := inv.known id hbefore
      dsimp only at hknown
      omega
    · obtain ⟨call,backend,_,hnext⟩ := ControllerStart.returns_of_install oracle heffect
      rw [hnext] at hinstalling
      cases hinstalling
  · rw [Pool.step_pcs_of_ne hself] at hinstalling
    obtain ⟨hlt,hfresh⟩ := inv.fresh t id hinstalling
    refine ⟨lt_of_lt_of_le hlt (sessions_next oracle pool.shared (pool.pcs thread)),
      Bool.eq_false_of_not_eq_true fun hinstalled => ?_⟩
    rcases installed_after.mp hinstalled with hbefore | heffect
    · exact Bool.false_ne_true (hfresh.symm.trans hbefore)
    · obtain ⟨call,backend,hpc,_⟩ := ControllerStart.returns_of_install oracle heffect
      refine inv.distinct t thread id hself hinstalling ?_
      dsimp only at hpc ⊢
      rw [hpc]
      rfl

/-- A new number is not one that a thread already has. -/
theorem distinct_step (inv : TextInv (pool,history)) :
    ∀ t u id, t≠u → installing ((machine pool (thread,oracle)).pcs t)=some id →
      installing ((machine pool (thread,oracle)).pcs u)≠some id := by
  have hnew : ∀ t id, t≠thread → installing (next oracle pool.shared (pool.pcs thread)).2=some id →
      installing (pool.pcs t)≠some id := by
    intro t id _ hself hother
    have hid := (installing_next hself).1
    have hlt := (inv.fresh t id hother).1
    dsimp only at hlt
    omega
  intro t u id hne ht hu
  by_cases hself : t=thread
  · subst hself
    rw [Pool.step_pcs_self] at ht
    rw [Pool.step_pcs_of_ne (Ne.symm hne)] at hu
    exact hnew u id (Ne.symm hne) ht hu
  · rw [Pool.step_pcs_of_ne hself] at ht
    by_cases hself : u=thread
    · subst hself
      rw [Pool.step_pcs_self] at hu
      exact hnew t id hne hu ht
    · rw [Pool.step_pcs_of_ne hself] at hu
      exact inv.distinct t u id hne ht hu

theorem known_step (inv : TextInv (pool,history)) :
    ∀ id, (observeText history pool (thread,oracle)).installed id=true →
      id<(machine pool (thread,oracle)).shared.sessions := by
  intro id hinstalled
  refine lt_of_lt_of_le ?_ (sessions_next oracle pool.shared (pool.pcs thread))
  rcases installed_after.mp hinstalled with hbefore | heffect
  · exact inv.known id hbefore
  · exact (fresh_of_install inv heffect).1

/-- Before its install a session has no events. -/
theorem unheard_step (inv : TextInv (pool,history)) :
    ∀ id, (observeText history pool (thread,oracle)).installed id=false →
      (observeText history pool (thread,oracle)).events id=[] ∧
        (observeText history pool (thread,oracle)).submitted id=false := by
  intro id hnever
  have hbefore : history.installed id=false := by
    refine Bool.eq_false_of_not_eq_true fun hinstalled => ?_
    exact Bool.false_ne_true (hnever.symm.trans (installed_after.mpr (.inl hinstalled)))
  have hinactive : pool.shared.active≠some id := fun hactive =>
    Bool.false_ne_true (hbefore.symm.trans (inv.active id hactive).1)
  obtain ⟨hevents,hsubmitted⟩ := inv.unheard id hbefore
  constructor
  · rw [← hevents]
    exact eventsAfter_of_ne fun _ hpolls => hinactive (active_of_polls hpolls).1
  · refine Bool.eq_false_of_not_eq_true fun hafter => ?_
    rcases submitted_after hafter with hearlier | ⟨hactive,_⟩
    · exact Bool.false_ne_true (hsubmitted.symm.trans hearlier)
    · exact hinactive hactive

/-- The active session is installed and not submitted. -/
theorem active_step (inv : TextInv (pool,history)) :
    ∀ id, (machine pool (thread,oracle)).shared.active=some id →
      (observeText history pool (thread,oracle)).installed id=true ∧
        (observeText history pool (thread,oracle)).submitted id=false := by
  intro id hactive
  have hcore := (congrArg Core.active
    (core_next oracle pool.shared (pool.pcs thread))).symm.trans hactive
  rcases active_next hactive with hbefore | heffect
  · obtain ⟨hinstalled,hsubmitted⟩ := inv.active id hbefore
    refine ⟨installed_after.mpr (.inl hinstalled),Bool.eq_false_of_not_eq_true fun hafter => ?_⟩
    rcases submitted_after hafter with hearlier | ⟨_,order,heffect⟩
    · exact Bool.false_ne_true (hsubmitted.symm.trans hearlier)
    · dsimp only at heffect
      rw [heffect] at hcore
      cases hcore
  · refine ⟨installed_after.mpr (.inr heffect),?_⟩
    have hsubmitted := (inv.unheard id (fresh_of_install inv heffect).2).2
    dsimp only [observeText]
    rw [heffect]
    exact hsubmitted

/-- What is not polled keeps what an order carries. -/
theorem Carried.step (inv : TextInv (pool,history)) {order : RecognitionOrder} {id : ℕ}
    (h : Carried history order id) :
    Carried (observeText history pool (thread,oracle)) order id := by
  have hsame : (observeText history pool (thread,oracle)).events id=history.events id := by
    refine eventsAfter_of_ne fun _ hpolls => ?_
    have hsubmitted := (inv.active id (active_of_polls hpolls).1).2
    exact Bool.false_ne_true (hsubmitted.symm.trans h.submitted)
  refine ⟨submitted_mono _ h.submitted,?_,?_⟩
  · rw [hsame]
    exact h.text
  · rw [hsame]
    exact h.sound

/-- In a guarded step the latest text is that of the events of the active session. -/
theorem latest_step (inv : TextInv (pool,history))
    (guarded : textApart pool (thread,oracle)) :
    ∀ id, (machine pool (thread,oracle)).shared.active=some id →
      (machine pool (thread,oracle)).shared.latestFinalText=
        applyRecognitionEvents "" ((observeText history pool (thread,oracle)).events id) := by
  intro id hactive
  rw [Pool.step_shared] at hactive ⊢
  show _=applyRecognitionEvents ""
    (eventsAfter history.events (polls oracle pool.shared (pool.pcs thread)) id)
  dsimp only at hactive ⊢
  rcases active_next hactive with hbefore | heffect
  · have hlatest := inv.latest id hbefore
    dsimp only at hlatest
    by_cases hforgets : forgets (effect pool.shared (pool.pcs thread))=true
    · have hcore := (congrArg Core.active
        (core_next oracle pool.shared (pool.pcs thread))).symm.trans hactive
      unfold textApart at guarded
      dsimp only at guarded
      cases heffect : effect pool.shared (pool.pcs thread) with
      | install other =>
        rw [heffect] at hcore
        obtain rfl := Option.some.inj hcore
        have hinstalled := (inv.active other hbefore).1
        exact absurd ((fresh_of_install inv heffect).2.symm.trans hinstalled) Bool.false_ne_true
      | reset =>
        rw [heffect] at guarded
        have hempty := guarded.resolve_left fun hnone => by rw [hnone] at hbefore; cases hbefore
        have hreset : effect pool.shared (pool.pcs thread)≠.keep := by
          rw [heffect]
          exact fun h => Effect.noConfusion h
        rw [latest_reset oracle heffect,events_of_effect hreset,← hlatest,hempty]
      | discard =>
        rw [heffect] at hcore
        cases hcore
      | cancel =>
        rw [heffect] at hcore
        cases hcore
      | fail =>
        rw [heffect] at hcore
        cases hcore
      | _ =>
        rw [heffect] at hforgets
        cases hforgets
    · rw [latest_next oracle pool.shared (pool.pcs thread) (Bool.eq_false_of_not_eq_true hforgets),
        hlatest,← applyRecognitionEvents_append]
      cases hpolls : polls oracle pool.shared (pool.pcs thread) with
      | none => exact congrArg (applyRecognitionEvents "") (List.append_nil _)
      | some pair =>
        obtain ⟨other,batch⟩ := pair
        obtain rfl := Option.some.inj ((active_of_polls hpolls).1.symm.trans hbefore)
        dsimp only [eventsAfter]
        rw [Function.update_self]
        rfl
  · have hinstall : effect pool.shared (pool.pcs thread)≠.keep := by
      rw [heffect]
      exact fun h => Effect.noConfusion h
    rw [latest_install oracle heffect,events_of_effect hinstall,
      (inv.unheard id (fresh_of_install inv heffect).2).1]
    rfl

/-- A thread that is about to fail the active session does so. -/
theorem effect_of_failing {shared : Shared} {pc : Pc} {id : ℕ} (h : failing pc=some id)
    (hactive : shared.active=some id) : effect shared pc=.fail := by
  unfold failing at h
  split at h
  · obtain rfl := Option.some.inj h
    exact if_neg fun hother => hother hactive
  · cases h

/-- A session with an error is being failed by some thread. -/
theorem failed_step (inv : TextInv (pool,history)) :
    ∀ id, (machine pool (thread,oracle)).shared.active=some id →
      hasError ((observeText history pool (thread,oracle)).events id)=true →
        ∃ t, failing ((machine pool (thread,oracle)).pcs t)=some id := by
  intro id hactive herror
  have hcore := (congrArg Core.active
    (core_next oracle pool.shared (pool.pcs thread))).symm.trans hactive
  have hearlier : pool.shared.active=some id → hasError (history.events id)=true →
      ∃ t, failing ((machine pool (thread,oracle)).pcs t)=some id := by
    intro hbefore hold
    obtain ⟨t,ht⟩ := inv.failed id hbefore hold
    refine ⟨t,?_⟩
    rw [Pool.step_pcs_of_ne]
    · exact ht
    · rintro rfl
      rw [effect_of_failing ht hbefore] at hcore
      cases hcore
  have hevents : (observeText history pool (thread,oracle)).events id=
    eventsAfter history.events (polls oracle pool.shared (pool.pcs thread)) id := rfl
  rw [hevents] at herror
  rcases active_next hactive with hbefore | heffect
  · cases hpolls : polls oracle pool.shared (pool.pcs thread) with
    | none =>
      rw [hpolls] at herror
      exact hearlier hbefore herror
    | some pair =>
      obtain ⟨other,batch⟩ := pair
      obtain ⟨hother,_,hfailing⟩ := active_of_polls hpolls
      obtain rfl := Option.some.inj (hother.symm.trans hbefore)
      rw [hpolls] at herror
      dsimp only [eventsAfter] at herror
      rw [Function.update_self,hasError_append] at herror
      rcases Bool.or_eq_true_iff.mp herror with hold | hnew
      · exact hearlier hbefore hold
      · refine ⟨thread,?_⟩
        rw [Pool.step_pcs_self]
        exact hfailing hnew
  · have hinstall : effect pool.shared (pool.pcs thread)≠.keep := by
      rw [heffect]
      exact fun h => Effect.noConfusion h
    rw [events_of_effect hinstall,(inv.unheard id (fresh_of_install inv heffect).2).1] at herror
    cases herror

/-- In a guarded step a queued order carries the text of its session. -/
theorem queued_step (inv : TextInv (pool,history))
    (guarded : textApart pool (thread,oracle)) :
    ∀ order id, (machine pool (thread,oracle)).shared.currentOrder=.queued order →
      order.session=some id → Carried (observeText history pool (thread,oracle)) order id := by
  intro order id hslot hsession
  rcases slot_next hslot hsession with hbefore | heffect
  · exact (inv.queued order id hbefore hsession).step inv
  · obtain ⟨horder,_,htext⟩ := order_of_submit heffect
    have hactive : pool.shared.active=some id := horder.symm.trans hsession
    have hsubmit : effect pool.shared (pool.pcs thread)≠.keep := by
      dsimp only at heffect
      rw [heffect]
      exact fun h => Effect.noConfusion h
    have hevents : (observeText history pool (thread,oracle)).events id=history.events id :=
      events_of_effect hsubmit oracle id
    unfold textApart at guarded
    dsimp only at guarded heffect
    rw [heffect] at guarded
    refine ⟨?_,?_,?_⟩
    · dsimp only [observeText]
      rw [heffect]
      exact Bool.or_eq_true_iff.mpr (.inr (decide_eq_true hactive))
    · rw [hevents]
      exact htext.trans (inv.latest id hactive)
    · rw [hevents]
      refine Bool.eq_false_of_not_eq_true fun herror => ?_
      obtain ⟨t,ht⟩ := inv.failed id hactive herror
      exact guarded t (ht.trans hactive.symm)

theorem held_step (inv : TextInv (pool,history)) :
    ∀ t order id, inHand ((machine pool (thread,oracle)).pcs t)=some order →
      order.session=some id → Carried (observeText history pool (thread,oracle)) order id := by
  intro t order id hhand hsession
  by_cases hself : t=thread
  · subst hself
    rw [Pool.step_pcs_self] at hhand
    rcases inHand_next hhand hsession with hslot | ⟨before,hbefore,hsame,hrequest⟩
    · exact (inv.queued order id hslot hsession).step inv
    · have hcarried : Carried (observeText history pool (t,oracle)) before id :=
        (inv.held t before id hbefore hsame).step inv
      exact ⟨hcarried.submitted,(congrArg _ hrequest).trans hcarried.text,hcarried.sound⟩
  · rw [Pool.step_pcs_of_ne hself] at hhand
    exact (inv.held t order id hhand hsession).step inv

/-- Every step that keeps apart keeps the invariant. -/
theorem machine_texts (pair : System×TextHistory) (label : ℕ×Oracle) (inv : TextInv pair)
    (guarded : textApart pair.1 label) : TextInv (observed machine observeText pair label) := by
  obtain ⟨pool,history⟩ := pair
  obtain ⟨thread,oracle⟩ := label
  exact
    {fresh := fresh_step inv
     distinct := distinct_step inv
     known := known_step inv
     unheard := unheard_step inv
     active := active_step inv
     latest := latest_step inv guarded
     failed := failed_step inv
     queued := queued_step inv guarded
     held := held_step inv}

/-- Nothing has happened at startup. -/
theorem startup_texts : TextInv (startup,{}) := by
  have hquiet : ∀ t, installing (startup.pcs t)=none ∧ inHand (startup.pcs t)=none := by
    intro t
    by_cases ht : t=0
    · subst ht
      exact ⟨rfl,rfl⟩
    · rw [startup_pcs ht]
      exact ⟨rfl,rfl⟩
  refine ⟨?_,?_,?_,fun _ _ => ⟨rfl,rfl⟩,?_,?_,?_,?_,?_⟩
  · intro t id h
    rw [(hquiet t).1] at h
    cases h
  · intro t u id _ h
    rw [(hquiet t).1] at h
    cases h
  · intro id h
    cases h
  · intro id h
    cases h
  · intro id h
    cases h
  · intro id h
    cases h
  · intro order id h
    cases h
  · intro t order id h
    rw [(hquiet t).2] at h
    cases h

/-- What the worker does with a session it finishes. -/
theorem submitted_of_inv {pair : System×TextHistory} {label : ℕ×Oracle} (inv : TextInv pair) :
    TextSubmitted pair label := by
  obtain ⟨pool,history⟩ := pair
  obtain ⟨thread,oracle⟩ := label
  have hcarried : ∀ order id, pool.pcs thread=.worker (.finish order) → order.session=some id →
      Carried history order id := by
    intro order id hpc hsession
    refine inv.held thread order id ?_ hsession
    dsimp only
    rw [hpc]
    rfl
  constructor
  · intro order id hpc hsession hspoken herror hfinished hthrows
    have carried := hcarried order id hpc hsession
    obtain ⟨hbefore,hlast⟩ := spoken_append.mp hspoken
    dsimp only at hpc hlast herror hfinished hthrows ⊢
    rw [hasError_append,carried.sound,Bool.false_or] at herror
    have hresult : finishSessionAndCollectResult oracle.finished oracle.finishError oracle.events=
        oracle.events.foldl collectEvent {} := by
      rw [hfinished]
      rfl
    have hok : (oracle.events.foldl collectEvent {}).ok=true := by
      rw [collect_failed,herror]
      rfl
    have hnone : (oracle.events.foldl collectEvent {}).error="" := collect_error herror {}
    refine ⟨finishedOrder (oracle.events.foldl collectEvent {}) order,?_,
      finished_text hbefore hlast rfl carried.text⟩
    rw [hpc]
    dsimp only [next,nextWorker]
    rw [hthrows,if_neg Bool.false_ne_true,hresult,hok]
    refine if_neg ?_
    simp [hnone]
  · intro order id hpc hsession hfailed submitted
    have carried := hcarried order id hpc hsession
    dsimp only at hpc hfailed ⊢
    have hok : (finishSessionAndCollectResult oracle.finished oracle.finishError
        oracle.events).ok=false := by
      unfold finishSessionAndCollectResult
      dsimp only
      rw [collect_failed]
      rcases hfailed with herror | hfinish
      · rw [hasError_append,carried.sound,Bool.false_or] at herror
        rw [herror]
        exact Bool.and_false _
      · rw [hfinish]
        rfl
    rw [hpc]
    dsimp only [next,nextWorker]
    rw [hok]
    split
    · exact fun h => by cases h
    · exact fun h => by cases h

end Invariant

section Runs

/-- As long as no reset forgets the text of an active session and no stop
submits a session whose failure has been polled, the text that goes to
post-processing does not depend on how the events were polled. -/
theorem text_submitted_of_apart_run (schedule : List (ℕ×Oracle))
    (guarded : Along machine textApart startup schedule) :
    Along (observed machine observeText) TextSubmitted (startup,{}) schedule := by
  have watched : Along (observed machine observeText)
      (fun pair label => textApart pair.1 label) (startup,{}) schedule :=
    (along_observed textApart).mpr guarded
  exact watched.everyStep machine_texts (fun _ _ inv _ => submitted_of_inv inv) startup_texts

/-- A finished session with a sound history has the text of its last event. -/
def submitsLast (pair : System×TextHistory) (label : ℕ×Oracle) : Bool :=
  match pair.1.pcs label.1 with
  | .worker (.finish order) =>
    match order.session with
    | some id =>
      let events := pair.2.events id++label.2.events
      !(decide (Spoken events) && !hasError events && label.2.finished && !label.2.throws) ||
        match (next label.2 pair.1.shared (pair.1.pcs label.1)).2 with
        | .worker (.arm submitted) =>
          decide (submitted.postprocessRequest.text=lastFinalText events)
        | _ => false
    | none => true
  | _ => true

/-- An order with the last text of its session passes the test. -/
theorem submitsLast_of_submitted {pair : System×TextHistory} {label : ℕ×Oracle}
    (h : TextSubmitted pair label) : submitsLast pair label=true := by
  unfold submitsLast
  split
  · rename_i order hpc
    split
    · rename_i id hsession
      refine Bool.or_eq_true_iff.mpr (or_iff_not_imp_left.mpr fun hsound => ?_)
      simp only [Bool.not_eq_true',Bool.not_eq_false,Bool.and_eq_true,decide_eq_true_eq] at hsound
      obtain ⟨⟨⟨hspoken,herror⟩,hfinished⟩,hthrows⟩ := hsound
      obtain ⟨submitted,hnext,htext⟩ := h.text order id hpc hsession hspoken herror hfinished hthrows
      rw [hnext]
      exact decide_eq_true htext
    · rfl
  · rfl

/-- A session reports a text while it records. -/
def pollsHello : List (ℕ×Oracle) :=
  arrives 3 .flushDeferredActions::goesOn 3 3++(3,{events := ControllerCancel.heard})::goesOn 3 1

/-- A text is polled and a stop accepted while the worker ends an injected
text; its reset comes before the stop submits. -/
def submitAfterForgetting : List (ℕ×Oracle) :=
  arrives 1 injectCall::goesOn 1 1++goesOn 0 2++arrives 2 startCall::goesOn 2 8++pollsHello++
    arrives 2 (.stopRecording true "")::goesOn 2 3++goesOn 0 6++goesOn 2 1++goesOn 0 5

/-- The recognized text can be lost: the reset that ends the injected text
forgets it, and the order of the stop carries nothing. -/
theorem polled_text_lost :
    ¬∀ schedule : List (ℕ×Oracle),
      Along (observed machine observeText) TextSubmitted (startup,{}) schedule := by
  intro h
  have hlast := (h submitAfterForgetting).mono fun _ _ => submitsLast_of_submitted
  exact absurd hlast (by decide +kernel)

/-- A text is polled, and the last batch has another one. -/
def polledRecording : List (ℕ×Oracle) :=
  arrives 1 startCall::goesOn 1 8++pollsHello++arrives 2 ControllerCancel.captured::
    arrives 1 (.stopRecording true "")::goesOn 1 5++goesOn 0 3++
    [(0,{events := [{kind := .partialText,text := "hello w"},
      {kind := .finalText,text := "hello world"}]})]

/-- What a step needs to keep apart from a few threads. -/
def apartBelow (bound : ℕ) (pool : System) (label : ℕ×Oracle) : Bool :=
  match effect pool.shared (pool.pcs label.1) with
  | .reset => decide (pool.shared.active=none ∨ pool.shared.latestFinalText="")
  | .submit _ => decide (pool.shared.active≠none) &&
      (List.range bound).all fun t => decide (failing (pool.pcs t)≠pool.shared.active)
  | _ => true

/-- The guard only has to be tested at threads that run. -/
theorem textApart_of_below {bound : ℕ} {pool : System} {label : ℕ×Oracle}
    (hquiet : ∀ t, bound≤t → pool.pcs t=.ready none) (h : apartBelow bound pool label=true) :
    textApart pool label := by
  unfold apartBelow at h
  unfold textApart
  cases heffect : effect pool.shared (pool.pcs label.1) with
  | reset =>
    rw [heffect] at h
    exact of_decide_eq_true h
  | submit order =>
    rw [heffect] at h
    obtain ⟨hactive,hbelow⟩ := Bool.and_eq_true_iff.mp h
    intro t
    by_cases ht : t<bound
    · exact of_decide_eq_true (List.all_eq_true.mp hbelow t (List.mem_range.mpr ht))
    · rw [hquiet t (by omega)]
      exact (of_decide_eq_true hactive).symm
  | _ => trivial

/-- The text of the last batch is the one that is submitted. -/
theorem text_submitted_after_poll :
    Along (observed machine observeText) TextSubmitted (startup,{}) polledRecording := by
  have hguard : Along (observed machine observeText)
      (fun pair label => textApart pair.1 label) (startup,{}) polledRecording :=
    Pool.along_bounded 4 (.ready none) (fun pair label => apartBelow 4 pair.1 label=true)
      (fun _ _ => textApart_of_below) (by decide) (fun t ht => startup_pcs (by omega))
      (by decide +kernel)
  exact text_submitted_of_apart_run polledRecording ((along_observed textApart).mp hguard)

end Runs

end Vinput.ControllerText
