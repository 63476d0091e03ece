import Vinput.ControllerCore

/-!
# Starts that are cancelled

The mark of a start in progress is one boolean, released and read again
around the opening of the capture and the creation of the session. A start
that is cancelled stays so as long as it does not reach its closing region
while a later start is still between its acceptance and its own closing
region: the mark found there would be the later one.
-/

namespace Vinput.ControllerStart

open InterleavedRuns RuntimePhases RuntimeController ControllerCore

/-- Points of a start between setting the mark and the region that gives it
up. -/
def markedPoint : StartPoint → Bool
  | .drain => true
  | .arm => true
  | .armNew => true
  | .armed _ => true
  | .failed _ => true
  | .session => true
  | .noSession _ => true
  | .noSessionLocked _ => true
  | .install _ _ => true
  | _ => false

/-- Points of a start whose next step is its closing region: it gives up the
mark, whether or not it installs. -/
def closingPoint : StartPoint → Bool
  | .failed _ => true
  | .noSessionLocked _ => true
  | .install _ _ => true
  | _ => false

/-- Points of a start after its acceptance. -/
def acceptedPoint : StartPoint → Bool
  | .enter => false
  | .accept => false
  | _ => true

/-- A thread between the acceptance of its start and its closing region. -/
def startMarked : Pc → Bool
  | .start _ point => markedPoint point
  | _ => false

/-- A thread before the closing region of its start. -/
def startClosing : Pc → Bool
  | .start _ point => closingPoint point
  | _ => false

/-- A thread inside an accepted start. -/
def startAccepted : Pc → Bool
  | .start _ point => acceptedPoint point
  | _ => false

/-- The last call of a thread succeeded. -/
def succeeded : Pc → Bool
  | .ready (some result) => result.ok
  | _ => false

/-- The mark is set after a step because it was before, or because a start
has just been accepted. -/
theorem mark_apply {before : Core} {change : Effect} (h : (change.apply before).mark=true) :
    before.mark=true ∨ change=.mark := by
  cases change with
  | mark => exact .inr rfl
  | unmark => cases h
  | install id => cases h
  | cancel => cases h
  | reset => cases h
  | halt => cases h
  | _ => exact .inl h

/-- The mark is set only in the idle phase. -/
theorem idle_of_mark_apply {before : Core} {change : Effect} (enabled : change.Enabled before)
    (inv : before.mark=true → before.phase=.idle) (h : (change.apply before).mark=true) :
    (change.apply before).phase=.idle := by
  cases change with
  | mark => exact enabled.1
  | submit order =>
    have hidle := inv h
    unfold Effect.apply
    dsimp only
    rw [hidle]
    rfl
  | fail =>
    have hidle := inv h
    unfold Effect.apply
    dsimp only
    rw [hidle]
    rfl
  | postprocess =>
    have hidle := inv h
    rw [enabled] at hidle
    cases hidle
  | abandon => rfl
  | discard => rfl
  | unmark => cases h
  | install id => cases h
  | cancel => cases h
  | reset => cases h
  | halt => cases h
  | _ => exact inv h

/-- A step sets the mark only by accepting a start. -/
theorem mark_next {oracle : Oracle} {shared : Shared} {pc : Pc}
    (h : (next oracle shared pc).1.startRecordingInProgress=true) :
    shared.startRecordingInProgress=true ∨ effect shared pc=.mark := by
  have hmark := congrArg Core.mark (core_next oracle shared pc)
  exact mark_apply (hmark.symm.trans h)

/-- Only the accepting region of a start sets the mark, and its thread goes
on to open the capture. -/
theorem next_of_mark {shared : Shared} {pc : Pc} (oracle : Oracle)
    (h : effect shared pc=.mark) :
    ∃ call, next oracle shared pc=(acceptStartLocked call shared,.start call .drain) := by
  cases origin_of_effect h with
  | @mark call free =>
    refine ⟨call,?_⟩
    simp only [next,nextStart,if_neg free]

/-- A closing region leaves no mark. -/
theorem mark_of_closing {oracle : Oracle} {shared : Shared} {pc : Pc}
    (h : startClosing pc=true) :
    (next oracle shared pc).1.startRecordingInProgress=false := by
  cases pc with
  | start call point =>
    cases point with
    | failed error => rfl
    | noSessionLocked error => rfl
    | install id backend =>
      dsimp only [next,nextStart]
      split
      · rfl
      · rfl
    | _ => cases h
  | _ => cases h

/-- A start keeps its way to the closing region. -/
theorem startMarked_next {oracle : Oracle} {shared : Shared} {pc : Pc}
    (h : startMarked pc=true) :
    startMarked (next oracle shared pc).2=true ∨ startClosing pc=true := by
  cases pc with
  | start call point =>
    cases point with
    | failed error => exact .inr rfl
    | noSessionLocked error => exact .inr rfl
    | install id backend => exact .inr rfl
    | arm =>
      left
      dsimp only [next,nextStart]
      split
      · rfl
      · rfl
    | armed reused =>
      left
      dsimp only [next,nextStart]
      split
      · rfl
      · split
        · rfl
        · rfl
      · rfl
    | session =>
      left
      dsimp only [next,nextStart]
      split
      · rfl
      · rfl
    | drain => exact .inl rfl
    | armNew => exact .inl rfl
    | noSession error => exact .inl rfl
    | _ => cases h
  | _ => cases h

/-- An installation records and gives up the mark. -/
theorem next_of_install {shared : Shared} {pc : Pc} {id : ℕ} (oracle : Oracle)
    (h : effect shared pc=.install id) :
    (next oracle shared pc).1.phase=.recording ∧
      (next oracle shared pc).1.startRecordingInProgress=false := by
  have hcore := core_next oracle shared pc
  rw [h] at hcore
  exact ⟨congrArg Core.phase hcore,congrArg Core.mark hcore⟩

/-- Only the last region of a start installs, and the start returns with
success. -/
theorem returns_of_install {shared : Shared} {pc : Pc} {id : ℕ} (oracle : Oracle)
    (h : effect shared pc=.install id) :
    ∃ call backend, pc=.start call (.install id backend) ∧
      next oracle shared pc=(installLocked call oracle.gain id backend shared,returns success) := by
  cases origin_of_effect h with
  | @install call id backend free =>
    refine ⟨call,backend,rfl,?_⟩
    dsimp only [next,nextStart]
    rw [if_neg free]

/-- Some thread is inside the start that set the mark. -/
theorem startMarked_debt {pool : System} {thread : ℕ} {oracle : Oracle}
    (inv : pool.shared.startRecordingInProgress=true → pool.Some startMarked) :
    (machine pool (thread,oracle)).shared.startRecordingInProgress=true →
      (machine pool (thread,oracle)).Some startMarked := by
  refine Pool.debt_step (fun shared : Shared => shared.startRecordingInProgress=true) inv ?_
  intro hmark
  cases hkind : startMarked (pool.pcs thread) with
  | true =>
    left
    rcases startMarked_next hkind with hnext | hclosing
    · exact hnext
    · exact absurd ((mark_of_closing hclosing).symm.trans hmark) Bool.false_ne_true
  | false =>
    rcases mark_next hmark with hbefore | heffect
    · exact .inr (.inl ⟨hbefore,rfl⟩)
    · left
      obtain ⟨call,hnext⟩ := next_of_mark oracle heffect
      rw [hnext]
      rfl

section History

/-- Whose start set the mark last, and whose start has been cancelled since
it was accepted. -/
structure MarkHistory where
  /-- Thread of the last accepted start. -/
  owner : ℕ := 0
  /-- Threads whose last accepted start has been cancelled. -/
  cancelled : ℕ → Bool := fun _ => false

/-- A start is accepted in this step. -/
def acceptsStart (shared : Shared) : Pc → Bool
  | .start _ .accept => !busyForStart shared
  | _ => false

/-- A cancel takes the mark away in this step. -/
def cancelsStart (shared : Shared) : Pc → Bool
  | .cancel _ _ .enter => shared.startRecordingInProgress
  | _ => false

/-- The history reads accepted and cancelled starts. -/
def observeMarks (history : MarkHistory) (pool : System) (label : ℕ×Oracle) : MarkHistory :=
  if acceptsStart pool.shared (pool.pcs label.1) then
    ⟨label.1,Function.update history.cancelled label.1 false⟩
  else if cancelsStart pool.shared (pool.pcs label.1) then
    {history with cancelled := Function.update history.cancelled history.owner true}
  else history

/-- No cancelled start reaches its closing region while a later start of
another thread is between its acceptance and its closing region. -/
def closesApart (pair : System×MarkHistory) (label : ℕ×Oracle) : Prop :=
  pair.2.cancelled label.1=true → startClosing (pair.1.pcs label.1)=true →
    ∀ other, other≠label.1 → pair.2.cancelled other=false →
      startMarked (pair.1.pcs other)=false

/-- A step of a cancelled start neither installs its session nor returns
success nor takes away the mark it finds. -/
def CancelledStays (pair : System×MarkHistory) (label : ℕ×Oracle) : Prop :=
  pair.2.cancelled label.1=true → startAccepted (pair.1.pcs label.1)=true →
    installs pair.1.shared (pair.1.pcs label.1)=false ∧
    succeeded (next label.2 pair.1.shared (pair.1.pcs label.1)).2=false ∧
    (pair.1.shared.startRecordingInProgress=true →
      (next label.2 pair.1.shared (pair.1.pcs label.1)).1.startRecordingInProgress=true)

instance (pair : System×MarkHistory) (label : ℕ×Oracle) :
    Decidable (CancelledStays pair label) :=
  inferInstanceAs (Decidable (_ → _ → _ ∧ _ ∧ (_ → _)))

/-- The mark belongs to a start that is in progress and not cancelled. -/
def OwnedMark (pair : System×MarkHistory) : Prop :=
  pair.1.shared.startRecordingInProgress=true →
    startMarked (pair.1.pcs pair.2.owner)=true ∧ pair.2.cancelled pair.2.owner=false

/-- An accepting step is the one whose effect is the mark. -/
theorem acceptsStart_of_mark {shared : Shared} {pc : Pc} (h : effect shared pc=.mark) :
    acceptsStart shared pc=true := by
  cases origin_of_effect h with
  | mark free => simp only [acceptsStart,Bool.eq_false_of_not_eq_true free,Bool.not_false]

/-- An accepting step sets the mark. -/
theorem mark_of_acceptsStart {shared : Shared} {pc : Pc} (h : acceptsStart shared pc=true) :
    effect shared pc=.mark := by
  unfold acceptsStart at h
  split at h
  · dsimp only [effect]
    rw [if_neg]
    intro hbusy
    rw [hbusy] at h
    cases h
  · cases h

/-- A cancel leaves no mark. -/
theorem mark_of_cancelsStart {oracle : Oracle} {shared : Shared} {pc : Pc}
    (h : cancelsStart shared pc=true) :
    (next oracle shared pc).1.startRecordingInProgress=false := by
  have hmark := congrArg Core.mark (core_next oracle shared pc)
  unfold cancelsStart at h
  split at h
  · dsimp only [effect] at hmark
    split at hmark
    · exact hmark
    · exact hmark
  · cases h

/-- Every step keeps the mark with a start in progress. No condition on the
schedule is needed. -/
theorem machine_ownedMark (pair : System×MarkHistory) (label : ℕ×Oracle)
    (inv : OwnedMark pair) : OwnedMark (observed machine observeMarks pair label) := by
  obtain ⟨pool,history⟩ := pair
  obtain ⟨thread,oracle⟩ := label
  intro hmark
  dsimp only [observed,observeMarks] at hmark ⊢
  rw [Pool.step_shared] at hmark
  by_cases haccepts : acceptsStart pool.shared (pool.pcs thread)=true
  · rw [if_pos haccepts]
    dsimp only
    obtain ⟨call,hnext⟩ := next_of_mark oracle (mark_of_acceptsStart haccepts)
    rw [Pool.step_pcs_self,Function.update_self,hnext]
    exact ⟨rfl,rfl⟩
  · rw [if_neg haccepts]
    have hbefore : pool.shared.startRecordingInProgress=true := by
      rcases mark_next hmark with hbefore | heffect
      · exact hbefore
      · exact absurd (acceptsStart_of_mark heffect) haccepts
    have hcancels : ¬cancelsStart pool.shared (pool.pcs thread)=true := by
      intro hcancels
      exact Bool.false_ne_true ((mark_of_cancelsStart hcancels).symm.trans hmark)
    rw [if_neg hcancels]
    obtain ⟨hmarked,hfree⟩ := inv hbefore
    refine ⟨?_,hfree⟩
    by_cases howner : history.owner=thread
    · -- The owner itself moves on: only its closing region ends its way.
      rw [howner] at hmarked ⊢
      rw [Pool.step_pcs_self]
      rcases startMarked_next hmarked with hnext | hclosing
      · exact hnext
      · exact absurd ((mark_of_closing hclosing).symm.trans hmark) Bool.false_ne_true
    · rw [Pool.step_pcs_of_ne howner]
      exact hmarked

/-- Inside an accepted start only the closing regions touch the mark or
install, and nothing else returns success. -/
theorem startAccepted_step {oracle : Oracle} {shared : Shared} {pc : Pc}
    (haccepted : startAccepted pc=true)
    (hclosing : startClosing pc=true → shared.startRecordingInProgress=false) :
    installs shared pc=false ∧ succeeded (next oracle shared pc).2=false ∧
      (shared.startRecordingInProgress=true →
        (next oracle shared pc).1.startRecordingInProgress=true) := by
  cases pc with
  | start call point =>
    cases point with
    | enter => cases haccepted
    | accept => cases haccepted
    | failed error => exact ⟨rfl,rfl,fun h => absurd ((hclosing rfl).symm.trans h) Bool.false_ne_true⟩
    | noSessionLocked error =>
      exact ⟨rfl,rfl,fun h => absurd ((hclosing rfl).symm.trans h) Bool.false_ne_true⟩
    | install id backend =>
      have hunmarked := hclosing rfl
      have habort : (!shared.startRecordingInProgress || decide (shared.phase≠.idle))=true := by
        rw [hunmarked]
        rfl
      refine ⟨?_,?_,fun h => absurd (hunmarked.symm.trans h) Bool.false_ne_true⟩
      · simp only [installs,hunmarked,Bool.false_and]
      · simp only [next,nextStart,if_pos habort]
        rfl
    | _ =>
      refine ⟨rfl,?_,fun h => ?_⟩
      · dsimp only [next,nextStart]
        (repeat' split) <;> rfl
      · dsimp only [next,nextStart]
        (repeat' split) <;> exact h
  | _ => cases haccepted

/-- In every run in which no cancelled start closes during a later start,
every cancelled start stays cancelled. -/
theorem cancelled_start_stays_of_apart_run (schedule : List (ℕ×Oracle))
    (guarded : Along (observed machine observeMarks) closesApart (startup,{}) schedule) :
    Along (observed machine observeMarks) CancelledStays (startup,{}) schedule := by
  refine guarded.everyStep (fun pair label inv _ => machine_ownedMark pair label inv) ?_ nofun
  intro pair label inv hapart hcancelled haccepted
  refine startAccepted_step haccepted ?_
  intro hclosing
  -- A mark found here would belong to another start that is not cancelled.
  by_contra hmark
  obtain ⟨hmarked,hfree⟩ := inv (Bool.eq_true_of_not_eq_false hmark)
  have hother : pair.2.owner≠label.1 := by
    intro howner
    rw [howner,hcancelled] at hfree
    cases hfree
  exact Bool.false_ne_true ((hapart hcancelled hclosing _ hother hfree).symm.trans hmarked)

/-- A cancel of whatever the daemon does. -/
def cancelCall : Call := .cancelOperation true false

/-- A start is accepted and cancelled, another client starts, and the first
start goes on to its closing region. -/
def restartDuringStart : List (ℕ×Oracle) :=
  arrives 1 startCall::goesOn 1 2++arrives 2 cancelCall::goesOn 2 4++
    arrives 2 startCall::goesOn 2 2++goesOn 1 6

/-- A cancelled start can come back: it finds the mark of the later start,
installs its session and returns success. -/
theorem cancelled_start_installs :
    ¬∀ schedule : List (ℕ×Oracle),
      Along (observed machine observeMarks) CancelledStays (startup,{}) schedule := by
  intro h
  exact absurd (h restartDuringStart) (by decide)

/-- A start is accepted and cancelled, goes on to its end, and then another
client starts. -/
def restartAfterStart : List (ℕ×Oracle) :=
  arrives 1 startCall::goesOn 1 2++arrives 2 cancelCall::goesOn 2 4++goesOn 1 8++
    arrives 2 startCall::goesOn 2 8

/-- A cancelled start that closes before the next one is accepted leaves
that one alone. -/
theorem cancelled_start_stays_before_restart :
    (run (observed machine observeMarks) (startup,{}) restartAfterStart).2.cancelled 1=true ∧
      Along (observed machine observeMarks) CancelledStays (startup,{}) restartAfterStart := by
  refine ⟨by decide,cancelled_start_stays_of_apart_run restartAfterStart ?_⟩
  refine Pool.along_bounded 3 (.ready none)
    (fun pair label =>
      pair.2.cancelled label.1=true → startClosing (pair.1.pcs label.1)=true →
        ∀ other<3, other≠label.1 → pair.2.cancelled other=false →
          startMarked (pair.1.pcs other)=false)
    ?_ (by decide) (fun t ht => startup_pcs (by omega)) (by decide)
  intro pair label hquiet hbounded hcancelled hclosing other hne hfree
  by_cases hlt : other<3
  · exact hbounded hcancelled hclosing other hlt hne hfree
  · rw [hquiet other (by omega)]
    rfl

end History

end Vinput.ControllerStart
