import Vinput.RecordUpdates

/-!
# No update of a record file is lost while calls stay apart

The files keep what the last change of each id made of it, as long as what a
call is about to write is its change of what the file still holds. Another
call that replaces the file in between breaks this, and so does a read that
fails on a file with records.
-/

namespace Vinput.RecordUpdateRuns

open InterleavedRuns JsonTree CoreConfigTypes RecordFiles RecordUpdates

section Runs

/-- The thread is between reading a file and replacing it. -/
def awaits (store : Store) : Pc → Bool
  | .save call _ _ => decide (call.store=store)
  | _ => false

/-- The step replaces a file. -/
def replaces (store : Store) (oracle : Oracle) (_ : Shared) : Pc → Bool
  | .save call _ _ => decide (call.store=store) && oracle.writeError.isNone
  | _ => false

/-- The id whose record a call writes whatever it has read. -/
def puts : Call → Option String
  | .downloadScript _ id _ _ => some id
  | .saveProviderModels id _ => some id
  | _ => none

/-- The services a thread is going to keep when it prunes. -/
def prunes : Pc → Option (List String)
  | .load (.loadActiveModels config) => some (activeProviderIds config)
  | .save _ (.prune active) _ => some active
  | _ => none

/-- Calls stay apart. -/
structure Apart (system : System) (label : ℕ×Oracle) : Prop where
  /-- No file is replaced while another call has read it and not yet
  replaced it. -/
  alone : ∀ store, Pool.Alone (replaces store) (awaits store) system label
  /-- Times in the manifest are exact as doubles. -/
  exact : ∀ call, system.pcs label.1=.load call → call.store=.manifest →
    TimesExact label.2.now (system.shared.files .manifest)
  /-- What is written is read back. -/
  plain : ∀ call change content, system.pcs label.1=.save call change content →
    label.2.writeError=none → content.isPlain=true
  /-- A call that writes a record reads its file, or there are no other
  records. -/
  readable : ∀ call id, system.pcs label.1=.load call → label.2.readFails=true →
    puts call=some id → ∀ other, other≠id →
      recordIn call.store (system.shared.files call.store) other=none
  /-- The configuration given to a call has all services in force. -/
  covered : ∀ last config, system.pcs label.1=.ready last →
    label.2.event=.call (.loadActiveModels config) →
      ∀ id∈activeProviderIds system.shared.config, id∈activeProviderIds config
  /-- No other service comes into force while such a call is in flight. -/
  settled : ∀ last config, system.pcs label.1=.ready last → label.2.event=.configure config →
    ∀ thread active, prunes (system.pcs thread)=some active →
      ∀ id∈activeProviderIds config, id∈active

/-- What is about to be written is a change of what the file holds. -/
def Pending (shared : Shared) : Pc → Prop
  | .save call change content =>
    recordIn call.store (some (some content))=
      change.apply (recordIn call.store (shared.files call.store))
  | _ => True

/-- What holds in every state of a run. -/
structure UpdateInv (start : Shared) (pair : System×History) : Prop where
  kept : ∀ store id, Kept (recordIn store (start.files store))
    (recordIn store (pair.1.shared.files store)) (pair.2.last store id) (pair.2.named store id) id
  pending : ∀ thread, Pending pair.1.shared (pair.1.pcs thread)
  active : ∀ thread active, prunes (pair.1.pcs thread)=some active →
    ∀ id∈pair.2.inForce thread, id∈active

variable {start : Shared} {system : System} {history : History} {thread : ℕ} {oracle : Oracle}

/-- A change that is written and noted keeps every record. -/
theorem kept_note {start before after : RecordMap} {last : String → Option (Option Record)}
    {named : String → Bool} {inForce : List String} {change : Change}
    (hafter : after=change.apply before)
    (covered : ∀ active, change=.prune active → ∀ id∈inForce, id∈active)
    (hkept : ∀ id, Kept start before (last id) (named id) id) (id : String) :
    Kept start after (change.note inForce before after last id) (named id) id := by
  have hother : after id=before id → Kept start after (last id) (named id) id := by
    intro hsame
    have hid := hkept id
    unfold Kept at hid ⊢
    rw [hsame]
    exact hid
  cases change with
  | put target record =>
    dsimp only [Change.note]
    by_cases htarget : id=target
    · rw [htarget,Function.update_self,hafter]
      exact put_apply_self target record before
    · rw [Function.update_of_ne htarget]
      exact hother (hafter ▸ put_apply_of_ne htarget record before)
  | drop target =>
    dsimp only [Change.note]
    by_cases htarget : id=target
    · rw [htarget,Function.update_self]
      trivial
    · rw [Function.update_of_ne htarget]
      exact hother (hafter ▸ drop_apply_of_ne htarget before)
  | prune active =>
    dsimp only [Change.note]
    split
    · trivial
    · rename_i hstays
      refine hother ?_
      have hid : after id=if id∈active then before id else none := by rw [hafter]; rfl
      by_cases hactive : id∈active
      · rw [hid,if_pos hactive]
      · rw [if_neg hactive] at hid
        have hunseen : id∉inForce := fun h => hactive (covered active rfl id h)
        have habsent : ¬(before id).isSome=true := by
          intro hthere
          exact hstays ⟨hunseen,hthere,by rw [hid]; rfl⟩
        rw [hid,Option.not_isSome_iff_eq_none.mp habsent]

/-- A call that could not read its file writes its change all the same, if
there is no other record. -/
theorem apply_unread {now : ℤ} {call : Call} {change : Change} {content : Json}
    {records : RecordMap} (h : call.rewrite now none=some (change,content))
    (alone : ∀ id, puts call=some id → ∀ other, other≠id → records other=none) :
    change.apply (recordIn call.store none)=change.apply records := by
  have hput : ∀ id record, change=.put id record → puts call=some id →
      recordIn call.store none=(fun _ => none) →
      change.apply (recordIn call.store none)=change.apply records := by
    rintro id record rfl hputs hempty
    funext other
    by_cases hother : other=id
    · rw [hother,put_apply_self,put_apply_self]
    · rw [put_apply_of_ne hother,put_apply_of_ne hother,hempty,alone id hputs other hother]
  cases call with
  | downloadScript kind id version sha256 =>
    cases h
    exact hput id _ rfl rfl rfl
  | saveProviderModels id models =>
    cases h
    exact hput id _ rfl rfl rfl
  | unregisterInstalledScript id => cases h
  | removeProviderModels id => cases h
  | loadActiveModels config => cases h

/-- A call that has read its file is about to write a change of it. -/
theorem pending_read {call : Call} (hpc : system.pcs thread=.load call)
    (apart : Apart system (thread,oracle)) :
    Pending system.shared
      (afterRead oracle.now (readTextFile oracle system.shared call) call) := by
  unfold afterRead
  split
  · rename_i change content hrewrite
    dsimp only [Pending]
    have hexact := apart.exact call hpc
    unfold readTextFile at hrewrite
    split at hrewrite
    · rename_i hfails
      have hempty : call.store=.manifest → TimesExact oracle.now none := by
        intro hstore
        refine ⟨(hexact hstore).1,?_⟩
        intro id record hrecord
        cases hrecord
      rw [rewrite_spec hempty hrewrite,
        apply_unread hrewrite fun id => apart.readable call id hpc hfails]
    · refine rewrite_spec ?_ hrewrite
      intro hstore
      rw [hstore]
      exact hexact hstore
  · trivial

/-- A call that begins writes nothing yet. -/
theorem pending_begin (shared : Shared) (oracle : Oracle) (call : Call) :
    Pending shared (begin oracle call) := by
  cases call with
  | downloadScript kind id version sha256 =>
    dsimp only [begin]
    split <;> trivial
  | saveProviderModels id models =>
    dsimp only [begin]
    split <;> trivial
  | removeProviderModels id =>
    dsimp only [begin]
    split <;> trivial
  | unregisterInstalledScript id => trivial
  | loadActiveModels config => trivial

/-- Every step keeps the pending writes true to the files. -/
theorem pending_step (apart : Apart system (thread,oracle))
    (pending : ∀ t, Pending system.shared (system.pcs t)) :
    ∀ t, Pending (machine system (thread,oracle)).shared
      ((machine system (thread,oracle)).pcs t) := by
  refine Pool.local_step (fun shared _ pc => Pending shared pc) pending ?_ ?_
  · cases hpc : system.pcs thread with
    | ready last =>
      dsimp only [next]
      split
      · exact pending_begin _ _ _
      · trivial
    | load call => exact pending_read hpc apart
    | save call change content =>
      dsimp only [next]
      split <;> trivial
  · intro t hother hpending
    have hframe : ∀ store, awaits store (system.pcs t)=true →
        (next oracle system.shared (system.pcs thread)).1.files store=
          system.shared.files store := by
      intro store hawaits
      cases hpc : system.pcs thread with
      | ready last =>
        dsimp only [next]
        split <;> rfl
      | load call => rfl
      | save call change content =>
        dsimp only [next]
        split
        · rfl
        · rename_i hwritten
          refine Function.update_of_ne ?_ _ system.shared.files
          intro hstore
          refine apart.alone store ?_ ⟨t,hother,hawaits⟩
          dsimp only
          rw [hpc]
          dsimp only [replaces]
          rw [hstore,hwritten,decide_eq_true rfl]
          rfl
    cases hpc : system.pcs t with
    | save call change content =>
      rw [hpc] at hpending hframe
      dsimp only [Pending] at hpending ⊢
      rw [hframe call.store (decide_eq_true rfl)]
      exact hpending
    | ready last => trivial
    | load call => trivial

/-- Every step keeps the records that are expected. -/
theorem kept_step (inv : UpdateInv start (system,history))
    (apart : Apart system (thread,oracle)) (store : Store) (id : String) :
    Kept (recordIn store (start.files store))
      (recordIn store ((machine system (thread,oracle)).shared.files store))
      ((observe history system (thread,oracle)).last store id)
      ((observe history system (thread,oracle)).named store id) id := by
  have hkept := inv.kept store id
  rw [Pool.step_shared]
  unfold observe
  dsimp only at hkept ⊢
  cases hpc : system.pcs thread with
  | ready last =>
    dsimp only [next]
    split
    · dsimp only
      unfold Kept at hkept ⊢
      split
      · rename_i hlast
        rw [hlast] at hkept
        exact hkept
      · trivial
      · rename_i hlast
        rw [hlast] at hkept
        intro hnamed
        exact hkept (Bool.or_eq_false_iff.mp hnamed).1
    · exact hkept
  | load call => exact hkept
  | save call change content =>
    have hpending : Pending system.shared (system.pcs thread) := inv.pending thread
    have hactive := inv.active thread
    dsimp only at hactive
    rw [hpc] at hpending hactive
    dsimp only [next]
    cases herror : oracle.writeError with
    | some error => exact hkept
    | none =>
      have hwritten : written oracle content=some content :=
        if_pos (apart.plain call change content hpc herror)
      dsimp only [Option.isNone,writeFile]
      rw [hwritten]
      by_cases hstore : store=call.store
      · subst hstore
        rw [Function.update_self,if_pos rfl]
        dsimp only
        rw [Function.update_self]
        refine kept_note hpending ?_ (inv.kept call.store) id
        rintro active rfl
        exact hactive active rfl
      · rw [Function.update_of_ne hstore,if_pos rfl]
        dsimp only
        rw [Function.update_of_ne hstore]
        exact hkept

/-- A call that has read its file prunes as it was asked to. -/
theorem prunes_afterRead {now : ℤ} {text : FileText} {call : Call} {active : List String}
    (h : prunes (afterRead now text call)=some active) : prunes (.load call)=some active := by
  unfold afterRead at h
  split at h
  · rename_i change content hrewrite
    cases call with
    | downloadScript kind id version sha256 => cases hrewrite; cases h
    | saveProviderModels id models => cases hrewrite; cases h
    | unregisterInstalledScript id =>
      dsimp only [Call.rewrite] at hrewrite
      split at hrewrite
      · cases hrewrite
        cases h
      · cases hrewrite
    | removeProviderModels id =>
      dsimp only [Call.rewrite] at hrewrite
      split at hrewrite
      · obtain ⟨left,hleft,hsame⟩ := Option.map_eq_some_iff.mp hrewrite
        cases hsame
        cases h
      · cases hrewrite
    | loadActiveModels config =>
      dsimp only [Call.rewrite] at hrewrite
      split at hrewrite
      · obtain ⟨left,hleft,hsame⟩ := Option.map_eq_some_iff.mp hrewrite
        cases hsame
        exact h
      · cases hrewrite
  · cases h

/-- A call that begins prunes as it was asked to. -/
theorem prunes_begin {call : Call} {active : List String}
    (h : prunes (begin oracle call)=some active) :
    ∃ config, call=.loadActiveModels config ∧ active=activeProviderIds config := by
  cases call with
  | downloadScript kind id version sha256 =>
    dsimp only [begin] at h
    split at h <;> cases h
  | saveProviderModels id models =>
    dsimp only [begin] at h
    split at h <;> cases h
  | removeProviderModels id =>
    dsimp only [begin] at h
    split at h <;> cases h
  | unregisterInstalledScript id => cases h
  | loadActiveModels config => exact ⟨config,rfl,(Option.some.inj h).symm⟩

/-- Every step keeps the services in force among those that are kept. -/
theorem active_step (apart : Apart system (thread,oracle))
    (before : ∀ t active, prunes (system.pcs t)=some active → ∀ id∈history.inForce t, id∈active)
    (t : ℕ) (active : List String)
    (h : prunes ((machine system (thread,oracle)).pcs t)=some active) :
    ∀ id∈(observe history system (thread,oracle)).inForce t, id∈active := by
  have hmoved : t=thread → prunes (next oracle system.shared (system.pcs thread)).2=some active := by
    rintro rfl
    rw [Pool.step_pcs_self] at h
    exact h
  have hstayed : t≠thread → prunes (system.pcs t)=some active := by
    intro hother
    rw [Pool.step_pcs_of_ne hother] at h
    exact h
  unfold observe
  dsimp only
  cases hpc : system.pcs thread with
  | ready last =>
    rw [hpc] at hmoved
    dsimp only [next] at hmoved ⊢
    cases hevent : oracle.event with
    | call call =>
      rw [hevent] at hmoved
      dsimp only at hmoved ⊢
      by_cases hself : t=thread
      · obtain ⟨config,hcall,hactive⟩ := prunes_begin (hmoved hself)
        rw [hself,Function.update_self,hactive]
        exact apart.covered last config hpc (hevent.trans (congrArg Event.call hcall))
      · rw [Function.update_of_ne hself]
        exact before t active (hstayed hself)
    | configure config =>
      rw [hevent] at hmoved
      dsimp only at hmoved ⊢
      have hother : t≠thread := fun hself => by cases hmoved hself
      intro id hid
      rcases List.mem_append.mp hid with hnew | hold
      · exact apart.settled last config hpc hevent t active (hstayed hother) id hnew
      · exact before t active (hstayed hother) id hold
  | load call =>
    rw [hpc] at hmoved
    by_cases hself : t=thread
    · refine before t active ?_
      rw [hself,hpc]
      exact prunes_afterRead (hmoved hself)
    · exact before t active (hstayed hself)
  | save call change content =>
    rw [hpc] at hmoved
    have hother : t≠thread := by
      intro hself
      have hready := hmoved hself
      dsimp only [next] at hready
      split at hready <;> cases hready
    have hforce := before t active (hstayed hother)
    dsimp only
    split
    · exact hforce
    · exact hforce

/-- Every step of calls that stay apart keeps the invariant. -/
theorem watched_updates (pair : System×History) (label : ℕ×Oracle) (inv : UpdateInv start pair)
    (apart : Apart pair.1 label) : UpdateInv start (watched pair label) where
  kept := kept_step inv apart
  pending := pending_step apart inv.pending
  active := active_step apart inv.active

/-- The invariant holds at the start. -/
theorem startup_updates (start : Shared) : UpdateInv start (startup start,{}) where
  kept := fun _ _ _ => rfl
  pending := fun _ => trivial
  active := by
    intro _ active h
    cases h

/-- In every run of calls that stay apart no update of a record file is
lost. -/
theorem updates_kept_of_apart_run (start : Shared) (schedule : List (ℕ×Oracle))
    (guarded : Along machine Apart (startup start) schedule) :
    UpdatesKept start (run watched (startup start,{}) schedule) := by
  have hwatched : Along watched (fun pair label => Apart pair.1 label) (startup start,{})
      schedule := (along_observed Apart).mpr guarded
  intro _
  exact (hwatched.invariant watched_updates (startup_updates start)).kept

/-- A call arrives at a thread. -/
def arrives (thread : ℕ) (call : Call) : ℕ×Oracle := (thread,{event := .call call})

/-- A thread takes its next steps with nothing unusual in the environment. -/
def goesOn (thread steps : ℕ) : List (ℕ×Oracle) := List.replicate steps (thread,{})

/-- A cache with the models of one service. -/
def cachedFirst : Shared :=
  {files := fun store => match store with
    | .manifest => none
    | .modelCache => some (some (.object (putModels "first" (modelsEntry ["small"] 0) [])))}

/-- Another service is saved while the cache cannot be read for a moment. -/
def savedUnread : List (ℕ×Oracle) :=
  [arrives 1 (.saveProviderModels "second" ["large"]),(1,{readFails := true}),(1,{})]

/-- A model is saved whose name has a control character. -/
def savedControl : List (ℕ×Oracle) :=
  arrives 1 (.saveProviderModels "first" [String.singleton (Char.ofNat 1)])::goesOn 1 2

/-- Two services are saved; both calls read the cache before either writes
it. -/
def twoSaves : List (ℕ×Oracle) :=
  arrives 1 (.saveProviderModels "first" ["small"])::goesOn 1 1++
    arrives 2 (.saveProviderModels "second" ["large"])::goesOn 2 2++goesOn 1 1

/-- A record that was written last, or that no call named, is not there any
more. -/
def lost (start records : RecordMap) (last : Option (Option Record)) (named : Bool) (id : String) :
    Bool :=
  match last with
  | some (some _) => (records id).isNone
  | some none => false
  | none => !named && (start id).isSome && (records id).isNone

/-- A record that is kept is not lost. -/
theorem not_lost_of_kept {start records : RecordMap} {last : Option (Option Record)} {named : Bool}
    {id : String} (h : Kept start records last named id) :
    lost start records last named id=false := by
  unfold lost
  split
  · rename_i record
    rw [show records id=some record from h]
    rfl
  · rfl
  · cases named with
    | true => rfl
    | false =>
      rw [show records id=start id from h rfl]
      cases start id <;> rfl

/-- After a schedule of a few threads all are ready when these are. -/
theorem ready_of_below {bound : ℕ} (shared : Shared) {schedule : List (ℕ×Oracle)}
    (threads : ∀ label∈schedule, label.1<bound)
    (few : ∀ t<bound, ((run machine (startup shared) schedule).pcs t).isReady=true) (t : ℕ) :
    ((run watched (startup shared,{}) schedule).1.pcs t).isReady=true := by
  rw [run_observed_fst]
  by_cases hfew : t<bound
  · exact few t hfew
  · have hunused : ∀ label∈schedule, label.1≠t := by
      intro label hlabel
      have hbelow := threads label hlabel
      omega
    rw [Pool.run_pcs_of_unused hunused]
    rfl

/-- Updates are lost when a read fails, when two calls overlap, and when what
is written cannot be read back. -/
theorem updates_lost :
    ¬UpdatesKept cachedFirst (run watched (startup cachedFirst,{}) savedUnread) ∧
      ¬UpdatesKept {} (run watched (startup {},{}) twoSaves) ∧
      ¬UpdatesKept {} (run watched (startup {},{}) savedControl) := by
  refine ⟨?_,?_,?_⟩
  · intro h
    have hthreads : ∀ label∈savedUnread, label.1<3 := by decide
    have hready := ready_of_below cachedFirst hthreads (by decide +kernel)
    exact absurd (not_lost_of_kept (h hready .modelCache "first")) (by decide +kernel)
  · intro h
    have hthreads : ∀ label∈twoSaves, label.1<3 := by decide
    have hready := ready_of_below {} hthreads (by decide +kernel)
    exact absurd (not_lost_of_kept (h hready .modelCache "second")) (by decide +kernel)
  · intro h
    have hthreads : ∀ label∈savedControl, label.1<3 := by decide
    have hready := ready_of_below {} hthreads (by decide +kernel)
    exact absurd (not_lost_of_kept (h hready .modelCache "first")) (by decide +kernel)

/-- What a step of one of a few threads needs to stay apart, when it leaves
the manifest and the configuration alone and reads what is there. -/
def apartBelow (bound : ℕ) (system : System) (label : ℕ×Oracle) : Bool :=
  match system.pcs label.1 with
  | .ready _ =>
    match label.2.event with
    | .call (.loadActiveModels config) =>
      (activeProviderIds system.shared.config).all fun id => decide (id∈activeProviderIds config)
    | .call _ => true
    | .configure _ => false
  | .load call => decide (call.store≠.manifest) && !label.2.readFails
  | .save call _ content =>
    content.isPlain &&
      (List.range bound).all fun t => decide (t=label.1) || !awaits call.store (system.pcs t)

/-- The guard only has to be tested at threads that run. -/
theorem apart_of_below {bound : ℕ} {label : ℕ×Oracle}
    (hquiet : ∀ t, bound≤t → system.pcs t=.ready none)
    (h : apartBelow bound system label=true) : Apart system label where
  alone := by
    intro store htrigger hother
    obtain ⟨t,hne,hawaits⟩ := hother
    unfold apartBelow at h
    cases hpc : system.pcs label.1 with
    | save call change content =>
      rw [hpc] at h htrigger
      have hstore : call.store=store :=
        of_decide_eq_true (Bool.and_eq_true_iff.mp htrigger).1
      by_cases ht : t<bound
      · have hfew := List.all_eq_true.mp (Bool.and_eq_true_iff.mp h).2 t (List.mem_range.mpr ht)
        rcases Bool.or_eq_true_iff.mp hfew with hself | hfree
        · exact hne (of_decide_eq_true hself)
        · rw [hstore,hawaits] at hfree
          cases hfree
      · rw [hquiet t (by omega)] at hawaits
        cases hawaits
    | ready last => rw [hpc] at htrigger; cases htrigger
    | load call => rw [hpc] at htrigger; cases htrigger
  exact := by
    intro call hpc hmanifest
    unfold apartBelow at h
    rw [hpc] at h
    exact absurd hmanifest (of_decide_eq_true (Bool.and_eq_true_iff.mp h).1)
  plain := by
    intro call change content hpc _
    unfold apartBelow at h
    rw [hpc] at h
    exact (Bool.and_eq_true_iff.mp h).1
  readable := by
    intro call id hpc hfails
    unfold apartBelow at h
    rw [hpc] at h
    have hread := (Bool.and_eq_true_iff.mp h).2
    rw [hfails] at hread
    cases hread
  covered := by
    intro last config hpc hevent id hid
    unfold apartBelow at h
    rw [hpc,hevent] at h
    exact of_decide_eq_true (List.all_eq_true.mp h id hid)
  settled := by
    intro last config hpc hevent
    unfold apartBelow at h
    rw [hpc,hevent] at h
    cases h

/-- Two services are saved one after the other, then the models are listed. -/
def savesInTurn : List (ℕ×Oracle) :=
  arrives 1 (.saveProviderModels "first" ["small"])::goesOn 1 1++
    arrives 2 (.loadActiveModels {llm := {providers := [{id := "first"}]}})::goesOn 1 1++
    goesOn 2 1++arrives 1 (.saveProviderModels "second" ["large"])::goesOn 1 2

/-- Services that are saved one after the other are both there. -/
theorem saves_in_turn_kept :
    UpdatesKept {} (run watched (startup {},{}) savesInTurn) := by
  have hguard : Along (observed machine fun (_ : Unit) _ _ => ())
      (fun pair label => Apart pair.1 label) (startup {},()) savesInTurn :=
    Pool.along_bounded 3 (.ready none) (fun pair label => apartBelow 3 pair.1 label=true)
      (fun _ _ => apart_of_below) (by decide) (fun _ _ => rfl) (by decide +kernel)
  exact updates_kept_of_apart_run {} savesInTurn ((along_observed Apart).mp hguard)

end Runs

end Vinput.RecordUpdateRuns
