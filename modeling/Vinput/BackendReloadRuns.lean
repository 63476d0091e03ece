import Vinput.BackendReload

/-!
# What every run of the backend reload keeps

Three properties of the reload protocol over arbitrary interleavings: the
label of the effective backend, convergence to the last request and the
disabled state. Each fails on some schedule of the program, and each holds
in every run whose steps avoid the one coincidence that the schedule shows.
-/

namespace Vinput.BackendReloadRuns

open InterleavedRuns AsrSettings BackendReload

/-- A call that finds its signature already effective asks, while another
request waits, for the signature of that waiting request. Only this branch
moves the target without the waiting settings. -/
def coherentCall (pool : System) (label : ℕ×Oracle) : Bool :=
  match pool.pcs label.1 with
  | .syncApply settings =>
    !(alreadyEffective settings pool.shared && pool.shared.reloadRequested) ||
      decide (buildRuntimeSignature settings=buildRuntimeSignature pool.shared.pendingSettings)
  | _ => true

/-- What a coherent call knows when it takes the early return. -/
theorem coherentCall_spec {pool : System} {thread : ℕ} {oracle : Oracle}
    {settings : CoreConfig} (h : coherentCall pool (thread,oracle)=true)
    (hpc : pool.pcs thread=.syncApply settings)
    (he : alreadyEffective settings pool.shared=true) (hr : pool.shared.reloadRequested=true) :
    buildRuntimeSignature settings=buildRuntimeSignature pool.shared.pendingSettings := by
  unfold coherentCall at h
  simp only [hpc,he,hr,Bool.and_self,Bool.not_true,Bool.false_or,decide_eq_true_eq] at h
  exact h

section Labels

/-- The label of a backend is the signature of the settings behind it. -/
def Labelled (backend : Option AsrBackend) (signature : List UInt8) : Prop :=
  ∀ built, backend=some built → signature=buildRuntimeSignature built.builtFrom

/-- A target that waits is the signature of the settings that wait. -/
def TargetMatches (manager : Manager) : Prop :=
  manager.reloadRequested=true →
    manager.targetBackendSignature=buildRuntimeSignature manager.pendingSettings

/-- Labels the worker carries between its regions are right. -/
def CarriesLabel : Pc → Prop
  | .reloadBuild settings signature => signature=buildRuntimeSignature settings
  | .reloadInstall prepared => Labelled prepared.backend prepared.signature
  | _ => True

/-- Invariant of all labels in the memory and in flight. -/
structure LabelInv (pool : System) : Prop where
  /-- The waiting request is labelled. -/
  target : TargetMatches pool.shared
  /-- The effective backend is labelled. -/
  effective : Labelled pool.shared.effectiveBackend pool.shared.effectiveBackendSignature
  /-- Every thread carries right labels. -/
  carried : ∀ t, CarriesLabel (pool.pcs t)

/-- The main region of a call keeps the target when it may take the early
return only for the waiting signature. -/
theorem synchronizeBackendLocked_targetMatches {settings : CoreConfig} {manager : Manager}
    (coherent : alreadyEffective settings manager=true → manager.reloadRequested=true →
      buildRuntimeSignature settings=buildRuntimeSignature manager.pendingSettings) :
    TargetMatches (synchronizeBackendLocked settings manager) := by
  rcases synchronizeBackendLocked_cases settings manager with ⟨he,heq⟩ | ⟨_,heq⟩
  · rw [heq]
    intro hr
    exact coherent he hr
  · rw [heq]
    intro _
    rfl

/-- The main region of a call leaves the effective backend alone. -/
theorem synchronizeBackendLocked_effective (settings : CoreConfig) (manager : Manager) :
    (synchronizeBackendLocked settings manager).effectiveBackend=manager.effectiveBackend ∧
      (synchronizeBackendLocked settings manager).effectiveBackendSignature=
        manager.effectiveBackendSignature ∧
      (synchronizeBackendLocked settings manager).reloadInProgress=manager.reloadInProgress := by
  rcases synchronizeBackendLocked_cases settings manager with ⟨_,heq⟩ | ⟨_,heq⟩
  · rw [heq]
    exact ⟨rfl,rfl,rfl⟩
  · rw [heq]
    exact ⟨rfl,rfl,rfl⟩

/-- One step keeps every label, in memory and in the acting thread. -/
theorem next_label {pool : System} {thread : ℕ} {oracle : Oracle} (inv : LabelInv pool)
    (coherent : coherentCall pool (thread,oracle)=true) :
    TargetMatches (next oracle pool.shared (pool.pcs thread)).1 ∧
      Labelled (next oracle pool.shared (pool.pcs thread)).1.effectiveBackend
        (next oracle pool.shared (pool.pcs thread)).1.effectiveBackendSignature ∧
      CarriesLabel (next oracle pool.shared (pool.pcs thread)).2 := by
  have hcarried := inv.carried thread
  cases hpc : pool.pcs thread with
  | ready =>
    dsimp only [next]
    split
    · exact ⟨inv.target,inv.effective,trivial⟩
    · exact ⟨inv.target,inv.effective,trivial⟩
  | syncDisabled => exact ⟨nofun,nofun,trivial⟩
  | syncEnsure settings => exact ⟨inv.target,inv.effective,trivial⟩
  | syncApply settings =>
    obtain ⟨hb,hs,_⟩ := synchronizeBackendLocked_effective settings pool.shared
    refine ⟨synchronizeBackendLocked_targetMatches (coherentCall_spec coherent hpc),?_,trivial⟩
    dsimp only [next]
    rw [hb,hs]
    exact inv.effective
  | reloadWait =>
    dsimp only [next]
    split
    · rename_i hready
      have hr := (Bool.and_eq_true_iff.mp hready).2
      exact ⟨nofun,inv.effective,inv.target hr⟩
    · exact ⟨inv.target,inv.effective,trivial⟩
  | reloadBuild settings signature =>
    rw [hpc] at hcarried
    rcases createPreparedBackendForReload_cases settings signature oracle.outcome with
      ⟨prepared,backend,heq,hb,hfrom,hsig⟩ | ⟨error,heq⟩
    · simp only [next,heq]
      refine ⟨inv.target,inv.effective,?_⟩
      intro built h
      rw [hb] at h
      cases h
      rw [hsig,hfrom]
      exact hcarried
    · simp only [next,heq]
      exact ⟨inv.target,inv.effective,trivial⟩
  | reloadInstall prepared =>
    rw [hpc] at hcarried
    exact ⟨inv.target,hcarried,trivial⟩
  | reloadFail error => exact ⟨inv.target,inv.effective,trivial⟩

/-- The label invariant is kept by every coherent step. -/
theorem machine_label (pool : System) (label : ℕ×Oracle) (inv : LabelInv pool)
    (coherent : coherentCall pool label=true) : LabelInv (machine pool label) := by
  obtain ⟨thread,oracle⟩ := label
  obtain ⟨htarget,heffective,hself⟩ := next_label inv coherent
  exact ⟨htarget,heffective,Pool.local_step (fun _ _ pc => CarriesLabel pc)
    inv.carried hself (fun _ _ h => h)⟩

/-- All labels are right after start-up. -/
theorem startup_label (boot : Option (CoreConfig×BuildOutcome)) : LabelInv (startup boot) := by
  obtain ⟨hr,_,heffective⟩ := startupManager_spec boot
  refine ⟨fun h => ?_,heffective,fun t => ?_⟩
  · exact absurd (hr.symm.trans h) Bool.false_ne_true
  · unfold startup
    dsimp only
    split
    · trivial
    · trivial

/-- In every run of coherent calls, the effective backend carries the
signature of the very settings it was built from. -/
theorem effective_signature_of_coherent_run (boot : Option (CoreConfig×BuildOutcome))
    (schedule : List (ℕ×Oracle))
    (coherent : Along machine (fun pool label => coherentCall pool label=true)
      (startup boot) schedule) (backend : AsrBackend)
    (heffective : (run machine (startup boot) schedule).shared.effectiveBackend=some backend) :
    (run machine (startup boot) schedule).shared.effectiveBackendSignature=
      buildRuntimeSignature backend.builtFrom :=
  (coherent.invariant machine_label (startup_label boot)).effective backend heffective

/-- Two configured local providers, one of them selected. -/
def twoProviders (active : String) : CoreConfig :=
  {activeProvider := active,providers := [.localProvider {id := "a"},.localProvider {id := "b"}]}

/-- Thread one begins a call for the given provider. -/
def asks (active : String) : ℕ×Oracle := (1,{call := twoProviders active})

/-- Thread one takes its next region. -/
def caller : ℕ×Oracle := (1,{})

/-- The reload worker takes its next step; builds succeed. -/
def worker : ℕ×Oracle := (0,{})

/-- A daemon that came up with the first provider. -/
def bootedWith (active : String) : Option (CoreConfig×BuildOutcome) :=
  some (twoProviders active,.built {})

/-- A switch to the second provider, back to the first before the worker
wakes, then a whole reload. -/
def switchBack : List (ℕ×Oracle) :=
  [asks "b",caller,caller,asks "a",caller,caller,worker,worker,worker]

/-- Not every run labels its backend: after a switch and an immediate
switch back the backend of the second provider carries the signature of
the first. -/
theorem effective_signature_mismatch :
    ¬∀ (boot : Option (CoreConfig×BuildOutcome)) (schedule : List (ℕ×Oracle))
      (backend : AsrBackend),
      (run machine (startup boot) schedule).shared.effectiveBackend=some backend →
      (run machine (startup boot) schedule).shared.effectiveBackendSignature=
        buildRuntimeSignature backend.builtFrom := by
  intro h
  have hb : (run machine (startup (bootedWith "a")) switchBack).shared.effectiveBackend=
      some ⟨twoProviders "b",{}⟩ := by decide
  have hs : (run machine (startup (bootedWith "a")) switchBack).shared.effectiveBackendSignature≠
      buildRuntimeSignature (twoProviders "b") := by decide
  exact hs (h _ _ _ hb)

/-- A switch that the worker completes before the next call. -/
def switchOnce : List (ℕ×Oracle) := [asks "b",caller,caller,worker,worker,worker]

/-- A completed switch is a coherent run and labels its backend. -/
theorem effective_signature_after_switch :
    (run machine (startup (bootedWith "a")) switchOnce).shared.effectiveBackendSignature=
      buildRuntimeSignature (twoProviders "b") :=
  effective_signature_of_coherent_run (bootedWith "a") switchOnce (by decide)
    ⟨twoProviders "b",{}⟩ (by decide)

end Labels

section Convergence

/-- History variable: the settings of the last call in the order of the
main regions, forgotten when a call without a provider takes its region. -/
def lastCall (last : Option CoreConfig) (pool : System) (label : ℕ×Oracle) :
    Option CoreConfig :=
  match pool.pcs label.1 with
  | .syncDisabled => none
  | .syncApply settings => some settings
  | _ => last

/-- The worker holds a build that answers the signature, or a failure. -/
def BuildsFor (signature : List UInt8) : Pc → Prop
  | .reloadBuild settings _ => buildRuntimeSignature settings=signature
  | .reloadInstall prepared =>
    ∃ backend, prepared.backend=some backend ∧ buildRuntimeSignature backend.builtFrom=signature
  | .reloadFail _ => True
  | _ => False

/-- The memory answers the signature: a backend with it is effective, or
an error is shown. -/
def Settled (signature : List UInt8) (manager : Manager) : Prop :=
  (∃ backend, manager.effectiveBackend=some backend ∧
    buildRuntimeSignature backend.builtFrom=signature) ∨ manager.lastReloadError≠""

/-- A request for the signature waits, is being built or is settled. -/
def Serves (signature : List UInt8) (manager : Manager) (worker : Pc) : Prop :=
  (manager.reloadRequested=true ∧ buildRuntimeSignature manager.pendingSettings=signature) ∨
    (manager.reloadRequested=false ∧ BuildsFor signature worker) ∨
    (manager.reloadRequested=false ∧ building worker=false ∧ Settled signature manager)

/-- A build whose progress flag was cleared has no backend beside it. -/
def Detached (manager : Manager) (worker : Pc) : Prop :=
  building worker=true → manager.reloadInProgress=false → manager.effectiveBackend=none

/-- Invariant behind convergence, with the last call as a history. -/
structure ServeInv (pair : System×Option CoreConfig) : Prop where
  /-- Labels are right. -/
  label : LabelInv pair.1
  /-- Thread zero is the only worker. -/
  roles : ∀ t, keepsRole t (pair.1.pcs t)
  /-- A detached build stands alone. -/
  detached : Detached pair.1.shared (pair.1.pcs 0)
  /-- The last call is served. -/
  serves : ∀ settings, pair.2=some settings →
    Serves (buildRuntimeSignature settings) pair.1.shared (pair.1.pcs 0)

/-- The main region of a call is served by what it leaves behind. -/
theorem synchronizeBackendLocked_serves {settings : CoreConfig} {manager : Manager} {worker : Pc}
    (coherent : alreadyEffective settings manager=true → manager.reloadRequested=true →
      buildRuntimeSignature settings=buildRuntimeSignature manager.pendingSettings)
    (labelled : Labelled manager.effectiveBackend manager.effectiveBackendSignature)
    (detached : Detached manager worker) :
    Serves (buildRuntimeSignature settings) (synchronizeBackendLocked settings manager) worker := by
  rcases synchronizeBackendLocked_cases settings manager with ⟨he,heq⟩ | ⟨_,heq⟩
  · rw [heq]
    obtain ⟨⟨backend,hb⟩,hs,hp⟩ := (alreadyEffective_iff settings manager).mp he
    cases hr : manager.reloadRequested with
    | true => exact .inl ⟨hr,(coherent he hr).symm⟩
    | false =>
      have hidle : building worker=false := by
        by_contra hbuild
        have hnone := detached (Bool.eq_true_of_not_eq_false hbuild) hp
        rw [hb] at hnone
        cases hnone
      exact .inr (.inr ⟨hr,hidle,.inl ⟨backend,hb,(labelled backend hb).symm.trans hs⟩⟩)
  · rw [heq]
    exact .inl ⟨rfl,rfl⟩

/-- A step of a caller keeps what the worker owes. -/
theorem caller_serves {pool : System} {last : Option CoreConfig} {thread : ℕ} {oracle : Oracle}
    (inv : ServeInv (pool,last)) (coherent : coherentCall pool (thread,oracle)=true)
    (hne : thread≠0) :
    Detached (next oracle pool.shared (pool.pcs thread)).1 (pool.pcs 0) ∧
      ∀ settings, lastCall last pool (thread,oracle)=some settings →
        Serves (buildRuntimeSignature settings)
          (next oracle pool.shared (pool.pcs thread)).1 (pool.pcs 0) := by
  have hrole := inv.roles thread
  unfold lastCall
  dsimp only
  cases hpc : pool.pcs thread with
  | ready =>
    dsimp only [next]
    split
    · exact ⟨inv.detached,inv.serves⟩
    · exact ⟨inv.detached,inv.serves⟩
  | syncDisabled => exact ⟨fun _ _ => rfl,nofun⟩
  | syncEnsure settings => exact ⟨inv.detached,inv.serves⟩
  | syncApply settings =>
    obtain ⟨hb,_,hp⟩ := synchronizeBackendLocked_effective settings pool.shared
    dsimp only [next]
    refine ⟨?_,?_⟩
    · intro hbuild hprogress
      rw [hb]
      rw [hp] at hprogress
      exact inv.detached hbuild hprogress
    · rintro called ⟨⟩
      exact synchronizeBackendLocked_serves (coherentCall_spec coherent hpc)
        inv.label.effective inv.detached
  | reloadWait =>
    rw [hpc] at hrole
    exact absurd hrole hne
  | reloadBuild settings signature =>
    rw [hpc] at hrole
    exact absurd hrole hne
  | reloadInstall prepared =>
    rw [hpc] at hrole
    exact absurd hrole hne
  | reloadFail error =>
    rw [hpc] at hrole
    exact absurd hrole hne

/-- A step of the worker moves every owed signature one stage on. -/
theorem worker_serves {manager : Manager} {pc : Pc} (oracle : Oracle) (hrole : keepsRole 0 pc)
    (detached : Detached manager pc) :
    Detached (next oracle manager pc).1 (next oracle manager pc).2 ∧
      ∀ signature, Serves signature manager pc →
        Serves signature (next oracle manager pc).1 (next oracle manager pc).2 := by
  cases pc with
  | ready => exact absurd rfl hrole
  | syncDisabled => exact absurd rfl hrole
  | syncEnsure settings => exact absurd rfl hrole
  | syncApply settings => exact absurd rfl hrole
  | reloadWait =>
    dsimp only [next]
    split
    · rename_i hready
      have hr := (Bool.and_eq_true_iff.mp hready).2
      refine ⟨fun _ hflag => absurd hflag.symm Bool.false_ne_true,?_⟩
      rintro signature (⟨_,hs⟩ | ⟨hf,_⟩ | ⟨hf,_⟩)
      · exact .inr (.inl ⟨rfl,hs⟩)
      · exact absurd (hf.symm.trans hr) Bool.false_ne_true
      · exact absurd (hf.symm.trans hr) Bool.false_ne_true
    · exact ⟨detached,fun _ h => h⟩
  | reloadBuild settings label =>
    rcases createPreparedBackendForReload_cases settings label oracle.outcome with
      ⟨prepared,backend,heq,hb,hfrom,_⟩ | ⟨error,heq⟩
    · simp only [next,heq]
      refine ⟨fun _ hp => detached rfl hp,?_⟩
      rintro signature (hwait | ⟨hr,hbuild⟩ | ⟨_,hidle,_⟩)
      · exact .inl hwait
      · exact .inr (.inl ⟨hr,backend,hb,hfrom ▸ hbuild⟩)
      · cases hidle
    · simp only [next,heq]
      refine ⟨fun _ hp => detached rfl hp,?_⟩
      rintro signature (hwait | ⟨hr,_⟩ | ⟨_,hidle,_⟩)
      · exact .inl hwait
      · exact .inr (.inl ⟨hr,trivial⟩)
      · cases hidle
  | reloadInstall prepared =>
    refine ⟨fun hbuilds => absurd hbuilds Bool.false_ne_true,?_⟩
    rintro signature (hwait | ⟨hr,hbuild⟩ | ⟨_,hidle,_⟩)
    · exact .inl hwait
    · exact .inr (.inr ⟨hr,rfl,.inl hbuild⟩)
    · cases hidle
  | reloadFail error =>
    refine ⟨fun hbuilds => absurd hbuilds Bool.false_ne_true,?_⟩
    rintro signature (hwait | ⟨hr,_⟩ | ⟨_,hidle,_⟩)
    · exact .inl hwait
    · exact .inr (.inr ⟨hr,rfl,.inr error.nonempty⟩)
    · cases hidle

/-- A step of the worker is no call. -/
theorem lastCall_worker {pool : System} {last : Option CoreConfig} {oracle : Oracle}
    (hrole : keepsRole 0 (pool.pcs 0)) : lastCall last pool (0,oracle)=last := by
  unfold lastCall
  dsimp only
  cases hpc : pool.pcs 0 with
  | syncDisabled => exact absurd rfl (hpc ▸ hrole)
  | syncApply settings => exact absurd rfl (hpc ▸ hrole)
  | ready => rfl
  | syncEnsure settings => rfl
  | reloadWait => rfl
  | reloadBuild settings signature => rfl
  | reloadInstall prepared => rfl
  | reloadFail error => rfl

/-- The convergence invariant is kept by every coherent step. -/
theorem machine_serves (pair : System×Option CoreConfig) (label : ℕ×Oracle) (inv : ServeInv pair)
    (coherent : coherentCall pair.1 label=true) :
    ServeInv (observed machine lastCall pair label) := by
  obtain ⟨pool,last⟩ := pair
  have hlabel := machine_label pool label inv.label coherent
  have hroles := machine_keepsRole pool label inv.roles
  obtain ⟨thread,oracle⟩ := label
  by_cases hthread : thread=0
  · subst hthread
    obtain ⟨hdetached,hserves⟩ := worker_serves oracle (inv.roles 0) inv.detached
    refine ⟨hlabel,hroles,?_,?_⟩
    · dsimp only [observed]
      rw [Pool.step_pcs_self]
      exact hdetached
    · intro settings hlast
      dsimp only [observed] at hlast ⊢
      rw [lastCall_worker (inv.roles 0)] at hlast
      rw [Pool.step_pcs_self]
      exact hserves _ (inv.serves settings hlast)
  · obtain ⟨hdetached,hserves⟩ := caller_serves inv coherent hthread
    have hworker : (machine pool (thread,oracle)).pcs 0=pool.pcs 0 :=
      Pool.step_pcs_of_ne (Ne.symm hthread)
    refine ⟨hlabel,hroles,?_,?_⟩
    · dsimp only [observed]
      rw [hworker]
      exact hdetached
    · intro settings hlast
      dsimp only [observed]
      rw [hworker]
      exact hserves settings hlast

/-- No call is owed after start-up. -/
theorem startup_serves (boot : Option (CoreConfig×BuildOutcome)) :
    ServeInv (startup boot,none) :=
  ⟨startup_label boot,startup_keepsRole boot,nofun,nofun⟩

/-- No request waits, the worker waits and no call is in flight. -/
def Quiescent (pool : System) : Prop :=
  pool.shared.reloadRequested=false ∧ pool.pcs 0=.reloadWait ∧ ∀ t, t≠0 → pool.pcs t=.ready

/-- In every run of coherent calls, a quiescent state whose last call named
a provider has a backend with the signature of that call, or an error. -/
theorem quiescent_settled_of_coherent_run (boot : Option (CoreConfig×BuildOutcome))
    (schedule : List (ℕ×Oracle)) (settings : CoreConfig)
    (coherent : Along machine (fun pool label => coherentCall pool label=true)
      (startup boot) schedule)
    (quiet : Quiescent (run (observed machine lastCall) (startup boot,none) schedule).1)
    (hlast : (run (observed machine lastCall) (startup boot,none) schedule).2=some settings) :
    Settled (buildRuntimeSignature settings)
      (run (observed machine lastCall) (startup boot,none) schedule).1.shared := by
  have watched : Along (observed machine lastCall)
      (fun pair label => coherentCall pair.1 label=true) (startup boot,none) schedule :=
    (along_observed fun pool label => coherentCall pool label=true).mpr coherent
  have inv := watched.invariant machine_serves (startup_serves boot)
  obtain ⟨hr,hwait,_⟩ := quiet
  rcases inv.serves settings hlast with ⟨hwaiting,_⟩ | ⟨_,hbuild⟩ | ⟨_,_,hsettled⟩
  · exact absurd (hr.symm.trans hwaiting) Bool.false_ne_true
  · rw [hwait] at hbuild
    exact hbuild.elim
  · exact hsettled

/-- Only the worker and thread one have moved, and both rest. -/
theorem quiescent_of_two {boot : Option (CoreConfig×BuildOutcome)} {schedule : List (ℕ×Oracle)}
    (threads : ∀ label∈schedule, label.1<2)
    (hr : (run machine (startup boot) schedule).shared.reloadRequested=false)
    (hworker : (run machine (startup boot) schedule).pcs 0=.reloadWait)
    (hcaller : (run machine (startup boot) schedule).pcs 1=.ready) :
    Quiescent (run machine (startup boot) schedule) := by
  refine ⟨hr,hworker,?_⟩
  intro t ht
  by_cases hone : t=1
  · rw [hone]
    exact hcaller
  · have hunused : ∀ label∈schedule, label.1≠t := by
      intro label hmem
      have := threads label hmem
      omega
    rw [Pool.run_pcs_of_unused hunused]
    exact startup_pcs ht

/-- Not every run converges: after the switch back the system rests on the
second provider without an error, while the last call asked for the first. -/
theorem quiescent_unsettled :
    ¬∀ (boot : Option (CoreConfig×BuildOutcome)) (schedule : List (ℕ×Oracle))
      (settings : CoreConfig),
      Quiescent (run (observed machine lastCall) (startup boot,none) schedule).1 →
      (run (observed machine lastCall) (startup boot,none) schedule).2=some settings →
      Settled (buildRuntimeSignature settings)
        (run (observed machine lastCall) (startup boot,none) schedule).1.shared := by
  intro h
  have hlast : (run (observed machine lastCall) (startup (bootedWith "a"),none) switchBack).2=
      some (twoProviders "a") := by decide
  have hsettled := h (bootedWith "a") switchBack (twoProviders "a")
  rw [run_observed_fst] at hsettled
  have hquiet : Quiescent (run machine (startup (bootedWith "a")) switchBack) :=
    quiescent_of_two (by decide) (by decide) rfl rfl
  rcases hsettled hquiet hlast with ⟨backend,hb,hs⟩ | herror
  · have hb' : (run machine (startup (bootedWith "a")) switchBack).shared.effectiveBackend=
        some ⟨twoProviders "b",{}⟩ := by decide
    cases hb'.symm.trans hb
    exact absurd hs (by decide)
  · exact herror (by decide)

/-- A completed switch is a coherent run that settles its last call. -/
theorem quiescent_settled_after_switch :
    Settled (buildRuntimeSignature (twoProviders "b"))
      (run (observed machine lastCall) (startup (bootedWith "a"),none) switchOnce).1.shared :=
  quiescent_settled_of_coherent_run (bootedWith "a") switchOnce (twoProviders "b") (by decide)
    (by
      rw [run_observed_fst]
      exact quiescent_of_two (by decide) (by decide) rfl rfl)
    (by decide)

end Convergence

section Disabled

/-- A call without a provider is before its region. -/
def disabling : Pc → Bool
  | .syncDisabled => true
  | _ => false

/-- The worker may still install what it builds. -/
def installing : Pc → Bool
  | .reloadBuild _ _ => true
  | .reloadInstall _ => true
  | _ => false

/-- A disabling region runs only while no build can still be installed and
no call with a provider is in flight. -/
abbrev disablesAlone : System → ℕ×Oracle → Prop :=
  Pool.Alone (fun _ _ pc => disabling pc) (fun pc => installing pc || enabling pc)

/-- History variable: a disabling call has returned and no call with a
provider has been made since. -/
def disabledSince (disabled : Bool) (pool : System) (label : ℕ×Oracle) : Bool :=
  match pool.pcs label.1 with
  | .syncDisabled => true
  | .ready => disabled && (shouldDisableAsr label.2.call).isSome
  | _ => disabled

/-- While disabled there is no backend, no request and no thread that could
still bring one. -/
def DisabledInv (pair : System×Bool) : Prop :=
  pair.2=true → pair.1.shared.effectiveBackend=none ∧ pair.1.shared.reloadRequested=false ∧
    ¬pair.1.Some fun pc => installing pc || enabling pc

/-- After a step that leaves its own thread harmless, a harmful thread was
harmful before. -/
theorem not_some_step {pool : System} {thread : ℕ} {oracle : Oracle} {kind : Pc → Bool}
    (hself : kind (next oracle pool.shared (pool.pcs thread)).2=false)
    (hothers : ¬pool.Other thread kind) : ¬(machine pool (thread,oracle)).Some kind := by
  intro hsome
  rcases Pool.some_step_cases hsome with hkind | hother
  · rw [hself] at hkind
    cases hkind
  · exact hothers hother

/-- The disabled state is kept by every step that disables alone. -/
theorem machine_disabled (pair : System×Bool) (label : ℕ×Oracle) (inv : DisabledInv pair)
    (alone : disablesAlone pair.1 label) :
    DisabledInv (observed machine disabledSince pair label) := by
  obtain ⟨pool,disabled⟩ := pair
  obtain ⟨thread,oracle⟩ := label
  intro hafter
  dsimp only [observed,disabledSince,Pool.step_shared] at hafter ⊢
  cases hpc : pool.pcs thread with
  | ready =>
    rw [hpc] at hafter
    obtain ⟨hbefore,hcall⟩ := Bool.and_eq_true_iff.mp hafter
    obtain ⟨hnone,hr,hclear⟩ := inv hbefore
    obtain ⟨reason,hreason⟩ := Option.isSome_iff_exists.mp hcall
    have hstep : next oracle pool.shared .ready=(pool.shared,.syncDisabled) := by
      simp only [next,hreason]
    rw [hstep]
    refine ⟨hnone,hr,not_some_step ?_ fun hother => hclear hother.some⟩
    rw [hpc,hstep]
    rfl
  | syncDisabled =>
    refine ⟨rfl,rfl,not_some_step ?_ (alone ?_)⟩
    · rw [hpc]
      rfl
    · dsimp only
      rw [hpc]
      rfl
  | syncEnsure settings =>
    rw [hpc] at hafter
    obtain ⟨_,_,hclear⟩ := inv hafter
    exact absurd ⟨thread,by rw [hpc]; rfl⟩ hclear
  | syncApply settings =>
    rw [hpc] at hafter
    obtain ⟨_,_,hclear⟩ := inv hafter
    exact absurd ⟨thread,by rw [hpc]; rfl⟩ hclear
  | reloadWait =>
    rw [hpc] at hafter
    obtain ⟨hnone,hr,hclear⟩ := inv hafter
    have hstep := next_reloadWait_idle oracle hr
    rw [hstep]
    refine ⟨hnone,hr,not_some_step ?_ fun hother => hclear hother.some⟩
    rw [hpc,hstep]
    rfl
  | reloadBuild settings signature =>
    rw [hpc] at hafter
    obtain ⟨_,_,hclear⟩ := inv hafter
    exact absurd ⟨thread,by rw [hpc]; rfl⟩ hclear
  | reloadInstall prepared =>
    rw [hpc] at hafter
    obtain ⟨_,_,hclear⟩ := inv hafter
    exact absurd ⟨thread,by rw [hpc]; rfl⟩ hclear
  | reloadFail error =>
    rw [hpc] at hafter
    obtain ⟨hnone,hr,hclear⟩ := inv hafter
    refine ⟨hnone,hr,not_some_step ?_ fun hother => hclear hother.some⟩
    rw [hpc]
    rfl

/-- In every run whose disabling calls meet neither a build nor a call in
flight, recognition stays disabled until a later call names a provider. -/
theorem disabled_of_alone_run (boot : Option (CoreConfig×BuildOutcome))
    (schedule : List (ℕ×Oracle)) (alone : Along machine disablesAlone (startup boot) schedule)
    (hdisabled : (run (observed machine disabledSince) (startup boot,false) schedule).2=true) :
    (run machine (startup boot) schedule).shared.effectiveBackend=none ∧
      ∀ openSession, ∃ error,
        createSessionFromEffectiveBackend openSession
          (run machine (startup boot) schedule).shared=.error error := by
  have watched : Along (observed machine disabledSince)
      (fun pair label => disablesAlone pair.1 label) (startup boot,false) schedule :=
    (along_observed disablesAlone).mpr alone
  obtain ⟨hnone,_⟩ := watched.invariant machine_disabled
    (show DisabledInv (startup boot,false) from nofun) hdisabled
  rw [run_observed_fst] at hnone
  exact ⟨hnone,createSession_refused hnone⟩

/-- Thread one begins a call for settings without a provider. -/
def asksNone : ℕ×Oracle := (1,{})

/-- A call without a provider arrives while the worker builds. -/
def disableDuringBuild : List (ℕ×Oracle) :=
  [asks "b",caller,caller,worker,asksNone,caller,worker,worker]

/-- Not every run stays disabled: a build in flight is installed after the
disabling call has returned. -/
theorem disabled_call_overrun :
    ¬∀ (boot : Option (CoreConfig×BuildOutcome)) (schedule : List (ℕ×Oracle)),
      (run (observed machine disabledSince) (startup boot,false) schedule).2=true →
      (run machine (startup boot) schedule).shared.effectiveBackend=none := by
  intro h
  exact absurd (h (bootedWith "a") disableDuringBuild (by decide)) (by decide)

/-- A disabling call after a completed switch. -/
def disableAfterSwitch : List (ℕ×Oracle) := switchOnce++[asksNone,caller]

/-- The disabling call meets nothing in flight and recognition is off. -/
theorem disabled_after_switch :
    (run machine (startup (bootedWith "a")) disableAfterSwitch).shared.effectiveBackend=none :=
  (disabled_of_alone_run (bootedWith "a") disableAfterSwitch
    (Pool.along_alone 2 .ready rfl (by decide)
      (fun t ht => startup_pcs (by omega)) (by decide)) (by decide)).1

end Disabled

end Vinput.BackendReloadRuns
