import Vinput.InterleavedRuns
import Vinput.AsrSettings

/-!
# Asynchronous reload of the recognition backend

The recognition session manager keeps one effective backend and lets a
worker thread build its successor outside the lock. Every lock region of
`SynchronizeBackend`, of the reload worker and of `CreateSession` is one
function on the manager's memory, and every thread is a program counter
between two lock regions. What a backend build yields is left to the
environment: building always ends, and a failure always has a text.
-/

namespace Vinput.BackendReload

open InterleavedRuns AsrSettings

/-- A built backend. It remembers the settings it was built from, which
the program itself cannot read back. -/
structure AsrBackend where
  /-- Settings handed to the builder. -/
  builtFrom : CoreConfig
  /-- What the backend says about itself. -/
  descriptor : BackendDescriptor
deriving DecidableEq

/-- A failure report; no builder fails without a text. -/
structure FailureText where
  /-- Text shown to the user. -/
  text : String
  /-- The text is never empty. -/
  nonempty : text≠"" := by decide

/-- What a build attempt meets in its environment. -/
inductive BuildOutcome where
  | built (descriptor : BackendDescriptor)
  | createFailed (error : FailureText)
  | warmupFailed (error : FailureText)

/-- A backend that is ready to become the effective one. -/
structure PreparedBackend where
  /-- The backend itself, absent before preparation. -/
  backend : Option AsrBackend := none
  /-- Its own description. -/
  descriptor : BackendDescriptor := {}
  /-- Provider the description names. -/
  providerId : String := ""
  /-- Preferred local model of the settings. -/
  modelId : String := ""
  /-- Signature it will carry once effective. -/
  signature : List UInt8 := []
deriving DecidableEq

/-- Build and warm up a backend; it is labelled with the signature of the
settings it was built from. -/
def createPreparedBackend (settings : CoreConfig) (outcome : BuildOutcome) :
    Except FailureText PreparedBackend :=
  match activeAsrProvider settings with
  | none => .error ⟨"Active ASR provider not found.",by decide⟩
  | some _ =>
    match outcome with
    | .createFailed error => .error error
    | .warmupFailed error => .error error
    | .built descriptor =>
      .ok {
        backend := some ⟨settings,descriptor⟩
        descriptor := descriptor
        providerId := descriptor.providerId
        modelId := preferredLocalModel settings
        signature := buildRuntimeSignature settings }

/-- The reload path relabels the prepared backend with the signature the
worker read next to the settings. -/
def createPreparedBackendForReload (settings : CoreConfig) (signature : List UInt8)
    (outcome : BuildOutcome) : Except FailureText PreparedBackend :=
  match createPreparedBackend settings outcome with
  | .error error => .error error
  | .ok prepared => .ok {prepared with signature := signature}

/-- Memory of the recognition session manager. -/
structure Manager where
  /-- The reload worker has been started. -/
  reloadWorkerRunning : Bool := false
  /-- A reload waits for the worker. -/
  reloadRequested : Bool := false
  /-- The worker has taken a request and not finished it. -/
  reloadInProgress : Bool := false
  /-- Settings of the waiting request. -/
  pendingSettings : CoreConfig := {}
  /-- Provider asked for last. -/
  targetProviderId : String := ""
  /-- Model asked for last. -/
  targetModelId : String := ""
  /-- Signature asked for last. -/
  targetBackendSignature : List UInt8 := []
  /-- The backend new sessions use. -/
  effectiveBackend : Option AsrBackend := none
  /-- Description of the effective backend. -/
  effectiveDescriptor : BackendDescriptor := {}
  /-- The description is set. -/
  hasEffectiveDescriptor : Bool := false
  /-- Provider of the effective backend. -/
  effectiveProviderId : String := ""
  /-- Model of the effective backend. -/
  effectiveModelId : String := ""
  /-- Signature the effective backend carries. -/
  effectiveBackendSignature : List UInt8 := []
  /-- Text of the last failed reload. -/
  lastReloadError : String := ""

/-- Forget the effective backend and its label. -/
def resetEffectiveBackendLocked (manager : Manager) : Manager :=
  {manager with
    effectiveBackend := none
    hasEffectiveDescriptor := false
    effectiveDescriptor := {}
    effectiveProviderId := ""
    effectiveModelId := ""
    effectiveBackendSignature := []}

/-- Enter the disabled state: drop the request, both flags and the backend. -/
def applyDisabledStateLocked (manager : Manager) : Manager :=
  resetEffectiveBackendLocked {manager with
    pendingSettings := {}
    targetProviderId := ""
    targetModelId := ""
    targetBackendSignature := []
    lastReloadError := ""
    reloadRequested := false
    reloadInProgress := false}

/-- Make a prepared backend effective and the target alike. -/
def activatePreparedBackend (prepared : PreparedBackend) (manager : Manager) :
    Except String Manager :=
  match prepared.backend with
  | none => .error "Prepared backend is empty."
  | some backend =>
    .ok {manager with
      effectiveBackend := some backend
      effectiveDescriptor := prepared.descriptor
      hasEffectiveDescriptor := true
      effectiveProviderId := prepared.providerId
      effectiveModelId := prepared.modelId
      effectiveBackendSignature := prepared.signature
      targetProviderId := prepared.providerId
      targetModelId := prepared.modelId
      targetBackendSignature := prepared.signature
      lastReloadError := ""}

/-- Start the reload worker unless it runs. -/
def ensureReloadWorkerStarted (manager : Manager) : Manager :=
  {manager with reloadWorkerRunning := true}

/-- Synchronous initialization before any other thread runs; the second
component is the reason recognition is disabled, empty on success. -/
def initializeManager (settings : CoreConfig) (outcome : BuildOutcome) (manager : Manager) :
    Manager×String :=
  match shouldDisableAsr settings with
  | some reason => (applyDisabledStateLocked manager,reason)
  | none =>
    match createPreparedBackend settings outcome with
    | .error error =>
      ({resetEffectiveBackendLocked manager with
        targetBackendSignature := []
        lastReloadError := error.text},error.text)
    | .ok prepared =>
      match activatePreparedBackend prepared manager with
      | .error error => (manager,error)
      | .ok activated => (ensureReloadWorkerStarted activated,"")

/-- The effective backend already carries the asked signature and the
worker reports no reload in progress. -/
def alreadyEffective (settings : CoreConfig) (manager : Manager) : Bool :=
  manager.effectiveBackend.isSome &&
    decide (manager.effectiveBackendSignature=buildRuntimeSignature settings) &&
    !manager.reloadInProgress

/-- Record what a call asks for. -/
def setTarget (settings : CoreConfig) (manager : Manager) : Manager :=
  {manager with
    targetProviderId := ((activeAsrProvider settings).map asrProviderId).getD ""
    targetModelId := preferredLocalModel settings
    targetBackendSignature := buildRuntimeSignature settings
    lastReloadError := ""}

/-- The lock region of `SynchronizeBackend` for settings with a provider.
The already effective case moves the target and leaves a waiting request
as it is; otherwise the settings become the waiting request. -/
def synchronizeBackendLocked (settings : CoreConfig) (manager : Manager) : Manager :=
  if alreadyEffective settings manager then setTarget settings manager
  else
    {setTarget settings manager with
      pendingSettings := settings
      reloadRequested := true}

/-- The worker takes the waiting request. -/
def takeReloadLocked (manager : Manager) : Manager :=
  {manager with reloadRequested := false,reloadInProgress := true}

/-- The worker installs what it has built. -/
def installReloadLocked (prepared : PreparedBackend) (manager : Manager) : Manager :=
  {manager with
    effectiveBackend := prepared.backend
    effectiveDescriptor := prepared.descriptor
    hasEffectiveDescriptor := true
    effectiveProviderId := prepared.providerId
    effectiveModelId := prepared.modelId
    effectiveBackendSignature := prepared.signature
    lastReloadError := ""
    reloadInProgress := false}

/-- The worker reports a failed build. -/
def failReloadLocked (error : FailureText) (manager : Manager) : Manager :=
  {manager with lastReloadError := error.text,reloadInProgress := false}

/-- Session creation from the effective backend: the backend kept alive by
the session and its description, or the text of the refusal. -/
def createSessionFromEffectiveBackend (openSession : AsrBackend → Except String Unit)
    (manager : Manager) : Except String (AsrBackend×BackendDescriptor) :=
  match manager.effectiveBackend with
  | none =>
    if manager.lastReloadError≠"" then .error manager.lastReloadError
    else if manager.reloadInProgress then
      .error "ASR backend is still loading. Please try again in a moment."
    else .error "ASR backend is not ready."
  | some backend =>
    match openSession backend with
    | .error error => .error error
    | .ok _ =>
      .ok (backend,if manager.hasEffectiveDescriptor then manager.effectiveDescriptor else {})

/-- Without an effective backend no session is created, whatever the flags
and the last error say. -/
theorem createSession_refused {manager : Manager} (h : manager.effectiveBackend=none)
    (openSession : AsrBackend → Except String Unit) :
    ∃ error, createSessionFromEffectiveBackend openSession manager=.error error := by
  unfold createSessionFromEffectiveBackend
  rw [h]
  dsimp only
  split
  · exact ⟨_,rfl⟩
  · split
    · exact ⟨_,rfl⟩
    · exact ⟨_,rfl⟩

/-- Program counters between lock regions, with the locals they carry. -/
inductive Pc where
  /-- A caller outside any call. -/
  | ready
  /-- A call without a provider, before its only lock region. -/
  | syncDisabled
  /-- A call with a provider, before it starts the worker. -/
  | syncEnsure (settings : CoreConfig)
  /-- A call with a provider, before its main lock region. -/
  | syncApply (settings : CoreConfig)
  /-- The worker before its wait. -/
  | reloadWait
  /-- The worker builds outside the lock. -/
  | reloadBuild (settings : CoreConfig) (signature : List UInt8)
  /-- The worker before the region that installs. -/
  | reloadInstall (prepared : PreparedBackend)
  /-- The worker before the region that reports a failure. -/
  | reloadFail (error : FailureText)

/-- What the environment decides in one step: the settings of a new call
and the outcome of a build. -/
structure Oracle where
  /-- Settings of the next call. -/
  call : CoreConfig := {}
  /-- Outcome of the running build. -/
  outcome : BuildOutcome := .built {}

/-- One step of one thread. The worker stays in its wait until it is
started and a request waits. -/
def next (oracle : Oracle) (manager : Manager) : Pc → Manager×Pc
  | .ready =>
    match shouldDisableAsr oracle.call with
    | some _ => (manager,.syncDisabled)
    | none => (manager,.syncEnsure oracle.call)
  | .syncDisabled => (applyDisabledStateLocked manager,.ready)
  | .syncEnsure settings => (ensureReloadWorkerStarted manager,.syncApply settings)
  | .syncApply settings => (synchronizeBackendLocked settings manager,.ready)
  | .reloadWait =>
    if manager.reloadWorkerRunning && manager.reloadRequested then
      (takeReloadLocked manager,
        .reloadBuild manager.pendingSettings manager.targetBackendSignature)
    else (manager,.reloadWait)
  | .reloadBuild settings signature =>
    match createPreparedBackendForReload settings signature oracle.outcome with
    | .ok prepared => (manager,.reloadInstall prepared)
    | .error error => (manager,.reloadFail error)
  | .reloadInstall prepared => (installReloadLocked prepared manager,.reloadWait)
  | .reloadFail error => (failReloadLocked error manager,.reloadWait)

/-- All threads of the manager over one memory. -/
abbrev System := Pool Manager Pc

/-- One step of the whole manager. -/
abbrev machine : System → ℕ×Oracle → System := Pool.step next

/-- Memory after start-up: fresh, or left by a synchronous initialization. -/
def startupManager : Option (CoreConfig×BuildOutcome) → Manager
  | none => {}
  | some (settings,outcome) => (initializeManager settings outcome {}).1

/-- Thread zero is the reload worker, every other thread calls. -/
def startup (boot : Option (CoreConfig×BuildOutcome)) : System :=
  ⟨startupManager boot,fun thread => if thread=0 then .reloadWait else .ready⟩

/-- Callers start outside any call. -/
theorem startup_pcs {boot : Option (CoreConfig×BuildOutcome)} {thread : ℕ} (h : thread≠0) :
    (startup boot).pcs thread=.ready := if_neg h

/-- Without a request the worker stays in its wait. -/
theorem next_reloadWait_idle {manager : Manager} (oracle : Oracle)
    (h : manager.reloadRequested=false) :
    next oracle manager .reloadWait=(manager,.reloadWait) := by
  simp only [next,h,Bool.and_false,Bool.false_eq_true,if_false]

/-- The worker holds a request it has taken and not finished. -/
def building : Pc → Bool
  | .reloadBuild _ _ => true
  | .reloadInstall _ => true
  | .reloadFail _ => true
  | _ => false

/-- A call with a provider is between its start and its main region. -/
def enabling : Pc → Bool
  | .syncEnsure _ => true
  | .syncApply _ => true
  | _ => false

/-- What the main region of a call can do: only move the target when the
effective backend already matches, or queue the settings. -/
theorem synchronizeBackendLocked_cases (settings : CoreConfig) (manager : Manager) :
    (alreadyEffective settings manager=true ∧
        synchronizeBackendLocked settings manager=setTarget settings manager) ∨
      (alreadyEffective settings manager=false ∧
        synchronizeBackendLocked settings manager=
          {setTarget settings manager with pendingSettings := settings,reloadRequested := true}) := by
  unfold synchronizeBackendLocked
  cases h : alreadyEffective settings manager with
  | true => exact .inl ⟨rfl,if_pos rfl⟩
  | false => exact .inr ⟨rfl,if_neg Bool.false_ne_true⟩

/-- What a matching effective backend means. -/
theorem alreadyEffective_iff (settings : CoreConfig) (manager : Manager) :
    alreadyEffective settings manager=true ↔
      (∃ backend, manager.effectiveBackend=some backend) ∧
        manager.effectiveBackendSignature=buildRuntimeSignature settings ∧
        manager.reloadInProgress=false := by
  simp only [alreadyEffective,Bool.and_eq_true,decide_eq_true_eq,Bool.not_eq_true',
    Option.isSome_iff_exists,and_assoc]

/-- A reload build yields a backend built from the very settings, under
the signature read beside them, or a failure text. -/
theorem createPreparedBackendForReload_cases (settings : CoreConfig) (signature : List UInt8)
    (outcome : BuildOutcome) :
    (∃ prepared backend,
        createPreparedBackendForReload settings signature outcome=.ok prepared ∧
          prepared.backend=some backend ∧ backend.builtFrom=settings ∧
          prepared.signature=signature) ∨
      ∃ error, createPreparedBackendForReload settings signature outcome=.error error := by
  unfold createPreparedBackendForReload createPreparedBackend
  cases activeAsrProvider settings with
  | none => exact .inr ⟨_,rfl⟩
  | some provider =>
    cases outcome with
    | built descriptor => exact .inl ⟨_,⟨settings,descriptor⟩,rfl,rfl,rfl,rfl⟩
    | createFailed error => exact .inr ⟨error,rfl⟩
    | warmupFailed error => exact .inr ⟨error,rfl⟩

/-- After start-up no request waits, no reload runs, and a backend that is
effective carries the signature of the settings it was built from. -/
theorem startupManager_spec (boot : Option (CoreConfig×BuildOutcome)) :
    (startupManager boot).reloadRequested=false ∧ (startupManager boot).reloadInProgress=false ∧
      ∀ backend, (startupManager boot).effectiveBackend=some backend →
        (startupManager boot).effectiveBackendSignature=
          buildRuntimeSignature backend.builtFrom := by
  rcases boot with _ | ⟨settings,outcome⟩
  · exact ⟨rfl,rfl,fun backend h => nomatch h⟩
  · dsimp only [startupManager,initializeManager,createPreparedBackend]
    cases shouldDisableAsr settings with
    | some reason => exact ⟨rfl,rfl,fun backend h => nomatch h⟩
    | none =>
      cases activeAsrProvider settings with
      | none => exact ⟨rfl,rfl,fun backend h => nomatch h⟩
      | some provider =>
        cases outcome with
        | createFailed error => exact ⟨rfl,rfl,fun backend h => nomatch h⟩
        | warmupFailed error => exact ⟨rfl,rfl,fun backend h => nomatch h⟩
        | built descriptor =>
          refine ⟨rfl,rfl,?_⟩
          intro backend h
          cases h
          rfl

/-- Thread zero stays in the worker's loop and no other thread enters it. -/
def keepsRole (thread : ℕ) : Pc → Prop
  | .reloadWait => thread=0
  | .reloadBuild _ _ => thread=0
  | .reloadInstall _ => thread=0
  | .reloadFail _ => thread=0
  | _ => thread≠0

/-- A step keeps the role of its thread. -/
theorem next_keepsRole (oracle : Oracle) (manager : Manager) {thread : ℕ} {pc : Pc}
    (h : keepsRole thread pc) : keepsRole thread (next oracle manager pc).2 := by
  cases pc with
  | ready =>
    dsimp only [next]
    split
    · exact h
    · exact h
  | syncDisabled => exact h
  | syncEnsure settings => exact h
  | syncApply settings => exact h
  | reloadWait =>
    dsimp only [next]
    split
    · exact h
    · exact h
  | reloadBuild settings signature =>
    dsimp only [next]
    split
    · exact h
    · exact h
  | reloadInstall prepared => exact h
  | reloadFail error => exact h

/-- Roles are kept by every step of the system. -/
theorem machine_keepsRole (pool : System) (label : ℕ×Oracle)
    (h : ∀ t, keepsRole t (pool.pcs t)) : ∀ t, keepsRole t ((machine pool label).pcs t) := by
  obtain ⟨thread,oracle⟩ := label
  exact Pool.local_step (fun _ t pc => keepsRole t pc) h
    (next_keepsRole oracle pool.shared (h thread)) (fun _ _ ht => ht)

/-- Every thread starts in its role. -/
theorem startup_keepsRole (boot : Option (CoreConfig×BuildOutcome)) :
    ∀ t, keepsRole t ((startup boot).pcs t) := by
  intro t
  unfold startup
  dsimp only
  split
  · assumption
  · assumption

end Vinput.BackendReload
