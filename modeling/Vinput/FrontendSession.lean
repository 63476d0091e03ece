import Mathlib.Data.List.Basic
import Vinput.StatusPollGate
import Vinput.InterleavedRuns

/-!
# The frontend session

The addon lives on the event loop of the input method: keys, signals and
replies of the daemon, timers and the events of input contexts are handled
one after the other, each to its end. The engine below is what these
handlers read and write. Panels, menus and the context log are left out;
what a handler asks its surroundings is in the moment of its event.
-/

namespace Vinput.FrontendSession

open StatusPollGate

/-- Input contexts are told apart by their address. -/
abbrev InputContext := ℕ

/-- A key as the input method compares it; the empty key is the default. -/
structure Key where
  sym : ℕ := 0
  states : ℕ := 0
deriving DecidableEq

/-- What the input method knows about keys. -/
structure KeyRules where
  /-- Canonical form of a key. -/
  normalize : Key → Key
  /-- A key event meets a key of a list. -/
  check : Key → Key → Bool
  /-- The key is a modifier. -/
  isModifier : Key → Bool
  /-- The event is the release of this modifier. -/
  isReleaseOfModifier : Key → Key → Bool

/-- How a hotkey starts and stops a recording. -/
inductive TriggerMode where
  | tap
  | hold
  | both
deriving DecidableEq

/-- What a hotkey is for. -/
inductive HotkeyRole where
  | none
  | menu
  | trigger
  | command
deriving DecidableEq

/-- Phases of a frontend session. -/
inductive Phase where
  | pendingStart
  | recording
  | inferring
  | postprocessing
deriving DecidableEq

/-- Status texts of the daemon, as far as the frontend tells them apart. -/
inductive DaemonStatus where
  | empty
  | idle
  | recording
  | inferring
  | postprocessing
  | other
deriving DecidableEq

/-- Messages the frontend puts on the bus. -/
inductive DaemonCall where
  | startRecording
  | startCommandRecording (selectedText : String)
  | stopRecording (sceneId : String)
  | cancelOperation (commitRawText : Bool)
  | getStatus
deriving DecidableEq

/-- The resolved active scene. -/
structure Scene where
  id : String
  rawPrev : Bool
deriving DecidableEq

/-- What a session knows of its recording. -/
structure Session where
  phase : Phase := .pendingStart
  ic : InputContext
  trigger : Key := {}
  pressTime : ℕ
  commandMode : Bool := false
  triggerReleased : Bool := false
  rawPrev : Bool := true
  stopOnRelease : Bool := false
deriving DecidableEq

/-- Whether a command can be carried out, from the configuration. -/
inductive CommandTarget where
  | disabled
  | noProvider
  | ready
deriving DecidableEq

/-- What the surroundings of one event are: the clock in nanoseconds,
whether the bus takes a call, the scene the configuration names, and what a
command would work on. -/
structure Moment where
  now : ℕ
  queued : Bool := true
  scene : Scene
  commandTarget : CommandTarget := .ready
  selectedText : String := ""
deriving DecidableEq

/-- Memory of the frontend. -/
structure Engine where
  /-- The message bus is there. -/
  bus : Bool
  triggerMode : TriggerMode
  triggerKeys : List Key
  commandKeys : List Key
  menuKeys : List Key
  /-- The active scene as last resolved. -/
  scene : Scene
  session : Option Session := none
  statusIc : Option InputContext := none
  lastActiveIc : Option InputContext := none
  heldKeySym : Option ℕ := none
  heldRole : HotkeyRole := .none
  chordInterrupted : Bool := false
  heldPressTime : ℕ := 0
  lastTriggerTime : ℕ := 0
  daemonSyncBlockedUntil : ℕ := 0
  lastKnownDaemonStatus : DaemonStatus := .empty
  polledIdleSince : Option ℕ := none
  pendingPostprocessingRelease : Option Key := none
  /-- The stop timer is armed. -/
  pendingStop : Bool := false
  /-- The status timer runs. -/
  statusSync : Bool := false
  statusPollGate : Gate := {}
  /-- The query on its way. -/
  pendingStatusCall : Option Ticket := none
  /-- A start is on its way. -/
  pendingStartCall : Bool := false
  /-- A stop is on its way. -/
  pendingStopCall : Bool := false
  /-- Every message put on the bus, oldest first. -/
  sent : List DaemonCall := []
deriving DecidableEq

/-- A key event of an input context. -/
structure KeyEvent where
  ic : InputContext
  /-- The key after the input method's own translation. -/
  key : Key
  /-- The key as it was pressed. -/
  origKey : Key
  isRelease : Bool
  /-- The visible menu takes the key. -/
  menuHandles : Bool := false
deriving DecidableEq

/-- Nanoseconds of a number of milliseconds. -/
def milliseconds (count : ℕ) : ℕ := count*1000000

/-- A trigger counts once in this time. -/
def triggerDebounce : ℕ := milliseconds 80

/-- A press this short is a tap. -/
def tapMaxHoldDuration : ℕ := milliseconds 200

/-- After a failure the daemon is left alone for this time. -/
def daemonFailureCooldown : ℕ := milliseconds 1500

/-- An idle daemon ends a session after this time. -/
def polledIdleRecoveryDelay : ℕ := milliseconds 5000

section Calls

/-- Calls are placed unless a failure was noted a moment ago. -/
def daemonSyncAllowed (engine : Engine) (now : ℕ) : Bool :=
  decide (engine.daemonSyncBlockedUntil ≤ now)

/-- The daemon failed. -/
def noteDaemonSyncFailure (now : ℕ) (engine : Engine) : Engine :=
  {engine with daemonSyncBlockedUntil := now+daemonFailureCooldown}

/-- The daemon answered. -/
def clearDaemonSyncFailure (engine : Engine) : Engine :=
  {engine with daemonSyncBlockedUntil := 0}

/-- A call can be put on the bus. -/
def canCall (moment : Moment) (engine : Engine) : Bool :=
  engine.bus && daemonSyncAllowed engine moment.now && moment.queued

/-- A start is sent when a call can be made. -/
def callStart (call : DaemonCall) (moment : Moment) (engine : Engine) : Engine×Bool :=
  if !engine.bus || !daemonSyncAllowed engine moment.now then
    (noteDaemonSyncFailure moment.now engine,false)
  else if moment.queued then
    ({engine with pendingStartCall := true, sent := engine.sent++[call]},true)
  else (noteDaemonSyncFailure moment.now {engine with pendingStartCall := false},false)

/-- A recording is started. -/
def callStartRecording : Moment → Engine → Engine×Bool := callStart .startRecording

/-- A recording of a command is started. -/
def callStartCommandRecording (selectedText : String) : Moment → Engine → Engine×Bool :=
  callStart (.startCommandRecording selectedText)

/-- A recording is stopped. -/
def callStopRecording (sceneId : String) (moment : Moment) (engine : Engine) : Engine×Bool :=
  if !engine.bus || !daemonSyncAllowed engine moment.now then
    (noteDaemonSyncFailure moment.now engine,false)
  else if moment.queued then
    ({engine with pendingStopCall := true, sent := engine.sent++[.stopRecording sceneId]},true)
  else (noteDaemonSyncFailure moment.now {engine with pendingStopCall := false},false)

/-- A cancel is sent without waiting for a reply and is never held back. -/
def callCancelOperation (commitRawText : Bool) (engine : Engine) : Engine :=
  if engine.bus then {engine with sent := engine.sent++[.cancelOperation commitRawText]}
  else engine

end Calls

section States

/-- Stop the status timer and drop its query once nothing is shown. -/
def stopStatusSyncIfIdle (engine : Engine) : Engine :=
  if engine.session.isSome || engine.statusIc.isSome then engine
  else {engine with
    statusSync := false
    statusPollGate := cancel engine.statusPollGate
    pendingStatusCall := none}

/-- The daemon is polled from now on. -/
def ensureStatusSync (engine : Engine) : Engine :=
  if engine.session.isSome || engine.statusIc.isSome then {engine with statusSync := true}
  else stopStatusSyncIfIdle engine

/-- The input context is the last active one. -/
def rememberInputContext (ic : InputContext) (engine : Engine) : Engine :=
  {engine with lastActiveIc := some ic}

/-- The input context a status belongs to. -/
def resolveFrontendInputContext (engine : Engine) (fallback : Option InputContext) :
    Option InputContext :=
  match engine.session with
  | some session => some session.ic
  | none => engine.statusIc.or (fallback.or engine.lastActiveIc)

/-- The stop timer is off. -/
def cancelPendingStop (engine : Engine) : Engine := {engine with pendingStop := false}

/-- The stop timer is on. -/
def scheduleStopRecording (engine : Engine) : Engine := {engine with pendingStop := true}

/-- No delayed start is ever armed, so only the held hotkey is let go. -/
def cancelPendingStart (engine : Engine) : Engine :=
  {engine with heldRole := .none, heldKeySym := none}

/-- The session at hand, or a new one of this context. -/
def sessionOrNew (engine : Engine) (ic : InputContext) (now : ℕ) : Session :=
  engine.session.getD {ic := ic, pressTime := now}

/-- Whether the raw text was offered so far. -/
def currentRawPrev (engine : Engine) : Bool :=
  match engine.session with
  | some session => session.rawPrev
  | none => engine.scene.rawPrev

/-- A session waits for its start. -/
def enterPendingStartState (ic : InputContext) (trigger : Key) (commandMode : Bool)
    (moment : Moment) (engine : Engine) : Engine :=
  ensureStatusSync {rememberInputContext ic engine with
    statusPollGate := invalidate engine.statusPollGate
    session := some {sessionOrNew engine ic moment.now with
      phase := .pendingStart
      ic := ic
      trigger := trigger
      commandMode := commandMode
      rawPrev := engine.scene.rawPrev}
    statusIc := some ic}

/-- A trigger released before the daemon confirmed the start. -/
def stopAfterStart (engine : Engine) : Bool :=
  match engine.session with
  | some session => (decide (engine.triggerMode=.hold) || session.stopOnRelease) &&
      decide (session.phase=.pendingStart) && session.triggerReleased
  | none => false

/-- A session records. -/
def enterRecordingState (ic : InputContext) (trigger : Key) (commandMode : Bool)
    (moment : Moment) (engine : Engine) : Engine :=
  let entered := ensureStatusSync {rememberInputContext ic engine with
    session := some {sessionOrNew engine ic moment.now with
      phase := .recording
      ic := ic
      trigger := trigger
      commandMode := commandMode
      rawPrev := currentRawPrev engine}
    statusIc := some ic}
  if stopAfterStart engine then scheduleStopRecording entered else entered

/-- A session waits for its result. -/
def enterBusyState (ic : InputContext) (commandMode postprocessing : Bool)
    (rawPrev : Option Bool) (moment : Moment) (engine : Engine) : Engine :=
  ensureStatusSync {rememberInputContext ic engine with
    session := some {sessionOrNew engine ic moment.now with
      phase := if postprocessing then .postprocessing else .inferring
      ic := ic
      trigger := {}
      commandMode := commandMode
      rawPrev := rawPrev.getD (currentRawPrev engine)}
    statusIc := some ic}

/-- The session ends. -/
def finishFrontendSession (fallback : Option InputContext) (engine : Engine) : Engine :=
  let ic := match engine.session with
    | some session => some session.ic
    | none => fallback.or engine.statusIc
  stopStatusSyncIfIdle {engine with
    statusPollGate := invalidate engine.statusPollGate
    session := none
    polledIdleSince := none
    statusIc := if engine.statusIc=ic then none else engine.statusIc}

/-- Take the local phase from a status of the daemon. -/
def applyDaemonStatusLocally (status : DaemonStatus) (fallback : Option InputContext)
    (preferCommandMode : Bool) (moment : Moment) (engine : Engine) : Engine :=
  if status=.idle ∧ engine.session=none ∧ engine.statusIc=none then engine
  else
    match resolveFrontendInputContext engine fallback with
    | none => engine
    | some ic =>
      let trigger := (engine.session.map (·.trigger)).getD {}
      let commandMode := (engine.session.map (·.commandMode)).getD preferCommandMode
      match status with
      | .recording => enterRecordingState ic trigger commandMode moment engine
      | .inferring =>
        enterBusyState ic commandMode false (some (currentRawPrev engine)) moment engine
      | .postprocessing =>
        enterBusyState ic commandMode true (some (currentRawPrev engine)) moment engine
      | _ => finishFrontendSession (some ic) engine

/-- Load the scenes again, turn the local phase to recognition and ask the
daemon to stop; what the call returns is not looked at. -/
def finishStopRecording (moment : Moment) (engine : Engine) : Engine :=
  match engine.session with
  | none => engine
  | some session =>
    if session.phase=.recording then
      let scened := {engine with
        scene := moment.scene
        session := some {session with rawPrev := moment.scene.rawPrev, trigger := {}}}
      let busy := enterBusyState session.ic session.commandMode false
        (some moment.scene.rawPrev) moment scened
      (callStopRecording moment.scene.id moment busy).1
    else engine

end States

section Keys

/-- Position of the key of a list that the event meets; the release of a
modifier is also recognised by the modifier itself. -/
def matchKeyListIndex (rules : KeyRules) (eventKey : Key) (list : List Key)
    (isRelease : Bool) : Option ℕ :=
  match list.findIdx? (rules.check eventKey) with
  | some index => some index
  | none =>
    if isRelease && rules.isModifier eventKey then
      list.findIdx? (rules.isReleaseOfModifier eventKey)
    else none

/-- Role and listed key of an event; a trigger comes before a command and a
command before a menu key. -/
def classifyHotkey (rules : KeyRules) (engine : Engine) (eventKey : Key) (isRelease : Bool) :
    HotkeyRole×Key :=
  match matchKeyListIndex rules eventKey engine.triggerKeys isRelease with
  | some index => (.trigger,engine.triggerKeys.getD index {})
  | none =>
    match matchKeyListIndex rules eventKey engine.commandKeys isRelease with
    | some index => (.command,engine.commandKeys.getD index {})
    | none =>
      match matchKeyListIndex rules eventKey engine.menuKeys isRelease with
      | some index => (.menu,engine.menuKeys.getD index {})
      | none => (.none,{})

/-- The escape key. -/
def escapeKey : Key := {sym := 0xff1b}

/-- The return key. -/
def returnKey : Key := {sym := 0xff0d}

/-- The enter key of the keypad. -/
def keypadEnterKey : Key := {sym := 0xff8d}

/-- Pending start, then the call; a call that is not placed ends the session. -/
def startOrGiveUp (ic : InputContext) (trigger : Key) (isCommand : Bool)
    (call : Moment → Engine → Engine×Bool) (moment : Moment) (engine : Engine) : Engine :=
  let placed := call moment (enterPendingStartState ic trigger isCommand moment engine)
  if placed.2 then placed.1 else finishFrontendSession (some ic) placed.1

/-- Start a recording, or follow a daemon that is already at work. -/
def startVoiceRecording (ic : InputContext) (trigger : Key) (isCommand : Bool)
    (moment : Moment) (given : Engine) : Engine :=
  let engine := cancelPendingStop given
  if !isCommand && engine.session.isNone &&
      decide (engine.lastKnownDaemonStatus=.recording) then
    finishStopRecording moment (enterRecordingState ic trigger false moment engine)
  else if engine.lastKnownDaemonStatus≠.empty ∧ engine.lastKnownDaemonStatus≠.idle then
    applyDaemonStatusLocally engine.lastKnownDaemonStatus (some ic) isCommand moment engine
  else if isCommand then
    match moment.commandTarget with
    | .disabled => finishFrontendSession (some ic) engine
    | .noProvider => finishFrontendSession (some ic) engine
    | .ready =>
      if moment.selectedText="" then
        if engine.statusIc=some ic then finishFrontendSession (some ic) engine else engine
      else
        startOrGiveUp ic trigger true (callStartCommandRecording moment.selectedText) moment engine
  else startOrGiveUp ic trigger false callStartRecording moment engine

/-- Write the flags a hotkey gives to the session it may have started. -/
def markSession (pressTime : ℕ) (stopOnRelease triggerReleased : Bool) (engine : Engine) :
    Engine :=
  {engine with session := engine.session.map fun session =>
    {session with
      pressTime := pressTime
      stopOnRelease := stopOnRelease
      triggerReleased := triggerReleased}}

/-- Tell the daemon to drop the operation and end the session. -/
def dropSession (session : Session) (engine : Engine) : Engine :=
  finishFrontendSession (some session.ic) (callCancelOperation false engine)

/-- A key that is no hotkey breaks a held hotkey into a chord; a recording
that waits for its release is dropped. -/
def handleRegularKey (isRelease : Bool) (engine : Engine) : Engine :=
  if isRelease || decide (engine.heldRole=.none) then engine
  else
    let broken := cancelPendingStart {engine with chordInterrupted := true}
    match broken.session with
    | none => broken
    | some session =>
      if session.stopOnRelease && !session.triggerReleased then dropSession session broken
      else broken

/-- A trigger or command key pressed while a session starts or records. -/
def pressDuringRecording (matchedKey : Key) (session : Session) (moment : Moment)
    (engine : Engine) : Engine :=
  if session.trigger=matchedKey then
    if session.triggerReleased then
      if session.phase=.pendingStart then dropSession session engine
      else finishStopRecording moment engine
    else engine
  else dropSession session engine

/-- A hotkey goes down and nothing is being recorded. -/
def newPress (ic : InputContext) (eventSym : ℕ) (role : HotkeyRole) (matchedKey : Key)
    (moment : Moment) (engine : Engine) : Engine :=
  let held := {engine with
    heldKeySym := some eventSym
    heldRole := role
    chordInterrupted := false
    heldPressTime := moment.now}
  if role=.menu ∨ engine.triggerMode=.tap then held
  else markSession moment.now true false
    (startVoiceRecording ic matchedKey (decide (role=.command)) moment held)

/-- A hotkey goes down. -/
def handlePress (ic : InputContext) (eventSym : ℕ) (role : HotkeyRole) (matchedKey : Key)
    (moment : Moment) (given : Engine) : Engine :=
  if role=.menu then newPress ic eventSym role matchedKey moment given
  else
    let timed := {given with lastTriggerTime := moment.now}
    if moment.now-given.lastTriggerTime<triggerDebounce then timed
    else
      let engine := cancelPendingStop timed
      match engine.session with
      | some session =>
        if session.phase=.recording ∨ session.phase=.pendingStart then
          pressDuringRecording matchedKey session moment engine
        else newPress ic eventSym role matchedKey moment engine
      | none => newPress ic eventSym role matchedKey moment engine

/-- Arm the stop timer of a session that is recording. -/
def stopIfRecording (engine : Engine) : Engine :=
  match engine.session with
  | some session => if session.phase=.recording then scheduleStopRecording engine else engine
  | none => engine

/-- What the release of the held hotkey does in each mode. -/
def releaseHeld (ic : InputContext) (role : HotkeyRole) (matchedKey : Key)
    (moment : Moment) (engine : Engine) : Engine :=
  if role=.menu then engine
  else
    match engine.triggerMode with
    | .hold => stopIfRecording engine
    | .tap =>
      if engine.session=none then
        markSession moment.now false true
          (startVoiceRecording ic matchedKey (decide (role=.command)) moment engine)
      else stopIfRecording engine
    | .both =>
      if moment.now-engine.heldPressTime<tapMaxHoldDuration then
        {engine with session := engine.session.map fun session =>
          {session with triggerReleased := true, stopOnRelease := false}}
      else stopIfRecording engine

/-- The release of the session's own trigger. -/
def releaseTrigger (matchedKey : Key) (engine : Engine) : Engine :=
  match engine.session with
  | some session =>
    if session.trigger=matchedKey then
      let released := {engine with session := some {session with triggerReleased := true}}
      if session.stopOnRelease then stopIfRecording released else released
    else engine
  | none => engine

/-- A hotkey goes up. -/
def handleRelease (ic : InputContext) (eventSym : ℕ) (role : HotkeyRole) (matchedKey : Key)
    (moment : Moment) (engine : Engine) : Engine :=
  if engine.heldRole=role ∧ engine.heldKeySym=some eventSym then
    let freed := cancelPendingStart engine
    if engine.chordInterrupted then {freed with chordInterrupted := false}
    else releaseTrigger matchedKey (releaseHeld ic role matchedKey moment freed)
  else releaseTrigger matchedKey engine

/-- Escape discards the text being rewritten; Enter takes the raw text. -/
def postprocessingCancel (rules : KeyRules) (event : KeyEvent) (engine : Engine) : Option Bool :=
  match engine.session with
  | none => none
  | some session =>
    if session.phase=.postprocessing ∧ engine.lastKnownDaemonStatus=.postprocessing then
      let discard := rules.check event.key escapeKey
      let commitRaw := session.rawPrev && !session.commandMode &&
        (rules.check event.key returnKey || rules.check event.key keypadEnterKey)
      if discard || commitRaw then some commitRaw else none
    else none

/-- The event is the release of the key that cancelled before. -/
def isPendingRelease (rules : KeyRules) (event : KeyEvent) (engine : Engine) : Bool :=
  match engine.pendingPostprocessingRelease with
  | none => false
  | some key => event.isRelease &&
      decide ((rules.normalize event.key).sym=(rules.normalize key).sym)

/-- A key goes down or up. -/
def handleKeyEvent (rules : KeyRules) (event : KeyEvent) (moment : Moment) (given : Engine) :
    Engine :=
  let engine := rememberInputContext event.ic given
  if isPendingRelease rules event engine then
    {engine with pendingPostprocessingRelease := none}
  else
    match postprocessingCancel rules event engine with
    | some commitRaw =>
      if event.isRelease then engine
      else callCancelOperation commitRaw
        {engine with pendingPostprocessingRelease := some event.key}
    | none =>
      if event.menuHandles then engine
      else
        let eventKey := rules.normalize event.origKey
        let hotkey := classifyHotkey rules engine eventKey event.isRelease
        if hotkey.1=.none then handleRegularKey event.isRelease engine
        else if event.isRelease then
          handleRelease event.ic eventKey.sym hotkey.1 hotkey.2 moment engine
        else handlePress event.ic eventKey.sym hotkey.1 hotkey.2 moment engine

end Keys

section Events

/-- Reply of a call that was placed: an error ends the session. -/
def onCallReply (ok : Bool) (moment : Moment) (engine : Engine) : Engine :=
  if ok then clearDaemonSyncFailure engine
  else finishFrontendSession (resolveFrontendInputContext engine none)
    (noteDaemonSyncFailure moment.now engine)

/-- The reply to a start. -/
def onStartReply (ok : Bool) (moment : Moment) (engine : Engine) : Engine :=
  if engine.pendingStartCall then onCallReply ok moment {engine with pendingStartCall := false}
  else engine

/-- The reply to a stop. -/
def onStopReply (ok : Bool) (moment : Moment) (engine : Engine) : Engine :=
  if engine.pendingStopCall then onCallReply ok moment {engine with pendingStopCall := false}
  else engine

/-- The status timer asks the daemon unless a query is on its way. -/
def syncFrontendWithDaemonStatus (moment : Moment) (engine : Engine) : Engine :=
  if !engine.bus || !daemonSyncAllowed engine moment.now then engine
  else
    match tryBegin engine.statusPollGate with
    | none => engine
    | some (ticket,gate) =>
      if moment.queued then
        {engine with
          statusPollGate := gate
          pendingStatusCall := some ticket
          sent := engine.sent++[.getStatus]}
      else
        noteDaemonSyncFailure moment.now
          {engine with statusPollGate := cancel gate, pendingStatusCall := none}

/-- The status timer fires; without a session it ends. -/
def onStatusTimer (moment : Moment) (engine : Engine) : Engine :=
  if engine.statusSync then
    let synced := syncFrontendWithDaemonStatus moment engine
    if synced.session.isNone && synced.statusIc.isNone then {synced with statusSync := false}
    else synced
  else engine

/-- A status that a reply brought and the gate let through; an idle daemon
ends a session only when it has been idle for a while. -/
def applyPolledStatus (status : DaemonStatus) (moment : Moment) (engine : Engine) : Engine :=
  let known := {clearDaemonSyncFailure engine with lastKnownDaemonStatus := status}
  if status=.empty ∨ (known.session=none ∧ known.statusIc=none) then known
  else
    let since := known.polledIdleSince.getD moment.now
    if status=.idle ∧ known.session≠none ∧ moment.now-since<polledIdleRecoveryDelay then
      {known with polledIdleSince := some since}
    else applyDaemonStatusLocally status none false moment {known with polledIdleSince := none}

/-- Reply of a status query, or nothing for an error. -/
def onStatusReply (reply : Option DaemonStatus) (moment : Moment) (engine : Engine) : Engine :=
  match engine.pendingStatusCall with
  | none => engine
  | some ticket =>
    if isActive engine.statusPollGate ticket then
      let completed := complete engine.statusPollGate ticket
      let taken := {engine with pendingStatusCall := none, statusPollGate := completed.1}
      if completed.2 then
        match reply with
        | none => noteDaemonSyncFailure moment.now taken
        | some status => applyPolledStatus status moment taken
      else taken
    else engine

/-- A status signal makes every query on its way stale. -/
def onStatusChanged (status : DaemonStatus) (moment : Moment) (engine : Engine) : Engine :=
  let known := {engine with
    statusPollGate := invalidate engine.statusPollGate
    lastKnownDaemonStatus := status
    polledIdleSince := none}
  let remembered := match resolveFrontendInputContext known none with
    | some ic => rememberInputContext ic known
    | none => known
  applyDaemonStatusLocally status none false moment remembered

/-- A result ends the session of its context. -/
def onRecognitionResult (engine : Engine) : Engine :=
  match resolveFrontendInputContext engine none with
  | none => engine
  | some ic => finishFrontendSession (some ic) (rememberInputContext ic engine)

/-- A partial text is shown; only a session that is postprocessing enters
its state again. -/
def handleRecognitionPartial (moment : Moment) (engine : Engine) : Engine :=
  match resolveFrontendInputContext engine none with
  | none => engine
  | some ic =>
    let remembered := rememberInputContext ic engine
    match remembered.session with
    | none => remembered
    | some session =>
      if session.phase=.postprocessing then
        enterBusyState ic session.commandMode true (some session.rawPrev) moment remembered
      else remembered

/-- The stop timer is a single shot. -/
def onStopTimer (moment : Moment) (engine : Engine) : Engine :=
  if engine.pendingStop then finishStopRecording moment {engine with pendingStop := false}
  else engine

/-- An input context goes away with its session. -/
def onDestroyed (ic : InputContext) (engine : Engine) : Engine :=
  let ended := match engine.session with
    | none => engine
    | some session =>
      if session.ic=ic then
        let told := if session.phase=.inferring then engine else callCancelOperation false engine
        {told with session := none, polledIdleSince := none}
      else engine
  let hidden := if ended.statusIc=some ic then stopStatusSyncIfIdle {ended with statusIc := none}
    else ended
  if hidden.lastActiveIc=some ic then {hidden with lastActiveIc := none} else hidden

/-- A context that loses the focus lets the held hotkey go; its session is
dropped when it waits for a release. -/
def onFocusOut (ic : InputContext) (engine : Engine) : Engine :=
  let freed := {cancelPendingStart engine with chordInterrupted := true}
  match freed.session with
  | none => freed
  | some session =>
    if session.ic=ic ∧ session.stopOnRelease=true then
      finishFrontendSession (some ic) (callCancelOperation false freed)
    else freed

/-- A menu command asks for the status and waits for it. -/
def queryDaemonStatus (reply : Option DaemonStatus) (moment : Moment) (engine : Engine) :
    Engine :=
  if !engine.bus || !daemonSyncAllowed engine moment.now then engine
  else
    match reply with
    | none => noteDaemonSyncFailure moment.now engine
    | some status => {clearDaemonSyncFailure engine with lastKnownDaemonStatus := status}

/-- A menu command calls the daemon and waits for it. -/
def callSyncRpc (ok : Bool) (moment : Moment) (engine : Engine) : Engine :=
  if engine.bus && daemonSyncAllowed engine moment.now && ok then clearDaemonSyncFailure engine
  else noteDaemonSyncFailure moment.now engine

/-- New settings of the addon. -/
structure Settings where
  triggerMode : TriggerMode
  triggerKeys : List Key
  commandKeys : List Key
  menuKeys : List Key
deriving DecidableEq

/-- Other settings are in force. -/
def applySettings (settings : Settings) (moment : Moment) (engine : Engine) : Engine :=
  {engine with
    triggerMode := settings.triggerMode
    triggerKeys := settings.triggerKeys
    commandKeys := settings.commandKeys
    menuKeys := settings.menuKeys
    scene := moment.scene}

/-- Everything the event loop brings to the frontend. -/
inductive Event where
  | key (event : KeyEvent)
  | statusChanged (status : DaemonStatus)
  | statusReply (reply : Option DaemonStatus)
  | statusTimer
  | stopTimer
  | startReply (ok : Bool)
  | stopReply (ok : Bool)
  | recognitionResult
  | recognitionPartial
  | created (ic : InputContext)
  | destroyed (ic : InputContext)
  | focusOut (ic : InputContext)
  | queried (reply : Option DaemonStatus)
  | calledSync (ok : Bool)
  | configured (settings : Settings)
deriving DecidableEq

/-- The frontend handles one event to its end. -/
def handle (rules : KeyRules) (engine : Engine) (label : Moment×Event) : Engine :=
  match label.2 with
  | .key event => handleKeyEvent rules event label.1 engine
  | .statusChanged status => onStatusChanged status label.1 engine
  | .statusReply reply => onStatusReply reply label.1 engine
  | .statusTimer => onStatusTimer label.1 engine
  | .stopTimer => onStopTimer label.1 engine
  | .startReply ok => onStartReply ok label.1 engine
  | .stopReply ok => onStopReply ok label.1 engine
  | .recognitionResult => onRecognitionResult engine
  | .recognitionPartial => handleRecognitionPartial label.1 engine
  | .created ic => rememberInputContext ic engine
  | .destroyed ic => onDestroyed ic engine
  | .focusOut ic => onFocusOut ic engine
  | .queried reply => queryDaemonStatus reply label.1 engine
  | .calledSync ok => callSyncRpc ok label.1 engine
  | .configured settings => applySettings settings label.1 engine

/-- The frontend after it was loaded. -/
def loaded (bus : Bool) (settings : Settings) (scene : Scene) : Engine where
  bus := bus
  triggerMode := settings.triggerMode
  triggerKeys := settings.triggerKeys
  commandKeys := settings.commandKeys
  menuKeys := settings.menuKeys
  scene := scene

end Events

end Vinput.FrontendSession
