import Mathlib.Data.List.AList
import Mathlib.Logic.Function.Iterate
import Vinput.LineDraining

/-!
# The notification bridge

Helper processes print notifications on their standard error. The bridge
collects the bytes of each helper in a buffer, cuts them into lines, makes a
notification of each line and forwards it unless the same was forwarded a
moment ago. Texts are bytes; every text is what the helper printed.
-/

namespace Vinput.NotificationBridge

open LineFraming ProcessLines

section Bridge

def kMaxDedupCacheSize : ℕ := 256

def kMaxSourceBufferSize : ℕ := 64*1024

/-- How urgent a notification is. -/
inductive NotificationLevel where
  | information
  | warning
  | error
deriving DecidableEq

/-- A notification. -/
structure Notification where
  title : Bytes
  body : Bytes
  level : NotificationLevel := .warning
deriving DecidableEq

/-- What a bridge relies on. -/
structure Environment where
  /-- Readings of the clock, in milliseconds. -/
  times : ℕ → ℤ
  /-- A repetition within this time is dropped. -/
  dedupWindow : ℤ
  /-- Reads an object with an optional title and an optional body. -/
  readWire : Bytes → Option (Option Bytes×Option Bytes)
  /-- The translated name of the program. -/
  voiceInput : Bytes
  /-- The order in which the table of past notifications is walked. -/
  walk : List (Bytes×ℤ) → List (Bytes×ℤ)

/-- What happens to lines inside one call. -/
structure Handling where
  /-- Past notifications with their times. -/
  dedupCache : List (Bytes×ℤ)
  /-- Readings of the clock so far. -/
  readings : ℕ
  /-- Notifications on their way. -/
  readyToSend : List Notification := []
  /-- The lines, in their order. -/
  handled : List Bytes := []

/-- The bridge, with what its sink has received and the lines it has
handled. -/
structure Bridge where
  /-- Bytes of each helper that are no line yet. -/
  buffers : AList (fun _ : String => Bytes) := ∅
  dedupCache : List (Bytes×ℤ) := []
  readings : ℕ := 0
  forwarded : List Notification := []
  handled : List Bytes := []

/-- Key of a notification among the past ones. -/
def makeDedupKey (title body : Bytes) : Bytes := title++0::body

/-- The oldest entry, the first of several. -/
def oldestEntry : List (Bytes×ℤ) → Option (Bytes×ℤ)
  | [] => none
  | first::rest => some (rest.foldl (fun oldest entry =>
    if entry.2<oldest.2 then entry else oldest) first)

variable (env : Environment)

/-- Drop what is out of the window, and the oldest of too many. -/
def evictStaleDedupEntriesLocked (now : ℤ) (cache : List (Bytes×ℤ)) : List (Bytes×ℤ) :=
  let recent := cache.filter fun entry => decide (now-entry.2<env.dedupWindow)
  (fun cache => match oldestEntry (env.walk cache) with
    | some oldest => cache.erase oldest
    | none => cache)^[recent.length-kMaxDedupCacheSize] recent

/-- Note the time of an entry. -/
def touch (key : Bytes) (now : ℤ) (cache : List (Bytes×ℤ)) : List (Bytes×ℤ) :=
  cache.map fun entry => if entry.1=key then (key,now) else entry

/-- The title used when there is none. -/
def fallbackTitle (defaultTitle : Bytes) : Bytes :=
  if defaultTitle=[] then env.voiceInput else defaultTitle

/-- The notification a line stands for. -/
def notificationOf (defaultTitle rawLine : Bytes) : Notification :=
  let trimmed := trim rawLine
  let wire :=
    if trimmed.head?=some 123 ∧ trimmed.getLast?=some 125 then env.readWire trimmed else none
  match wire with
  | some (some title,some body) =>
    {title := if title=[] then fallbackTitle env defaultTitle else title,body := body}
  | _ => {title := fallbackTitle env defaultTitle,body := rawLine}

/-- A line is handled. -/
def processLineLocked (defaultTitle : Bytes) (handling : Handling) (rawLine : Bytes) : Handling :=
  let noted := {handling with handled := handling.handled++[rawLine]}
  if trim rawLine=[] then noted
  else
    let notification := notificationOf env defaultTitle rawLine
    let now := env.times noted.readings
    let read := {noted with readings := noted.readings+1}
    let key := makeDedupKey notification.title notification.body
    match read.dedupCache.lookup key with
    | some timestamp =>
      let touched := {read with dedupCache := touch key now read.dedupCache}
      if now-timestamp<env.dedupWindow then touched
      else {touched with readyToSend := touched.readyToSend++[notification]}
    | none =>
      let cache := read.dedupCache++[(key,now)]
      {read with
        dedupCache := if kMaxDedupCacheSize<cache.length then
          evictStaleDedupEntriesLocked env now cache else cache
        readyToSend := read.readyToSend++[notification]}

/-- A line is handled and more are welcome. -/
def onLine (defaultTitle : Bytes) : Handling → Bytes → Handling×Bool :=
  always (processLineLocked env defaultTitle)

/-- A call starts to handle lines. -/
def Bridge.handling (bridge : Bridge) : Handling := ⟨bridge.dedupCache,bridge.readings,[],[]⟩

/-- A call is over: its notifications go to the sink. -/
def Bridge.dispatch (bridge : Bridge) (source : String) (handled : Handling×Bytes) : Bridge :=
  ⟨bridge.buffers.insert source handled.2,handled.1.dedupCache,handled.1.readings,
    bridge.forwarded++handled.1.readyToSend,bridge.handled++handled.1.handled⟩

/-- Bytes of a helper arrive. -/
def feedStderr (source : String) (defaultTitle : Bytes) (bridge : Bridge) (bytes : Bytes) :
    Bridge :=
  if bytes=[] then bridge
  else
    let buffer := (bridge.buffers.lookup source).getD []
    let pushed := push kMaxSourceBufferSize (processLineLocked env defaultTitle)
      (bridge.handling,buffer) bytes
    bridge.dispatch source
      (drainLinesFromBuffer (onLine env defaultTitle) false pushed.1 pushed.2)

/-- The helper has exited. -/
def flush (source : String) (defaultTitle : Bytes) (bridge : Bridge) : Bridge :=
  match bridge.buffers.lookup source with
  | none => bridge
  | some buffer =>
    if buffer=[] then bridge
    else bridge.dispatch source
      (drainLinesFromBuffer (onLine env defaultTitle) true bridge.handling buffer)

/-- A stream of a helper arrives in chunks and ends. -/
def feedChunks (source : String) (defaultTitle : Bytes) (bridge : Bridge) (chunks : List Bytes) :
    Bridge :=
  flush env source defaultTitle (chunks.foldl (feedStderr env source defaultTitle) bridge)

end Bridge

end Vinput.NotificationBridge
