import Vinput.NotificationBridge
import Vinput.NotifiedQueue

/-!
# Signals of the daemon on the bus

Threads of the daemon queue what they have to tell and raise an event counter.
The main loop polls the counter, empties the queue and calls the bus.
-/

namespace Vinput.EmitQueue

open InterleavedRuns NotifiedQueue

/-- A text of a signal. -/
abbrev Text := List Char

section Calls

/-- The kinds of a pending emit. -/
inductive Kind where
  | result
  | partialText
  | status
  | desktopNotification
deriving DecidableEq, Repr

/-- A signal that waits for the main loop. -/
structure PendingEmit where
  type : Kind := .result
  payload : Text := []
  desktopNotification : NotificationBridge.Notification := ⟨[],[],.warning⟩
deriving DecidableEq

/-- The signal of a result. -/
def kSignalRecognitionResult : String := "RecognitionResult"

/-- The signal of a partial text. -/
def kSignalRecognitionPartial : String := "RecognitionPartial"

/-- The signal of a status. -/
def kSignalStatusChanged : String := "StatusChanged"

/-- A result is to be told. -/
def emitRecognitionResult (text : Text) : PendingEmit := {type := .result, payload := text}

/-- A partial text is to be told. -/
def emitRecognitionPartial (text : Text) : PendingEmit := {type := .partialText, payload := text}

/-- A status is to be told. -/
def emitStatusChanged (status : Text) : PendingEmit := {type := .status, payload := status}

/-- A notification is to be shown. -/
def emitDesktopNotification (notification : NotificationBridge.Notification) : PendingEmit :=
  {type := .desktopNotification, desktopNotification := notification}

/-- What the bus is asked for. -/
inductive BusCall where
  | signal (name : String) (payload : Text)
  | desktop (notification : NotificationBridge.Notification)
deriving DecidableEq

/-- A C string ends at its first zero. -/
def cString (text : Text) : Text := text.takeWhile fun c => decide (c≠ '\x00')

/-- The call for one item of the queue. -/
def flushItem (item : PendingEmit) : BusCall :=
  match item.type with
  | .result => .signal kSignalRecognitionResult (cString item.payload)
  | .partialText => .signal kSignalRecognitionPartial (cString item.payload)
  | .status => .signal kSignalStatusChanged (cString item.payload)
  | .desktopNotification => .desktop item.desktopNotification

end Calls

section Service

/-- The emit queue with its event counter, the threads that emit and the main
loop. EnqueueEmit is a push and a raise; FlushEmitQueue, which the main loop
calls when the counter can be read, lowers the counter, swaps the queue out
and handles it. -/
abbrev Service := NotifiedQueue.State PendingEmit

/-- What the bus has been asked for, in order. -/
def busCalls (service : Service) : List BusCall := service.handled.map flushItem

/-- The state after a schedule of emitting threads and the main loop. -/
def reached (schedule : List (Label PendingEmit)) : Service :=
  run NotifiedQueue.step {} schedule

/-- What the threads of the daemon tell reaches the bus in the order it was
queued, nothing twice; once no thread is between queueing and raising the
counter, the main loop delivers everything without any further emit; and at
every moment at which something is queued, the counter stands above zero, a
thread is about to raise it, or the main loop has lowered it and takes the
queue next. -/
theorem emits_delivered (schedule : List (Label PendingEmit)) :
    (∃ waiting, (reached schedule).pushed.map flushItem=busCalls (reached schedule)++waiting) ∧
    ((∀ thread, (reached schedule).raising thread=false) → ∃ turns,
      busCalls (consumes (reached schedule) turns)=(reached schedule).pushed.map flushItem ∧
      (consumes (reached schedule) turns).queue=[]) ∧
    ((reached schedule).queue≠[] → Noticed (reached schedule)) := by
  have hinv : NotifiedQueue.Inv (reached schedule) := inv_run schedule
  refine ⟨?_,?_,hinv.noticed⟩
  · refine ⟨((reached schedule).consumer.taken++(reached schedule).queue).map flushItem,?_⟩
    unfold busCalls
    rw [←List.map_append,←hinv.order]
  · intro hquiet
    obtain ⟨turns,hhandled,hqueue,-⟩ := delivers hinv hquiet
    refine ⟨turns,?_,hqueue⟩
    unfold busCalls
    rw [hhandled]

/-- A status that is queued while the main loop empties the queue is sent. -/
example : busCalls (reached [.push 0 (emitStatusChanged "recording".toList),.raise 0,.consume,
    .consume,.push 1 (emitStatusChanged "idle".toList),.consume,.consume,.raise 1,.consume,
    .consume,.consume])=[.signal "StatusChanged" "recording".toList,
      .signal "StatusChanged" "idle".toList] := by
  decide

end Service

end Vinput.EmitQueue
