import Kclpp.Async.EventFD

/-!
# Channels with a signal

`SPSCEventChannel` is a queue with an event file descriptor beside it. A send
enqueues and then signals; a read takes the signal and then dequeues. Sender and
receiver run on different threads, so the two halves of each are functions of
their own: another thread may come between them. The queue is first in, first
out; whether it has room is up to the caller.
-/

namespace Kclpp

namespace Async

namespace Queues

inductive QueueError where
  | queueFull (what : String)
  | partialWriteError (what : String)
  deriving DecidableEq, Repr

/-- `SPSCEventChannel`. -/
structure SPSCEventChannel (α : Type*) where
  eventFD : EventFD := {}
  queue : List α := []

namespace SPSCEventChannel

/-- The first half of `SPSCEventChannel::trySend`. -/
def tryEnqueue {α : Type*} (channel : SPSCEventChannel α) (hasRoom : Bool)
    (msg : α) : Bool × SPSCEventChannel α :=
  if hasRoom then (true, { channel with queue := channel.queue ++ [msg] })
  else (false, channel)

/-- The second half of `SPSCEventChannel::trySend`. -/
def signal {α : Type*} (channel : SPSCEventChannel α) :
    Except QueueError Unit × SPSCEventChannel α :=
  let (writeRes, eventFD) := channel.eventFD.write 1
  match writeRes with
  | .ok () => (.ok (), { channel with eventFD := eventFD })
  | .error _ =>
      (.error (.partialWriteError
        "Enqueued message, but could not signal EventFD."),
        { channel with eventFD := eventFD })

def trySend {α : Type*} (channel : SPSCEventChannel α) (hasRoom : Bool)
    (msg : α) : Except QueueError Unit × SPSCEventChannel α :=
  match channel.tryEnqueue hasRoom msg with
  | (true, channel) => channel.signal
  | (false, channel) => (.error (.queueFull "Queue is full."), channel)

/-- The first half of `SPSCEventChannel::tryRead`. An error ends the read, also
the one that says there was no signal. -/
def readSignal {α : Type*} (channel : SPSCEventChannel α) :
    Except EventFDError Unit × SPSCEventChannel α :=
  let (readRes, eventFD) := channel.eventFD.read
  (readRes.map fun _ => (), { channel with eventFD := eventFD })

/-- The second half of `SPSCEventChannel::tryRead`. -/
def tryDequeue {α : Type*} (channel : SPSCEventChannel α) :
    Option α × SPSCEventChannel α :=
  match channel.queue with
  | [] => (none, channel)
  | msg :: rest => (some msg, { channel with queue := rest })

/-- `SPSCEventChannel::tryRead`: the message, where there was one. -/
def tryRead {α : Type*} (channel : SPSCEventChannel α) :
    Except EventFDError (Option α) × SPSCEventChannel α :=
  match channel.readSignal with
  | (.error e, channel) => (.error e, channel)
  | (.ok (), channel) =>
      let (message, channel) := channel.tryDequeue
      (.ok message, channel)

end SPSCEventChannel

end Queues

end Async

end Kclpp
