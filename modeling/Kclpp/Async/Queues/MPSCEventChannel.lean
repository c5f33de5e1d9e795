import Kclpp.Async.Queues.SPSCEventChannel

/-!
# Channels with a signal and many senders

`MPSCEventChannel` is the queue with its event file descriptor, and a lock around
the send. Its read goes on to the queue also where there was no signal; only
another error of the descriptor ends it.
-/

namespace Kclpp

namespace Async

def EventFDError.what : EventFDError → String
  | .readError what => what
  | .notReady what => what
  | .writeError what => what

namespace Queues

/-- `MPSCEventChannel`, with the state of its lock. -/
structure MPSCEventChannel (α : Type*) where
  channel : SPSCEventChannel α := {}
  locked : Bool := false

namespace MPSCEventChannel

variable {α : Type*}

def lock (channel : MPSCEventChannel α) : Option (MPSCEventChannel α) :=
  if channel.locked then none else some { channel with locked := true }

def unlock (channel : MPSCEventChannel α) : MPSCEventChannel α :=
  { channel with locked := false }

/-- What `MPSCEventChannel::tryLockAndSend` does first under the lock. -/
def tryEnqueue (channel : MPSCEventChannel α) (hasRoom : Bool) (msg : α) :
    Bool × MPSCEventChannel α :=
  let (enqueued, inner) := channel.channel.tryEnqueue hasRoom msg
  (enqueued, { channel with channel := inner })

/-- What `MPSCEventChannel::tryLockAndSend` does with a message that the queue has
taken. -/
def signal (channel : MPSCEventChannel α) :
    Except QueueError Unit × MPSCEventChannel α :=
  let (writeRes, inner) := channel.channel.signal
  (writeRes, { channel with channel := inner })

/-- `MPSCEventChannel::tryLockAndSend`, where nobody holds the lock. -/
def tryLockAndSend (channel : MPSCEventChannel α) (hasRoom : Bool) (msg : α) :
    Option (Except QueueError Unit × MPSCEventChannel α) :=
  channel.lock.map fun channel =>
    match channel.tryEnqueue hasRoom msg with
    | (true, channel) =>
        let (sendRes, channel) := channel.signal
        (sendRes, channel.unlock)
    | (false, channel) => (.error (.queueFull "Queue is full."), channel.unlock)

/-- The first half of `MPSCEventChannel::tryRead`. An error ends the read unless
its text begins with `NotReady`. -/
def readSignal (channel : MPSCEventChannel α) :
    Except EventFDError Unit × MPSCEventChannel α :=
  let (readRes, eventFD) := channel.channel.eventFD.read
  let channel := { channel with channel := { channel.channel with eventFD := eventFD } }
  match readRes with
  | .ok _ => (.ok (), channel)
  | .error e =>
      if "NotReady".toList.isPrefixOf e.what.toList then (.ok (), channel)
      else (.error e, channel)

/-- The second half of `MPSCEventChannel::tryRead`. -/
def tryDequeue (channel : MPSCEventChannel α) : Option α × MPSCEventChannel α :=
  let (message, inner) := channel.channel.tryDequeue
  (message, { channel with channel := inner })

/-- `MPSCEventChannel::tryRead`: the message, where there was one. -/
def tryRead (channel : MPSCEventChannel α) :
    Except EventFDError (Option α) × MPSCEventChannel α :=
  match channel.readSignal with
  | (.error e, channel) => (.error e, channel)
  | (.ok (), channel) =>
      let (message, channel) := channel.tryDequeue
      (.ok message, channel)

theorem readSignal_eq (channel : MPSCEventChannel α) :
    channel.readSignal = (.ok (), { channel with
      channel := { channel.channel with eventFD := { counter := 0 } } }) := by
  unfold readSignal EventFD.read
  by_cases hcounter : channel.channel.eventFD.counter = 0
  · have hsame : channel.channel.eventFD = { counter := 0 } :=
      congrArg EventFD.mk hcounter
    rw [if_pos hcounter, hsame]
    rfl
  · rw [if_neg hcounter]

end MPSCEventChannel

end Queues

end Async

end Kclpp
