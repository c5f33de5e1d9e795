import Mathlib.Data.Nat.Notation
import Mathlib.Data.Int.Notation

/-!
# Timer events

`TimerEvent` on an event base. An event that has been added waits for its
timeout, and a persistent one waits again afterwards, until it is deleted.
`BaseEvent::del` calls `event_del` inside a `DCHECK`, so that in a build without
`DCHECK` it does nothing.
-/

namespace Kclpp

namespace Async

/-- `TimerEvent`: its flag, its handler, and the timeout in milliseconds that it
waits for. -/
structure TimerEvent (α : Type*) where
  persist : Bool
  callback : Option α := none
  timeout : Option ℤ := none
  deriving DecidableEq, Repr

namespace TimerEvent

def createNew {α : Type*} (persist : Bool) : TimerEvent α where
  persist := persist

def setHandler {α : Type*} (event : TimerEvent α) (callable : α) :
    TimerEvent α :=
  { event with callback := some callable }

def add {α : Type*} (event : TimerEvent α) (timeout : ℤ) : TimerEvent α :=
  { event with timeout := some timeout }

def del {α : Type*} (dchecks : Bool) (event : TimerEvent α) : TimerEvent α :=
  if dchecks then { event with timeout := none } else event

def isPending {α : Type*} (event : TimerEvent α) : Bool := event.timeout.isSome

@[simp] theorem isPending_del {α : Type*} (dchecks : Bool)
    (event : TimerEvent α) :
    (event.del dchecks).isPending = (!dchecks && event.isPending) := by
  cases dchecks <;> rfl

end TimerEvent

end Async

end Kclpp
