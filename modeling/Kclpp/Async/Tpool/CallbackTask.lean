import Mathlib.Data.PNat.Basic

/-!
# Tasks for the thread pool

A `CallbackTask` is made in the event thread: its work runs in a worker of the
pool, and its other function in the event thread when the worker has sent the task
back. The tasks of the clients make one blocking call, write what it returns into a
cell and give their callback what is in the cell, whether the work has thrown or
not.
-/

namespace Kclpp

namespace Async

namespace Tpool

inductive ThreadPoolError where
  | threadPoolError (what : String)
  | notRunning (what : String)
  | invalidSettings (what : String)
  | alreadyRunning (what : String)
  | taskThrewException (what : String)
  deriving DecidableEq, Repr

def ThreadPoolError.what : ThreadPoolError → String
  | .threadPoolError what => what
  | .notRunning what => what
  | .invalidSettings what => what
  | .alreadyRunning what => what
  | .taskThrewException what => what

/-- How a blocking call ends: it returns an outcome, it throws a `std::exception`,
or it throws something else. -/
inductive CallEnd (ε ρ : Type*) where
  | returned (outcome : Except ε ρ)
  | threw (what : String)
  | threwOther

def CallEnd.outcome {ε ρ : Type*} [Inhabited ε] : CallEnd ε ρ → Except ε ρ
  | .returned outcome => outcome
  | .threw _ | .threwOther => .error default

/-- `CallbackTask`, with its work, which is a blocking call, and the cell for the
outcome of the call. -/
structure CallbackTask (κ ε ρ ι : Type*) where
  work : κ
  onFinished : Except ThreadPoolError Unit → Except ε ρ → ι
  outcomePtr : Except ε ρ
  hasSenderContext : Bool := false
  senderId : ℕ := 0

namespace CallbackTask

variable {κ ε ρ ι : Type*}

/-- `Task::valid`. Both functions of the task are there. -/
def valid (task : CallbackTask κ ε ρ ι) : Bool :=
  task.hasSenderContext && 0 < task.senderId

/-- `CallbackTask::createFromEventThread`. The cell holds a new outcome, which is a
failed one. -/
def createFromEventThread [Inhabited ε] (eventThread : ℕ+) (work : κ)
    (onFinished : Except ThreadPoolError Unit → Except ε ρ → ι) :
    { task : CallbackTask κ ε ρ ι // task.valid = true } where
  val :=
    { work := work
      onFinished := onFinished
      outcomePtr := .error default
      hasSenderContext := true
      senderId := eventThread }
  property := by simp [valid]

/-- `CallbackTask::run`, where the call returns. -/
def run (task : CallbackTask κ ε ρ ι) (outcome : Except ε ρ) :
    CallbackTask κ ε ρ ι :=
  { task with outcomePtr := outcome }

def onSuccess (task : CallbackTask κ ε ρ ι) : ι :=
  task.onFinished (.ok ()) task.outcomePtr

def onError (task : CallbackTask κ ε ρ ι) (ex : ThreadPoolError) : ι :=
  task.onFinished (.error (.threadPoolError ex.what)) task.outcomePtr

end CallbackTask

/-- What a worker sends back: the task, with the outcome of its work. -/
structure TaskMessage (κ ε ρ ι : Type*) where
  task : CallbackTask κ ε ρ ι
  outcome : Except ThreadPoolError Unit

def TaskMessage.work {κ ε ρ ι : Type*} (message : TaskMessage κ ε ρ ι) : ι :=
  match message.outcome with
  | .ok () => message.task.onSuccess
  | .error ex => message.task.onError ex

/-- `ThreadPoolWorker::runTask`, up to the message that it sends. What is not a
`std::exception` leaves the function, which is `noexcept`. -/
def runTask {κ ε ρ ι : Type*} (task : CallbackTask κ ε ρ ι) :
    CallEnd ε ρ → Option (TaskMessage κ ε ρ ι)
  | .returned outcome => some ⟨task.run outcome, .ok ()⟩
  | .threw what => some ⟨task, .error (.taskThrewException what)⟩
  | .threwOther => none

end Tpool

end Async

end Kclpp
