import Kclpp.Async.Tpool.ThreadPool

/-!
# Requests in the event thread

The clients send every request on the same way. A control message carries it to the
event thread, which makes a task of it and submits the task to the thread pool; a
worker makes the blocking call and sends the task back, and the event thread calls
the callback of the request. Nobody looks at what `ThreadPool::trySubmit` returns.

The channels between the workers and the event thread lose nothing here. Submitting
takes two steps, between which the pool may be stopped; the event thread does
nothing else in between.
-/

namespace Kclpp

namespace Async

open Tpool

/-- A request: its blocking call, and what its callback makes of the outcome. -/
structure Request (κ ε ρ ι : Type*) where
  call : κ
  callback : Except ε ρ → ι

namespace Request

variable {κ ε ρ ι : Type*}

def task [Inhabited ε] (eventThread : ℕ+) (request : Request κ ε ρ ι) :
    { task : CallbackTask κ ε ρ ι // task.valid = true } :=
  CallbackTask.createFromEventThread eventThread request.call
    fun _ => request.callback

/-- The callback is given what the call has returned, and a new, failed outcome where
the call has thrown. -/
theorem work_of_runTask [Inhabited ε] (eventThread : ℕ+) (request : Request κ ε ρ ι)
    {callEnd : CallEnd ε ρ} {message : TaskMessage κ ε ρ ι}
    (h : runTask (request.task eventThread).val callEnd = some message) :
    message.work = request.callback callEnd.outcome := by
  cases callEnd with
  | returned outcome =>
      cases h
      rfl
  | threw what =>
      cases h
      rfl
  | threwOther => cases h

end Request

abbrev NumberedTask (κ ε ρ ι : Type*) :=
  ℕ × { task : CallbackTask κ ε ρ ι // task.valid = true }

/-- `KCLAsyncContext`, with the control messages of the requests, the task that is
being submitted, and the answers with the numbers of their requests. The requests
that the event loop has accepted are numbered from zero. -/
structure KCLAsyncContext (κ ε ρ ι : Type*) where
  dchecks : Bool
  eventThread : ℕ+
  threadPool : ThreadPool (NumberedTask κ ε ρ ι) (ℕ × TaskMessage κ ε ρ ι)
  controlMessages : List (ℕ × Request κ ε ρ ι) := []
  submitting : Option (NumberedTask κ ε ρ ι) := none
  accepted : ℕ := 0
  answered : List (ℕ × ι) := []
  terminated : Bool := false

/-- A step of a client, of the event thread, of the pool's owner or of a worker. -/
inductive ContextStep (κ ε ρ ι : Type*) where
  | runInEventThread (request : Request κ ε ρ ι)
  | checkRunning
  | tryEnqueue (hasRoom : Bool)
  | start
  | triggerStop
  | dequeue (worker : ℕ)
  | runTask (worker : ℕ) (callEnd : CallEnd ε ρ)
  | exit (worker : ℕ)
  | receive (worker : ℕ)

namespace KCLAsyncContext

variable {κ ε ρ ι : Type*}

def createNew (dchecks : Bool) (eventThread : ℕ+) (nThreads : ℕ) :
    KCLAsyncContext κ ε ρ ι where
  dchecks := dchecks
  eventThread := eventThread
  threadPool := { numThreads := nThreads }

/-- A worker runs its task. The call stands inside a `DCHECK`, and without `DCHECK`
the task is dropped. -/
def runTask (s : KCLAsyncContext κ ε ρ ι) (worker : ℕ) (callEnd : CallEnd ε ρ) :
    Option (KCLAsyncContext κ ε ρ ι) :=
  match s.threadPool.workers[worker]? with
  | some ⟨_, .busy (number, task), _⟩ =>
      if task.val.valid && s.dchecks then
        match Tpool.runTask task.val callEnd with
        | some message =>
            (s.threadPool.finishTask worker [(number, message)]).map fun threadPool =>
              { s with threadPool := threadPool }
        | none => some { s with terminated := true }
      else
        (s.threadPool.finishTask worker []).map fun threadPool =>
          { s with threadPool := threadPool }
  | _ => none

def stepRunning [Inhabited ε] (s : KCLAsyncContext κ ε ρ ι) :
    ContextStep κ ε ρ ι → Option (KCLAsyncContext κ ε ρ ι)
  | .runInEventThread request =>
      some { s with
        controlMessages := s.controlMessages ++ [(s.accepted, request)]
        accepted := s.accepted + 1 }
  | .checkRunning =>
      match s.submitting, s.controlMessages with
      | none, (number, request) :: rest =>
          if s.threadPool.running then
            some { s with
              controlMessages := rest
              submitting := some (number, request.task s.eventThread) }
          else some { s with controlMessages := rest }
      | _, _ => none
  | .tryEnqueue hasRoom =>
      s.submitting.map fun task =>
        { s with
          submitting := none
          threadPool := (s.threadPool.tryEnqueue hasRoom task).2 }
  | .start => some { s with threadPool := s.threadPool.start.2 }
  | .triggerStop => some { s with threadPool := s.threadPool.triggerStop.2 }
  | .dequeue worker =>
      (s.threadPool.dequeue worker).map fun threadPool =>
        { s with threadPool := threadPool }
  | .runTask worker callEnd => s.runTask worker callEnd
  | .exit worker =>
      (s.threadPool.exit worker).map fun threadPool =>
        { s with threadPool := threadPool }
  | .receive worker =>
      match s.submitting with
      | some _ => none
      | none =>
          (s.threadPool.receive worker).map fun ((number, message), threadPool) =>
            { s with
              threadPool := threadPool
              answered := s.answered ++ [(number, message.work)] }

def step [Inhabited ε] (s : KCLAsyncContext κ ε ρ ι)
    (label : ContextStep κ ε ρ ι) : Option (KCLAsyncContext κ ε ρ ι) :=
  if s.terminated then none else s.stepRunning label

inductive Stepped [Inhabited ε] (s : KCLAsyncContext κ ε ρ ι) :
    ContextStep κ ε ρ ι → KCLAsyncContext κ ε ρ ι → Prop where
  | accepts (request : Request κ ε ρ ι) :
      Stepped s (.runInEventThread request) { s with
        controlMessages := s.controlMessages ++ [(s.accepted, request)]
        accepted := s.accepted + 1 }
  | submits {number : ℕ} {request : Request κ ε ρ ι} {rest : List (ℕ × Request κ ε ρ ι)}
      (hsubmitting : s.submitting = none)
      (hcontrol : s.controlMessages = (number, request) :: rest)
      (hrunning : s.threadPool.running = true) :
      Stepped s .checkRunning { s with
        controlMessages := rest
        submitting := some (number, request.task s.eventThread) }
  | refuses {number : ℕ} {request : Request κ ε ρ ι} {rest : List (ℕ × Request κ ε ρ ι)}
      (hsubmitting : s.submitting = none)
      (hcontrol : s.controlMessages = (number, request) :: rest)
      (hrunning : s.threadPool.running = false) :
      Stepped s .checkRunning { s with controlMessages := rest }
  | enqueues {task : NumberedTask κ ε ρ ι} (hasRoom : Bool)
      (hsubmitting : s.submitting = some task) :
      Stepped s (.tryEnqueue hasRoom) { s with
        submitting := none
        threadPool := (s.threadPool.tryEnqueue hasRoom task).2 }
  | starts : Stepped s .start { s with threadPool := s.threadPool.start.2 }
  | stops : Stepped s .triggerStop { s with threadPool := s.threadPool.triggerStop.2 }
  | dequeues {worker : ℕ}
      {threadPool : ThreadPool (NumberedTask κ ε ρ ι) (ℕ × TaskMessage κ ε ρ ι)}
      (hpool : s.threadPool.dequeue worker = some threadPool) :
      Stepped s (.dequeue worker) { s with threadPool := threadPool }
  | drops {worker : ℕ} {task : NumberedTask κ ε ρ ι} {callEnd : CallEnd ε ρ}
      {running : Bool} {dataChannel : List (ℕ × TaskMessage κ ε ρ ι)}
      {threadPool : ThreadPool (NumberedTask κ ε ρ ι) (ℕ × TaskMessage κ ε ρ ι)}
      (hworker : s.threadPool.workers[worker]? = some ⟨running, .busy task, dataChannel⟩)
      (hdchecks : s.dchecks = false)
      (hpool : s.threadPool.finishTask worker [] = some threadPool) :
      Stepped s (.runTask worker callEnd) { s with threadPool := threadPool }
  | sends {worker : ℕ} {task : NumberedTask κ ε ρ ι} {callEnd : CallEnd ε ρ}
      {running : Bool} {dataChannel : List (ℕ × TaskMessage κ ε ρ ι)}
      {message : TaskMessage κ ε ρ ι}
      {threadPool : ThreadPool (NumberedTask κ ε ρ ι) (ℕ × TaskMessage κ ε ρ ι)}
      (hworker : s.threadPool.workers[worker]? = some ⟨running, .busy task, dataChannel⟩)
      (hdchecks : s.dchecks = true)
      (hmessage : Tpool.runTask task.2.val callEnd = some message)
      (hpool : s.threadPool.finishTask worker [(task.1, message)] = some threadPool) :
      Stepped s (.runTask worker callEnd) { s with threadPool := threadPool }
  | terminates {worker : ℕ} {task : NumberedTask κ ε ρ ι} {callEnd : CallEnd ε ρ}
      {running : Bool} {dataChannel : List (ℕ × TaskMessage κ ε ρ ι)}
      (hworker : s.threadPool.workers[worker]? = some ⟨running, .busy task, dataChannel⟩)
      (hdchecks : s.dchecks = true)
      (hend : Tpool.runTask task.2.val callEnd = none) :
      Stepped s (.runTask worker callEnd) { s with terminated := true }
  | exits {worker : ℕ}
      {threadPool : ThreadPool (NumberedTask κ ε ρ ι) (ℕ × TaskMessage κ ε ρ ι)}
      (hpool : s.threadPool.exit worker = some threadPool) :
      Stepped s (.exit worker) { s with threadPool := threadPool }
  | receives {worker number : ℕ} {message : TaskMessage κ ε ρ ι}
      {threadPool : ThreadPool (NumberedTask κ ε ρ ι) (ℕ × TaskMessage κ ε ρ ι)}
      (hsubmitting : s.submitting = none)
      (hpool : s.threadPool.receive worker = some ((number, message), threadPool)) :
      Stepped s (.receive worker) { s with
        threadPool := threadPool
        answered := s.answered ++ [(number, message.work)] }

theorem stepped_of_step [Inhabited ε] {s s' : KCLAsyncContext κ ε ρ ι}
    {label : ContextStep κ ε ρ ι} (h : s.step label = some s') :
    s.terminated = false ∧ s.Stepped label s' := by
  unfold step at h
  split_ifs at h with hterminated
  refine ⟨Bool.eq_false_iff.mpr hterminated, ?_⟩
  cases label with
  | runInEventThread request =>
      cases h
      exact .accepts request
  | checkRunning =>
      simp only [stepRunning] at h
      split at h
      · rename_i hsubmitting hcontrol
        split_ifs at h with hrunning <;> cases h
        · exact .submits hsubmitting hcontrol hrunning
        · exact .refuses hsubmitting hcontrol (Bool.eq_false_iff.mpr hrunning)
      · cases h
  | tryEnqueue hasRoom =>
      obtain ⟨task, hsubmitting, rfl⟩ := Option.map_eq_some_iff.mp h
      exact .enqueues hasRoom hsubmitting
  | start =>
      cases h
      exact .starts
  | triggerStop =>
      cases h
      exact .stops
  | dequeue worker =>
      obtain ⟨threadPool, hpool, rfl⟩ := Option.map_eq_some_iff.mp h
      exact .dequeues hpool
  | runTask worker callEnd =>
      simp only [stepRunning, runTask] at h
      split at h
      · rename_i running number task dataChannel hworker
        rw [task.property, Bool.true_and] at h
        split_ifs at h with hdchecks
        · split at h
          · rename_i message hmessage
            obtain ⟨threadPool, hpool, rfl⟩ := Option.map_eq_some_iff.mp h
            exact .sends hworker hdchecks hmessage hpool
          · rename_i hend
            cases h
            exact .terminates hworker hdchecks hend
        · obtain ⟨threadPool, hpool, rfl⟩ := Option.map_eq_some_iff.mp h
          exact .drops hworker (Bool.eq_false_iff.mpr hdchecks) hpool
      · cases h
  | exit worker =>
      obtain ⟨threadPool, hpool, rfl⟩ := Option.map_eq_some_iff.mp h
      exact .exits hpool
  | receive worker =>
      simp only [stepRunning] at h
      split at h
      · cases h
      · rename_i hsubmitting
        obtain ⟨⟨⟨number, message⟩, threadPool⟩, hpool, rfl⟩ :=
          Option.map_eq_some_iff.mp h
        exact .receives hsubmitting hpool

end KCLAsyncContext

end Async

end Kclpp
