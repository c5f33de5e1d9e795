import Kclpp.Async.Tpool.CallbackTask
import Kclpp.Containers.TakenOut

/-!
# The thread pool

`ThreadPool` has a bounded queue and workers that take tasks from it. A worker
leaves its loop when it finds that it has been stopped, which it looks for between
two tasks: it may take another one first, and may leave some behind. A pool that
has been stopped can be started again, with new workers on the same queue.

The tasks and what a worker sends back are parameters.
-/

namespace Kclpp

namespace Async

namespace Tpool

inductive WorkerPhase (T : Type*) where
  | idle
  | busy (task : T)
  | exited

/-- `ThreadPoolWorker`, with what it has sent and nobody has received. -/
structure ThreadPoolWorker (T M : Type*) where
  running : Bool := true
  phase : WorkerPhase T := .idle
  dataChannel : List M := []

def ThreadPoolWorker.alive {T M : Type*} (worker : ThreadPoolWorker T M) : Bool :=
  match worker.phase with
  | .exited => false
  | _ => true

def ThreadPoolWorker.held {T M : Type*} (f : T → ℕ) (g : M → ℕ)
    (worker : ThreadPoolWorker T M) : List ℕ :=
  (match worker.phase with
    | .busy task => [f task]
    | _ => []) ++ worker.dataChannel.map g

/-- `ThreadPool`. -/
structure ThreadPool (T M : Type*) where
  numThreads : ℕ
  running : Bool := false
  workQueue : List T := []
  workers : List (ThreadPoolWorker T M) := []

namespace ThreadPool

variable {T M : Type*}

def alive (pool : ThreadPool T M) : Bool :=
  pool.workers.any ThreadPoolWorker.alive

/-- A queue without workers is empty. -/
def Tended (pool : ThreadPool T M) : Prop :=
  pool.alive = false → pool.workQueue = []

/-- The numbers of what the pool holds. Without a worker nobody takes the tasks of
the queue: they do not count, although a later `start` would have them taken. -/
def held (f : T → ℕ) (g : M → ℕ) (pool : ThreadPool T M) : List ℕ :=
  (if pool.alive then pool.workQueue.map f else []) ++
    pool.workers.flatMap (ThreadPoolWorker.held f g)

def start (pool : ThreadPool T M) : Except ThreadPoolError Unit × ThreadPool T M :=
  if pool.numThreads < 1 then
    (.error (.invalidSettings "ThreadPool needs at least 1 thread."), pool)
  else if pool.running then (.error (.alreadyRunning "Already running."), pool)
  else
    (.ok (), { pool with
      running := true
      workers := pool.workers ++ List.replicate pool.numThreads {} })

def triggerStop (pool : ThreadPool T M) :
    Except ThreadPoolError Unit × ThreadPool T M :=
  if pool.running then
    (.ok (), { pool with
      running := false
      workers := pool.workers.map fun worker => { worker with running := false } })
  else (.error (.notRunning "NotRunning"), pool)

/-- The second half of `ThreadPool::trySubmit`, for a pool that it has found
running. -/
def tryEnqueue (pool : ThreadPool T M) (hasRoom : Bool) (task : T) :
    Except ThreadPoolError Unit × ThreadPool T M :=
  if hasRoom then (.ok (), { pool with workQueue := pool.workQueue ++ [task] })
  else (.error (.threadPoolError "Queue is full."), pool)

/-- `ThreadPool::trySubmit`, where nobody stops the pool in the middle of it. -/
def trySubmit (pool : ThreadPool T M) (hasRoom : Bool) (task : T) :
    Except ThreadPoolError Unit × ThreadPool T M :=
  if pool.running then pool.tryEnqueue hasRoom task
  else (.error (.notRunning "Not running."), pool)

def dequeue (pool : ThreadPool T M) (w : ℕ) : Option (ThreadPool T M) :=
  match pool.workers[w]?, pool.workQueue with
  | some ⟨running, .idle, dataChannel⟩, task :: rest =>
      some { pool with
        workQueue := rest
        workers := pool.workers.set w ⟨running, .busy task, dataChannel⟩ }
  | _, _ => none

def finishTask (pool : ThreadPool T M) (w : ℕ) (messages : List M) :
    Option (ThreadPool T M) :=
  match pool.workers[w]? with
  | some ⟨running, .busy _, dataChannel⟩ =>
      some { pool with
        workers := pool.workers.set w ⟨running, .idle, dataChannel ++ messages⟩ }
  | _ => none

/-- The worker finds that it has been stopped, and leaves its loop. -/
def exit (pool : ThreadPool T M) (w : ℕ) : Option (ThreadPool T M) :=
  match pool.workers[w]? with
  | some ⟨false, .idle, dataChannel⟩ =>
      some { pool with
        workers := pool.workers.set w ⟨false, .exited, dataChannel⟩ }
  | _ => none

def receive (pool : ThreadPool T M) (w : ℕ) : Option (M × ThreadPool T M) :=
  match pool.workers[w]? with
  | some ⟨running, phase, message :: rest⟩ =>
      some (message, { pool with
        workers := pool.workers.set w ⟨running, phase, rest⟩ })
  | _ => none

/-- Of the worker at an index and the others, some one is in its loop. -/
theorem alive_eq_or (pool : ThreadPool T M) {w : ℕ} {worker : ThreadPoolWorker T M}
    (hw : pool.workers[w]? = some worker) :
    pool.alive = (worker.alive ||
      (pool.workers.eraseIdx w).any ThreadPoolWorker.alive) := by
  obtain ⟨hlt, rfl⟩ := List.getElem?_eq_some_iff.mp hw
  exact ((List.getElem_cons_eraseIdx_perm hlt).any_eq).symm

section Held

variable (f : T → ℕ) (g : M → ℕ) (pool : ThreadPool T M)

theorem count_held {w : ℕ} {worker : ThreadPoolWorker T M}
    (hw : pool.workers[w]? = some worker) (n : ℕ) :
    (pool.held f g).count n =
      (if pool.alive then (pool.workQueue.map f).count n else 0) +
        ((worker.held f g).count n +
          ((pool.workers.eraseIdx w).flatMap (ThreadPoolWorker.held f g)).count n) := by
  obtain ⟨hlt, rfl⟩ := List.getElem?_eq_some_iff.mp hw
  have hperm := (List.getElem_cons_eraseIdx_perm hlt).flatMap_right
    (ThreadPoolWorker.held f g)
  rw [held, List.count_append, ← hperm.count_eq, List.flatMap_cons,
    List.count_append]
  split <;> rfl

end Held

/-- The numbers that a worker's place in the pool holds with the queue, after a
step that leaves the other workers alone. -/
theorem count_held_set (f : T → ℕ) (g : M → ℕ) {pool : ThreadPool T M} {w : ℕ}
    {worker : ThreadPoolWorker T M} (hw : pool.workers[w]? = some worker)
    (replacement : ThreadPoolWorker T M) (workQueue : List T) (n : ℕ) :
    (held f g { pool with
        workQueue := workQueue
        workers := pool.workers.set w replacement }).count n =
      (if replacement.alive ||
          (pool.workers.eraseIdx w).any ThreadPoolWorker.alive then
        (workQueue.map f).count n else 0) +
        ((replacement.held f g).count n +
          ((pool.workers.eraseIdx w).flatMap (ThreadPoolWorker.held f g)).count n) := by
  have hset : (pool.workers.set w replacement)[w]? = some replacement :=
    List.getElem?_set_self (List.getElem?_eq_some_iff.mp hw).1
  rw [count_held f g _ hset, alive_eq_or _ hset, List.eraseIdx_set_eq]

section Steps

variable (f : T → ℕ) (g : M → ℕ) {pool pool' : ThreadPool T M} {w : ℕ}

theorem held_dequeue (h : pool.dequeue w = some pool') :
    (pool'.held f g).Perm (pool.held f g) ∧ pool'.alive = true := by
  unfold dequeue at h
  split at h
  · rename_i running dataChannel task rest hw hqueue
    cases h
    refine ⟨List.perm_iff_count.mpr fun n => ?_, ?_⟩
    · rw [count_held_set f g hw, count_held f g pool hw, alive_eq_or pool hw, hqueue]
      simp only [ThreadPoolWorker.alive, ThreadPoolWorker.held, Bool.true_or, if_true,
        List.map_cons, List.count_cons, List.count_append, List.count_nil]
      omega
    · rw [alive_eq_or _ (List.getElem?_set_self (List.getElem?_eq_some_iff.mp hw).1)]
      rfl
  · cases h

theorem held_finishTask {running : Bool} {task : T} {dataChannel messages : List M}
    (hw : pool.workers[w]? = some ⟨running, .busy task, dataChannel⟩)
    (h : pool.finishTask w messages = some pool') :
    (pool'.held f g ++ [f task]).Perm (pool.held f g ++ messages.map g) ∧
      pool'.alive = true := by
  unfold finishTask at h
  rw [hw] at h
  cases h
  refine ⟨List.perm_iff_count.mpr fun n => ?_, ?_⟩
  · rw [List.count_append, List.count_append, count_held_set f g hw,
      count_held f g pool hw, alive_eq_or pool hw]
    simp only [ThreadPoolWorker.alive, ThreadPoolWorker.held, Bool.true_or, if_true,
      List.map_append, List.count_cons, List.count_append, List.count_nil]
    omega
  · rw [alive_eq_or _ (List.getElem?_set_self (List.getElem?_eq_some_iff.mp hw).1)]
    rfl

/-- A worker that leaves its loop as the last one leaves the queue to nobody. -/
theorem held_exit (h : pool.exit w = some pool') :
    (pool.held f g).Perm
        (pool'.held f g ++ if pool'.alive then [] else pool.workQueue.map f) ∧
      pool'.alive = (pool.workers.eraseIdx w).any ThreadPoolWorker.alive ∧
      pool'.workQueue = pool.workQueue := by
  unfold exit at h
  split at h
  · rename_i dataChannel hw
    cases h
    have hset : (pool.workers.set w ⟨false, .exited, dataChannel⟩)[w]? =
        some ⟨false, .exited, dataChannel⟩ :=
      List.getElem?_set_self (List.getElem?_eq_some_iff.mp hw).1
    have halive : alive { pool with
        workers := pool.workers.set w ⟨false, .exited, dataChannel⟩ } =
        (pool.workers.eraseIdx w).any ThreadPoolWorker.alive := by
      rw [alive_eq_or _ hset, List.eraseIdx_set_eq]
      rfl
    refine ⟨List.perm_iff_count.mpr fun n => ?_, halive, rfl⟩
    rw [List.count_append, count_held_set f g hw, count_held f g pool hw,
      alive_eq_or pool hw, halive]
    simp only [ThreadPoolWorker.alive, ThreadPoolWorker.held, Bool.true_or,
      Bool.false_or, if_true]
    cases (pool.workers.eraseIdx w).any ThreadPoolWorker.alive with
    | true =>
        simp only [if_true, List.count_nil]
        omega
    | false =>
        simp only [Bool.false_eq_true, if_false]
        omega
  · cases h

theorem held_receive {message : M} (h : pool.receive w = some (message, pool')) :
    (pool.held f g).Perm (pool'.held f g ++ [g message]) ∧
      pool'.alive = pool.alive ∧ pool'.workQueue = pool.workQueue := by
  unfold receive at h
  split at h
  · rename_i running phase message rest hw
    cases h
    have hsame : ThreadPoolWorker.alive ⟨running, phase, rest⟩ =
        ThreadPoolWorker.alive ⟨running, phase, message :: rest⟩ := rfl
    have hset : (pool.workers.set w ⟨running, phase, rest⟩)[w]? =
        some ⟨running, phase, rest⟩ :=
      List.getElem?_set_self (List.getElem?_eq_some_iff.mp hw).1
    refine ⟨List.perm_iff_count.mpr fun n => ?_, ?_, rfl⟩
    · rw [List.count_append, count_held_set f g hw, count_held f g pool hw,
        alive_eq_or pool hw, hsame]
      simp only [ThreadPoolWorker.held, List.map_cons, List.count_cons,
        List.count_append, List.count_nil]
      omega
    · rw [alive_eq_or pool hw, alive_eq_or _ hset, List.eraseIdx_set_eq, hsame]
  · cases h

theorem held_tryEnqueue (task : T) :
    ((pool.tryEnqueue true task).2.held f g).Perm
      (pool.held f g ++ if pool.alive then [f task] else []) := by
  refine List.perm_iff_count.mpr fun n => ?_
  have halive : (pool.tryEnqueue true task).2.alive = pool.alive := rfl
  simp only [held, halive]
  simp only [tryEnqueue, if_true]
  split <;> simp only [List.count_append, List.map_append, List.map_cons, List.map_nil,
    List.count_nil] <;> omega

/-- New workers hold nothing. -/
theorem held_start (hqueue : pool.Tended) :
    pool.start.2.held f g = pool.held f g := by
  unfold start
  split_ifs with hnum hrunning
  · rfl
  · rfl
  · have hnew : (List.replicate pool.numThreads ({} : ThreadPoolWorker T M)).flatMap
        (ThreadPoolWorker.held f g) = [] := by
      rw [List.flatMap_eq_nil_iff]
      intro worker hworker
      rw [List.eq_of_mem_replicate hworker]
      rfl
    simp only [held, List.flatMap_append, hnew, List.append_nil]
    cases halive : pool.alive with
    | true => simp [alive, List.any_append] at halive ⊢; simp [halive]
    | false => simp [hqueue halive]

theorem tended_start (hqueue : pool.Tended) : pool.start.2.Tended := by
  unfold start
  split_ifs with hnum hrunning
  · exact hqueue
  · exact hqueue
  · intro halive
    rw [alive, List.any_append, Bool.or_eq_false_iff] at halive
    exact hqueue halive.1

variable (pool) in
theorem held_triggerStop : pool.triggerStop.2.held f g = pool.held f g ∧
    pool.triggerStop.2.alive = pool.alive ∧
    pool.triggerStop.2.workQueue = pool.workQueue := by
  unfold triggerStop
  split_ifs with hrunning
  · have halive : (pool.workers.map fun worker =>
        { worker with running := false }).any ThreadPoolWorker.alive = pool.alive := by
      rw [List.any_map]
      rfl
    have hheld : (pool.workers.map fun worker =>
        { worker with running := false }).flatMap (ThreadPoolWorker.held f g) =
        pool.workers.flatMap (ThreadPoolWorker.held f g) := by
      rw [List.flatMap_map]
      rfl
    refine ⟨?_, halive, rfl⟩
    unfold held
    dsimp only
    rw [hheld]
    exact congrArg (fun b => (if b = true then pool.workQueue.map f else []) ++
      pool.workers.flatMap (ThreadPoolWorker.held f g)) halive
  · exact ⟨rfl, rfl, rfl⟩

end Steps

end ThreadPool

end Tpool

end Async

end Kclpp
