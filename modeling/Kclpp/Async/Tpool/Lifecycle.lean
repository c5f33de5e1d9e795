import Kclpp.Async.Tpool.ThreadPool

/-!
# The threads of the pool

`PoolThreads` is the pool with the flags and threads of its workers only; the flags are
those of the pool with its tasks, `SameFlags`. A thread leaves its loop once its worker
has been stopped, so that `join` waits for ever for one that has not. Joining a thread
again throws out of a `noexcept` function, and destroying one that has not been joined
terminates the process as well.

A pool keeps its old workers when it is started again. `Orderly` is what a caller has to
see to, call by call: `threadsKept_iff`.
-/

namespace Kclpp

namespace Async

namespace Tpool

/-- A `std::thread` that runs or has run, or one that has been joined. -/
inductive ThreadHandle where
  | joinable
  | joined
  deriving DecidableEq, Repr

/-- Why `std::terminate` is called. -/
inductive Fault where
  | joinedAgain
  | destroyedJoinable
  deriving DecidableEq, Repr

/-- How a call does not return. -/
inductive Halt where
  | blocked
  | terminated (fault : Fault)
  deriving DecidableEq, Repr

/-- `ThreadPoolWorker`, with its flag and its thread. -/
structure WorkerThread where
  running : Bool := false
  thread : Option ThreadHandle := none
  deriving DecidableEq, Repr

namespace WorkerThread

def startThread (worker : WorkerThread) : WorkerThread :=
  { worker with thread := some .joinable }

def start (worker : WorkerThread) : Except ThreadPoolError Unit × WorkerThread :=
  if worker.running then (.error (.alreadyRunning "Already running."), worker)
  else (.ok (), startThread { worker with running := true })

def triggerStop (worker : WorkerThread) : Except ThreadPoolError Unit × WorkerThread :=
  if worker.running then (.ok (), { worker with running := false })
  else (.error (.notRunning "NotRunning"), worker)

def join (worker : WorkerThread) : Except Halt WorkerThread :=
  match worker.thread with
  | none => .ok worker
  | some .joined => .error (.terminated .joinedAgain)
  | some .joinable =>
      if worker.running then .error .blocked
      else .ok { worker with thread := some .joined }

def started : WorkerThread := (start {}).2

end WorkerThread

/-- `ThreadPool`, with its flag and its workers. -/
structure PoolThreads where
  numThreads : ℕ
  running : Bool := false
  workers : List WorkerThread := []
  deriving DecidableEq, Repr

inductive PoolCall where
  | start
  | triggerStop
  | join
  | stopJoin
  deriving DecidableEq, Repr

namespace PoolThreads

def createNew (nThreads : ℕ) : PoolThreads where
  numThreads := nThreads

def startWorkers (pool : PoolThreads) : PoolThreads :=
  { pool with
    workers := pool.workers ++ List.replicate pool.numThreads WorkerThread.started }

def stopWorkers (pool : PoolThreads) : PoolThreads :=
  { pool with workers := pool.workers.map fun worker => worker.triggerStop.2 }

def start (pool : PoolThreads) : Except ThreadPoolError Unit × PoolThreads :=
  if pool.numThreads < 1 then
    (.error (.invalidSettings "ThreadPool needs at least 1 thread."), pool)
  else if pool.running then (.error (.alreadyRunning "Already running."), pool)
  else (.ok (), startWorkers { pool with running := true })

def triggerStop (pool : PoolThreads) : Except ThreadPoolError Unit × PoolThreads :=
  if pool.running then (.ok (), stopWorkers { pool with running := false })
  else (.error (.notRunning "NotRunning"), pool)

/-- `ThreadPool::join`, one worker after the other. -/
def join (pool : PoolThreads) : Except Halt PoolThreads :=
  (pool.workers.mapM WorkerThread.join).map fun workers => { pool with workers := workers }

def stopJoin (pool : PoolThreads) : Except Halt PoolThreads :=
  match pool.triggerStop with
  | (.error _, pool) => .ok pool
  | (.ok _, pool) => pool.join

def call (pool : PoolThreads) : PoolCall → Except Halt PoolThreads
  | .start => .ok pool.start.2
  | .triggerStop => .ok pool.triggerStop.2
  | .join => pool.join
  | .stopJoin => pool.stopJoin

/-- `ThreadPool::~ThreadPool`, which destroys the workers with their threads. -/
def destroy (pool : PoolThreads) : Except Halt (List WorkerThread) :=
  pool.stopJoin.bind fun pool =>
    if pool.workers.any fun worker => worker.thread = some .joinable then
      .error (.terminated .destroyedJoinable)
    else .ok pool.workers

/-- Some calls, and the end of the pool: its workers as they are destroyed. -/
def finish (pool : PoolThreads) (calls : List PoolCall) :
    Except Halt (List WorkerThread) :=
  (calls.foldlM call pool).bind destroy

def live (pool : PoolThreads) : ℕ := pool.workers.countP WorkerThread.running

end PoolThreads

open PoolThreads

/-- What should hold of the calls on a pool of so many threads that is destroyed after
them. No thread is joined again or destroyed unjoined, those that are destroyed have been
joined, and after each successful start as many workers are live. -/
structure ThreadsKept (numThreads : ℕ) (calls : List PoolCall) : Prop where
  faultless : ∀ fault, (createNew numThreads).finish calls ≠ .error (.terminated fault)
  joined : ∀ workers, (createNew numThreads).finish calls = .ok workers →
    ∀ worker ∈ workers, worker.thread = some .joined
  live : ∀ (before after : List PoolCall) pool pool', calls = before ++ .start :: after →
    before.foldlM call (createNew numThreads) = .ok pool →
    pool.start = (.ok (), pool') → pool'.live = numThreads

inductive Stage where
  | unstarted
  | running
  | stopped
  | joined
  deriving DecidableEq, Repr

/-- What a call does to a pool in a stage. -/
inductive Turn where
  | goesTo (stage : Stage)
  | waits
  | breaks
  deriving DecidableEq, Repr

/-- Once its threads have been joined a pool must be neither started nor joined again. -/
def Stage.turn : Stage → PoolCall → Turn
  | .unstarted, .start => .goesTo .running
  | .unstarted, _ => .goesTo .unstarted
  | .running, .start => .goesTo .running
  | .running, .triggerStop => .goesTo .stopped
  | .running, .stopJoin => .goesTo .joined
  | .running, .join => .waits
  | .stopped, .start => .goesTo .running
  | .stopped, .join => .goesTo .joined
  | .stopped, _ => .goesTo .stopped
  | .joined, .start | .joined, .join => .breaks
  | .joined, _ => .goesTo .joined

/-- The calls that a pool in this stage can take until it is destroyed, which it must
not be while it is stopped and not joined. A pool that is joined while it runs waits for
ever, and is not destroyed. -/
def Orderly : Stage → List PoolCall → Prop
  | stage, [] => stage ≠ .stopped
  | stage, call :: calls =>
      match stage.turn call with
      | .goesTo stage => Orderly stage calls
      | .waits => True
      | .breaks => False

instance decidableOrderly : ∀ stage calls, Decidable (Orderly stage calls)
  | stage, [] => inferInstanceAs (Decidable (stage ≠ .stopped))
  | stage, call :: calls => by
      unfold Orderly
      exact match stage.turn call with
        | .goesTo stage => decidableOrderly stage calls
        | .waits => isTrue trivial
        | .breaks => isFalse id

namespace WorkerThread

theorem snd_triggerStop (worker : WorkerThread) :
    worker.triggerStop.2 = { worker with running := false } := by
  obtain ⟨running, thread⟩ := worker
  cases running <;> rfl

theorem mapM_join_of_stopped {workers : List WorkerThread}
    (h : ∀ worker ∈ workers,
      worker.thread = some .joinable ∧ worker.running = false) :
    workers.mapM join =
      .ok (workers.map fun worker => { worker with thread := some .joined }) := by
  induction workers with
  | nil => rfl
  | cons worker workers ih =>
      obtain ⟨hthread, hstopped⟩ := h worker List.mem_cons_self
      have hrest := ih fun other hother => h other (List.mem_cons_of_mem _ hother)
      have hjoin : worker.join = .ok { worker with thread := some .joined } := by
        rw [join, hthread, hstopped]
        rfl
      rw [List.mapM_cons, hjoin, hrest]
      rfl

theorem mapM_join_of_running {workers : List WorkerThread}
    (h : ∀ worker ∈ workers, worker.thread = some .joinable)
    (hrunning : ∃ worker ∈ workers, worker.running = true) :
    workers.mapM join = .error .blocked := by
  induction workers with
  | nil =>
      obtain ⟨worker, hmem, -⟩ := hrunning
      cases hmem
  | cons worker workers ih =>
      have hthread := h worker List.mem_cons_self
      rw [List.mapM_cons, join, hthread]
      cases hhead : worker.running with
      | true => rfl
      | false =>
          have hrest := ih (fun other hother => h other (List.mem_cons_of_mem _ hother)) (by
            obtain ⟨other, hmem, hother⟩ := hrunning
            rcases List.mem_cons.mp hmem with rfl | hmem
            · rw [hhead] at hother
              cases hother
            · exact ⟨other, hmem, hother⟩)
          rw [hrest]
          rfl

theorem mapM_join_of_joined {worker : WorkerThread} {workers : List WorkerThread}
    (h : worker.thread = some .joined) :
    (worker :: workers).mapM join = .error (.terminated .joinedAgain) := by
  rw [List.mapM_cons, join, h]
  rfl

theorem running_of_join {worker worker' : WorkerThread} (h : worker.join = .ok worker') :
    worker'.running = worker.running := by
  unfold join at h
  split at h
  · cases h
    rfl
  · cases h
  · split_ifs at h
    cases h
    rfl

theorem map_running_of_mapM_join {workers workers' : List WorkerThread}
    (h : workers.mapM join = .ok workers') :
    workers'.map running = workers.map running := by
  induction workers generalizing workers' with
  | nil =>
      cases h
      rfl
  | cons worker workers ih =>
      rw [List.mapM_cons] at h
      cases hjoin : worker.join with
      | error halt =>
          rw [hjoin] at h
          cases h
      | ok joined =>
          cases hrest : workers.mapM join with
          | error halt =>
              rw [hjoin, hrest] at h
              cases h
          | ok rest =>
              rw [hjoin, hrest] at h
              cases h
              rw [List.map_cons, List.map_cons, running_of_join hjoin, ih hrest]

end WorkerThread

namespace PoolThreads

variable {pool pool' : PoolThreads}

theorem stopWorkers_eq (pool : PoolThreads) :
    pool.stopWorkers = { pool with
      workers := pool.workers.map fun worker => { worker with running := false } } := by
  unfold stopWorkers
  simp only [WorkerThread.snd_triggerStop]

theorem start_of_stopped (hpos : 0 < pool.numThreads) (h : pool.running = false) :
    pool.start = (.ok (), startWorkers { pool with running := true }) := by
  rw [start, if_neg (by omega), if_neg (by rw [h]; exact Bool.false_ne_true)]

theorem snd_start_of_running (h : pool.running = true) : pool.start.2 = pool := by
  unfold start
  rw [h]
  split <;> rfl

theorem triggerStop_of_running (h : pool.running = true) :
    pool.triggerStop = (.ok (), stopWorkers { pool with running := false }) := by
  rw [triggerStop, if_pos h]

theorem triggerStop_of_stopped (h : pool.running = false) :
    pool.triggerStop = (.error (.notRunning "NotRunning"), pool) := by
  rw [triggerStop, if_neg (by rw [h]; exact Bool.false_ne_true)]

theorem call_triggerStop_of_stopped (h : pool.running = false) :
    pool.call .triggerStop = .ok pool := by
  rw [call, triggerStop_of_stopped h]

theorem stopJoin_of_running (h : pool.running = true) :
    pool.stopJoin = join (stopWorkers { pool with running := false }) := by
  rw [stopJoin, triggerStop_of_running h]

theorem stopJoin_of_stopped (h : pool.running = false) : pool.stopJoin = .ok pool := by
  rw [stopJoin, triggerStop_of_stopped h]

theorem finish_cons (pool : PoolThreads) (c : PoolCall) (calls : List PoolCall) :
    pool.finish (c :: calls) = (pool.call c).bind fun pool => pool.finish calls := by
  unfold finish
  rw [List.foldlM_cons]
  cases pool.call c <;> rfl

/-- A pool has come to a stage. -/
def InStage (pool : PoolThreads) : Stage → Prop
  | .unstarted => pool.running = false ∧ pool.workers = []
  | .running => pool.running = true ∧ (∃ worker ∈ pool.workers, worker.running = true) ∧
      ∀ worker ∈ pool.workers, worker.thread = some .joinable
  | .stopped => pool.running = false ∧ pool.workers ≠ [] ∧
      ∀ worker ∈ pool.workers, worker.thread = some .joinable ∧ worker.running = false
  | .joined => pool.running = false ∧ pool.workers ≠ [] ∧
      ∀ worker ∈ pool.workers, worker.thread = some .joined

/-- The first thread has been joined, and another one has not: whatever comes next, the
process does not survive the pool. -/
def Doomed (pool : PoolThreads) : Prop :=
  (∃ worker rest, pool.workers = worker :: rest ∧ worker.thread = some .joined) ∧
    ∃ worker ∈ pool.workers, worker.thread = some .joinable

theorem join_of_doomed (h : pool.Doomed) :
    pool.join = .error (.terminated .joinedAgain) := by
  obtain ⟨⟨worker, rest, hworkers, hjoined⟩, -⟩ := h
  rw [join, hworkers, WorkerThread.mapM_join_of_joined hjoined]
  rfl

theorem doomed_stopWorkers (h : pool.Doomed) (running : Bool) :
    (stopWorkers { pool with running := running }).Doomed := by
  obtain ⟨⟨worker, rest, hworkers, hjoined⟩, other, hmem, hjoinable⟩ := h
  rw [stopWorkers_eq]
  refine ⟨⟨{ worker with running := false }, _, by rw [hworkers]; rfl, hjoined⟩,
    { other with running := false }, List.mem_map_of_mem hmem, hjoinable⟩

theorem doomed_startWorkers (h : pool.Doomed) (running : Bool) :
    (startWorkers { pool with running := running }).Doomed := by
  obtain ⟨⟨worker, rest, hworkers, hjoined⟩, other, hmem, hjoinable⟩ := h
  exact ⟨⟨worker, _, by rw [startWorkers, hworkers]; rfl, hjoined⟩, other,
    List.mem_append_left _ hmem, hjoinable⟩

theorem call_of_doomed (h : pool.Doomed) (c : PoolCall) :
    pool.call c = .error (.terminated .joinedAgain) ∨
      ∃ pool', pool.call c = .ok pool' ∧ pool'.Doomed := by
  cases c with
  | start =>
      refine Or.inr ⟨_, rfl, ?_⟩
      unfold start
      split_ifs
      · exact h
      · exact h
      · exact doomed_startWorkers h true
  | triggerStop =>
      refine Or.inr ⟨_, rfl, ?_⟩
      unfold triggerStop
      split_ifs
      · exact doomed_stopWorkers h false
      · exact h
  | join => exact Or.inl (join_of_doomed h)
  | stopJoin =>
      cases hrunning : pool.running with
      | true =>
          refine Or.inl ?_
          rw [call, stopJoin_of_running hrunning]
          exact join_of_doomed (doomed_stopWorkers h false)
      | false =>
          refine Or.inr ⟨pool, ?_, h⟩
          rw [call, stopJoin_of_stopped hrunning]

theorem finish_of_doomed (h : pool.Doomed) (calls : List PoolCall) :
    ∃ fault, pool.finish calls = .error (.terminated fault) := by
  induction calls generalizing pool with
  | nil =>
      change ∃ fault, pool.destroy = .error (.terminated fault)
      cases hrunning : pool.running with
      | true =>
          refine ⟨.joinedAgain, ?_⟩
          rw [destroy, stopJoin_of_running hrunning,
            join_of_doomed (doomed_stopWorkers h false)]
          rfl
      | false =>
          obtain ⟨worker, hmem, hjoinable⟩ := h.2
          refine ⟨.destroyedJoinable, ?_⟩
          rw [destroy, stopJoin_of_stopped hrunning]
          exact if_pos (List.any_eq_true.mpr ⟨worker, hmem, by rw [hjoinable]; rfl⟩)
  | cons c calls ih =>
      rw [finish_cons]
      rcases call_of_doomed h c with hfault | ⟨pool', hcall, hdoomed⟩
      · exact ⟨.joinedAgain, by rw [hfault]; rfl⟩
      · rw [hcall]
        exact ih hdoomed

theorem inStage_startWorkers (hpos : 0 < pool.numThreads)
    (h : ∀ worker ∈ pool.workers, worker.thread = some .joinable) :
    InStage (startWorkers { pool with running := true }) .running := by
  have hnew : WorkerThread.started ∈
      List.replicate pool.numThreads WorkerThread.started :=
    List.mem_replicate.mpr ⟨by omega, rfl⟩
  refine ⟨rfl, ⟨_, List.mem_append_right _ hnew, rfl⟩, fun worker hmem => ?_⟩
  rcases List.mem_append.mp hmem with hold | hnew
  · exact h worker hold
  · rw [List.eq_of_mem_replicate hnew]
    rfl

theorem inStage_stopWorkers (h : pool.InStage .running) :
    InStage (stopWorkers { pool with running := false }) .stopped := by
  obtain ⟨-, ⟨worker, hmem, -⟩, hthreads⟩ := h
  rw [stopWorkers_eq]
  refine ⟨rfl, List.ne_nil_of_mem (List.mem_map_of_mem hmem), fun stopped hstopped => ?_⟩
  obtain ⟨old, hold, rfl⟩ := List.mem_map.mp hstopped
  exact ⟨hthreads old hold, rfl⟩

theorem join_of_inStage_stopped (h : pool.InStage .stopped) :
    ∃ pool', pool.join = .ok pool' ∧ pool'.InStage .joined ∧
      pool'.numThreads = pool.numThreads := by
  obtain ⟨hrunning, hne, hthreads⟩ := h
  rw [join, WorkerThread.mapM_join_of_stopped hthreads]
  refine ⟨_, rfl, ⟨hrunning, ?_, fun worker hmem => ?_⟩, rfl⟩
  · exact fun hnil => hne (List.map_eq_nil_iff.mp hnil)
  · obtain ⟨old, -, rfl⟩ := List.mem_map.mp hmem
    rfl

theorem doomed_start (hpos : 0 < pool.numThreads) (h : pool.InStage .joined) :
    pool.start.2.Doomed := by
  obtain ⟨hrunning, hne, hthreads⟩ := h
  rw [start_of_stopped hpos hrunning]
  obtain ⟨worker, rest, hworkers⟩ := List.exists_cons_of_ne_nil hne
  refine ⟨⟨worker, _, by rw [startWorkers, hworkers]; rfl,
    hthreads worker (hworkers ▸ List.mem_cons_self)⟩, WorkerThread.started, ?_, rfl⟩
  exact List.mem_append_right _ (List.mem_replicate.mpr ⟨hpos.ne', rfl⟩)

inductive Turned (pool : PoolThreads) (c : PoolCall) : Turn → Prop where
  | goesTo {stage : Stage} {pool' : PoolThreads} (hcall : pool.call c = .ok pool')
      (hstage : pool'.InStage stage) (hsame : pool'.numThreads = pool.numThreads) :
      Turned pool c (.goesTo stage)
  | waits (hcall : pool.call c = .error .blocked) : Turned pool c .waits
  | faults (hcall : pool.call c = .error (.terminated .joinedAgain)) :
      Turned pool c .breaks
  | dooms {pool' : PoolThreads} (hcall : pool.call c = .ok pool') (hdoomed : pool'.Doomed) :
      Turned pool c .breaks

theorem turned_start_of_stopped (hpos : 0 < pool.numThreads) (h : pool.running = false)
    (hthreads : ∀ worker ∈ pool.workers, worker.thread = some .joinable) :
    pool.Turned .start (.goesTo .running) := by
  have hcall : pool.call .start = .ok (startWorkers { pool with running := true }) := by
    rw [call, start_of_stopped hpos h]
  exact .goesTo hcall (inStage_startWorkers hpos hthreads) rfl

theorem turned_of_inStage {stage : Stage} (hpos : 0 < pool.numThreads)
    (h : pool.InStage stage) (c : PoolCall) : pool.Turned c (stage.turn c) := by
  cases stage with
  | unstarted =>
      obtain ⟨hrunning, hworkers⟩ := h
      cases c with
      | start =>
          exact turned_start_of_stopped hpos hrunning fun worker hmem => by
            rw [hworkers] at hmem
            cases hmem
      | triggerStop =>
          exact .goesTo (call_triggerStop_of_stopped hrunning) ⟨hrunning, hworkers⟩ rfl
      | join =>
          have hcall : pool.call .join = .ok { pool with workers := [] } := by
            rw [call, join, hworkers]
            rfl
          exact .goesTo hcall ⟨hrunning, rfl⟩ rfl
      | stopJoin =>
          exact .goesTo (stopJoin_of_stopped hrunning) ⟨hrunning, hworkers⟩ rfl
  | running =>
      obtain ⟨hrunning, hsome, hthreads⟩ := h
      cases c with
      | start =>
          have hcall : pool.call .start = .ok pool := by
            rw [call, snd_start_of_running hrunning]
          exact .goesTo hcall ⟨hrunning, hsome, hthreads⟩ rfl
      | triggerStop =>
          have hcall : pool.call .triggerStop =
              .ok (stopWorkers { pool with running := false }) := by
            rw [call, triggerStop_of_running hrunning]
          exact .goesTo hcall (inStage_stopWorkers ⟨hrunning, hsome, hthreads⟩) rfl
      | join =>
          refine .waits ?_
          rw [call, join, WorkerThread.mapM_join_of_running hthreads hsome]
          rfl
      | stopJoin =>
          obtain ⟨pool', hjoin, hjoined, hsame⟩ := join_of_inStage_stopped
            (inStage_stopWorkers ⟨hrunning, hsome, hthreads⟩)
          exact .goesTo ((stopJoin_of_running hrunning).trans hjoin) hjoined hsame
  | stopped =>
      obtain ⟨hrunning, hne, hthreads⟩ := h
      cases c with
      | start =>
          exact turned_start_of_stopped hpos hrunning fun worker hmem =>
            (hthreads worker hmem).1
      | triggerStop =>
          exact .goesTo (call_triggerStop_of_stopped hrunning) ⟨hrunning, hne, hthreads⟩
            rfl
      | join =>
          obtain ⟨pool', hjoin, hjoined, hsame⟩ :=
            join_of_inStage_stopped ⟨hrunning, hne, hthreads⟩
          exact .goesTo hjoin hjoined hsame
      | stopJoin =>
          exact .goesTo (stopJoin_of_stopped hrunning) ⟨hrunning, hne, hthreads⟩ rfl
  | joined =>
      obtain ⟨hrunning, hne, hthreads⟩ := h
      cases c with
      | start => exact .dooms rfl (doomed_start hpos ⟨hrunning, hne, hthreads⟩)
      | triggerStop =>
          exact .goesTo (call_triggerStop_of_stopped hrunning) ⟨hrunning, hne, hthreads⟩
            rfl
      | join =>
          obtain ⟨worker, rest, hworkers⟩ := List.exists_cons_of_ne_nil hne
          refine .faults ?_
          rw [call, join, hworkers, WorkerThread.mapM_join_of_joined
            (hthreads worker (hworkers ▸ List.mem_cons_self))]
          rfl
      | stopJoin =>
          exact .goesTo (stopJoin_of_stopped hrunning) ⟨hrunning, hne, hthreads⟩ rfl

/-- The pool is never destroyed, or all threads have been joined when it is. -/
def EndsWell (result : Except Halt (List WorkerThread)) : Prop :=
  result = .error .blocked ∨
    ∃ workers, result = .ok workers ∧ ∀ worker ∈ workers, worker.thread = some .joined

theorem destroy_of_joined (hrunning : pool.running = false)
    (h : ∀ worker ∈ pool.workers, worker.thread = some .joined) :
    pool.destroy = .ok pool.workers := by
  rw [destroy, stopJoin_of_stopped hrunning]
  refine if_neg ?_
  rw [Bool.not_eq_true, List.any_eq_false]
  intro worker hmem
  rw [h worker hmem]
  decide

theorem destroy_of_inStage {stage : Stage} (h : pool.InStage stage) :
    if stage = .stopped then
      pool.destroy = .error (.terminated .destroyedJoinable)
    else EndsWell pool.destroy := by
  cases stage with
  | unstarted =>
      obtain ⟨hrunning, hworkers⟩ := h
      have hnone : ∀ worker ∈ pool.workers, worker.thread = some .joined := by
        rw [hworkers]
        exact fun _ hmem => nomatch hmem
      exact Or.inr ⟨_, destroy_of_joined hrunning hnone, hnone⟩
  | running =>
      obtain ⟨pool', hjoin, ⟨hrunning, -, hjoined⟩, -⟩ :=
        join_of_inStage_stopped (inStage_stopWorkers h)
      have hdestroy : pool.destroy = pool'.destroy := by
        rw [destroy, stopJoin_of_running h.1, hjoin, destroy, stopJoin_of_stopped hrunning]
      exact Or.inr ⟨_, hdestroy.trans (destroy_of_joined hrunning hjoined), hjoined⟩
  | stopped =>
      obtain ⟨hrunning, hne, hthreads⟩ := h
      obtain ⟨worker, hmem⟩ := List.exists_mem_of_ne_nil _ hne
      rw [if_pos rfl, destroy, stopJoin_of_stopped hrunning]
      refine if_pos (List.any_eq_true.mpr ⟨worker, hmem, ?_⟩)
      rw [(hthreads worker hmem).1]
      rfl
  | joined =>
      obtain ⟨hrunning, -, hthreads⟩ := h
      exact Or.inr ⟨_, destroy_of_joined hrunning hthreads, hthreads⟩

theorem finish_of_inStage {stage : Stage} (hpos : 0 < pool.numThreads)
    (h : pool.InStage stage) (calls : List PoolCall) :
    (Orderly stage calls ∧ EndsWell (pool.finish calls)) ∨
      ¬ Orderly stage calls ∧ ∃ fault, pool.finish calls = .error (.terminated fault) := by
  induction calls generalizing pool stage with
  | nil =>
      have hdestroy := destroy_of_inStage h
      by_cases hstopped : stage = .stopped
      · rw [if_pos hstopped] at hdestroy
        exact Or.inr ⟨fun horderly => horderly hstopped, _, hdestroy⟩
      · rw [if_neg hstopped] at hdestroy
        exact Or.inl ⟨hstopped, hdestroy⟩
  | cons c calls ih =>
      have hturned := turned_of_inStage hpos h c
      rw [finish_cons]
      unfold Orderly
      cases hturn : stage.turn c with
      | goesTo stage' =>
          rw [hturn] at hturned
          cases hturned with
          | goesTo hcall hstage hsame =>
              rw [hcall]
              exact ih (hsame ▸ hpos) hstage
      | waits =>
          rw [hturn] at hturned
          cases hturned with
          | waits hcall =>
              rw [hcall]
              exact Or.inl ⟨trivial, Or.inl rfl⟩
      | breaks =>
          rw [hturn] at hturned
          cases hturned with
          | faults hcall =>
              rw [hcall]
              exact Or.inr ⟨id, _, rfl⟩
          | dooms hcall hdoomed =>
              rw [hcall]
              exact Or.inr ⟨id, finish_of_doomed hdoomed calls⟩

theorem finish_of_no_threads (hnone : pool.numThreads = 0)
    (h : pool.InStage .unstarted) (calls : List PoolCall) : pool.finish calls = .ok [] := by
  induction calls generalizing pool with
  | nil =>
      obtain ⟨hrunning, hworkers⟩ := h
      have hdestroy := destroy_of_joined hrunning (by
        rw [hworkers]
        exact fun _ hmem => nomatch hmem)
      exact hdestroy.trans (congrArg Except.ok hworkers)
  | cons c calls ih =>
      obtain ⟨hrunning, hworkers⟩ := h
      have hcall : pool.call c = .ok pool := by
        cases c with
        | start =>
            rw [call, start, if_pos (by omega)]
        | triggerStop => exact call_triggerStop_of_stopped hrunning
        | join =>
            rw [call, join, hworkers]
            obtain ⟨numThreads, running, workers⟩ := pool
            subst hworkers
            rfl
        | stopJoin => rw [call, stopJoin_of_stopped hrunning]
      rw [finish_cons, hcall]
      exact ih hnone ⟨hrunning, hworkers⟩

/-- A pool that does not run has no worker that has not been stopped. -/
def Quiet (pool : PoolThreads) : Prop := pool.running = false → pool.live = 0

theorem live_eq (pool : PoolThreads) :
    pool.live = (pool.workers.map WorkerThread.running).countP id := by
  rw [List.countP_map]
  rfl

theorem live_startWorkers (pool : PoolThreads) (running : Bool) :
    (startWorkers { pool with running := running }).live = pool.live + pool.numThreads := by
  rw [live, startWorkers, List.countP_append, List.countP_replicate]
  rfl

theorem live_stopWorkers (pool : PoolThreads) (running : Bool) :
    (stopWorkers { pool with running := running }).live = 0 := by
  rw [stopWorkers_eq, live, List.countP_map, List.countP_eq_zero]
  exact fun _ _ => Bool.false_ne_true

theorem flags_of_join {pool pool' : PoolThreads} (h : pool.join = .ok pool') :
    pool'.numThreads = pool.numThreads ∧ pool'.running = pool.running ∧
      pool'.workers.map WorkerThread.running = pool.workers.map WorkerThread.running := by
  cases hjoin : pool.workers.mapM WorkerThread.join with
  | error halt =>
      rw [join, hjoin] at h
      cases h
  | ok workers =>
      rw [join, hjoin] at h
      cases h
      exact ⟨rfl, rfl, WorkerThread.map_running_of_mapM_join hjoin⟩

theorem live_of_join {pool pool' : PoolThreads} (h : pool.join = .ok pool') :
    pool'.live = pool.live := by
  rw [live_eq, live_eq, (flags_of_join h).2.2]

theorem quiet_call (h : pool.Quiet) {c : PoolCall} (hcall : pool.call c = .ok pool') :
    pool'.Quiet ∧ pool'.numThreads = pool.numThreads := by
  cases c with
  | start =>
      cases hcall
      unfold start
      split_ifs
      · exact ⟨h, rfl⟩
      · exact ⟨h, rfl⟩
      · exact ⟨fun hrunning => (nomatch hrunning), rfl⟩
  | triggerStop =>
      cases hcall
      unfold triggerStop
      split_ifs
      · exact ⟨fun _ => live_stopWorkers pool false, rfl⟩
      · exact ⟨h, rfl⟩
  | join =>
      obtain ⟨hsame, hrunning, -⟩ := flags_of_join hcall
      exact ⟨fun hstopped => (live_of_join hcall).trans (h (hrunning ▸ hstopped)), hsame⟩
  | stopJoin =>
      rw [call] at hcall
      cases hrunning : pool.running with
      | true =>
          rw [stopJoin_of_running hrunning] at hcall
          exact ⟨fun _ => (live_of_join hcall).trans (live_stopWorkers pool false),
            (flags_of_join hcall).1⟩
      | false =>
          rw [stopJoin_of_stopped hrunning] at hcall
          cases hcall
          exact ⟨h, rfl⟩

theorem quiet_foldlM (h : pool.Quiet) {calls : List PoolCall}
    (hcalls : calls.foldlM call pool = .ok pool') :
    pool'.Quiet ∧ pool'.numThreads = pool.numThreads := by
  induction calls generalizing pool with
  | nil =>
      cases hcalls
      exact ⟨h, rfl⟩
  | cons c calls ih =>
      rw [List.foldlM_cons] at hcalls
      cases hcall : pool.call c with
      | error halt =>
          rw [hcall] at hcalls
          cases hcalls
      | ok next =>
          rw [hcall] at hcalls
          obtain ⟨hquiet, hsame⟩ := quiet_call h hcall
          obtain ⟨hquiet', hsame'⟩ := ih hquiet hcalls
          exact ⟨hquiet', hsame'.trans hsame⟩

/-- After a successful start of a quiet pool as many workers are live as it has
threads. -/
theorem live_start (h : pool.Quiet) (hstart : pool.start = (.ok (), pool')) :
    pool'.live = pool.numThreads := by
  unfold start at hstart
  split_ifs at hstart with hnone hrunning
  · cases hstart
  · cases hstart
  · cases hstart
    rw [live_startWorkers, h (Bool.not_eq_true _ ▸ hrunning), Nat.zero_add]

end PoolThreads

/-- The pool with its tasks, and the pool with its threads, between the same calls. -/
structure SameFlags {T M : Type*} (tasks : ThreadPool T M) (threads : PoolThreads) :
    Prop where
  numThreads : tasks.numThreads = threads.numThreads
  running : tasks.running = threads.running
  workers : tasks.workers.map ThreadPoolWorker.running =
    threads.workers.map WorkerThread.running

namespace SameFlags

variable {T M : Type*} {tasks : ThreadPool T M} {threads threads' : PoolThreads}

theorem start (h : SameFlags tasks threads) :
    tasks.start.1 = threads.start.1 ∧ SameFlags tasks.start.2 threads.start.2 := by
  unfold ThreadPool.start PoolThreads.start
  rw [h.numThreads, h.running]
  split_ifs
  · exact ⟨rfl, h⟩
  · exact ⟨rfl, h⟩
  · refine ⟨rfl, rfl, rfl, ?_⟩
    simp [startWorkers, h.workers, WorkerThread.started, WorkerThread.start,
      WorkerThread.startThread]

theorem triggerStop (h : SameFlags tasks threads) :
    tasks.triggerStop.1 = threads.triggerStop.1 ∧
      SameFlags tasks.triggerStop.2 threads.triggerStop.2 := by
  unfold ThreadPool.triggerStop PoolThreads.triggerStop
  rw [h.running]
  split_ifs
  · refine ⟨rfl, h.numThreads, rfl, ?_⟩
    have hlength := congrArg List.length h.workers
    rw [stopWorkers_eq, List.map_map, List.map_map]
    exact List.ext_getElem (by simpa using hlength) (by simp)
  · exact ⟨rfl, h⟩

theorem join (h : SameFlags tasks threads) (hjoin : threads.join = .ok threads') :
    SameFlags tasks threads' := by
  obtain ⟨hsame, hrunning, hworkers⟩ := flags_of_join hjoin
  exact ⟨h.numThreads.trans hsame.symm, h.running.trans hrunning.symm,
    h.workers.trans hworkers.symm⟩

end SameFlags

/-- The threads of a pool are joined once, and the right number is live, exactly when
the pool has no threads or the calls are in order. -/
theorem threadsKept_iff (numThreads : ℕ) (calls : List PoolCall) :
    ThreadsKept numThreads calls ↔ numThreads = 0 ∨ Orderly .unstarted calls := by
  have hnew : (createNew numThreads).InStage .unstarted := ⟨rfl, rfl⟩
  have hlive : ∀ (before after : List PoolCall) pool pool', calls = before ++ .start :: after →
      before.foldlM call (createNew numThreads) = .ok pool →
      pool.start = (.ok (), pool') → pool'.live = numThreads := by
    intro before after pool pool' _ hbefore hstart
    have hquiet : (createNew numThreads).Quiet := fun _ => rfl
    obtain ⟨hkept, hsame⟩ := quiet_foldlM hquiet hbefore
    exact (live_start hkept hstart).trans hsame
  rcases Nat.eq_zero_or_pos numThreads with hnone | hpos
  · have hfinish := finish_of_no_threads hnone hnew calls
    refine iff_of_true ⟨fun fault h => ?_, fun workers h => ?_, hlive⟩ (Or.inl hnone)
    · rw [hfinish] at h
      cases h
    · rw [hfinish] at h
      cases h
      exact fun _ hmem => nomatch hmem
  · rw [or_iff_right hpos.ne']
    rcases finish_of_inStage hpos hnew calls with ⟨horderly, hends⟩ | ⟨hnot, fault, hfault⟩
    · refine iff_of_true ⟨fun fault h => ?_, fun workers h => ?_, hlive⟩ horderly
      · rcases hends with hblocked | ⟨workers, hok, -⟩
        · rw [hblocked] at h
          cases h
        · rw [hok] at h
          cases h
      · rcases hends with hblocked | ⟨joined, hok, hall⟩
        · rw [hblocked] at h
          cases h
        · rw [hok] at h
          cases h
          exact hall
    · exact iff_of_false (fun h => h.faultless fault hfault) hnot

/-- A pool that is stopped and not joined, and one that is used twice. -/
theorem not_threadsKept_sample :
    (createNew 1).finish [.start, .triggerStop] =
        .error (.terminated .destroyedJoinable) ∧
      (createNew 1).finish [.start, .stopJoin, .start, .stopJoin] =
        .error (.terminated .joinedAgain) ∧
      ¬ ThreadsKept 1 [.start, .triggerStop] ∧
      ¬ ThreadsKept 1 [.start, .stopJoin, .start, .stopJoin] := by
  have hunjoined : (createNew 1).finish [.start, .triggerStop] =
      .error (.terminated .destroyedJoinable) := by decide
  have hagain : (createNew 1).finish [.start, .stopJoin, .start, .stopJoin] =
      .error (.terminated .joinedAgain) := by decide
  exact ⟨hunjoined, hagain, fun h => h.faultless _ hunjoined, fun h => h.faultless _ hagain⟩

end Tpool

end Async

end Kclpp
