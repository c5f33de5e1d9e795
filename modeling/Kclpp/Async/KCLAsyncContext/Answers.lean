import Kclpp.Dynamo.KCLDynamoClient
import Kclpp.Kinesis.KCLKinesisClient
import Kclpp.Transition.Run

/-!
# Requests are answered once

A request is under way until its callback is called: in the control channel, being
submitted, in the queue of a pool that has workers, with a worker, or on its way
back. `AnsweredOnce` says that every request that was accepted is under way or
answered, and just once. Each step keeps this or loses a request for good, and
`keepsRequests` says which steps keep it.
-/

namespace Kclpp

namespace Async

open Tpool TakenOut

open Transition (run Meets Throughout meets_iff_throughout exists_run_to_final)

namespace KCLAsyncContext

variable {κ ε ρ ι : Type*}

/-- The numbers of the requests that are under way. What lies in the queue of a pool
without workers is not, even if the pool is started again later. -/
def underWay (s : KCLAsyncContext κ ε ρ ι) : List ℕ :=
  if s.terminated then []
  else
    s.controlMessages.map Prod.fst ++ s.submitting.toList.map Prod.fst ++
      s.threadPool.held Prod.fst Prod.fst

/-- Every accepted request is under way or answered, and just once. -/
def AnsweredOnce (s : KCLAsyncContext κ ε ρ ι) : Prop :=
  (s.underWay ++ s.answered.map Prod.fst).Perm (List.range s.accepted)

def knownEnd : CallEnd ε ρ → Bool
  | .threwOther => false
  | _ => true

theorem isSome_runTask (task : CallbackTask κ ε ρ ι) (callEnd : CallEnd ε ρ) :
    (Tpool.runTask task callEnd).isSome = knownEnd callEnd := by
  cases callEnd <;> rfl

/-- The pool takes a task only while it runs, has room and has workers, a worker
runs it only with `DCHECK` and ends with the process on an unknown exception, and
the last worker leaves the tasks of the queue behind. -/
def keepsRequests (s : KCLAsyncContext κ ε ρ ι) : ContextStep κ ε ρ ι → Bool
  | .checkRunning => s.threadPool.running
  | .tryEnqueue hasRoom => hasRoom && s.threadPool.alive
  | .runTask _ callEnd => s.dchecks && knownEnd callEnd
  | .exit worker =>
      s.threadPool.workQueue.isEmpty ||
        (s.threadPool.workers.eraseIdx worker).any ThreadPoolWorker.alive
  | _ => true

/-- The requests are accounted for, and without workers there are no tasks. -/
structure Kept (s : KCLAsyncContext κ ε ρ ι) : Prop where
  answeredOnce : s.AnsweredOnce
  tended : s.threadPool.Tended
  runs : s.terminated = false

theorem count_underWay (s : KCLAsyncContext κ ε ρ ι) (n : ℕ) :
    s.underWay.count n = if s.terminated then 0
      else (s.controlMessages.map Prod.fst).count n +
        (s.submitting.toList.map Prod.fst).count n +
        (s.threadPool.held Prod.fst Prod.fst).count n := by
  unfold underWay
  split
  · rfl
  · rw [List.count_append, List.count_append]

theorem account_of_held {s : KCLAsyncContext κ ε ρ ι} (hs : s.Kept)
    {threadPool : ThreadPool (NumberedTask κ ε ρ ι) (ℕ × TaskMessage κ ε ρ ι)}
    {lost : List ℕ}
    (hheld : (s.threadPool.held Prod.fst Prod.fst).Perm
      (threadPool.held Prod.fst Prod.fst ++ lost)) :
    (underWay { s with threadPool := threadPool } ++ s.answered.map Prod.fst ++
      lost).Perm (List.range s.accepted) := by
  refine List.Perm.trans (List.perm_iff_count.mpr fun n => ?_) hs.answeredOnce
  have hcount := hheld.count_eq n
  simp only [List.count_append, count_underWay, hs.runs, Bool.false_eq_true, if_false]
    at hcount ⊢
  omega

/-- A worker that ends with the process takes along all that is under way, its own
task at least. -/
theorem underWay_ne_nil {s : KCLAsyncContext κ ε ρ ι} (hs : s.Kept) {worker : ℕ}
    {running : Bool} {task : NumberedTask κ ε ρ ι}
    {dataChannel : List (ℕ × TaskMessage κ ε ρ ι)}
    (hworker : s.threadPool.workers[worker]? =
      some ⟨running, .busy task, dataChannel⟩) : s.underWay ≠ [] := by
  have hheld : task.1 ∈ s.threadPool.held Prod.fst Prod.fst :=
    List.mem_append_right _ (List.mem_flatMap.mpr
      ⟨_, List.mem_of_getElem? hworker, List.mem_cons_self⟩)
  rw [underWay, hs.runs, if_neg Bool.false_ne_true]
  exact List.ne_nil_of_mem (List.mem_append_right _ hheld)

variable [Inhabited ε]

/-- After a step the accepted requests are under way, answered or lost, each just
once, and none is lost exactly if the step keeps the requests. -/
theorem account_step {s s' : KCLAsyncContext κ ε ρ ι} {label : ContextStep κ ε ρ ι}
    (hs : s.Kept) (h : s.Stepped label s') :
    ∃ lost, (s'.underWay ++ s'.answered.map Prod.fst ++ lost).Perm
        (List.range s'.accepted) ∧
      (lost = [] ↔ s.keepsRequests label = true) := by
  cases h with
  | accepts request =>
      refine ⟨[], ?_, by simp [keepsRequests]⟩
      rw [List.append_nil, List.range_succ]
      refine List.perm_iff_count.mpr fun n => ?_
      have hcount := hs.answeredOnce.count_eq n
      simp only [List.count_append, count_underWay, hs.runs, Bool.false_eq_true,
        if_false, List.map_append, List.map_cons, List.map_nil] at hcount ⊢
      omega
  | submits hsubmitting hcontrol hrunning =>
      refine ⟨[], ?_, by simp [keepsRequests, hrunning]⟩
      refine List.Perm.trans (List.perm_iff_count.mpr fun n => ?_) hs.answeredOnce
      simp only [List.count_append, count_underWay, hs.runs, hsubmitting, hcontrol,
        Bool.false_eq_true, if_false, Option.toList, List.map_cons, List.map_nil,
        List.count_cons, List.count_nil]
      omega
  | @refuses number request rest hsubmitting hcontrol hrunning =>
      refine ⟨[number], ?_, by simp [keepsRequests, hrunning]⟩
      refine List.Perm.trans (List.perm_iff_count.mpr fun n => ?_) hs.answeredOnce
      simp only [List.count_append, count_underWay, hs.runs, hsubmitting, hcontrol,
        Bool.false_eq_true, if_false, Option.toList, List.map_cons, List.map_nil,
        List.count_cons, List.count_nil]
      omega
  | @enqueues task hasRoom hsubmitting =>
      refine ⟨if hasRoom && s.threadPool.alive then [] else [task.1], ?_, ?_⟩
      · refine List.Perm.trans (List.perm_iff_count.mpr fun n => ?_) hs.answeredOnce
        cases hasRoom with
        | false =>
            simp only [List.count_append, count_underWay, hs.runs, hsubmitting,
              ThreadPool.tryEnqueue, Bool.false_and, Bool.false_eq_true, if_false,
              Option.toList, List.map_cons, List.map_nil, List.count_nil]
            omega
        | true =>
            have hheld := (s.threadPool.held_tryEnqueue Prod.fst Prod.fst
              task).count_eq n
            rw [List.count_append] at hheld
            cases halive : s.threadPool.alive <;>
              simp only [List.count_append, count_underWay, hs.runs, hsubmitting,
                hheld, halive, Bool.true_and, Bool.false_eq_true, if_false, if_true,
                Option.toList, List.map_cons, List.map_nil, List.count_nil] <;>
              omega
      · cases hasRoom <;> cases halive : s.threadPool.alive <;>
          simp [keepsRequests, halive]
  | starts =>
      refine ⟨[], account_of_held hs ?_, by simp [keepsRequests]⟩
      rw [List.append_nil, ThreadPool.held_start _ _ hs.tended]
  | stops =>
      refine ⟨[], account_of_held hs ?_, by simp [keepsRequests]⟩
      rw [List.append_nil, (ThreadPool.held_triggerStop _ _ _).1]
  | dequeues hpool =>
      refine ⟨[], account_of_held hs ?_, by simp [keepsRequests]⟩
      rw [List.append_nil]
      exact (ThreadPool.held_dequeue _ _ hpool).1.symm
  | @drops _ task _ _ _ _ hworker hdchecks hpool =>
      refine ⟨[task.1], account_of_held hs ?_, by simp [keepsRequests, hdchecks]⟩
      have hheld := (ThreadPool.held_finishTask Prod.fst Prod.fst hworker hpool).1
      rw [List.map_nil, List.append_nil] at hheld
      exact hheld.symm
  | @sends _ task callEnd _ _ message _ hworker hdchecks hmessage hpool =>
      have hknown : knownEnd callEnd = true := by
        rw [← isSome_runTask task.2.val, hmessage]
        rfl
      refine ⟨[], account_of_held hs ?_, by simp [keepsRequests, hdchecks, hknown]⟩
      have hheld := (ThreadPool.held_finishTask Prod.fst Prod.fst hworker hpool).1
      rw [List.append_nil]
      exact ((List.perm_append_right_iff [task.1]).mp hheld).symm
  | @terminates _ task callEnd _ _ hworker hdchecks hend =>
      have hunknown : knownEnd callEnd = false := by
        rw [← isSome_runTask task.2.val, hend]
        rfl
      refine ⟨s.underWay, List.perm_append_comm.trans hs.answeredOnce, ?_⟩
      exact iff_of_false (underWay_ne_nil hs hworker) (by simp [keepsRequests, hunknown])
  | exits hpool =>
      obtain ⟨hheld, halive, -⟩ := ThreadPool.held_exit Prod.fst Prod.fst hpool
      refine ⟨_, account_of_held hs hheld, ?_⟩
      rw [halive, keepsRequests]
      cases (s.threadPool.workers.eraseIdx _).any ThreadPoolWorker.alive <;> simp
  | receives hsubmitting hpool =>
      refine ⟨[], ?_, by simp [keepsRequests]⟩
      refine List.Perm.trans (List.perm_iff_count.mpr fun n => ?_) hs.answeredOnce
      have hheld := (ThreadPool.held_receive Prod.fst Prod.fst hpool).1.count_eq n
      rw [List.count_append] at hheld
      simp only [List.count_append, count_underWay, hs.runs, hheld, Bool.false_eq_true,
        if_false, List.map_append, List.map_cons, List.map_nil, List.count_nil]
      omega

theorem tended_step {s s' : KCLAsyncContext κ ε ρ ι} {label : ContextStep κ ε ρ ι}
    (hs : s.Kept) (hkeeps : s.keepsRequests label = true) (h : s.Stepped label s') :
    s'.threadPool.Tended ∧ s'.terminated = false := by
  have hruns := hs.runs
  cases h with
  | accepts | submits | refuses => exact ⟨hs.tended, hruns⟩
  | enqueues hasRoom hsubmitting =>
      simp only [keepsRequests, Bool.and_eq_true] at hkeeps
      refine ⟨fun halive => ?_, hruns⟩
      rw [hkeeps.1] at halive
      exact absurd hkeeps.2 (Bool.eq_false_iff.mp halive)
  | starts => exact ⟨ThreadPool.tended_start hs.tended, hruns⟩
  | stops =>
      obtain ⟨-, halive, hqueue⟩ :=
        s.threadPool.held_triggerStop Prod.fst Prod.fst
      refine ⟨fun hnone => ?_, hruns⟩
      rw [hqueue]
      exact hs.tended (halive ▸ hnone)
  | dequeues hpool =>
      refine ⟨fun hnone => ?_, hruns⟩
      rw [(ThreadPool.held_dequeue Prod.fst Prod.fst hpool).2] at hnone
      cases hnone
  | drops hworker _ hpool | sends hworker _ _ hpool =>
      refine ⟨fun hnone => ?_, hruns⟩
      rw [(ThreadPool.held_finishTask Prod.fst Prod.fst hworker hpool).2] at hnone
      cases hnone
  | @terminates _ task _ _ _ hworker hdchecks hend =>
      simp only [keepsRequests, ← isSome_runTask task.2.val, hend, Option.isSome_none,
        Bool.and_false, Bool.false_eq_true] at hkeeps
  | exits hpool =>
      obtain ⟨-, halive, hqueue⟩ := ThreadPool.held_exit Prod.fst Prod.fst hpool
      refine ⟨fun hnone => ?_, hruns⟩
      rw [halive] at hnone
      rw [keepsRequests, hnone, Bool.or_false, List.isEmpty_iff] at hkeeps
      exact hqueue.trans hkeeps
  | receives hsubmitting hpool =>
      obtain ⟨-, halive, hqueue⟩ :=
        ThreadPool.held_receive Prod.fst Prod.fst hpool
      refine ⟨fun hnone => ?_, hruns⟩
      rw [hqueue]
      exact hs.tended (halive ▸ hnone)

theorem kept_step {s s' : KCLAsyncContext κ ε ρ ι} {label : ContextStep κ ε ρ ι}
    (hs : s.Kept) (hkeeps : s.keepsRequests label = true)
    (h : s.step label = some s') : s'.Kept := by
  have hstepped := (stepped_of_step h).2
  obtain ⟨lost, haccount, hlost⟩ := account_step hs hstepped
  obtain ⟨htended, hruns⟩ := tended_step hs hkeeps hstepped
  rw [hlost.mpr hkeeps, List.append_nil] at haccount
  exact ⟨haccount, htended, hruns⟩

theorem keepsRequests_of_answeredOnce {s s' : KCLAsyncContext κ ε ρ ι}
    {label : ContextStep κ ε ρ ι} (hs : s.Kept) (h : s.step label = some s')
    (hs' : s'.AnsweredOnce) : s.keepsRequests label = true := by
  obtain ⟨lost, haccount, hlost⟩ := account_step hs (stepped_of_step h).2
  have hlength := haccount.length_eq
  rw [List.length_append, hs'.length_eq] at hlength
  exact hlost.mp (List.length_eq_zero_iff.mp (by omega))

/-- The step is part of the way of a request that has been accepted. -/
def advances : ContextStep κ ε ρ ι → Bool
  | .runInEventThread _ | .start | .triggerStop | .exit _ => false
  | _ => true

def workerSteps (worker : ThreadPoolWorker (NumberedTask κ ε ρ ι)
    (ℕ × TaskMessage κ ε ρ ι)) : ℕ :=
  (match worker.phase with
    | .busy _ => 2
    | _ => 0) + worker.dataChannel.length

def remaining (s : KCLAsyncContext κ ε ρ ι) : ℕ :=
  5 * s.controlMessages.length + 4 * s.submitting.toList.length +
    3 * s.threadPool.workQueue.length +
    (s.threadPool.workers.map workerSteps).sum

/-- The requests are accounted for, and the pool runs and has workers. -/
structure Serves (s : KCLAsyncContext κ ε ρ ι) : Prop extends s.Kept where
  running : s.threadPool.running = true
  alive : s.threadPool.alive = true
  dchecks : s.dchecks = true

theorem serves_step {s s' : KCLAsyncContext κ ε ρ ι} {label : ContextStep κ ε ρ ι}
    (hs : s.Serves) (hadvances : advances label = true)
    (hkeeps : s.keepsRequests label = true) (h : s.step label = some s') :
    s'.Serves ∧ s'.remaining < s.remaining := by
  have hkept := kept_step hs.toKept hkeeps h
  have hrunning := hs.running
  have hdchecks := hs.dchecks
  cases (stepped_of_step h).2 with
  | accepts | starts | stops | exits => cases hadvances
  | submits hsubmitting hcontrol =>
      refine ⟨⟨hkept, hrunning, hs.alive, hdchecks⟩, ?_⟩
      simp only [remaining, hsubmitting, hcontrol, Option.toList, List.length_cons,
        List.length_nil]
      omega
  | refuses hsubmitting hcontrol hstopped =>
      rw [hrunning] at hstopped
      cases hstopped
  | enqueues hasRoom hsubmitting =>
      simp only [keepsRequests, Bool.and_eq_true] at hkeeps
      obtain ⟨rfl, halive⟩ := hkeeps
      refine ⟨⟨hkept, hrunning, halive, hdchecks⟩, ?_⟩
      simp only [remaining, hsubmitting, ThreadPool.tryEnqueue, if_true, Option.toList,
        List.length_cons, List.length_nil, List.length_append]
      omega
  | dequeues hpool =>
      have halive := (ThreadPool.held_dequeue Prod.fst Prod.fst hpool).2
      unfold ThreadPool.dequeue at hpool
      split at hpool
      · rename_i running dataChannel task rest hworker hqueue
        cases hpool
        refine ⟨⟨hkept, hrunning, halive, hdchecks⟩, ?_⟩
        have hsum := sum_map_set_of_getElem? hworker ⟨running, .busy task, dataChannel⟩
          workerSteps
        simp only [workerSteps] at hsum
        simp only [remaining, hqueue, List.length_cons]
        omega
      · cases hpool
  | drops hworker hnone =>
      rw [hdchecks] at hnone
      cases hnone
  | @sends _ task _ running dataChannel message _ hworker _ _ hpool =>
      have halive := (ThreadPool.held_finishTask Prod.fst Prod.fst hworker hpool).2
      unfold ThreadPool.finishTask at hpool
      rw [hworker] at hpool
      cases hpool
      refine ⟨⟨hkept, hrunning, halive, hdchecks⟩, ?_⟩
      have hsum := sum_map_set_of_getElem? hworker
        ⟨running, .idle, dataChannel ++ [(task.1, message)]⟩ workerSteps
      simp only [workerSteps, List.length_append, List.length_cons,
        List.length_nil] at hsum
      simp only [remaining]
      omega
  | @terminates _ task _ _ _ hworker _ hend =>
      simp only [keepsRequests, ← isSome_runTask task.2.val, hend, Option.isSome_none,
        Bool.and_false, Bool.false_eq_true] at hkeeps
  | receives hsubmitting hpool =>
      have halive := (ThreadPool.held_receive Prod.fst Prod.fst hpool).2.1
      unfold ThreadPool.receive at hpool
      split at hpool
      · rename_i running phase message rest hworker
        cases hpool
        refine ⟨⟨hkept, hrunning, halive.trans hs.alive, hdchecks⟩, ?_⟩
        have hsum := sum_map_set_of_getElem? hworker ⟨running, phase, rest⟩ workerSteps
        simp only [workerSteps, List.length_cons] at hsum
        simp only [remaining]
        omega
      · cases hpool

/-- While a pool that runs and has workers serves, some step leads on as long as a
request is under way. -/
theorem exists_advance {s : KCLAsyncContext κ ε ρ ι} (hs : s.Serves)
    (hunderWay : s.underWay ≠ []) :
    ∃ label s', (advances label = true ∧ s.keepsRequests label = true) ∧
      s.step label = some s' := by
  have hstep : ∀ label, s.step label = s.stepRunning label := fun label => by
    rw [step, hs.runs, if_neg Bool.false_ne_true]
  cases hsubmitting : s.submitting with
  | some task =>
      refine ⟨.tryEnqueue true, { s with
        submitting := none
        threadPool := (s.threadPool.tryEnqueue true task).2 },
        ⟨rfl, by simp [keepsRequests, hs.alive]⟩, ?_⟩
      rw [hstep, stepRunning, hsubmitting]
      rfl
  | none =>
      by_cases hsent : ∃ (w : ℕ) (running : Bool) (phase : _) (message : _) (rest : _),
          s.threadPool.workers[w]? = some ⟨running, phase, message :: rest⟩
      · obtain ⟨w, running, phase, message, rest, hworker⟩ := hsent
        refine ⟨.receive w, { s with
          threadPool := { s.threadPool with
            workers := s.threadPool.workers.set w ⟨running, phase, rest⟩ }
          answered := s.answered ++ [(message.1, message.2.work)] },
          ⟨rfl, rfl⟩, ?_⟩
        rw [hstep, stepRunning, hsubmitting]
        simp only [ThreadPool.receive, hworker, Option.map_some]
      by_cases hbusy : ∃ (w : ℕ) (running : Bool) (task : _) (channel : _),
          s.threadPool.workers[w]? = some ⟨running, .busy task, channel⟩
      · obtain ⟨w, running, ⟨number, task⟩, channel, hworker⟩ := hbusy
        refine ⟨.runTask w (.threw ""), { s with
          threadPool := { s.threadPool with
            workers := s.threadPool.workers.set w ⟨running, .idle, channel ++
              [(number, ⟨task.val, .error (.taskThrewException "")⟩)]⟩ } },
          ⟨rfl, by simp [keepsRequests, hs.dchecks, knownEnd]⟩, ?_⟩
        rw [hstep, stepRunning]
        simp only [runTask, hworker, task.property, hs.dchecks, Bool.and_true, if_true,
          Tpool.runTask, ThreadPool.finishTask, Option.map_some]
      have hnothing : ∀ worker ∈ s.threadPool.workers,
          worker.held Prod.fst Prod.fst = [] := by
        rintro ⟨running, phase, channel⟩ hworker
        obtain ⟨w, hw⟩ := List.mem_iff_getElem?.mp hworker
        cases channel with
        | cons message rest => exact absurd ⟨w, running, phase, message, rest, hw⟩ hsent
        | nil =>
            cases phase with
            | busy task => exact absurd ⟨w, running, task, [], hw⟩ hbusy
            | idle => rfl
            | exited => rfl
      cases hqueue : s.threadPool.workQueue with
      | cons task rest =>
          obtain ⟨⟨running, phase, channel⟩, hworker, halive⟩ :=
            List.any_eq_true.mp hs.alive
          obtain ⟨w, hw⟩ := List.mem_iff_getElem?.mp hworker
          cases phase with
          | exited => cases halive
          | busy task => exact absurd ⟨w, running, task, channel, hw⟩ hbusy
          | idle =>
              refine ⟨.dequeue w, { s with
                threadPool := { s.threadPool with
                  workQueue := rest
                  workers := s.threadPool.workers.set w
                    ⟨running, .busy task, channel⟩ } }, ⟨rfl, rfl⟩, ?_⟩
              rw [hstep, stepRunning]
              simp only [ThreadPool.dequeue, hw, hqueue, Option.map_some]
      | nil =>
          cases hcontrol : s.controlMessages with
          | cons message rest =>
              refine ⟨.checkRunning, { s with
                controlMessages := rest
                submitting := some (message.1, message.2.task s.eventThread) },
                ⟨rfl, hs.running⟩, ?_⟩
              rw [hstep, stepRunning]
              simp only [hsubmitting, hcontrol, hs.running, if_true]
          | nil =>
              refine absurd ?_ hunderWay
              rw [underWay, hs.runs, if_neg Bool.false_ne_true, hcontrol, hsubmitting,
                ThreadPool.held, hqueue, List.flatMap_eq_nil_iff.mpr hnothing]
              simp

/-- While the pool runs and has workers, all that is under way can be answered. -/
theorem exists_run_answered {s : KCLAsyncContext κ ε ρ ι} (hs : s.Serves) :
    ∃ labels s', Meets step (fun s label => advances label = true ∧
        s.keepsRequests label = true) s labels ∧
      run step s labels = some s' ∧ s'.Kept ∧ s'.underWay = [] := by
  have hstep : ∀ (s : KCLAsyncContext κ ε ρ ι) (label : ContextStep κ ε ρ ι)
      (s' : KCLAsyncContext κ ε ρ ι), s.Serves →
      advances label = true ∧ s.keepsRequests label = true →
      s.step label = some s' → s'.Serves ∧ s'.remaining < s.remaining :=
    fun _ _ _ hs hlabel h => serves_step hs hlabel.1 hlabel.2 h
  obtain ⟨labels, s', hm, hrun, hunderWay⟩ :=
    exists_run_to_final hstep (fun _ hs hunderWay => exists_advance hs hunderWay) hs
  have hserves : s'.Serves := Transition.run_invariant_of_meets
    (fun s label s' hs hlabel h => (hstep s label s' hs hlabel h).1) hs hm hrun
  exact ⟨labels, s', hm, hrun, hserves.toKept, hunderWay⟩

omit [Inhabited ε] in
theorem kept_createNew (dchecks : Bool) (eventThread : ℕ+) (nThreads : ℕ) :
    (createNew dchecks eventThread nThreads : KCLAsyncContext κ ε ρ ι).Kept :=
  ⟨List.Perm.nil, fun _ => rfl, rfl⟩

/-- In a run of a new context, every request that is accepted is in every state
under way or answered, and just once, exactly if all steps keep the requests. Then
they can all be answered wherever the pool runs and has workers. -/
theorem answeredOnce_of_run_iff (dchecks : Bool) (eventThread : ℕ+) (nThreads : ℕ)
    (labels : List (ContextStep κ ε ρ ι)) (s : KCLAsyncContext κ ε ρ ι)
    (h : run step (createNew dchecks eventThread nThreads) labels = some s) :
    (Meets step (fun s label => s.keepsRequests label = true)
        (createNew dchecks eventThread nThreads) labels ↔
      Throughout step AnsweredOnce (createNew dchecks eventThread nThreads)
        labels) ∧
      (Meets step (fun s label => s.keepsRequests label = true)
          (createNew dchecks eventThread nThreads) labels →
        s.dchecks = true → s.threadPool.running = true → s.threadPool.alive = true →
        ∃ labels' s', Meets step (fun _ label => advances label = true) s labels' ∧
          run step s labels' = some s' ∧
          (s'.answered.map Prod.fst).Perm (List.range s'.accepted)) := by
  have hkept := kept_createNew dchecks eventThread nThreads (κ := κ) (ε := ε) (ρ := ρ)
    (ι := ι)
  refine ⟨meets_iff_throughout (fun s hs => hs.answeredOnce)
    (fun s label s' hs hkeeps => kept_step hs hkeeps)
    (fun s label s' hs => keepsRequests_of_answeredOnce hs) hkept h, ?_⟩
  intro hmeets hdchecks hrunning halive
  have hs : s.Kept := Transition.run_invariant_of_meets
    (fun s label s' hs hkeeps h => kept_step hs hkeeps h) hkept hmeets h
  obtain ⟨labels', s', hm, hrun, hs', hunderWay⟩ :=
    exists_run_answered ⟨hs, hrunning, halive, hdchecks⟩
  refine ⟨labels', s', Transition.meets_mono (fun _ _ hlabel => hlabel.1) hm, hrun, ?_⟩
  have haccount := hs'.answeredOnce
  rw [AnsweredOnce, hunderWay, List.nil_append] at haccount
  exact haccount

end KCLAsyncContext

section Example

open Dynamo Kinesis KCLAsyncContext

def sampleGetItem : Request (DynamoCall String) AWSError String
    (Except AWSError String) :=
  KCLDynamoClient.getItemAsync "lease-1" id

/-- A pool of one worker is started. The first request is answered, and the call of
the second one throws. -/
def answeredRequests : List (ContextStep (DynamoCall String) AWSError String
    (Except AWSError String)) :=
  [.start, .runInEventThread sampleGetItem, .checkRunning, .tryEnqueue true,
    .dequeue 0, .runInEventThread sampleGetItem, .runTask 0 (.returned (.ok "row")),
    .receive 0, .checkRunning, .tryEnqueue true, .dequeue 0,
    .runTask 0 (.threw "timeout"), .receive 0]

theorem answeredOnce_answeredRequests :
    Throughout step AnsweredOnce (createNew true 1 1) answeredRequests :=
  (answeredOnce_of_run_iff true 1 1 answeredRequests _ rfl).1.mp (by decide +kernel)

/-- A request is accepted while the pool has not been started. The event thread
drops it, and its callback is not called. -/
theorem sampleGetItem_dropped :
    ∃ s, run step (createNew true 1 4)
        [.runInEventThread sampleGetItem, .checkRunning] = some s ∧
      s.accepted = 1 ∧ s.underWay = [] ∧ s.answered = [] ∧ ¬ s.AnsweredOnce := by
  refine ⟨_, rfl, rfl, rfl, rfl, fun h => ?_⟩
  have hlength := h.length_eq
  cases hlength

end Example

end Async

end Kclpp
