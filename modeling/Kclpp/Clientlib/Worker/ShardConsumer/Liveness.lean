import Kclpp.Clientlib.Worker.ShardConsumer.Basic
import Kclpp.Containers.TakenOut
import Kclpp.Transition.Run

/-!
# The loop of a processing consumer

A consumer whose state says that it is processing should have a task of the loop
outstanding; otherwise nothing will ever move it again, and no shutdown is
answered. `Live` says so. Each function of the consumer keeps it, whatever the
state it is called in, except that a failed batch ends its loop and leaves the
state as it is: `onProcessingStop` acts on a requested shutdown only.
-/

namespace Kclpp

namespace Clientlib

namespace Worker

open Kinesis

open Transition (run Meets)

def Task.continuesLoop {α : Type*} : Task α → Bool
  | .getRecords _ | .processRecords _ | .processBatches => true
  | _ => false

/-- A batch that could not be fetched or was not processed. -/
def TaskOutcome.failsBatch {α : Type*} : TaskOutcome α → Bool
  | .gotRecords (.error _) | .processedRecords (.error _) => true
  | _ => false

namespace ShardConsumer

variable {α : Type*} {params : ShardConsumerParams} {s : ShardConsumer α}

def hasContinuation (s : ShardConsumer α) : Bool :=
  s.tasks.any Task.continuesLoop

/-- Where the process is running, a processing consumer has a task of the loop
outstanding. -/
def Live (s : ShardConsumer α) : Prop :=
  s.alive = true → s.stateType = .processing → s.hasContinuation = true

/-- The step is not the failure of a batch of the only loop of a processing
consumer. -/
def keepsLoop (s : ShardConsumer α) : Label α → Bool
  | .complete i outcome =>
      !outcome.failsBatch || s.stateType ≠ .processing ||
        (s.tasks.eraseIdx i).any Task.continuesLoop
  | _ => true

theorem live_of_stateType_ne (h : s.stateType ≠ .processing) : Live s :=
  fun _ hprocessing => absurd hprocessing h

theorem live_of_hasContinuation (h : s.hasContinuation = true) : Live s :=
  fun _ _ => h

theorem live_die : Live s.die := fun halive => by cases halive

theorem live_dcheck {next : ShardConsumer α} (h : Live next)
    (condition : Bool) : Live (s.dcheck params condition next) :=
  dcheck_cases params live_die h condition

theorem live_answer (h : Live s) (callback : ℕ)
    (outcome : Except ShardConsumerError Unit) :
    Live (s.answer callback outcome) :=
  answer_cases h (fun _ => h) callback outcome

theorem live_post (h : Live s) (task : Task α) : Live (s.post task) := by
  intro halive hprocessing
  simp only [hasContinuation, post, List.any_append, Bool.or_eq_true]
  exact Or.inl (h halive hprocessing)

theorem live_post_of_continuesLoop {task : Task α}
    (h : task.continuesLoop = true) : Live (s.post task) := by
  refine live_of_hasContinuation ?_
  simp [hasContinuation, post, h]

theorem live_startInitializing (callback : ℕ) :
    Live (s.startInitializing params callback) := by
  refine live_dcheck (live_dcheck (live_dcheck ?_ _) _) _
  exact live_post (live_of_stateType_ne (by simp)) _

theorem live_onGetCheckpoint (h : Live s) (callback : ℕ)
    (outcome : Except AWSError (Option Leases.ExtendedSequenceNumber)) :
    Live (s.onGetCheckpoint params callback outcome) := by
  cases outcome with
  | error e => exact live_answer h _ _
  | ok sequenceNumber => exact live_dcheck (live_post h _) _

theorem live_onGetShardIterator (h : Live s) (callback : ℕ)
    (outcome : Except AWSError ShardIteratorID) :
    Live (s.onGetShardIterator callback outcome) := by
  cases outcome with
  | error e => exact live_answer h _ _
  | ok iteratorID =>
      rw [onGetShardIterator, ShardIterator.isAtEnd_createNew]
      exact live_answer (live_of_stateType_ne (by simp)) _ _

theorem live_onProcessingStop (h : Live s)
    (outcome : Except ShardConsumerError ProcessBatchResult) :
    Live (s.onProcessingStop params outcome) :=
  onProcessingStop_cases params live_die h
    (fun _ _ => live_of_stateType_ne (by simp)) outcome

theorem live_processNextBatchInner (hstate : s.stateType = .processing) :
    Live (s.processNextBatchInner params) := by
  cases htoken : s.nextID with
  | none =>
      rw [processNextBatchInner_of_nextID_none params htoken]
      exact live_die
  | some token =>
      rw [processNextBatchInner_of_nextID_some params hstate htoken]
      exact live_post_of_continuesLoop rfl

/-- A turn of the loop leaves a live consumer behind in any state. -/
theorem live_processBatches : Live (s.processBatches params) := by
  unfold processBatches
  split_ifs with hstate
  · exact live_onProcessingStop (live_of_stateType_ne hstate) _
  · exact live_dcheck (live_processNextBatchInner (not_not.mp hstate)) _

theorem live_onProcessNextBatch_ok (result : ProcessBatchResult) :
    Live (s.onProcessNextBatch params (.ok result)) := by
  simp only [onProcessNextBatch]
  split_ifs with hstate
  · exact live_onProcessingStop (live_of_stateType_ne hstate) _
  · exact live_post_of_continuesLoop rfl

theorem live_onProcessNextBatch (h : Live s)
    (outcome : Except ShardConsumerError ProcessBatchResult) :
    Live (s.onProcessNextBatch params outcome) := by
  cases outcome with
  | error e => exact live_onProcessingStop h _
  | ok result => exact live_onProcessNextBatch_ok result

theorem live_onGetNextBatch_ok (result : GetRecordsResult α) :
    Live (s.onGetNextBatch params (.ok result)) := by
  simp only [onGetNextBatch]
  split_ifs
  · exact live_post_of_continuesLoop rfl
  · exact live_onProcessNextBatch_ok _

theorem live_onGetRecords (outcome : Except AWSError (GetRecordsResult α))
    (h : Live s ∨ (TaskOutcome.gotRecords outcome).failsBatch = false) :
    Live (s.onGetRecords params outcome) := by
  unfold onGetRecords
  cases s.shardIterator.bind fun iter => iter.onGetRecords outcome with
  | none => exact live_die
  | some iter =>
      cases outcome with
      | error e =>
          rcases h with hlive | hfails
          · have hread : Live { s with shardIterator := some iter } := hlive
            exact live_onProcessNextBatch hread _
          · cases hfails
      | ok result => exact live_onGetNextBatch_ok result

theorem live_onProcessRecords (records : List α) (outcome : Except String Unit)
    (h : Live s ∨
      (TaskOutcome.processedRecords (α := α) outcome).failsBatch = false) :
    Live (s.onProcessRecords params records outcome) := by
  cases outcome with
  | error what =>
      rcases h with hlive | hfails
      · exact live_onProcessNextBatch hlive _
      · cases hfails
  | ok u => exact live_onProcessNextBatch_ok _

theorem live_onInitialize (callback : ℕ) (outcome : Except String Unit) :
    Live (s.onInitialize params callback outcome) := by
  cases outcome with
  | error what =>
      exact live_answer (live_of_stateType_ne (by simp)) _ _
  | ok u => exact live_answer live_processBatches _ _

/-- Completing a task leaves a live consumer behind, if the consumer is live
without the task or the task is one of a loop and has not failed. -/
theorem live_onComplete {s' : ShardConsumer α} (task : Task α)
    (outcome : TaskOutcome α)
    (h : Live s ∨ task.continuesLoop = true ∧ outcome.failsBatch = false)
    (hs' : s.onComplete params task outcome = some s') : Live s' := by
  cases task with
  | getCheckpoint shardID callback =>
      cases outcome <;> cases hs'
      rcases h with hlive | ⟨hloop, -⟩
      · exact live_onGetCheckpoint hlive _ _
      · cases hloop
  | getShardIterator request callback =>
      cases outcome <;> cases hs'
      rcases h with hlive | ⟨hloop, -⟩
      · exact live_onGetShardIterator hlive _ _
      · cases hloop
  | initializeProcessor shardID callback =>
      cases outcome <;> cases hs'
      exact live_onInitialize _ _
  | getRecords request =>
      cases outcome <;> cases hs'
      exact live_onGetRecords _ (h.imp_right And.right)
  | processRecords records =>
      cases outcome <;> cases hs'
      exact live_onProcessRecords _ _ (h.imp_right And.right)
  | processBatches =>
      cases outcome <;> cases hs'
      exact live_processBatches

/-- Taking a task that is none of a loop off the list leaves the tasks of the
loop on it. -/
theorem any_eraseIdx_of_not_continuesLoop {tasks : List (Task α)} {i : ℕ}
    {task : Task α} (htask : tasks[i]? = some task)
    (hloop : task.continuesLoop = false)
    (h : tasks.any Task.continuesLoop = true) :
    (tasks.eraseIdx i).any Task.continuesLoop = true := by
  obtain ⟨other, hother, hcontinues⟩ := List.any_eq_true.mp h
  refine List.any_eq_true.mpr ⟨other, ?_, hcontinues⟩
  refine TakenOut.mem_eraseIdx_of_ne htask hother ?_
  rintro rfl
  rw [hloop] at hcontinues
  cases hcontinues

theorem live_step {s' : ShardConsumer α} {l : Label α} (hs : Live s)
    (hkeeps : s.keepsLoop l = true) (h : step params s l = some s') :
    Live s' := by
  unfold step at h
  split_ifs at h with halive
  cases l with
  | startInitializing callback =>
      cases h
      exact live_startInitializing callback
  | startProcessing callback =>
      cases h
      exact live_dcheck (live_dcheck (live_dcheck (live_post hs _) _) _) _
  | requestShutdown callback =>
      cases h
      exact live_dcheck (live_of_stateType_ne (by simp)) _
  | complete i outcome =>
      obtain ⟨task, htask, hcomplete⟩ := Option.bind_eq_some_iff.mp h
      refine live_onComplete task outcome ?_ hcomplete
      cases hloop : task.continuesLoop with
      | false =>
          left
          intro _ hprocessing
          exact any_eraseIdx_of_not_continuesLoop htask hloop
            (hs halive hprocessing)
      | true =>
          simp only [keepsLoop, Bool.or_eq_true, Bool.not_eq_true',
            decide_eq_true_eq] at hkeeps
          rcases hkeeps with (hsucceeds | hstate) | hother
          · exact Or.inr ⟨rfl, hsucceeds⟩
          · exact Or.inl (live_of_stateType_ne hstate)
          · exact Or.inl (live_of_hasContinuation hother)

theorem live_new : Live ({} : ShardConsumer α) :=
  live_of_stateType_ne (by simp [getInitialShardConsumerStateType])

/-- In every run from a new consumer in which no batch of the only loop of a
processing consumer fails, a consumer that is processing has a task of the loop
outstanding, in every state the run reaches. -/
theorem live_of_run (params : ShardConsumerParams) (ls : List (Label α))
    (s : ShardConsumer α)
    (hm : Meets (step params) (fun s l => s.keepsLoop l = true) {} ls)
    (hr : run (step params) {} ls = some s) : Live s :=
  Transition.run_invariant_of_meets
    (fun _ _ _ hs hkeeps h => live_step hs hkeeps h) live_new hm hr

def sampleStart : List (Label ℕ) :=
  [.startInitializing 0, .complete 0 (.gotCheckpoint (.ok none)),
    .complete 0 (.gotShardIterator (.ok ⟨"first"⟩)), .startProcessing 1,
    .complete 0 (.initialized (.ok ()))]

def sampleBatch : List (Label ℕ) :=
  sampleStart ++
    [.complete 0 (.gotRecords (.ok ⟨[1, 2], "second"⟩)),
      .complete 0 (.processedRecords (.ok ()))]

def sampleFailure : List (Label ℕ) :=
  sampleStart ++
    [.complete 0 (.gotRecords (.error ⟨"Throttled", "slow down"⟩))]

theorem live_of_run_sampleBatch :
    ∃ s, run (step {}) {} sampleBatch = some s ∧
      s.stateType = .processing ∧ Live s :=
  ⟨_, rfl, rfl, live_of_run {} sampleBatch _ (by decide +kernel) rfl⟩

/-- A batch cannot be fetched. In a release build the consumer stays in
`PROCESSING` with nothing outstanding; in a debug build the process ends. -/
theorem sampleFailure_not_live :
    (∃ s, run (step { build := .release }) {} sampleFailure = some s ∧
      ¬ Live s ∧ s.stateType = .processing ∧ s.tasks = []) ∧
    ∃ s, run (step { build := .debug }) {} sampleFailure = some s ∧
      s.alive = false ∧ s.stateType = .processing ∧ s.tasks = [] := by
  refine ⟨⟨_, rfl, ?_, rfl, rfl⟩, _, rfl, rfl, rfl, rfl⟩
  intro hlive
  cases hlive rfl rfl

end ShardConsumer

end Worker

end Clientlib

end Kclpp
