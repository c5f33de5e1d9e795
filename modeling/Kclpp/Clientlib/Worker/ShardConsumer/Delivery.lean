import Kclpp.Clientlib.Worker.ShardConsumer.Basic
import Kclpp.Kinesis.ShardChain
import Kclpp.Transition.Run

/-!
# Delivery in order

A run of the consumer starts with one `startProcessing` on an iterator and goes
on with completed tasks, in any order and with any failures, and with requests to
shut down. Where Kinesis answers as a chain of tokens, what has been handed to
the record processor is always the records of the first batches of the chain, and
the iterator stands at the token after them: `InOrder`. A batch may be skipped,
but only one without records.
-/

namespace Kclpp

namespace Clientlib

namespace Worker

open Kinesis

open Transition (run Meets)

def Task.request {α : Type*} : Task α → Option GetRecordsRequest
  | .getRecords request => some request
  | _ => none

/-- The task is one of a run that has started. A request for records asks for
`token`. -/
def Task.fits {α : Type*} (token : Option ShardIteratorID) : Task α → Prop
  | .getCheckpoint _ _ | .getShardIterator _ _ => False
  | .getRecords request => token = some request.shardIterator
  | _ => True

namespace ShardConsumer

/-- A completed request for records that did not fail has the answer that
Kinesis gives. -/
def answeredBy {α : Type*} (kinesis : ShardIteratorID → GetRecordsResult α)
    (s : ShardConsumer α) : Label α → Prop
  | .complete i (.gotRecords (.ok result)) =>
      ∀ request ∈ s.tasks[i]?.bind Task.request,
        result = kinesis request.shardIterator
  | _ => True

instance decidableAnsweredBy {α : Type*} [DecidableEq α]
    (kinesis : ShardIteratorID → GetRecordsResult α) (s : ShardConsumer α) :
    ∀ l, Decidable (answeredBy kinesis s l)
  | .complete i (.gotRecords (.ok result)) =>
      inferInstanceAs (Decidable (∀ request ∈ s.tasks[i]?.bind Task.request,
        result = kinesis request.shardIterator))
  | .complete _ (.gotRecords (.error _)) => isTrue trivial
  | .complete _ (.gotCheckpoint _) => isTrue trivial
  | .complete _ (.gotShardIterator _) => isTrue trivial
  | .complete _ (.initialized _) => isTrue trivial
  | .complete _ (.processedRecords _) => isTrue trivial
  | .complete _ .turn => isTrue trivial
  | .startInitializing _ => isTrue trivial
  | .startProcessing _ => isTrue trivial
  | .requestShutdown _ => isTrue trivial

def Label.withinRun {α : Type*} : Label α → Bool
  | .startInitializing _ | .startProcessing _ => false
  | _ => true

/-- What has been delivered are the records of the first batches from `start`,
the iterator stands at the token after them, and at most one task of the run is
outstanding. -/
def InOrder {α : Type*} (kinesis : ShardIteratorID → GetRecordsResult α)
    (start : Option ShardIteratorID) (s : ShardConsumer α) : Prop :=
  ∃ n, s.delivered.flatten = (batches kinesis n start).flatten ∧
    s.nextID = tokenAfter kinesis n start ∧
    (s.tasks = [] ∨ ∃ task, s.tasks = [task] ∧ task.fits s.nextID)

section InOrder

variable {α : Type*} {params : ShardConsumerParams}
  {kinesis : ShardIteratorID → GetRecordsResult α}
  {start : Option ShardIteratorID} {s : ShardConsumer α}

theorem inOrder_die (h : InOrder kinesis start s) : InOrder kinesis start s.die :=
  h

theorem inOrder_dcheck {next : ShardConsumer α} (h : InOrder kinesis start s)
    (hnext : InOrder kinesis start next) (condition : Bool) :
    InOrder kinesis start (s.dcheck params condition next) :=
  dcheck_cases params (inOrder_die h) hnext condition

theorem inOrder_answer (h : InOrder kinesis start s) (callback : ℕ)
    (outcome : Except ShardConsumerError Unit) :
    InOrder kinesis start (s.answer callback outcome) :=
  answer_cases h (fun _ => h) callback outcome

theorem inOrder_post (h : InOrder kinesis start s) (hidle : s.tasks = [])
    {task : Task α} (hfits : task.fits s.nextID) :
    InOrder kinesis start (s.post task) := by
  obtain ⟨n, hdelivered, hnext, -⟩ := h
  refine ⟨n, hdelivered, hnext, Or.inr ⟨task, ?_, hfits⟩⟩
  rw [post, hidle, List.nil_append]

theorem inOrder_onProcessingStop (h : InOrder kinesis start s)
    (outcome : Except ShardConsumerError ProcessBatchResult) :
    InOrder kinesis start (s.onProcessingStop params outcome) :=
  onProcessingStop_cases params (inOrder_die h) h (fun _ _ => h) outcome

theorem inOrder_processNextBatchInner (h : InOrder kinesis start s)
    (hstate : s.stateType = .processing) (hidle : s.tasks = []) :
    InOrder kinesis start (s.processNextBatchInner params) := by
  cases htoken : s.nextID with
  | none =>
      rw [processNextBatchInner_of_nextID_none params htoken]
      exact inOrder_die h
  | some token =>
      rw [processNextBatchInner_of_nextID_some params hstate htoken]
      exact inOrder_post h hidle htoken

theorem inOrder_processBatches (h : InOrder kinesis start s)
    (hidle : s.tasks = []) : InOrder kinesis start (s.processBatches params) := by
  unfold processBatches
  split_ifs with hstate
  · exact inOrder_onProcessingStop h _
  · exact inOrder_dcheck h
      (inOrder_processNextBatchInner h (not_not.mp hstate) hidle) _

theorem inOrder_onProcessNextBatch (h : InOrder kinesis start s)
    (hidle : s.tasks = [])
    (outcome : Except ShardConsumerError ProcessBatchResult) :
    InOrder kinesis start (s.onProcessNextBatch params outcome) := by
  cases outcome with
  | error e => exact inOrder_onProcessingStop h _
  | ok result =>
      simp only [onProcessNextBatch]
      split_ifs
      · exact inOrder_onProcessingStop h _
      · exact inOrder_post h hidle trivial

theorem inOrder_onProcessRecords (h : InOrder kinesis start s)
    (hidle : s.tasks = []) (records : List α) (outcome : Except String Unit) :
    InOrder kinesis start (s.onProcessRecords params records outcome) := by
  cases outcome with
  | error what => exact inOrder_onProcessNextBatch h hidle _
  | ok u => exact inOrder_onProcessNextBatch h hidle _

theorem inOrder_onInitialize (h : InOrder kinesis start s) (hidle : s.tasks = [])
    (callback : ℕ) (outcome : Except String Unit) :
    InOrder kinesis start (s.onInitialize params callback outcome) := by
  cases outcome with
  | error what =>
      have hfailed : InOrder kinesis start
          { s with stateType := .failedToInitialize } := h
      exact inOrder_answer hfailed _ _
  | ok u =>
      have hprocessing : InOrder kinesis start
          { s with stateType := .processing } := h
      exact inOrder_answer (inOrder_processBatches hprocessing hidle) _ _

theorem inOrder_onGetRecords_error (h : InOrder kinesis start s)
    (hidle : s.tasks = []) (e : AWSError) :
    InOrder kinesis start (s.onGetRecords params (.error e)) := by
  unfold onGetRecords
  cases hiter : s.shardIterator with
  | none => exact inOrder_die h
  | some iter =>
      have hread : InOrder kinesis start { s with shardIterator := some iter } := by
        rw [← hiter]
        exact h
      exact inOrder_onProcessNextBatch hread hidle _

/-- An idle consumer that has moved on by one batch and has its records added to
what was delivered is in order again. -/
theorem inOrder_next {s' : ShardConsumer α} (h : InOrder kinesis start s)
    {token : ShardIteratorID} (htoken : s.nextID = some token)
    (hdelivered : s'.delivered.flatten =
      s.delivered.flatten ++ (kinesis token).records)
    (hnext : s'.nextID = tokenAfterBatch kinesis token) (hidle : s'.tasks = []) :
    InOrder kinesis start s' := by
  obtain ⟨n, hbefore, hreached, -⟩ := h
  rw [htoken] at hreached
  refine ⟨n + 1, ?_, ?_, Or.inl hidle⟩
  · rw [batches_succ_of_some kinesis n start token hreached.symm,
      List.flatten_append, List.flatten_singleton, hdelivered, hbefore]
  · rw [tokenAfter_succ_of_some kinesis n start token hreached.symm]
    exact hnext

theorem inOrder_onGetRecords_ok (h : InOrder kinesis start s)
    (hidle : s.tasks = []) {token : ShardIteratorID}
    (htoken : s.nextID = some token) :
    InOrder kinesis start (s.onGetRecords params (.ok (kinesis token))) := by
  obtain ⟨iter, hiter, htokenIter⟩ := Option.bind_eq_some_iff.mp htoken
  simp only [onGetRecords, hiter, Option.bind_some, ShardIterator.onGetRecords,
    htokenIter, Option.map_some, onGetNextBatch]
  split_ifs with hprocess
  · refine inOrder_post (inOrder_next h htoken ?_ ?_ ?_) ?_ ?_
    · rw [List.flatten_append, List.flatten_singleton]
    · rfl
    · exact hidle
    · exact hidle
    · trivial
  · simp only [Bool.or_eq_true, Bool.not_eq_true', not_or, Bool.not_eq_false,
      List.isEmpty_iff] at hprocess
    refine inOrder_onProcessNextBatch (inOrder_next h htoken ?_ ?_ ?_) ?_ _
    · rw [hprocess.1, List.append_nil]
    · rfl
    · exact hidle
    · exact hidle

theorem eq_of_only_task {tasks : List (Task α)} {only task : Task α} {i : ℕ}
    (honly : tasks = [only]) (htask : tasks[i]? = some task) :
    i = 0 ∧ only = task := by
  rw [honly, List.getElem?_singleton] at htask
  split_ifs at htask with hi
  exact ⟨hi, Option.some.inj htask⟩

/-- Completing the only task keeps the order, if the task fits the token the
iterator stands at. -/
theorem inOrder_onComplete {s' : ShardConsumer α} {task : Task α}
    {outcome : TaskOutcome α} (hs : InOrder kinesis start s) (hidle : s.tasks = [])
    (hfits : task.fits s.nextID)
    (hanswered : ∀ request result, task = .getRecords request →
      outcome = .gotRecords (.ok result) → result = kinesis request.shardIterator)
    (h : s.onComplete params task outcome = some s') :
    InOrder kinesis start s' := by
  cases task with
  | getCheckpoint shardID callback => cases hfits
  | getShardIterator request callback => cases hfits
  | initializeProcessor shardID callback =>
      cases outcome <;> cases h
      exact inOrder_onInitialize hs hidle _ _
  | getRecords request =>
      cases outcome <;> cases h
      rename_i outcome
      cases outcome with
      | error e => exact inOrder_onGetRecords_error hs hidle e
      | ok result =>
          rw [hanswered request result rfl rfl]
          exact inOrder_onGetRecords_ok hs hidle hfits
  | processRecords records =>
      cases outcome <;> cases h
      exact inOrder_onProcessRecords hs hidle _ _
  | processBatches =>
      cases outcome <;> cases h
      exact inOrder_processBatches hs hidle

theorem inOrder_step {s' : ShardConsumer α} {l : Label α}
    (hs : InOrder kinesis start s) (hanswered : answeredBy kinesis s l)
    (hrun : l.withinRun = true) (h : step params s l = some s') :
    InOrder kinesis start s' := by
  unfold step at h
  split_ifs at h
  cases l with
  | startInitializing callback => cases hrun
  | startProcessing callback => cases hrun
  | requestShutdown callback =>
      cases h
      have hrequested : InOrder kinesis start
          { s with
            shutdownCallback := some callback
            stateType := .shutdownRequested } := hs
      exact inOrder_dcheck hs hrequested _
  | complete i outcome =>
      obtain ⟨task, htask, hcomplete⟩ := Option.bind_eq_some_iff.mp h
      obtain ⟨n, hdelivered, hnext, hnone | ⟨only, honly, hfits⟩⟩ := hs
      · rw [hnone] at htask
        cases htask
      obtain ⟨rfl, rfl⟩ := eq_of_only_task honly htask
      have hidle : s.tasks.eraseIdx 0 = [] := by
        rw [honly]
        rfl
      rw [hidle] at hcomplete
      have herased : InOrder kinesis start { s with tasks := [] } :=
        ⟨n, hdelivered, hnext, Or.inl rfl⟩
      refine inOrder_onComplete herased rfl hfits ?_ hcomplete
      rintro request result rfl rfl
      refine hanswered request ?_
      rw [htask]
      rfl

theorem shardIterator_onProcessingStop
    (outcome : Except ShardConsumerError ProcessBatchResult) :
    (s.onProcessingStop params outcome).shardIterator = s.shardIterator :=
  onProcessingStop_cases params (P := fun t => t.shardIterator = s.shardIterator)
    rfl rfl (fun _ _ => rfl) outcome

theorem shardIterator_of_getRecords_error {s' : ShardConsumer α} {i : ℕ}
    {e : AWSError}
    (h : step params s (.complete i (.gotRecords (.error e))) = some s') :
    s'.shardIterator = s.shardIterator := by
  unfold step at h
  split_ifs at h
  obtain ⟨task, -, hcomplete⟩ := Option.bind_eq_some_iff.mp h
  cases task with
  | getRecords request =>
      cases hcomplete
      unfold onGetRecords
      cases hiter : s.shardIterator with
      | none => rfl
      | some iter => exact shardIterator_onProcessingStop _
  | _ => cases hcomplete

end InOrder

/-- The consumer starts processing on an idle consumer's iterator, and Kinesis
answers as a chain of tokens. At every point of every such run, whatever fails
and whenever a shutdown is requested, the records handed to the record processor
are those of the first `n` batches of the chain, for some `n`, and so a prefix of
those of any more batches; and a failed request for records leaves the iterator
as it is. -/
theorem delivered_of_run {α : Type*} (params : ShardConsumerParams)
    (kinesis : ShardIteratorID → GetRecordsResult α) (s₀ s : ShardConsumer α)
    (iter : ShardIterator) (callback : ℕ) (ls : List (Label α))
    (hiter : s₀.shardIterator = some iter) (htasks : s₀.tasks = [])
    (hdelivered : s₀.delivered = [])
    (hm : Meets (step params)
      (fun s l => answeredBy kinesis s l ∧ l.withinRun = true)
      (s₀.startProcessing params callback) ls)
    (hr : run (step params) (s₀.startProcessing params callback) ls = some s) :
    (∃ n, s.delivered.flatten = (batches kinesis n iter.nextID).flatten ∧
      ∀ m, n ≤ m →
        s.delivered.flatten <+: (batches kinesis m iter.nextID).flatten) ∧
    ∀ i e s', step params s (.complete i (.gotRecords (.error e))) = some s' →
      s'.shardIterator = s.shardIterator := by
  have hstart : InOrder kinesis iter.nextID s₀ := by
    refine ⟨0, ?_, ?_, Or.inl htasks⟩
    · rw [hdelivered, batches_zero]
    · rw [tokenAfter_zero, nextID, hiter]
      rfl
  have hposted : InOrder kinesis iter.nextID
      (s₀.post (.initializeProcessor params.shardInfo.shardID callback)) :=
    inOrder_post hstart htasks trivial
  have hstarted : InOrder kinesis iter.nextID
      (s₀.startProcessing params callback) :=
    inOrder_dcheck hstart
      (inOrder_dcheck hstart (inOrder_dcheck hstart hposted _) _) _
  obtain ⟨n, hinitial, -⟩ := Transition.run_invariant_of_meets
    (fun _ _ _ hs hok h => inOrder_step hs hok.1 hok.2 h) hstarted hm hr
  refine ⟨⟨n, hinitial, fun m hnm => ?_⟩,
    fun i e s' h => shardIterator_of_getRecords_error h⟩
  rw [hinitial]
  exact (batches_initial kinesis n m iter.nextID hnm).flatten

def sampleKinesis (token : ShardIteratorID) : GetRecordsResult ℕ :=
  if token.value = "first" then ⟨[1, 2], "second"⟩
  else if token.value = "second" then ⟨[], "third"⟩
  else ⟨[3], "null"⟩

def sampleReady : ShardConsumer ℕ where
  stateType := .readyForProcessing
  shardIterator := some (ShardIterator.createNew ⟨"first"⟩)

/-- Two batches are fetched, the second is skipped, a shutdown is requested while
the third is in flight, and the third cannot be fetched. -/
def sampleInterrupted : List (Label ℕ) :=
  [.complete 0 (.initialized (.ok ())),
    .complete 0 (.gotRecords (.ok (sampleKinesis ⟨"first"⟩))),
    .complete 0 (.processedRecords (.ok ())), .complete 0 .turn,
    .complete 0 (.gotRecords (.ok (sampleKinesis ⟨"second"⟩))),
    .complete 0 .turn, .requestShutdown 2,
    .complete 0 (.gotRecords (.error ⟨"Throttled", "slow down"⟩))]

theorem delivered_of_run_sampleInterrupted :
    ∃ s, run (step {}) (sampleReady.startProcessing {} 1) sampleInterrupted =
        some s ∧
      s.stateType = .shutdownComplete ∧ s.delivered = [[1, 2]] ∧
      (∃ n, s.delivered.flatten =
          (batches sampleKinesis n (some ⟨"first"⟩)).flatten ∧
        ∀ m, n ≤ m → s.delivered.flatten <+:
          (batches sampleKinesis m (some ⟨"first"⟩)).flatten) ∧
      ∀ i e s', step {} s (.complete i (.gotRecords (.error e))) = some s' →
        s'.shardIterator = s.shardIterator :=
  ⟨_, rfl, rfl, rfl, delivered_of_run {} sampleKinesis sampleReady _ _ 1
    sampleInterrupted rfl rfl rfl (by decide +kernel) rfl⟩

end ShardConsumer

end Worker

end Clientlib

end Kclpp
