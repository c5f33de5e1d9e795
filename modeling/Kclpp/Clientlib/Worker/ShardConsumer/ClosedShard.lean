import Kclpp.Clientlib.Worker.ShardConsumer.Delivery
import Kclpp.Clientlib.Worker.ShardConsumer.Liveness

/-!
# Processing a closed shard

A consumer starts on a shard whose chain of batches ends, every call succeeds,
and a shutdown may be requested while it is processing. The loop asks for the
next batch as long as the state says `PROCESSING`, and nothing changes that state
when the iterator comes to its end: the turn after the last batch fails the check
that the iterator is not at its end. Only a shutdown stops the loop before.

`promised` is what has been delivered and what the request in flight will add;
`frontier` is the token of the first batch not yet asked for. A step of the loop
either leaves both alone or asks for the batch at the frontier: `Goes`.
-/

namespace Kclpp

namespace Clientlib

namespace Worker

open Kinesis

open Transition (run Meets)

def TaskOutcome.succeeds {α : Type*} : TaskOutcome α → Bool
  | .gotCheckpoint outcome => outcome.isOk
  | .gotShardIterator outcome => outcome.isOk
  | .initialized outcome => outcome.isOk
  | .gotRecords outcome => outcome.isOk
  | .processedRecords outcome => outcome.isOk
  | .turn => true

namespace ShardConsumer

/-- The consumer has been initialized on `iter`, nothing is outstanding, and no
shutdown has been requested. -/
structure Ready {α : Type*} (s : ShardConsumer α) (iter : ShardIterator) :
    Prop where
  alive : s.alive = true
  stateType : s.stateType = .readyForProcessing
  shardIterator : s.shardIterator = some iter
  shutdownCallback : s.shutdownCallback = none
  tasks : s.tasks = []
  delivered : s.delivered = []

/-- The step completes a task with success, or requests a shutdown while the
consumer is processing. -/
def succeeds {α : Type*} (s : ShardConsumer α) : Label α → Bool
  | .requestShutdown _ => s.stateType = .processing
  | .complete _ outcome => outcome.succeeds
  | _ => false

/-- The step succeeds, with the answer that Kinesis gives. -/
def GoesWell {α : Type*} (kinesis : ShardIteratorID → GetRecordsResult α)
    (s : ShardConsumer α) (l : Label α) : Prop :=
  answeredBy kinesis s l ∧ s.succeeds l = true

instance decidableGoesWell {α : Type*} [DecidableEq α]
    (kinesis : ShardIteratorID → GetRecordsResult α) (s : ShardConsumer α)
    (l : Label α) : Decidable (GoesWell kinesis s l) :=
  inferInstanceAs (Decidable (_ ∧ _))

section ClosedShard

variable {α : Type*} (kinesis : ShardIteratorID → GetRecordsResult α)

/-- The request for records that is in flight. -/
def inFlight (s : ShardConsumer α) : Option GetRecordsRequest :=
  s.tasks.head?.bind Task.request

/-- What has been delivered, and what the request in flight will add. -/
def promised (s : ShardConsumer α) : List α :=
  s.delivered.flatten ++
    match s.inFlight with
    | some request => (kinesis request.shardIterator).records
    | none => []

/-- The token of the first batch that has not been asked for. -/
def frontier (s : ShardConsumer α) : Option ShardIteratorID :=
  match s.inFlight with
  | some request => tokenAfterBatch kinesis request.shardIterator
  | none => s.nextID

def isShutDown (s : ShardConsumer α) : Bool :=
  s.stateType = .shutdownRequested || s.stateType = .shutdownComplete

/-- How many completions are left before the loop asks for the next batch or
ends. -/
def turnsLeft (s : ShardConsumer α) : ℕ :=
  match s.tasks with
  | [] => 0
  | .getRecords _ :: _ => 3
  | .processRecords _ :: _ => 2
  | _ :: _ => 1

inductive Phase (s : ShardConsumer α) : Prop
  | starting (shardID : ShardID) (callback : ℕ) (halive : s.alive = true)
      (hstate : s.stateType = .readyForProcessing)
      (hcallback : s.shutdownCallback = none)
      (htasks : s.tasks = [.initializeProcessor shardID callback])
  | looping (task : Task α) (halive : s.alive = true)
      (hstate : s.stateType = .processing ∧ s.shutdownCallback = none ∨
        s.stateType = .shutdownRequested)
      (htasks : s.tasks = [task]) (hloop : task.continuesLoop = true)
      (hfits : task.fits s.nextID)
  | stopped (halive : s.alive = true) (hstate : s.stateType = .shutdownComplete)
      (htasks : s.tasks = [])
  | dead (halive : s.alive = false) (hstate : s.stateType = .processing)
      (htasks : s.tasks = [])

/-- What a step does to the account of batches: nothing, with at most `turns`
completions left to go, or it asks for the batch at the frontier. -/
structure Goes (turns : ℕ) (s s' : ShardConsumer α) : Prop where
  phase : Phase s'
  shutDown : s'.isShutDown = s.isShutDown
  account :
    (promised kinesis s' = promised kinesis s ∧
      frontier kinesis s' = frontier kinesis s ∧ s'.turnsLeft ≤ turns) ∨
    (s'.turnsLeft ≤ 3 ∧ s'.stateType = .processing ∧
      ∃ token, frontier kinesis s = some token ∧
        promised kinesis s' = promised kinesis s ++ (kinesis token).records ∧
        frontier kinesis s' = tokenAfterBatch kinesis token)

end ClosedShard

section Idle

variable {α : Type*} {params : ShardConsumerParams}
  {kinesis : ShardIteratorID → GetRecordsResult α} {s : ShardConsumer α}

theorem inFlight_of_tasks_eq_nil (h : s.tasks = []) : s.inFlight = none := by
  rw [inFlight, h]
  rfl

theorem promised_of_inFlight_eq_none (h : s.inFlight = none) :
    promised kinesis s = s.delivered.flatten := by
  rw [promised, h, List.append_nil]

theorem frontier_of_inFlight_eq_none (h : s.inFlight = none) :
    frontier kinesis s = s.nextID := by
  rw [frontier, h]

theorem Goes.of_account {turns : ℕ} {u s' : ShardConsumer α}
    (h : Goes kinesis turns u s') (hpromised : promised kinesis u = promised kinesis s)
    (hfrontier : frontier kinesis u = frontier kinesis s)
    (hshutDown : u.isShutDown = s.isShutDown) : Goes kinesis turns s s' := by
  refine ⟨h.phase, h.shutDown.trans hshutDown, ?_⟩
  rw [← hpromised, ← hfrontier]
  exact h.account

/-- Taking a task off the list that is no request for records leaves the account
as it is. -/
theorem Goes.of_erased {turns : ℕ} {s' : ShardConsumer α} {task : Task α}
    (h : Goes kinesis turns { s with tasks := [] } s') (htasks : s.tasks = [task])
    (htask : task.request = none) : Goes kinesis turns s s' := by
  have hnone : s.inFlight = none := by
    rw [inFlight, htasks]
    exact htask
  refine h.of_account ?_ ?_ rfl
  · rw [promised_of_inFlight_eq_none hnone]
    exact promised_of_inFlight_eq_none rfl
  · rw [frontier_of_inFlight_eq_none hnone]
    exact frontier_of_inFlight_eq_none rfl

theorem goes_onProcessingStop (halive : s.alive = true)
    (hstate : s.stateType = .shutdownRequested) (hidle : s.tasks = [])
    (turns : ℕ) (result : ProcessBatchResult) :
    Goes kinesis turns s (s.onProcessingStop params (.ok result)) := by
  obtain ⟨answers, hstopped⟩ :=
    onProcessingStop_of_shutdownRequested params halive hstate result
  rw [hstopped]
  refine ⟨Phase.stopped halive rfl hidle, ?_, Or.inl ⟨rfl, rfl, ?_⟩⟩
  · simp [isShutDown, hstate]
  · simp [turnsLeft, hidle]

theorem goes_post (halive : s.alive = true) (hstate : s.stateType = .processing)
    (hcallback : s.shutdownCallback = none) (hidle : s.tasks = []) (turns : ℕ)
    (hturns : 1 ≤ turns) : Goes kinesis turns s (s.post .processBatches) := by
  have htasks : (s.post .processBatches).tasks = [.processBatches] := by
    rw [post, hidle, List.nil_append]
  have hnone : (s.post .processBatches).inFlight = none := by
    rw [inFlight, htasks]
    rfl
  refine ⟨Phase.looping .processBatches halive (Or.inl ⟨hstate, hcallback⟩) htasks
    rfl trivial, rfl, Or.inl ⟨?_, ?_, ?_⟩⟩
  · rw [promised_of_inFlight_eq_none hnone,
      promised_of_inFlight_eq_none (inFlight_of_tasks_eq_nil hidle)]
    rfl
  · rw [frontier_of_inFlight_eq_none hnone,
      frontier_of_inFlight_eq_none (inFlight_of_tasks_eq_nil hidle)]
    rfl
  · rw [turnsLeft, htasks]
    exact hturns

/-- A turn of a processing loop asks for the batch at the frontier. At the end of
the shard a check fails. -/
theorem goes_processNextBatchInner (halive : s.alive = true)
    (hstate : s.stateType = .processing) (hcallback : s.shutdownCallback = none)
    (hidle : s.tasks = []) (turns : ℕ) :
    Goes kinesis turns s (s.processNextBatchInner params) := by
  have hnone := inFlight_of_tasks_eq_nil hidle
  have hdead : Goes kinesis turns s s.die := by
    refine ⟨Phase.dead rfl hstate hidle, rfl, Or.inl ⟨rfl, rfl, ?_⟩⟩
    rw [turnsLeft, die, hidle]
    exact Nat.zero_le _
  cases htoken : s.nextID with
  | none =>
      rw [processNextBatchInner_of_nextID_none params htoken]
      exact hdead
  | some token =>
      rw [processNextBatchInner_of_nextID_some params hstate htoken]
      generalize hrequest : getRecordsAsync token
        params.streamConfig.maxRecordsPerCall.value = request
      have hiterator : request.shardIterator = token := by
        rw [← hrequest]
        rfl
      have htasks : (s.post (.getRecords request)).tasks =
          [.getRecords request] := by
        rw [post, hidle, List.nil_append]
      have hasked : (s.post (.getRecords request)).inFlight = some request := by
        rw [inFlight, htasks]
        rfl
      refine ⟨Phase.looping _ halive (Or.inl ⟨hstate, hcallback⟩) htasks rfl ?_,
        rfl, Or.inr ⟨?_, hstate, token, ?_, ?_, ?_⟩⟩
      · rw [← hiterator] at htoken
        exact htoken
      · rw [turnsLeft, htasks]
      · rw [frontier_of_inFlight_eq_none hnone]
        exact htoken
      · rw [promised_of_inFlight_eq_none hnone, promised, hasked, ← hiterator]
        rfl
      · rw [frontier, hasked, ← hiterator]

theorem goes_processBatches (halive : s.alive = true)
    (hstate : s.stateType = .processing ∧ s.shutdownCallback = none ∨
      s.stateType = .shutdownRequested) (hidle : s.tasks = []) (turns : ℕ) :
    Goes kinesis turns s (s.processBatches params) := by
  unfold processBatches
  rcases hstate with ⟨hprocessing, hcallback⟩ | hrequested
  · rw [if_neg (not_not.mpr hprocessing), decide_eq_true hprocessing, dcheck_true]
    exact goes_processNextBatchInner halive hprocessing hcallback hidle turns
  · have hstopping : s.stateType ≠ .processing := by simp [hrequested]
    rw [if_pos hstopping]
    exact goes_onProcessingStop halive hrequested hidle turns _

theorem goes_onProcessNextBatch (halive : s.alive = true)
    (hstate : s.stateType = .processing ∧ s.shutdownCallback = none ∨
      s.stateType = .shutdownRequested) (hidle : s.tasks = []) (turns : ℕ)
    (hturns : 1 ≤ turns) (result : ProcessBatchResult) :
    Goes kinesis turns s (s.onProcessNextBatch params (.ok result)) := by
  simp only [onProcessNextBatch]
  rcases hstate with ⟨hprocessing, hcallback⟩ | hrequested
  · rw [if_neg (not_not.mpr hprocessing)]
    exact goes_post halive hprocessing hcallback hidle turns hturns
  · have hstopping : s.stateType ≠ .processing := by simp [hrequested]
    rw [if_pos hstopping]
    exact goes_onProcessingStop halive hrequested hidle turns _

/-- An answered request is delivered or, without records, skipped; the account
had it already. -/
theorem goes_onGetRecords (halive : s.alive = true)
    (hstate : s.stateType = .processing ∧ s.shutdownCallback = none ∨
      s.stateType = .shutdownRequested) {request : GetRecordsRequest}
    (htasks : s.tasks = [.getRecords request])
    (hnext : s.nextID = some request.shardIterator) :
    Goes kinesis 2 s ({ s with tasks := [] }.onGetRecords params
      (.ok (kinesis request.shardIterator))) := by
  obtain ⟨iter, hiter, htoken⟩ := Option.bind_eq_some_iff.mp hnext
  have hasked : s.inFlight = some request := by
    rw [inFlight, htasks]
    rfl
  have hpromised : promised kinesis s =
      s.delivered.flatten ++ (kinesis request.shardIterator).records := by
    rw [promised, hasked]
  have hfrontier : frontier kinesis s =
      tokenAfterBatch kinesis request.shardIterator := by
    rw [frontier, hasked]
  simp only [onGetRecords, hiter, Option.bind_some, ShardIterator.onGetRecords,
    htoken, Option.map_some, onGetNextBatch]
  split_ifs with hprocess
  · refine ⟨Phase.looping _ halive hstate rfl rfl trivial, rfl,
      Or.inl ⟨?_, ?_, le_rfl⟩⟩
    · rw [hpromised, promised_of_inFlight_eq_none rfl]
      simp only [post, List.flatten_append, List.flatten_singleton]
    · rw [hfrontier, frontier_of_inFlight_eq_none rfl]
      rfl
  · simp only [Bool.or_eq_true, Bool.not_eq_true', not_or, Bool.not_eq_false,
      List.isEmpty_iff] at hprocess
    refine Goes.of_account (goes_onProcessNextBatch ?_ ?_ ?_ 2 (by decide) _)
      ?_ ?_ ?_
    · exact halive
    · exact hstate
    · rfl
    · rw [hpromised, hprocess.1, List.append_nil]
      exact promised_of_inFlight_eq_none rfl
    · rw [hfrontier]
      exact frontier_of_inFlight_eq_none rfl
    · rfl

variable (params) in
/-- A shutdown that is requested while the consumer is processing leaves the
account as it is. -/
theorem requestShutdown_of_phase (hs : Phase s)
    (hstate : s.stateType = .processing) (halive : s.alive = true)
    (callback : ℕ) :
    s.requestShutdown params callback =
        { s with
          shutdownCallback := some callback
          stateType := .shutdownRequested } ∧
      Phase (s.requestShutdown params callback) := by
  have hrequest : s.shutdownCallback = none → s.requestShutdown params callback =
      { s with
        shutdownCallback := some callback
        stateType := .shutdownRequested } := by
    intro hcallback
    rw [requestShutdown, hcallback]
    exact dcheck_true params _
  cases hs with
  | starting shardID callback' halive' hstate' hcallback htasks =>
      rw [hstate] at hstate'
      cases hstate'
  | looping task halive' hstate' htasks hloop hfits =>
      rcases hstate' with ⟨-, hcallback⟩ | hrequested
      · refine ⟨hrequest hcallback, ?_⟩
        rw [hrequest hcallback]
        exact Phase.looping task halive (Or.inr rfl) htasks hloop hfits
      · rw [hstate] at hrequested
        cases hrequested
  | stopped halive' hstate' htasks =>
      rw [hstate] at hstate'
      cases hstate'
  | dead halive' hstate' htasks =>
      rw [halive] at halive'
      cases halive'

theorem Phase.withAnswers (h : Phase s)
    (answers : List (ℕ × Except ShardConsumerError Unit)) :
    Phase { s with answers := answers } := by
  cases h with
  | starting shardID callback halive hstate hcallback htasks =>
      exact Phase.starting shardID callback halive hstate hcallback htasks
  | looping task halive hstate htasks hloop hfits =>
      exact Phase.looping task halive hstate htasks hloop hfits
  | stopped halive hstate htasks => exact Phase.stopped halive hstate htasks
  | dead halive hstate htasks => exact Phase.dead halive hstate htasks

theorem Goes.answer {turns : ℕ} {s' : ShardConsumer α}
    (h : Goes kinesis turns s s') (callback : ℕ)
    (outcome : Except ShardConsumerError Unit) :
    Goes kinesis turns s (s'.answer callback outcome) :=
  answer_cases (P := fun t => Goes kinesis turns s t) h
    (fun answers => ⟨h.phase.withAnswers answers, h.shutDown, h.account⟩)
    callback outcome

theorem goes_onInitialize (halive : s.alive = true)
    (hstate : s.stateType = .readyForProcessing)
    (hcallback : s.shutdownCallback = none) {shardID : ShardID} {callback : ℕ}
    (htasks : s.tasks = [.initializeProcessor shardID callback]) :
    Goes kinesis 0 s ({ s with tasks := [] }.onInitialize params callback
      (.ok ())) := by
  refine Goes.answer (Goes.of_erased (Goes.of_account
    (goes_processBatches ?_ ?_ ?_ 0) ?_ ?_ ?_) htasks rfl) callback _
  · exact halive
  · exact Or.inl ⟨rfl, hcallback⟩
  · rfl
  · rfl
  · rfl
  · simp [isShutDown, hstate]

theorem goes_onProcessRecords (halive : s.alive = true)
    (hstate : s.stateType = .processing ∧ s.shutdownCallback = none ∨
      s.stateType = .shutdownRequested) {records : List α}
    (htasks : s.tasks = [.processRecords records]) :
    Goes kinesis 1 s ({ s with tasks := [] }.onProcessRecords params records
      (.ok ())) := by
  refine Goes.of_erased (goes_onProcessNextBatch ?_ ?_ ?_ 1 le_rfl _) htasks rfl
  · exact halive
  · exact hstate
  · rfl

theorem goes_turn (halive : s.alive = true)
    (hstate : s.stateType = .processing ∧ s.shutdownCallback = none ∨
      s.stateType = .shutdownRequested) (htasks : s.tasks = [.processBatches]) :
    Goes kinesis 0 s ({ s with tasks := [] }.processBatches params) := by
  refine Goes.of_erased (goes_processBatches ?_ ?_ ?_ 0) htasks rfl
  · exact halive
  · exact hstate
  · rfl

theorem goes_onComplete {s' : ShardConsumer α} {task : Task α}
    {outcome : TaskOutcome α} (hs : Phase s) (htasks : s.tasks = [task])
    (hsucceeds : outcome.succeeds = true)
    (hanswered : ∀ request result, task = .getRecords request →
      outcome = .gotRecords (.ok result) → result = kinesis request.shardIterator)
    (h : { s with tasks := [] }.onComplete params task outcome = some s') :
    ∃ turns, s.turnsLeft = turns + 1 ∧ Goes kinesis turns s s' := by
  cases hs with
  | starting shardID callback halive hstate hcallback honly =>
      cases htasks.symm.trans honly
      cases outcome <;> cases h
      rename_i outcome
      cases outcome with
      | error what => cases hsucceeds
      | ok u =>
          refine ⟨0, ?_, goes_onInitialize halive hstate hcallback htasks⟩
          rw [turnsLeft, htasks]
  | looping only halive hstate honly hloop hfits =>
      cases htasks.symm.trans honly
      cases task with
      | getCheckpoint shardID callback => cases hfits
      | getShardIterator request callback => cases hfits
      | initializeProcessor shardID callback => cases hloop
      | getRecords request =>
          cases outcome <;> cases h
          rename_i outcome
          cases outcome with
          | error e => cases hsucceeds
          | ok result =>
              rw [hanswered request result rfl rfl]
              refine ⟨2, ?_, goes_onGetRecords halive hstate htasks hfits⟩
              rw [turnsLeft, htasks]
      | processRecords records =>
          cases outcome <;> cases h
          rename_i outcome
          cases outcome with
          | error what => cases hsucceeds
          | ok u =>
              refine ⟨1, ?_, goes_onProcessRecords halive hstate htasks⟩
              rw [turnsLeft, htasks]
      | processBatches =>
          cases outcome <;> cases h
          refine ⟨0, ?_, goes_turn halive hstate htasks⟩
          rw [turnsLeft, htasks]
  | stopped halive hstate hnone => cases htasks.symm.trans hnone
  | dead halive hstate hnone => cases htasks.symm.trans hnone

theorem only_task_of_phase (hs : Phase s) {i : ℕ} {task : Task α}
    (htask : s.tasks[i]? = some task) : i = 0 ∧ s.tasks = [task] := by
  have honly : ∀ only, s.tasks = [only] → i = 0 ∧ s.tasks = [task] := by
    intro only htasks
    obtain ⟨rfl, rfl⟩ := eq_of_only_task htasks htask
    exact ⟨rfl, htasks⟩
  cases hs with
  | starting shardID callback halive hstate hcallback htasks =>
      exact honly _ htasks
  | looping only halive hstate htasks hloop hfits => exact honly _ htasks
  | stopped halive hstate htasks =>
      rw [htasks] at htask
      cases htask
  | dead halive hstate htasks =>
      rw [htasks] at htask
      cases htask

theorem goes_complete {s' : ShardConsumer α} {i : ℕ} {outcome : TaskOutcome α}
    (hs : Phase s) (hok : GoesWell kinesis s (.complete i outcome))
    (h : step params s (.complete i outcome) = some s') :
    ∃ turns, s.turnsLeft = turns + 1 ∧ Goes kinesis turns s s' := by
  unfold step at h
  split_ifs at h with halive
  obtain ⟨task, htask, hcomplete⟩ := Option.bind_eq_some_iff.mp h
  obtain ⟨rfl, htasks⟩ := only_task_of_phase hs htask
  have herased : s.tasks.eraseIdx 0 = [] := by
    rw [htasks]
    rfl
  rw [herased] at hcomplete
  refine goes_onComplete hs htasks hok.2 ?_ hcomplete
  rintro request result rfl rfl
  refine hok.1 request ?_
  rw [htask]
  rfl

end Idle

section Runs

variable {α : Type*} {params : ShardConsumerParams}
  {kinesis : ShardIteratorID → GetRecordsResult α} {n : ℕ} {all : List α}
  {s s' : ShardConsumer α}

/-- The batches that have not been asked for. -/
def unrequested (kinesis : ShardIteratorID → GetRecordsResult α) (n : ℕ)
    (s : ShardConsumer α) : List (List α) :=
  batches kinesis n (frontier kinesis s)

/-- The records promised and those of the batches not asked for are all the
records of the shard, which ends within `n` batches. -/
structure OnCourse (kinesis : ShardIteratorID → GetRecordsResult α) (n : ℕ)
    (all : List α) (s : ShardConsumer α) : Prop where
  phase : Phase s
  closed : tokenAfter kinesis n (frontier kinesis s) = none
  account : promised kinesis s ++ (unrequested kinesis n s).flatten = all

def stepsLeft (kinesis : ShardIteratorID → GetRecordsResult α) (n : ℕ)
    (s : ShardConsumer α) : ℕ :=
  3 * (unrequested kinesis n s).length + s.turnsLeft +
    if s.isShutDown then 0 else 1

theorem onCourse_of_goes {turns : ℕ} (hs : OnCourse kinesis n all s)
    (hturns : s.turnsLeft = turns + 1) (h : Goes kinesis turns s s') :
    OnCourse kinesis n all s' ∧
      stepsLeft kinesis n s' < stepsLeft kinesis n s := by
  obtain ⟨-, hclosed, haccount⟩ := hs
  rcases h.account with ⟨hpromised, hfrontier, hleft⟩ |
    ⟨hleft, -, token, htoken, hpromised, hfrontier⟩
  · have hunrequested : unrequested kinesis n s' = unrequested kinesis n s := by
      rw [unrequested, unrequested, hfrontier]
    refine ⟨⟨h.phase, hfrontier ▸ hclosed, ?_⟩, ?_⟩
    · rw [hpromised, hunrequested]
      exact haccount
    · rw [stepsLeft, stepsLeft, hunrequested, h.shutDown]
      omega
  · rw [htoken] at hclosed
    have hunrequested : unrequested kinesis n s =
        (kinesis token).records :: unrequested kinesis n s' := by
      rw [unrequested, unrequested, hfrontier, htoken]
      exact batches_some_of_closed kinesis n token hclosed
    refine ⟨⟨h.phase, ?_, ?_⟩, ?_⟩
    · rw [hfrontier]
      exact tokenAfter_tokenAfterBatch_of_closed kinesis n token hclosed
    · rw [← haccount, hpromised, hunrequested, List.flatten_cons,
        List.append_assoc]
    · rw [stepsLeft, stepsLeft, hunrequested, h.shutDown, List.length_cons]
      omega

theorem onCourse_step {l : Label α} (hs : OnCourse kinesis n all s)
    (hok : GoesWell kinesis s l) (h : step params s l = some s') :
    OnCourse kinesis n all s' ∧
      stepsLeft kinesis n s' < stepsLeft kinesis n s := by
  cases l with
  | startInitializing callback => cases hok.2
  | startProcessing callback => cases hok.2
  | requestShutdown callback =>
      have hstate : s.stateType = .processing := of_decide_eq_true hok.2
      unfold step at h
      split_ifs at h with halive
      cases h
      obtain ⟨hrequest, hphase⟩ :=
        requestShutdown_of_phase params hs.phase hstate halive callback
      rw [hrequest] at hphase ⊢
      refine ⟨⟨hphase, hs.closed, hs.account⟩, ?_⟩
      have hbefore : s.isShutDown = false := by simp [isShutDown, hstate]
      rw [stepsLeft, stepsLeft, hbefore]
      exact Nat.lt_succ_self _
  | complete i outcome =>
      obtain ⟨turns, hturns, hgoes⟩ := goes_complete hs.phase hok h
      exact onCourse_of_goes hs hturns hgoes

/-- Once a shutdown has been requested, the loop asks for no more batches. -/
theorem promised_of_shutDown {ls : List (Label α)} (hs : Phase s)
    (hshut : s.isShutDown = true)
    (hm : Meets (step params) (GoesWell kinesis) s ls)
    (hr : run (step params) s ls = some s') :
    Phase s' ∧ s'.isShutDown = true ∧ promised kinesis s' = promised kinesis s := by
  refine Transition.run_invariant_of_meets
    (I := fun t => Phase t ∧ t.isShutDown = true ∧
      promised kinesis t = promised kinesis s) ?_ ⟨hs, hshut, rfl⟩ hm hr
  rintro t l u ⟨hphase, hshut, hpromised⟩ hok h
  cases l with
  | startInitializing callback => cases hok.2
  | startProcessing callback => cases hok.2
  | requestShutdown callback =>
      have hstate : t.stateType = .processing := of_decide_eq_true hok.2
      simp [isShutDown, hstate] at hshut
  | complete i outcome =>
      obtain ⟨turns, -, hgoes⟩ := goes_complete hphase hok h
      have hshut' : u.isShutDown = true := hgoes.shutDown.trans hshut
      refine ⟨hgoes.phase, hshut', ?_⟩
      rcases hgoes.account with ⟨hsame, -⟩ | ⟨-, hstate, -⟩
      · exact hsame.trans hpromised
      · simp [isShutDown, hstate] at hshut'

theorem promised_of_requestShutdown {ls : List (Label α)} {callback : ℕ}
    (hs : Phase s)
    (hm : Meets (step params) (GoesWell kinesis) s
      (.requestShutdown callback :: ls))
    (hr : run (step params) s (.requestShutdown callback :: ls) = some s') :
    Phase s' ∧ s'.isShutDown = true ∧ promised kinesis s' = promised kinesis s := by
  obtain ⟨t, ht, htr⟩ :=
    (Transition.run_cons_eq_some_iff (step params) s s' _ ls).mp hr
  have hmt := hm.2 t ht
  have hstate : s.stateType = .processing := of_decide_eq_true hm.1.2
  unfold step at ht
  split_ifs at ht with halive
  cases ht
  obtain ⟨hrequest, hphase⟩ :=
    requestShutdown_of_phase params hs hstate halive callback
  have hshut : (s.requestShutdown params callback).isShutDown = true := by
    rw [hrequest]
    rfl
  have hpromised : promised kinesis (s.requestShutdown params callback) =
      promised kinesis s := by
    rw [hrequest]
    rfl
  rw [← hpromised]
  exact promised_of_shutDown hphase hshut hmt htr

theorem exists_requestShutdown {ls : List (Label α)} (hs : Phase s)
    (hshut : s.isShutDown = false)
    (hm : Meets (step params) (GoesWell kinesis) s ls)
    (hr : run (step params) s ls = some s') (hshut' : s'.isShutDown = true) :
    ∃ before callback after t, ls = before ++ .requestShutdown callback :: after ∧
      run (step params) s before = some t := by
  induction ls generalizing s with
  | nil =>
      cases hr
      rw [hshut] at hshut'
      cases hshut'
  | cons l ls ih =>
      obtain ⟨t, ht, htr⟩ :=
        (Transition.run_cons_eq_some_iff (step params) s s' l ls).mp hr
      cases l with
      | startInitializing callback => cases hm.1.2
      | startProcessing callback => cases hm.1.2
      | requestShutdown callback => exact ⟨[], callback, ls, s, rfl, rfl⟩
      | complete i outcome =>
          obtain ⟨turns, -, hgoes⟩ := goes_complete hs hm.1 ht
          obtain ⟨before, callback, after, u, hsplit, hrun⟩ :=
            ih hgoes.phase (hgoes.shutDown.trans hshut) (hm.2 t ht) htr
          refine ⟨.complete i outcome :: before, callback, after, u, ?_, ?_⟩
          · rw [hsplit, List.cons_append]
          · rw [Transition.run_cons, ht]
            exact hrun

/-- With nothing outstanding, the process is running exactly if a shutdown has
been requested. -/
theorem alive_iff_isShutDown (hs : Phase s) (hend : s.tasks = []) :
    s.alive = true ↔ s.isShutDown = true := by
  cases hs with
  | starting shardID callback halive hstate hcallback htasks =>
      rw [hend] at htasks
      cases htasks
  | looping task halive hstate htasks hloop hfits =>
      rw [hend] at htasks
      cases htasks
  | stopped halive hstate htasks => simp [halive, isShutDown, hstate]
  | dead halive hstate htasks => simp [halive, isShutDown, hstate]

theorem exists_step_of_phase (hs : Phase s) (htasks : s.tasks ≠ []) :
    ∃ l s', GoesWell kinesis s l ∧ step params s l = some s' := by
  have hcomplete : ∀ task outcome, s.alive = true → s.tasks = [task] →
      GoesWell kinesis s (.complete 0 outcome) →
      (∃ u, { s with tasks := s.tasks.eraseIdx 0 }.onComplete params task outcome =
        some u) → ∃ l s', GoesWell kinesis s l ∧ step params s l = some s' := by
    intro task outcome halive honly hok ⟨u, hu⟩
    refine ⟨.complete 0 outcome, u, hok, ?_⟩
    rw [step, if_pos halive, honly]
    rw [honly] at hu
    exact hu
  cases hs with
  | starting shardID callback halive hstate hcallback honly =>
      exact hcomplete _ (.initialized (.ok ())) halive honly ⟨trivial, rfl⟩
        ⟨_, rfl⟩
  | looping task halive hstate honly hloop hfits =>
      cases task with
      | getCheckpoint shardID callback => cases hfits
      | getShardIterator request callback => cases hfits
      | initializeProcessor shardID callback => cases hloop
      | getRecords request =>
          refine hcomplete _ (.gotRecords (.ok (kinesis request.shardIterator)))
            halive honly ⟨?_, rfl⟩ ⟨_, rfl⟩
          intro request' hrequest
          rw [honly] at hrequest
          cases hrequest
          rfl
      | processRecords records =>
          exact hcomplete _ (.processedRecords (.ok ())) halive honly
            ⟨trivial, rfl⟩ ⟨_, rfl⟩
      | processBatches =>
          exact hcomplete _ .turn halive honly ⟨trivial, rfl⟩ ⟨_, rfl⟩
  | stopped halive hstate hnone => exact absurd hnone htasks
  | dead halive hstate hnone => exact absurd hnone htasks

variable (params) in
theorem onCourse_startProcessing {s₀ : ShardConsumer α} {iter : ShardIterator}
    (hready : s₀.Ready iter) (hopen : iter.isAtEnd = false)
    (hclosed : tokenAfter kinesis n iter.nextID = none) (callback : ℕ) :
    OnCourse kinesis n (batches kinesis n iter.nextID).flatten
        (s₀.startProcessing params callback) ∧
      (s₀.startProcessing params callback).isShutDown = false ∧
      stepsLeft kinesis n (s₀.startProcessing params callback) =
        3 * (batches kinesis n iter.nextID).length + 2 := by
  have hstart := startProcessing_of_ready params hready.stateType
    hready.shardIterator hopen callback
  have htasks : (s₀.startProcessing params callback).tasks =
      [.initializeProcessor params.shardInfo.shardID callback] := by
    rw [hstart, post, hready.tasks, List.nil_append]
  have hnone : (s₀.startProcessing params callback).inFlight = none := by
    rw [inFlight, htasks]
    rfl
  have hfrontier : frontier kinesis (s₀.startProcessing params callback) =
      iter.nextID := by
    rw [frontier_of_inFlight_eq_none hnone, nextID, hstart, post,
      hready.shardIterator]
    rfl
  have hrunning : (s₀.startProcessing params callback).isShutDown = false := by
    rw [hstart, isShutDown, post, hready.stateType]
    rfl
  refine ⟨⟨Phase.starting params.shardInfo.shardID callback ?_ ?_ ?_ htasks, ?_,
    ?_⟩, hrunning, ?_⟩
  · rw [hstart]
    exact hready.alive
  · rw [hstart]
    exact hready.stateType
  · rw [hstart]
    exact hready.shutdownCallback
  · rw [hfrontier]
    exact hclosed
  · rw [promised_of_inFlight_eq_none hnone, unrequested, hfrontier, hstart, post,
      hready.delivered]
    rfl
  · rw [stepsLeft, unrequested, hfrontier, turnsLeft, htasks, hrunning]
    rfl

end Runs

theorem ready_of_initialized {α : Type*} (params : ShardConsumerParams)
    (callback : ℕ) (sequenceNumber : Option Leases.ExtendedSequenceNumber)
    (iteratorID : ShardIteratorID) (s : ShardConsumer α)
    (h : run (step params) {}
      [.startInitializing callback, .complete 0 (.gotCheckpoint (.ok sequenceNumber)),
        .complete 0 (.gotShardIterator (.ok iteratorID))] = some s) :
    s.Ready (ShardIterator.createNew iteratorID) := by
  obtain ⟨⟨streamName, shardID, parents⟩, streamConfig, build⟩ := params
  cases build with
  | release =>
      cases h
      exact ⟨rfl, rfl, rfl, rfl, rfl, rfl⟩
  | debug =>
      cases parents with
      | nil =>
          cases h
          exact ⟨rfl, rfl, rfl, rfl, rfl, rfl⟩
      | cons parent rest => cases h

/-- A run that goes well on a closed shard takes at most three steps for each
batch, one to start and one to request a shutdown. -/
theorem closedShard_length_le {α : Type*} (params : ShardConsumerParams)
    (kinesis : ShardIteratorID → GetRecordsResult α) (s₀ s : ShardConsumer α)
    (iter : ShardIterator) (n callback : ℕ) (ls : List (Label α))
    (hready : s₀.Ready iter) (hopen : iter.isAtEnd = false)
    (hclosed : tokenAfter kinesis n iter.nextID = none)
    (hm : Meets (step params) (GoesWell kinesis)
      (s₀.startProcessing params callback) ls)
    (hr : run (step params) (s₀.startProcessing params callback) ls = some s) :
    ls.length ≤ 3 * (batches kinesis n iter.nextID).length + 2 := by
  obtain ⟨hstart, -, hbound⟩ :=
    onCourse_startProcessing params hready hopen hclosed callback
  have hle := Transition.run_length_le
    (fun _ _ _ hs hok h => onCourse_step hs hok h) hstart hm hr
  omega

/-- A consumer starts processing a shard that ends within `n` batches, every call
succeeds, and a shutdown may be requested while it is processing. Every such run
can be carried on to where nothing is outstanding. There all checks have held
and all records have been delivered exactly if a shutdown was requested at a
point where the batches not yet asked for had no records. -/
theorem closedShard_endsCleanly_iff {α : Type*} (params : ShardConsumerParams)
    (kinesis : ShardIteratorID → GetRecordsResult α) (s₀ s : ShardConsumer α)
    (iter : ShardIterator) (n callback : ℕ) (ls : List (Label α))
    (hready : s₀.Ready iter) (hopen : iter.isAtEnd = false)
    (hclosed : tokenAfter kinesis n iter.nextID = none)
    (hm : Meets (step params) (GoesWell kinesis)
      (s₀.startProcessing params callback) ls)
    (hr : run (step params) (s₀.startProcessing params callback) ls = some s) :
    (∃ ls' s', Meets (step params) (GoesWell kinesis) s ls' ∧
      run (step params) s ls' = some s' ∧ s'.tasks = []) ∧
    (s.tasks = [] →
      ((s.alive = true ∧
          s.delivered.flatten = (batches kinesis n iter.nextID).flatten) ↔
        ∃ before callback' after t,
          ls = before ++ .requestShutdown callback' :: after ∧
          run (step params) (s₀.startProcessing params callback) before =
            some t ∧
          (unrequested kinesis n t).flatten = [])) := by
  obtain ⟨hstart, hrunning, -⟩ :=
    onCourse_startProcessing params hready hopen hclosed callback
  have hcourse : ∀ {ls t}, Meets (step params) (GoesWell kinesis)
      (s₀.startProcessing params callback) ls →
      run (step params) (s₀.startProcessing params callback) ls = some t →
      OnCourse kinesis n (batches kinesis n iter.nextID).flatten t :=
    fun hm hr => Transition.run_invariant_of_meets
      (fun _ _ _ hs hok h => (onCourse_step hs hok h).1) hstart hm hr
  have hcourseEnd := hcourse hm hr
  refine ⟨Transition.exists_run_to_final
    (fun _ _ _ hs hok h => onCourse_step hs hok h)
    (fun t ht htasks => exists_step_of_phase ht.phase htasks) hcourseEnd,
    fun hend => ?_⟩
  have hdelivered : promised kinesis s = s.delivered.flatten :=
    promised_of_inFlight_eq_none (inFlight_of_tasks_eq_nil hend)
  constructor
  · rintro ⟨halive, hall⟩
    have hshut := (alive_iff_isShutDown hcourseEnd.phase hend).mp halive
    obtain ⟨before, callback', after, t, rfl, hbefore⟩ :=
      exists_requestShutdown hstart.phase hrunning hm hr hshut
    refine ⟨before, callback', after, t, rfl, hbefore, ?_⟩
    rw [Transition.meets_append] at hm
    rw [Transition.run_append, hbefore] at hr
    have ht := hcourse hm.1 hbefore
    obtain ⟨-, -, hpromised⟩ :=
      promised_of_requestShutdown ht.phase (hm.2 t hbefore) hr
    have haccount := ht.account
    rw [← hpromised, hdelivered, hall] at haccount
    exact List.append_right_eq_self.mp haccount
  · rintro ⟨before, callback', after, t, rfl, hbefore, hempty⟩
    rw [Transition.meets_append] at hm
    rw [Transition.run_append, hbefore] at hr
    have ht := hcourse hm.1 hbefore
    obtain ⟨-, hshut, hpromised⟩ :=
      promised_of_requestShutdown ht.phase (hm.2 t hbefore) hr
    refine ⟨(alive_iff_isShutDown hcourseEnd.phase hend).mpr hshut, ?_⟩
    rw [← hdelivered, hpromised, ← ht.account, hempty, List.append_nil]

def sampleBatches : List (Label ℕ) :=
  [.complete 0 (.initialized (.ok ())),
    .complete 0 (.gotRecords (.ok (sampleKinesis ⟨"first"⟩))),
    .complete 0 (.processedRecords (.ok ())), .complete 0 .turn,
    .complete 0 (.gotRecords (.ok (sampleKinesis ⟨"second"⟩))),
    .complete 0 .turn,
    .complete 0 (.gotRecords (.ok (sampleKinesis ⟨"third"⟩)))]

def sampleToEnd : List (Label ℕ) :=
  sampleBatches ++ [.complete 0 (.processedRecords (.ok ())), .complete 0 .turn]

/-- The sample shard is processed, and a shutdown is requested with its last
records in hand. -/
def sampleShutdown : List (Label ℕ) :=
  sampleBatches ++ [.requestShutdown 2, .complete 0 (.processedRecords (.ok ()))]

theorem closedShard_endsCleanly_iff_sampleShutdown :
    ∃ s, run (step {}) (sampleReady.startProcessing {} 1) sampleShutdown = some s ∧
      s.stateType = .shutdownComplete ∧ s.tasks = [] ∧
      ((s.alive = true ∧ s.delivered.flatten =
          (batches sampleKinesis 3 (some ⟨"first"⟩)).flatten) ↔
        ∃ before callback' after t,
          sampleShutdown = before ++ .requestShutdown callback' :: after ∧
          run (step {}) (sampleReady.startProcessing {} 1) before = some t ∧
          (unrequested sampleKinesis 3 t).flatten = []) :=
  ⟨_, rfl, rfl, rfl, (closedShard_endsCleanly_iff {} sampleKinesis sampleReady _
    (ShardIterator.createNew ⟨"first"⟩) 3 1 sampleShutdown
    ⟨rfl, rfl, rfl, rfl, rfl, rfl⟩ rfl (by decide +kernel) (by decide +kernel)
    rfl).2 rfl⟩

/-- Every call succeeds and no shutdown is requested. All records are delivered,
and the turn after the last batch ends the process, in either build. -/
theorem sampleToEnd_dies :
    tokenAfter sampleKinesis 3 (some ⟨"first"⟩) = none ∧
    (∃ s, run (step { build := .debug })
        (sampleReady.startProcessing { build := .debug } 1) sampleToEnd = some s ∧
      s.delivered = [[1, 2], [3]] ∧ s.nextID = none ∧ s.alive = false) ∧
    ∃ s, run (step { build := .release })
        (sampleReady.startProcessing { build := .release } 1) sampleToEnd = some s ∧
      s.delivered = [[1, 2], [3]] ∧ s.nextID = none ∧ s.alive = false :=
  ⟨by decide +kernel, ⟨_, rfl, rfl, rfl, rfl⟩, _, rfl, rfl, rfl, rfl⟩

end ShardConsumer

end Worker

end Clientlib

end Kclpp
