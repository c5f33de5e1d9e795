import Kclpp.Kinesis.ShardIterator
import Kclpp.Leases.Lease

/-!
# The shard consumer

A `ShardConsumer` reads its checkpoint, opens a shard iterator, and then runs a
loop of callbacks: ask for a batch, hand its records to the record processor,
post the next turn to the event thread. Each call in flight and each posted turn
is a `Task`. A task is completed with an outcome, at any time and in any order,
and what the code then does runs to its end before the next task is completed.
`step` takes one call from outside or completes one task.

A check that fails ends the process. A `CHECK` always does, as does asking an
empty `Optional` for its value; a `DCHECK` only in a debug build. Callbacks given
to the consumer are numbers, and `answers` records what they are called with.
`delivered` records what has been handed to the record processor.

The state fields `shutdownNotification`, `checkpoint`, `shutdownReason` and
`hasPendingProcessCallback` are left out, since no function uses them.
-/

namespace Kclpp

namespace Clientlib

namespace Worker

open Kinesis Leases

inductive ShardConsumerStateType where
  | notStarted
  | failedToInitialize
  | waitingOnParentShards
  | initializing
  | readyForProcessing
  | processing
  | shutdownRequested
  | shuttingDown
  | shutdownComplete
  deriving DecidableEq, Repr

def getInitialShardConsumerStateType : ShardConsumerStateType := .notStarted

inductive InitialPositionInStream where
  | latest
  | trimHorizon
  deriving DecidableEq, Repr

inductive ShardIteratorType where
  | afterSequenceNumber
  | trimHorizon
  | latest
  deriving DecidableEq, Repr

structure GetShardIteratorRequest where
  streamName : StreamName
  shardId : ShardID
  startingSequenceNumber : Option CheckpointID := none
  shardIteratorType : ShardIteratorType
  deriving DecidableEq

structure ShardInfo where
  streamName : StreamName := ⟨""⟩
  shardID : ShardID := ⟨""⟩
  parentShardIDs : List ShardID := []

structure StreamConfig where
  maxRecordsPerCall : NumberOfRecords := ⟨500⟩
  callProcessRecordsIfEmpty : Bool := false
  initialPosition : InitialPositionInStream := .trimHorizon

/-- Whether `DCHECK` is compiled in. -/
inductive Build where
  | debug
  | release
  deriving DecidableEq, Repr

structure ShardConsumerParams where
  shardInfo : ShardInfo := {}
  streamConfig : StreamConfig := {}
  build : Build := .debug

structure ShardConsumerError where
  what : String
  deriving DecidableEq, Repr

def makeConsumerError (awsError : AWSError) : ShardConsumerError :=
  let extra := ""
  ⟨awsError.exceptionName ++ " : '" ++ awsError.message ++ "' (" ++ extra ++ ")"⟩

structure ProcessBatchResult where
  numProcessed : ℕ := 0

/-- A call in flight, with what it was given and the callback that waits behind
it, or a turn of the loop in the queue of the event thread. -/
inductive Task (α : Type*) where
  | getCheckpoint (shardID : ShardID) (callback : ℕ)
  | getShardIterator (request : GetShardIteratorRequest) (callback : ℕ)
  | initializeProcessor (shardID : ShardID) (callback : ℕ)
  | getRecords (request : GetRecordsRequest)
  | processRecords (records : List α)
  | processBatches
  deriving DecidableEq

inductive TaskOutcome (α : Type*) where
  | gotCheckpoint (outcome : Except AWSError (Option ExtendedSequenceNumber))
  | gotShardIterator (outcome : Except AWSError ShardIteratorID)
  | initialized (outcome : Except String Unit)
  | gotRecords (outcome : Except AWSError (GetRecordsResult α))
  | processedRecords (outcome : Except String Unit)
  | turn

/-- `ShardConsumer::ShardConsumerState`, with what is outstanding and what the
consumer has done so far. -/
structure ShardConsumer (α : Type*) where
  stateType : ShardConsumerStateType := getInitialShardConsumerStateType
  shardIterator : Option ShardIterator := none
  shutdownCallback : Option ℕ := none
  tasks : List (Task α) := []
  answers : List (ℕ × Except ShardConsumerError Unit) := []
  delivered : List (List α) := []
  alive : Bool := true

namespace ShardConsumer

section Functions

variable {α : Type*} (params : ShardConsumerParams) (s : ShardConsumer α)

def die : ShardConsumer α := { s with alive := false }

/-- `DCHECK(condition)`, with what comes after it. -/
def dcheck (condition : Bool) (next : ShardConsumer α) : ShardConsumer α :=
  match params.build with
  | .debug => if condition then next else s.die
  | .release => next

def post (task : Task α) : ShardConsumer α := { s with tasks := s.tasks ++ [task] }

/-- Call a callback, if the process is still there to do it. -/
def answer (callback : ℕ) (outcome : Except ShardConsumerError Unit) :
    ShardConsumer α :=
  if s.alive then { s with answers := s.answers ++ [(callback, outcome)] } else s

/-- `ShardConsumer::waitOnParentShards`, which succeeds where its check does. -/
def waitOnParentShards (next : ShardConsumer α) : ShardConsumer α :=
  s.dcheck params params.shardInfo.parentShardIDs.isEmpty next

def doInitialize (callback : ℕ) : ShardConsumer α :=
  s.post (.getCheckpoint params.shardInfo.shardID callback)

def startInitializing (callback : ℕ) : ShardConsumer α :=
  s.dcheck params
      (s.stateType = getInitialShardConsumerStateType ∨
        s.stateType = .failedToInitialize) <|
    s.dcheck params s.shardIterator.isNone <|
      let waiting := { s with stateType := .waitingOnParentShards }
      waiting.waitOnParentShards params <|
        { waiting with stateType := .initializing }.doInitialize params callback

/-- The request for the shard iterator, from the checkpoint or, without one,
from the initial position. -/
def shardIteratorRequest (sequenceNumber : Option ExtendedSequenceNumber) :
    GetShardIteratorRequest :=
  match sequenceNumber with
  | some number =>
      { streamName := params.shardInfo.streamName
        shardId := params.shardInfo.shardID
        startingSequenceNumber := some number.sequenceNumber
        shardIteratorType := .afterSequenceNumber }
  | none =>
      { streamName := params.shardInfo.streamName
        shardId := params.shardInfo.shardID
        shardIteratorType :=
          match params.streamConfig.initialPosition with
          | .trimHorizon => .trimHorizon
          | .latest => .latest }

/-- The callback of `getCheckpoint` in `ShardConsumer::doInitialize`. -/
def onGetCheckpoint (callback : ℕ) :
    Except AWSError (Option ExtendedSequenceNumber) → ShardConsumer α
  | .error e => s.answer callback (.error (makeConsumerError e))
  | .ok sequenceNumber =>
      s.dcheck params s.shardIterator.isNone <|
        s.post (.getShardIterator (shardIteratorRequest params sequenceNumber)
          callback)

/-- The callback of `getShardIteratorAsync` in `ShardConsumer::doInitialize`,
with the rest of `ShardConsumer::startInitializing`. -/
def onGetShardIterator (callback : ℕ) :
    Except AWSError ShardIteratorID → ShardConsumer α
  | .error e => s.answer callback (.error (makeConsumerError e))
  | .ok iteratorID =>
      let shardIter := ShardIterator.createNew iteratorID
      if shardIter.isAtEnd then
        s.answer callback (.error ⟨"Already at end of shard."⟩)
      else
        { s with
          shardIterator := some shardIter
          stateType := .readyForProcessing }.answer callback (.ok ())

def onProcessingStop (outcome : Except ShardConsumerError ProcessBatchResult) :
    ShardConsumer α :=
  s.dcheck params (s.stateType ≠ .processing) <|
    if s.stateType = .shutdownRequested then
      let stopped := { s with stateType := .shutdownComplete }
      match s.shutdownCallback with
      | some callback => stopped.answer callback (outcome.map fun _ => ())
      | none => stopped.dcheck params outcome.isOk stopped
    else s

/-- `ShardConsumer::processNextBatchInner`, up to the request it sends. -/
def processNextBatchInner : ShardConsumer α :=
  s.dcheck params (s.stateType = .processing) <|
    match s.shardIterator with
    | none => s.die
    | some iter =>
        s.dcheck params (!iter.isAtEnd) <|
          match iter.getNextBatch params.streamConfig.maxRecordsPerCall.value with
          | none => s.die
          | some request => s.post (.getRecords request)

/-- `ShardConsumer::processBatches`, up to the request it sends. -/
def processBatches : ShardConsumer α :=
  if s.stateType ≠ .processing then
    s.onProcessingStop params (.ok { numProcessed := 0 })
  else
    s.dcheck params (s.stateType = .processing) <|
      s.processNextBatchInner params

/-- The callback that `ShardConsumer::processBatches` gives to
`processNextBatchInner`. -/
def onProcessNextBatch (outcome : Except ShardConsumerError ProcessBatchResult) :
    ShardConsumer α :=
  match outcome with
  | .error e => s.onProcessingStop params (.error e)
  | .ok result =>
      if s.stateType ≠ .processing then s.onProcessingStop params (.ok result)
      else s.post .processBatches

/-- The callback of `getNextBatch` in `ShardConsumer::processNextBatchInner`. -/
def onGetNextBatch : Except AWSError (GetRecordsResult α) → ShardConsumer α
  | .error e => s.onProcessNextBatch params (.error ⟨e.message⟩)
  | .ok result =>
      if !result.records.isEmpty ||
          params.streamConfig.callProcessRecordsIfEmpty then
        { s with delivered := s.delivered ++ [result.records] }.post
          (.processRecords result.records)
      else s.onProcessNextBatch params (.ok { numProcessed := 0 })

/-- The iterator's callback and then the consumer's. -/
def onGetRecords (outcome : Except AWSError (GetRecordsResult α)) :
    ShardConsumer α :=
  match s.shardIterator.bind fun iter => iter.onGetRecords outcome with
  | none => s.die
  | some iter =>
      { s with shardIterator := some iter }.onGetNextBatch params outcome

/-- The callback of `processRecords` in
`ShardConsumer::processNextBatchInner`. -/
def onProcessRecords (records : List α) : Except String Unit → ShardConsumer α
  | .error what => s.onProcessNextBatch params (.error ⟨what⟩)
  | .ok () =>
      s.onProcessNextBatch params (.ok { numProcessed := records.length })

def startProcessing (callback : ℕ) : ShardConsumer α :=
  s.dcheck params (s.stateType = .readyForProcessing) <|
    s.dcheck params s.shardIterator.isSome <|
      s.dcheck params (s.shardIterator.all fun iter => !iter.isAtEnd) <|
        s.post (.initializeProcessor params.shardInfo.shardID callback)

/-- The callback of the record processor's `initialize` in
`ShardConsumer::startProcessing`. -/
def onInitialize (callback : ℕ) : Except String Unit → ShardConsumer α
  | .error what =>
      { s with stateType := .failedToInitialize }.answer callback (.error ⟨what⟩)
  | .ok () =>
      ({ s with stateType := .processing }.processBatches params).answer callback
        (.ok ())

def requestShutdown (callback : ℕ) : ShardConsumer α :=
  s.dcheck params s.shutdownCallback.isNone
    { s with
      shutdownCallback := some callback
      stateType := .shutdownRequested }

/-- What the callback of a task does, once the task is off the list. -/
def onComplete : Task α → TaskOutcome α → Option (ShardConsumer α)
  | .getCheckpoint _ callback, .gotCheckpoint outcome =>
      some (s.onGetCheckpoint params callback outcome)
  | .getShardIterator _ callback, .gotShardIterator outcome =>
      some (s.onGetShardIterator callback outcome)
  | .initializeProcessor _ callback, .initialized outcome =>
      some (s.onInitialize params callback outcome)
  | .getRecords _, .gotRecords outcome => some (s.onGetRecords params outcome)
  | .processRecords records, .processedRecords outcome =>
      some (s.onProcessRecords params records outcome)
  | .processBatches, .turn => some (s.processBatches params)
  | _, _ => none

/-- The token of the batch to ask for next. -/
def nextID : Option ShardIteratorID := s.shardIterator.bind ShardIterator.nextID

end Functions

/-- A call to the consumer, or the completion of its `i`-th task. -/
inductive Label (α : Type*) where
  | startInitializing (callback : ℕ)
  | startProcessing (callback : ℕ)
  | requestShutdown (callback : ℕ)
  | complete (i : ℕ) (outcome : TaskOutcome α)

def step {α : Type*} (params : ShardConsumerParams) (s : ShardConsumer α)
    (l : Label α) : Option (ShardConsumer α) :=
  if s.alive then
    match l with
    | .startInitializing callback => some (s.startInitializing params callback)
    | .startProcessing callback => some (s.startProcessing params callback)
    | .requestShutdown callback => some (s.requestShutdown params callback)
    | .complete i outcome =>
        s.tasks[i]?.bind fun task =>
          { s with tasks := s.tasks.eraseIdx i }.onComplete params task outcome
  else none

section Specifications

variable {α : Type*} (params : ShardConsumerParams) {s : ShardConsumer α}

@[simp] theorem dcheck_true (next : ShardConsumer α) :
    s.dcheck params true next = next := by
  unfold dcheck
  cases params.build <;> rfl

/-- A property of what comes after a check, and of the end of the process, holds
in either case. -/
theorem dcheck_cases {P : ShardConsumer α → Prop} {next : ShardConsumer α}
    (hdie : P s.die) (hnext : P next) (condition : Bool) :
    P (s.dcheck params condition next) := by
  unfold dcheck
  cases params.build with
  | debug =>
      cases condition with
      | false => exact hdie
      | true => exact hnext
  | release => exact hnext

@[simp] theorem dcheck_die (condition : Bool) :
    s.dcheck params condition s.die = s.die :=
  dcheck_cases params (P := fun t => t = s.die) rfl rfl condition

theorem answer_cases {P : ShardConsumer α → Prop} (hsame : P s)
    (hcalled : ∀ answers, P { s with answers := answers }) (callback : ℕ)
    (outcome : Except ShardConsumerError Unit) : P (s.answer callback outcome) := by
  unfold answer
  split_ifs
  · exact hcalled _
  · exact hsame

/-- Stopping the loop ends the process, leaves the consumer as it is, or completes
a requested shutdown. -/
theorem onProcessingStop_cases {P : ShardConsumer α → Prop} (hdie : P s.die)
    (hsame : P s)
    (hcomplete : ∀ answers alive, P { s with
      stateType := .shutdownComplete
      answers := answers
      alive := alive })
    (outcome : Except ShardConsumerError ProcessBatchResult) :
    P (s.onProcessingStop params outcome) := by
  refine dcheck_cases params hdie ?_ _
  split_ifs
  · dsimp only
    split
    · exact answer_cases (hcomplete _ _) (fun _ => hcomplete _ _) _ _
    · exact dcheck_cases params (hcomplete _ _) (hcomplete _ _) _
  · exact hsame

/-- Ready on an iterator that is not at its end, the consumer calls the record
processor's `initialize`. -/
theorem startProcessing_of_ready {iter : ShardIterator}
    (hstate : s.stateType = .readyForProcessing)
    (hiter : s.shardIterator = some iter) (hopen : iter.isAtEnd = false)
    (callback : ℕ) :
    s.startProcessing params callback =
      s.post (.initializeProcessor params.shardInfo.shardID callback) := by
  simp [startProcessing, hstate, hiter, hopen]

theorem processNextBatchInner_of_nextID_some (hstate : s.stateType = .processing)
    {token : ShardIteratorID} (htoken : s.nextID = some token) :
    s.processNextBatchInner params =
      s.post (.getRecords (getRecordsAsync token
        params.streamConfig.maxRecordsPerCall.value)) := by
  obtain ⟨iter, hiter, hnext⟩ := Option.bind_eq_some_iff.mp htoken
  simp [processNextBatchInner, hstate, hiter, ShardIterator.isAtEnd,
    ShardIterator.getNextBatch, hnext]

/-- At the end of the shard a check fails, in either build. -/
theorem processNextBatchInner_of_nextID_none (hend : s.nextID = none) :
    s.processNextBatchInner params = s.die := by
  cases hiter : s.shardIterator with
  | none => simp [processNextBatchInner, hiter]
  | some iter =>
      rw [nextID, hiter] at hend
      have hnext : iter.nextID = none := hend
      simp [processNextBatchInner, hiter, ShardIterator.getNextBatch, hnext]

theorem onProcessingStop_of_shutdownRequested (halive : s.alive = true)
    (hstate : s.stateType = .shutdownRequested) (result : ProcessBatchResult) :
    ∃ answers, s.onProcessingStop params (.ok result) =
      { s with stateType := .shutdownComplete, answers := answers } := by
  have hstopping : decide (s.stateType ≠ .processing) = true := by
    rw [hstate]
    rfl
  rw [onProcessingStop, hstopping, dcheck_true, if_pos hstate]
  dsimp only
  split
  · rename_i callback hcallback
    refine ⟨s.answers ++ [(callback, .ok ())], ?_⟩
    rw [answer, if_pos halive]
    rfl
  · exact ⟨s.answers, dcheck_true params _⟩

end Specifications

end ShardConsumer

end Worker

end Clientlib

end Kclpp
