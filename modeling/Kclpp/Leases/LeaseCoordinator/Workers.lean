import Kclpp.AsyncGroup
import Kclpp.Leases.LeaseCoordinator.Basic

/-!
# Workers around one lease table

Any number of workers share a lease table. A worker's event loop runs one
callback at a time, and between the callbacks its requests travel to the store
and their answers back; each posted message, request and answer is a `Task`, and
`advance` carries one of them a step further. Which task of which worker goes
next is up to the label, so a run is any interleaving, finer than the order in
which an event loop takes its messages. `Input` is what the step meets: the
clock, the order in which the store walks the table, the `errno` a listing is
read with, the shuffle, and the fate of the request.
-/

namespace Kclpp

namespace Leases

open Clock Dynamo Util

/-- Whether a request is served, fails before the store has seen it, or is
served and its answer lost. -/
inductive Fate where
  | served
  | refused (e : DynamoDBErrors)
  | lost (e : DynamoDBErrors)
  deriving DecidableEq, Repr

structure Input where
  now : NanosecondPoint
  order : List String
  errno : Errno
  shuffle : RandomShuffle
  fate : Fate

/-- The function whose callback a renewal runs when it is over, with the number
of its fan-out. -/
inductive Caller where
  | inInitialize (fanOut : ℕ)
  | inRenewLeases (fanOut : ℕ)
  deriving DecidableEq, Repr

/-- A posted message, a request on its way to the store, or an answer on its way
back. -/
inductive Task where
  | postedInitialize
  | listForInitialize
  | listedForInitialize (outcome : Except DynamoDBErrors (List Lease))
  | listForTaker
  | listedForTaker (outcome : Except DynamoDBErrors (List Lease))
  | postedRenewLeases
  | decideRenewal (lease : Lease) (options : RenewLeaseOptions) (caller : Caller)
  | renewal (lease : Lease) (caller : Caller)
  | renewed (lease : Lease) (outcome : RenewLeaseOutcome) (caller : Caller)
  | take (lease : Lease) (fanOut : ℕ)
  | taken (outcome : Except DynamoDBErrors TakeLeaseResult) (fanOut : ℕ)
  deriving DecidableEq

/-- The part of a fan-out that its callbacks share: the group, and what
`TakeLeasesAsyncContext` adds to it. -/
structure FanOut where
  group : AsyncGroup
  takenLeases : List Lease := []
  deriving DecidableEq, Repr

/-- What a round answers to its callback. -/
inductive Answer where
  | ofInitialize (outcome : Except DynamoDBErrors Unit)
  | ofRenewLeases
  | ofTakeLeases (outcome : Except DynamoDBErrors (List Lease))
  deriving DecidableEq

/-- A worker: its coordinator, its tasks and its fan-outs, the answers its
rounds have given, latest first, and whether its process is alive, which a
failed `CHECK` ends. -/
structure Worker where
  coordinator : LeaseCoordinator
  tasks : List Task := []
  fanOuts : List FanOut := []
  answers : List Answer := []
  alive : Bool := true

def serve {α : Type} (fate : Fate)
    (operation : Table → Table × Except DynamoDBErrors α) (tbl : Table) :
    Table × Except DynamoDBErrors α :=
  match fate with
  | .served => operation tbl
  | .refused e => (tbl, .error e)
  | .lost e => ((operation tbl).1, .error e)

namespace Worker

def withRenewer (worker : Worker) (renewer : LeaseRenewer) : Worker :=
  { worker with coordinator := { worker.coordinator with renewer := renewer } }

def withTaker (worker : Worker) (taker : LeaseTaker) : Worker :=
  { worker with coordinator := { worker.coordinator with taker := taker } }

def ownedLeases (worker : Worker) : LeaseMap :=
  worker.coordinator.renewer.ownedLeases

def spawn (worker : Worker) (tasks : List Task) : Worker :=
  { worker with tasks := worker.tasks ++ tasks }

def answer (worker : Worker) (answer : Answer) : Worker :=
  { worker with answers := answer :: worker.answers }

/-- Start a fan-out over a number of operations; its number is the number of
fan-outs there were. -/
def startFanOut (worker : Worker) (numOperations : ℕ) : Worker :=
  { worker with fanOuts := worker.fanOuts ++ [{ group := { target := numOperations } }] }

/-- One operation of a fan-out is over: whether this makes the caller its
leader. -/
def finishOne (worker : Worker) (n : ℕ) : Bool × Worker :=
  match worker.fanOuts[n]? with
  | none => (false, worker)
  | some fanOut =>
      let (leader, group) := fanOut.group.finishOne
      (leader, { worker with
        fanOuts := worker.fanOuts.set n { fanOut with group := group } })

def postRenewals (worker : Worker) (leases : List Lease)
    (options : RenewLeaseOptions) (caller : ℕ → Caller) : Worker :=
  (worker.startFanOut leases.length).spawn
    (leases.map fun lease =>
      .decideRenewal lease options (caller worker.fanOuts.length))

/-- The answer to the listing of `LeaseRenewer::initialize`. -/
def onListedForInitialize (worker : Worker) :
    Except DynamoDBErrors (List Lease) → Worker
  | .error e => worker.answer (.ofInitialize (.error e))
  | .ok leases =>
      if leases.isEmpty then worker.answer (.ofInitialize (.ok ()))
      else worker.postRenewals leases { renewEvenIfExpired := true } .inInitialize

/-- The message of `LeaseRenewer::renewLeases`. -/
def onRenewLeases (worker : Worker) : Worker :=
  worker.postRenewals worker.ownedLeases.toList {} .inRenewLeases

/-- What `initialize` does with a lease that has been renewed. -/
def insertRenewed (worker : Worker) : RenewLeaseOutcome → Worker
  | .ok result =>
      if result.renewed then
        worker.withRenewer
          (worker.coordinator.renewer.safeInsertLease result.lease)
      else worker
  | .error _ => worker

/-- The callbacks that `initialize` and `renewLeases` give to a renewal. -/
def onRenewalOver (worker : Worker) (outcome : RenewLeaseOutcome) :
    Caller → Worker
  | .inInitialize n =>
      match (worker.insertRenewed outcome).finishOne n with
      | (true, worker) =>
          (worker.withRenewer
            (worker.coordinator.renewer.addLeasesToRenew
              worker.ownedLeases.toList)).answer (.ofInitialize (.ok ()))
      | (false, worker) => worker
  | .inRenewLeases n =>
      match worker.finishOne n with
      | (true, worker) => worker.answer .ofRenewLeases
      | (false, worker) => worker

/-- The message of `LeaseRenewer::renewLease`. -/
def onDecideRenewal (worker : Worker) (now : NanosecondPoint) (lease : Lease)
    (options : RenewLeaseOptions) (caller : Caller) : Worker :=
  if worker.coordinator.renewer.shouldRenew options now lease then
    worker.spawn [.renewal lease caller]
  else
    (worker.withRenewer (worker.coordinator.renewer.dropLease lease)).onRenewalOver
      (LeaseRenewer.notRenewed lease) caller

def onRenewed (worker : Worker) (lease : Lease) (outcome : RenewLeaseOutcome)
    (caller : Caller) : Worker :=
  (worker.withRenewer
    (worker.coordinator.renewer.onRenewLease lease outcome)).onRenewalOver
      outcome caller

/-- What `LeaseTaker::takeLeases` answers, and what `LeaseCoordinator::runTaker`
does with it. An error runs into its `CHECK`. -/
def onTakeLeases (worker : Worker)
    (outcome : Except DynamoDBErrors (List Lease)) : Worker :=
  let worker := worker.answer (.ofTakeLeases outcome)
  match outcome with
  | .error _ => { worker with alive := false }
  | .ok leases => worker.withRenewer (worker.coordinator.onTakeLeases leases)

/-- The answer to the listing of `LeaseTaker::takeLeases`. -/
def onListedForTaker (worker : Worker) (now : NanosecondPoint)
    (shuffle : RandomShuffle) : Except DynamoDBErrors (List Lease) → Worker
  | .error e => worker.onTakeLeases (.error e)
  | .ok updatedLeases =>
      let taker := worker.coordinator.taker.updateAllLeases now updatedLeases
      let leasesToTake := taker.computeLeasesToTake shuffle taker.getExpiredLeases
      let worker := worker.withTaker taker
      if leasesToTake.isEmpty then worker.onTakeLeases (.ok [])
      else
        (worker.startFanOut leasesToTake.length).spawn
          (leasesToTake.map fun lease => .take lease worker.fanOuts.length)

/-- The leases that a fan-out of takes has taken, with one more answer. -/
def takenWith (worker : Worker) (n : ℕ)
    (outcome : Except DynamoDBErrors TakeLeaseResult) : List Lease :=
  LeaseTaker.onTakeLease
    ((worker.fanOuts[n]?.map fun fanOut => fanOut.takenLeases).getD []) outcome

def withTakenLeases (worker : Worker) (n : ℕ) (leases : List Lease) : Worker :=
  { worker with
    fanOuts := worker.fanOuts.modify n fun fanOut =>
      { fanOut with takenLeases := leases } }

def onTaken (worker : Worker) (outcome : Except DynamoDBErrors TakeLeaseResult)
    (n : ℕ) : Worker :=
  let leases := worker.takenWith n outcome
  match (worker.withTakenLeases n leases).finishOne n with
  | (true, worker) => worker.onTakeLeases (.ok leases)
  | (false, worker) => worker

/-- Carry a task of the worker a step further. The task has been taken from the
list of tasks. A request is served whether or not the process still lives; a
message or an answer needs the process. -/
def advance (manager : LeaseManager) (dynamo : Service) (input : Input)
    (worker : Worker) (tbl : Table) : Task → Option (Worker × Table)
  | .listForInitialize =>
      let answer := serve input.fate
        (fun tbl =>
          (tbl, manager.listLeases dynamo input.order input.errno tbl)) tbl
      some (worker.spawn [.listedForInitialize answer.2], answer.1)
  | .listForTaker =>
      let answer := serve input.fate
        (fun tbl =>
          (tbl, manager.listLeases dynamo input.order input.errno tbl)) tbl
      some (worker.spawn [.listedForTaker answer.2], answer.1)
  | .renewal lease caller =>
      let answer := serve input.fate (manager.renewLease dynamo lease) tbl
      some (worker.spawn [.renewed lease answer.2 caller], answer.1)
  | .take lease n =>
      let answer := serve input.fate
        (manager.takeLease dynamo lease worker.coordinator.taker.workerID) tbl
      some (worker.spawn [.taken answer.2 n], answer.1)
  | task =>
      if worker.alive then
        match task with
        | .postedInitialize => some (worker.spawn [.listForInitialize], tbl)
        | .listedForInitialize outcome =>
            some (worker.onListedForInitialize outcome, tbl)
        | .listedForTaker outcome =>
            some (worker.onListedForTaker input.now input.shuffle outcome, tbl)
        | .postedRenewLeases => some (worker.onRenewLeases, tbl)
        | .decideRenewal lease options caller =>
            some (worker.onDecideRenewal input.now lease options caller, tbl)
        | .renewed lease outcome caller =>
            some (worker.onRenewed lease outcome caller, tbl)
        | .taken outcome n => some (worker.onTaken outcome n, tbl)
        | _ => none
      else none

theorem coordinator_finishOne (worker : Worker) (n : ℕ) :
    (worker.finishOne n).2.coordinator = worker.coordinator := by
  unfold finishOne
  cases worker.fanOuts[n]? <;> rfl

theorem finishOne_withTakenLeases_fst (worker : Worker) (n : ℕ)
    (leases : List Lease) :
    ((worker.withTakenLeases n leases).finishOne n).1 =
      (worker.finishOne n).1 := by
  unfold finishOne withTakenLeases
  simp only [List.getElem?_modify_eq]
  cases worker.fanOuts[n]? <;> rfl

end Worker

/-- What a worker does: it calls `LeaseRenewer::initialize`,
`LeaseCoordinator::runTaker` or `LeaseRenewer::renewLeases`, its running flag is
set, or its task number `i` goes a step further. -/
inductive WorkerStep where
  | callInitialize
  | callRunTaker
  | callRenewLeases
  | setRunning (isCurrentlyRunning : Bool)
  | advance (i : ℕ) (input : Input)

namespace Worker

def step (manager : LeaseManager) (dynamo : Service) (worker : Worker)
    (tbl : Table) : WorkerStep → Option (Worker × Table)
  | .callInitialize =>
      if worker.alive then some (worker.spawn [.postedInitialize], tbl) else none
  | .callRunTaker =>
      if worker.alive then some (worker.spawn [.listForTaker], tbl) else none
  | .callRenewLeases =>
      if worker.alive then some (worker.spawn [.postedRenewLeases], tbl)
      else none
  | .setRunning isCurrentlyRunning =>
      if worker.alive then
        some ({ worker with
          coordinator :=
            { worker.coordinator with running := isCurrentlyRunning } }, tbl)
      else none
  | .advance i input =>
      worker.tasks[i]?.bind fun task =>
        { worker with tasks := worker.tasks.eraseIdx i }.advance manager dynamo
          input tbl task

end Worker

/-- The workers and the table they share. -/
structure WorkerSystem where
  tbl : Table
  workers : LeaseOwner → Worker

namespace WorkerSystem

def step (manager : LeaseManager) (dynamo : Service) (s : WorkerSystem)
    (label : LeaseOwner × WorkerStep) : Option WorkerSystem :=
  ((s.workers label.1).step manager dynamo s.tbl label.2).map fun next =>
    { tbl := next.2, workers := Function.update s.workers label.1 next.1 }

end WorkerSystem

end Leases

end Kclpp
