import Kclpp.Leases.LeaseCoordinator.Workers
import Kclpp.Leases.LeaseManager.Calls

/-!
# The event loop of one worker

A `LeaseRenewer` and a `LeaseTaker` on one event loop, with every operation that
their callers have. A call is named by the time at which it is made. Between the
call and its callback its messages, requests and answers are tasks, any of which
may go next; a renewal remembers when `renewLease` was called for it and whose
callback it runs. Next to the state of the code there is its history: the calls
that have been made, when a lease was last removed from `ownedLeases`, and the
tokens that `addLeasesToRenew` has left under a key.
-/

namespace Kclpp

namespace Leases

open Clock Dynamo Util

namespace LeaseProcess

/-- The function whose callback a renewal runs: its caller's own, or that of the
`initialize` or `renewLeases` call it is part of. -/
inductive Caller where
  | user
  | inInitialize (call : ℕ)
  | inRenewLeases (call : ℕ)
  deriving DecidableEq, Repr

/-- A call of `LeaseRenewer::renewLease`. -/
structure Renewal where
  lease : Lease
  issued : ℕ
  caller : Caller
  deriving DecidableEq, Repr

def Renewal.call (renewal : Renewal) : ℕ :=
  match renewal.caller with
  | .user => renewal.issued
  | .inInitialize call => call
  | .inRenewLeases call => call

/-- A posted message, a request on its way to the store, or an answer on its way
back. -/
inductive Task where
  | postedInitialize (call : ℕ)
  | listForInitialize (call : ℕ)
  | listedForInitialize (call : ℕ) (outcome : Except DynamoDBErrors (List Lease))
  | postedRenewLeases (call : ℕ)
  | decideRenewal (renewal : Renewal) (options : RenewLeaseOptions)
  | renewal (renewal : Renewal)
  | renewed (renewal : Renewal) (outcome : RenewLeaseOutcome)
  | update (call : ℕ) (lease : Lease)
  | updated (call : ℕ) (outcome : Except DynamoDBErrors UpdateLeaseResult)
  | listForTaker (call : ℕ)
  | listedForTaker (call : ℕ) (outcome : Except DynamoDBErrors (List Lease))
  | take (call : ℕ) (lease : Lease)
  | taken (call : ℕ) (outcome : Except DynamoDBErrors TakeLeaseResult)
  deriving DecidableEq

/-- What a call answers to its callback. -/
inductive Answer where
  | ofInitialize (outcome : Except DynamoDBErrors Unit)
  | ofRenewLeases
  | ofRenewLease (outcome : RenewLeaseOutcome)
  | ofUpdateLease (outcome : Except DynamoDBErrors UpdateLeaseResult)
  | ofTakeLeases (outcome : Except DynamoDBErrors (List Lease))
  deriving DecidableEq

/-- What has happened, for the record: the calls, when the lease under a key was
last removed, and the tokens that `addLeasesToRenew` has left under a key, latest
first. -/
structure History where
  calls : List ℕ := []
  removedAt : LeaseKey → Option ℕ := fun _ => none
  acquired : LeaseKey → List (Option ConcurrencyToken) := fun _ => []

end LeaseProcess

/-- The renewer and the taker of a worker, its tasks, the part of every fan-out
that its callbacks share, the answers, latest first, and whether the process is
alive, which a failed `DCHECK` ends. -/
structure LeaseProcess where
  renewer : LeaseRenewer
  taker : LeaseTaker
  tasks : List LeaseProcess.Task := []
  fanOuts : ℕ → FanOut := fun _ => { group := { target := 0 } }
  answers : List (ℕ × LeaseProcess.Answer) := []
  alive : Bool := true
  time : ℕ := 0
  history : LeaseProcess.History := {}

namespace LeaseProcess

def ownedLeases (p : LeaseProcess) : LeaseMap := p.renewer.ownedLeases

def withRenewer (p : LeaseProcess) (renewer : LeaseRenewer) : LeaseProcess :=
  { p with renewer := renewer }

def withTaker (p : LeaseProcess) (taker : LeaseTaker) : LeaseProcess :=
  { p with taker := taker }

def spawn (p : LeaseProcess) (tasks : List Task) : LeaseProcess :=
  { p with tasks := p.tasks ++ tasks }

def answer (p : LeaseProcess) (call : ℕ) (answer : Answer) : LeaseProcess :=
  { p with answers := (call, answer) :: p.answers }

def startFanOut (p : LeaseProcess) (call numOperations : ℕ) : LeaseProcess :=
  { p with
    fanOuts := Function.update p.fanOuts call
      { group := { target := numOperations } } }

/-- Whether the next operation of the fan-out that is over leads it. -/
def leads (p : LeaseProcess) (call : ℕ) : Bool :=
  (p.fanOuts call).group.finishOne.1

def finishOne (p : LeaseProcess) (call : ℕ) : LeaseProcess :=
  { p with
    fanOuts := Function.update p.fanOuts call
      { p.fanOuts call with group := (p.fanOuts call).group.finishOne.2 } }

/-- One step of `LeaseRenewer::addLeasesToRenew`, with its record. -/
def acquire (p : LeaseProcess) (lease : Lease) : LeaseProcess :=
  match lease.lastCounterIncrementNanoseconds with
  | none => p
  | some _ =>
      let ownedLeases := LeaseRenewer.addLeaseToRenew p.ownedLeases lease
      let token :=
        (ownedLeases.get lease.leaseKey).bind fun held => held.concurrencyToken
      { p with
        renewer := { p.renewer with ownedLeases := ownedLeases }
        history := { p.history with
          acquired := Function.update p.history.acquired lease.leaseKey
            (token :: p.history.acquired lease.leaseKey) } }

/-- `LeaseRenewer::addLeasesToRenew`, with its record. -/
def addLeasesToRenew (p : LeaseProcess) (leases : List Lease) : LeaseProcess :=
  leases.foldl acquire p

/-- The calls of `renewLease` that a fan-out makes. -/
def postRenewals (p : LeaseProcess) (call : ℕ) (leases : List Lease)
    (options : RenewLeaseOptions) (caller : Caller) : LeaseProcess :=
  (p.startFanOut call leases.length).spawn
    (leases.map fun lease => .decideRenewal ⟨lease, p.time, caller⟩ options)

/-- The answer to the listing of `LeaseRenewer::initialize`. -/
def onListedForInitialize (p : LeaseProcess) (call : ℕ) :
    Except DynamoDBErrors (List Lease) → LeaseProcess
  | .error e => p.answer call (.ofInitialize (.error e))
  | .ok leases =>
      if leases.isEmpty then p.answer call (.ofInitialize (.ok ()))
      else
        p.postRenewals call leases { renewEvenIfExpired := true }
          (.inInitialize call)

/-- The message of `LeaseRenewer::renewLeases`. -/
def onRenewLeases (p : LeaseProcess) (call : ℕ) : LeaseProcess :=
  p.postRenewals call p.ownedLeases.toList {} (.inRenewLeases call)

/-- What `initialize` does with a lease that has been renewed. -/
def insertRenewed (p : LeaseProcess) : RenewLeaseOutcome → LeaseProcess
  | .ok result =>
      if result.renewed then
        p.withRenewer (p.renewer.safeInsertLease result.lease)
      else p
  | .error _ => p

theorem exists_insertRenewed_eq (p : LeaseProcess) (outcome : RenewLeaseOutcome) :
    ∃ renewer, p.insertRenewed outcome = p.withRenewer renewer := by
  cases outcome with
  | error e => exact ⟨p.renewer, rfl⟩
  | ok result =>
      unfold insertRenewed
      dsimp only
      split_ifs
      · exact ⟨_, rfl⟩
      · exact ⟨p.renewer, rfl⟩

/-- The end of a renewal of `initialize`. -/
def onInitializeRenewal (p : LeaseProcess) (call : ℕ) : LeaseProcess :=
  let finished := p.finishOne call
  if p.leads call then
    (finished.addLeasesToRenew finished.ownedLeases.toList).answer call
      (.ofInitialize (.ok ()))
  else finished

def onRenewalOver (p : LeaseProcess) (renewal : Renewal)
    (outcome : RenewLeaseOutcome) : LeaseProcess :=
  match renewal.caller with
  | .user => p.answer renewal.issued (.ofRenewLease outcome)
  | .inInitialize call => (p.insertRenewed outcome).onInitializeRenewal call
  | .inRenewLeases call =>
      if p.leads call then (p.finishOne call).answer call .ofRenewLeases
      else p.finishOne call

/-- The message of `LeaseRenewer::renewLease`. -/
def onDecideRenewal (p : LeaseProcess) (now : NanosecondPoint)
    (renewal : Renewal) (options : RenewLeaseOptions) : LeaseProcess :=
  if p.renewer.shouldRenew options now renewal.lease then
    p.spawn [.renewal renewal]
  else
    (p.withRenewer (p.renewer.dropLease renewal.lease)).onRenewalOver renewal
      (LeaseRenewer.notRenewed renewal.lease)

def onRenewed (p : LeaseProcess) (renewal : Renewal)
    (outcome : RenewLeaseOutcome) : LeaseProcess :=
  (p.withRenewer
    (p.renewer.onRenewLease renewal.lease outcome)).onRenewalOver renewal outcome

def onUpdated (p : LeaseProcess) (call : ℕ)
    (outcome : Except DynamoDBErrors UpdateLeaseResult) : LeaseProcess :=
  (p.withRenewer (p.renewer.onUpdateLease outcome)).answer call
    (.ofUpdateLease outcome)

/-- The answer to the listing of `LeaseTaker::takeLeases`. -/
def onListedForTaker (p : LeaseProcess) (call : ℕ) (now : NanosecondPoint)
    (shuffle : RandomShuffle) :
    Except DynamoDBErrors (List Lease) → LeaseProcess
  | .error e => p.answer call (.ofTakeLeases (.error e))
  | .ok updatedLeases =>
      let taker := p.taker.updateAllLeases now updatedLeases
      let leasesToTake := taker.computeLeasesToTake shuffle taker.getExpiredLeases
      let p := p.withTaker taker
      if leasesToTake.isEmpty then p.answer call (.ofTakeLeases (.ok []))
      else
        (p.startFanOut call leasesToTake.length).spawn
          (leasesToTake.map fun lease => .take call lease)

def withTakenLeases (p : LeaseProcess) (call : ℕ) (leases : List Lease) :
    LeaseProcess :=
  { p with
    fanOuts := Function.update p.fanOuts call
      { p.fanOuts call with takenLeases := leases } }

def onTaken (p : LeaseProcess) (call : ℕ)
    (outcome : Except DynamoDBErrors TakeLeaseResult) : LeaseProcess :=
  let leases := LeaseTaker.onTakeLease (p.fanOuts call).takenLeases outcome
  let p := p.withTakenLeases call leases
  if p.leads call then
    (p.finishOne call).answer call (.ofTakeLeases (.ok leases))
  else p.finishOne call

/-- Run a message, or the callback of an answer. -/
def handle (input : Input) (p : LeaseProcess) : Task → Option LeaseProcess
  | .postedInitialize call => some (p.spawn [.listForInitialize call])
  | .listedForInitialize call outcome =>
      some (p.onListedForInitialize call outcome)
  | .postedRenewLeases call => some (p.onRenewLeases call)
  | .decideRenewal renewal options =>
      some (p.onDecideRenewal input.now renewal options)
  | .renewed renewal outcome => some (p.onRenewed renewal outcome)
  | .updated call outcome => some (p.onUpdated call outcome)
  | .listedForTaker call outcome =>
      some (p.onListedForTaker call input.now input.shuffle outcome)
  | .taken call outcome => some (p.onTaken call outcome)
  | _ => none

def serveRequest (manager : LeaseManager) (dynamo : Service) (input : Input)
    (workerID : LeaseOwner) (tbl : Table) : Task → Option (Task × Table)
  | .listForInitialize call =>
      let answer := serve input.fate (fun tbl =>
        (tbl, manager.listLeases dynamo input.order input.errno tbl)) tbl
      some (.listedForInitialize call answer.2, answer.1)
  | .listForTaker call =>
      let answer := serve input.fate (fun tbl =>
        (tbl, manager.listLeases dynamo input.order input.errno tbl)) tbl
      some (.listedForTaker call answer.2, answer.1)
  | .renewal renewal =>
      let answer := serve input.fate (manager.renewLease dynamo renewal.lease) tbl
      some (.renewed renewal answer.2, answer.1)
  | .update call lease =>
      let answer := serve input.fate (LeaseManager.updateLease dynamo lease) tbl
      some (.updated call answer.2, answer.1)
  | .take call lease =>
      let answer :=
        serve input.fate (manager.takeLease dynamo lease workerID) tbl
      some (.taken call answer.2, answer.1)
  | _ => none

/-- What the worker's callers may call. -/
inductive Call where
  | addLeasesToRenew (leases : List Lease)
  | clearHeldLeases
  | dropLease (lease : Lease)
  | renewLease (lease : Lease) (options : RenewLeaseOptions)
  | renewLeases
  | initializeRenewer
  | updateLease (lease : Lease) (token : ConcurrencyToken)
  | takeLeases

/-- `LeaseRenewer::updateLease`, up to the request it sends. A failed `DCHECK`
ends the process. -/
def updateLease (dchecks : Bool) (p : LeaseProcess) (lease : Lease)
    (token : ConcurrencyToken) : LeaseProcess :=
  match p.renewer.startUpdate dchecks lease token with
  | .dies => { p with alive := false }
  | .refused =>
      p.answer p.time (.ofUpdateLease (LeaseRenewer.notUpdated lease))
  | .requests => p.spawn [.update p.time lease]

def call (dchecks : Bool) (p : LeaseProcess) : Call → LeaseProcess
  | .addLeasesToRenew leases => p.addLeasesToRenew leases
  | .clearHeldLeases => p.withRenewer p.renewer.clearHeldLeases
  | .dropLease lease => p.withRenewer (p.renewer.dropLease lease)
  | .renewLease lease options =>
      p.spawn [.decideRenewal ⟨lease, p.time, .user⟩ options]
  | .renewLeases => p.spawn [.postedRenewLeases p.time]
  | .initializeRenewer => p.spawn [.postedInitialize p.time]
  | .updateLease lease token => p.updateLease dchecks lease token
  | .takeLeases => p.spawn [.listForTaker p.time]

def Task.isRequest : Task → Bool
  | .listForInitialize _ => true
  | .listForTaker _ => true
  | .renewal _ => true
  | .update _ _ => true
  | .take _ _ => true
  | _ => false

/-- Take a task from the list. -/
def without (p : LeaseProcess) (i : ℕ) : LeaseProcess :=
  { p with tasks := p.tasks.eraseIdx i }

/-- Carry a task a step further. A request is served whether or not the process
still lives; a message or an answer needs the process. -/
def advance (manager : LeaseManager) (dynamo : Service) (input : Input)
    (p : LeaseProcess) (i : ℕ) (task : Task) (tbl : Table) :
    Option (LeaseProcess × Table) :=
  if task.isRequest then
    (serveRequest manager dynamo input p.taker.workerID tbl task).map
      fun served => ((p.without i).spawn [served.1], served.2)
  else if p.alive then
    ((p.without i).handle input task).map fun next => (next, tbl)
  else none

def Call.hasCallback : Call → Bool
  | addLeasesToRenew _ => false
  | clearHeldLeases => false
  | dropLease _ => false
  | _ => true

/-- Let the time go on, and keep the record of the call that has been made, if
there is one, and of the leases that are no longer held. -/
def record (called : Bool) (before after : LeaseProcess) : LeaseProcess :=
  { after with
    time := before.time + 1
    history := { after.history with
      calls := if called then before.time :: before.history.calls
        else before.history.calls
      removedAt := fun key =>
        if before.ownedLeases.get key ≠ none ∧
            after.ownedLeases.get key = none then
          some before.time
        else before.history.removedAt key } }

/-- A process and the table, which others write too. -/
structure System where
  process : LeaseProcess
  tbl : Table

/-- What happens next: a call, a task that goes a step further, or a write of
somebody else. -/
inductive Step where
  | call (call : Call)
  | advance (i : ℕ) (input : Input)
  | elsewhere (tbl : Table)

def System.step (manager : LeaseManager) (dynamo : Service) (dchecks : Bool)
    (s : System) : Step → Option System
  | .call call =>
      if s.process.alive then
        let next := s.process.call dchecks call
        some { s with
          process := record (call.hasCallback && next.alive) s.process next }
      else none
  | .advance i input =>
      s.process.tasks[i]?.bind fun task =>
        (s.process.advance manager dynamo input i task s.tbl).map fun next =>
          { process := record false s.process next.1, tbl := next.2 }
  | .elsewhere tbl =>
      some { process := record false s.process s.process, tbl := tbl }

theorem advance_eq_some {manager : LeaseManager} {dynamo : Service} {input : Input}
    {p : LeaseProcess} {i : ℕ} {task : Task} {tbl : Table}
    {next : LeaseProcess × Table}
    (h : p.advance manager dynamo input i task tbl = some next) :
    (∃ answer tbl', task.isRequest = true ∧
      serveRequest manager dynamo input p.taker.workerID tbl task =
        some (answer, tbl') ∧
      next = ((p.without i).spawn [answer], tbl')) ∨
    ∃ p', p.alive = true ∧ (p.without i).handle input task = some p' ∧
      next = (p', tbl) := by
  unfold advance at h
  split_ifs at h with hrequest halive
  · obtain ⟨⟨answer, tbl'⟩, hanswer, heq⟩ := Option.map_eq_some_iff.mp h
    exact Or.inl ⟨answer, tbl', hrequest, hanswer, heq.symm⟩
  · obtain ⟨p', hp', heq⟩ := Option.map_eq_some_iff.mp h
    exact Or.inr ⟨p', halive, hp', heq.symm⟩

theorem step_eq_some {manager : LeaseManager} {dynamo : Service} {dchecks : Bool}
    {s s' : System} {step : Step}
    (h : s.step manager dynamo dchecks step = some s') :
    (∃ call, step = .call call ∧ s.process.alive = true ∧ s'.tbl = s.tbl ∧
      s'.process = record
        (call.hasCallback && (s.process.call dchecks call).alive) s.process
        (s.process.call dchecks call)) ∨
    (∃ i input task next, step = .advance i input ∧
      s.process.tasks[i]? = some task ∧
      s.process.advance manager dynamo input i task s.tbl = some next ∧
      s'.tbl = next.2 ∧ s'.process = record false s.process next.1) ∨
    ∃ tbl, step = .elsewhere tbl ∧ s'.tbl = tbl ∧
      s'.process = record false s.process s.process := by
  cases step with
  | call call =>
      simp only [System.step] at h
      split_ifs at h with halive
      cases h
      exact Or.inl ⟨call, rfl, halive, rfl, rfl⟩
  | advance i input =>
      obtain ⟨task, htask, hadvance⟩ := Option.bind_eq_some_iff.mp h
      obtain ⟨next, hnext, rfl⟩ := Option.map_eq_some_iff.mp hadvance
      exact Or.inr (Or.inl ⟨i, input, task, next, rfl, htask, hnext, rfl, rfl⟩)
  | elsewhere tbl =>
      cases h
      exact Or.inr (Or.inr ⟨tbl, rfl, rfl, rfl⟩)

/-- A process that has just been started. -/
structure Fresh (p : LeaseProcess) : Prop where
  tasks : p.tasks = []
  answers : p.answers = []
  alive : p.alive = true
  calls : p.history.calls = []
  owned : ∀ key, p.ownedLeases.get key = none
  removed : ∀ key, p.history.removedAt key = none
  acquired : ∀ key, p.history.acquired key = []

def sampleInput : Input where
  now := ⟨5⟩
  order := ["shard-1"]
  errno := 0
  shuffle := .identity
  fate := .served

/-- A process of worker a that has just been started, and the table of
`sampleLease`. -/
def sampleStart : System where
  process :=
    { renewer :=
        { workerID := ⟨"worker-a"⟩, leaseDuration := ⟨10⟩, ownedLeases := .empty }
      taker := { workerID := ⟨"worker-a"⟩ } }
  tbl := sampleTable

def sampleHeld : Lease :=
  { sampleLease with lastCounterIncrementNanoseconds := some ⟨0⟩ }

def sampleUnder (token : ConcurrencyToken) : Lease :=
  { sampleHeld with concurrencyToken := some token }

theorem fresh_sampleStart : sampleStart.process.Fresh where
  tasks := rfl
  answers := rfl
  alive := rfl
  calls := rfl
  owned := LeaseMap.get_empty
  removed _ := rfl
  acquired _ := rfl

end LeaseProcess

end Leases

end Kclpp
