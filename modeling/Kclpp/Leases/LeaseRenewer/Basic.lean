import Kclpp.Leases.LeaseManager.Basic
import Kclpp.Leases.LeaseMap

/-!
# The lease renewer

The leases a worker believes it holds, and the callbacks that change them. A
renewal has two moments that the event loop runs at different times: the
decision, which reads the clock, and the answer of the store. They are separate
functions here; `renewLease` puts them together for a renewal that nothing else
of this worker comes between, and `renewLeases` makes a round of them.
`RoundConditions` is what a round meets on its way.
-/

open OrderedMap

namespace Kclpp

namespace Leases

open Clock Dynamo Lease

/-- `LeaseRenewer`, its parameters and its state. -/
structure LeaseRenewer where
  workerID : LeaseOwner
  leaseDuration : NanosecondDuration
  ownedLeases : LeaseMap

structure RenewLeaseOptions where
  renewEvenIfExpired : Bool := false
  deriving DecidableEq, Repr

abbrev RenewLeaseOutcome := Except DynamoDBErrors RenewLeaseResult

/-- What happens around the operations of one round, by the key of the lease
that is operated on: the clock when the operation is decided on, what others
write before the store serves it, and the error of a request that the store does
not serve. -/
structure RoundConditions where
  now : LeaseKey → NanosecondPoint
  meanwhile : LeaseKey → Table → Table
  refuses : LeaseKey → Option DynamoDBErrors

/-- A round at which the clock stands still, nobody else writes and the store
serves every request. -/
def RoundConditions.quiet (now : NanosecondPoint) : RoundConditions where
  now := fun _ => now
  meanwhile := fun _ tbl => tbl
  refuses := fun _ => none

namespace LeaseRenewer

/-- One step of `LeaseRenewer::addLeasesToRenew`. -/
def addLeaseToRenew (ownedLeases : LeaseMap) (lease : Lease) : LeaseMap :=
  match lease.lastCounterIncrementNanoseconds with
  | none => ownedLeases
  | some _ => ownedLeases.insert lease.copyWithNewConcurrencyToken

def addLeasesToRenew (renewer : LeaseRenewer) (leases : List Lease) :
    LeaseRenewer :=
  { renewer with
    ownedLeases := leases.foldl addLeaseToRenew renewer.ownedLeases }

def clearHeldLeases (renewer : LeaseRenewer) : LeaseRenewer :=
  { renewer with ownedLeases := .empty }

/-- `LeaseRenewer::dropLease`. It drops whatever is held under the key. -/
def dropLease (renewer : LeaseRenewer) (lease : Lease) : LeaseRenewer :=
  { renewer with ownedLeases := renewer.ownedLeases.erase lease.leaseKey }

def replaceRenewedLease (renewer : LeaseRenewer) (lease : Lease) :
    LeaseRenewer :=
  { renewer with ownedLeases := renewer.ownedLeases.insertOrUpdate lease }

def safeInsertLease (renewer : LeaseRenewer) (lease : Lease) : LeaseRenewer :=
  { renewer with ownedLeases := renewer.ownedLeases.insertOrUpdate lease }

/-- The decision of `LeaseRenewer::renewLease`. -/
def shouldRenew (renewer : LeaseRenewer) (options : RenewLeaseOptions)
    (rightNow : NanosecondPoint) (lease : Lease) : Bool :=
  options.renewEvenIfExpired || !lease.isExpired renewer.leaseDuration rightNow

/-- What `LeaseRenewer::renewLease` does when the store has answered. -/
def onRenewLease (renewer : LeaseRenewer) (lease : Lease) :
    RenewLeaseOutcome → LeaseRenewer
  | .ok result => renewer.replaceRenewedLease result.lease
  | .error _ => renewer.dropLease lease

/-- What `LeaseRenewer::renewLease` answers when it does not renew. -/
def notRenewed (lease : Lease) : RenewLeaseOutcome :=
  .ok { renewed := false, lease := lease }

def getCopyOfHeldLease (renewer : LeaseRenewer) (key : LeaseKey)
    (nowTime : NanosecondPoint) : Option Lease :=
  match renewer.ownedLeases.get key with
  | none => none
  | some foundLease =>
      if foundLease.isExpired renewer.leaseDuration nowTime then none
      else some foundLease

/-- `LeaseRenewer::getCurrentlyHeldLease`, at what the clock says. -/
def getCurrentlyHeldLease (renewer : LeaseRenewer) (now : NanosecondPoint)
    (key : LeaseKey) : Option Lease :=
  renewer.getCopyOfHeldLease key now

/-- What `LeaseRenewer::updateLease` comes to when it is called: a failed
`DCHECK`, an answer that nothing was updated, or a request to the store. -/
inductive UpdateStart where
  | dies
  | refused
  | requests
  deriving DecidableEq, Repr

/-- `LeaseRenewer::updateLease`, up to the request it sends. `dchecks` says
whether `DCHECK` is compiled in. -/
def startUpdate (renewer : LeaseRenewer) (dchecks : Bool) (lease : Lease)
    (token : ConcurrencyToken) : UpdateStart :=
  if dchecks ∧ lease.concurrencyToken ≠ some token then .dies
  else
    match renewer.ownedLeases.get lease.leaseKey with
    | none => .refused
    | some authoritative =>
        match authoritative.concurrencyToken with
        | some held => if held ≠ token then .refused else .requests
        | none => .requests

/-- What `LeaseRenewer::updateLease` answers when it sends no request. -/
def notUpdated (lease : Lease) : Except DynamoDBErrors UpdateLeaseResult :=
  .ok { updated := false, lease := lease }

/-- What `LeaseRenewer::updateLease` does when the store has answered. -/
def onUpdateLease (renewer : LeaseRenewer) :
    Except DynamoDBErrors UpdateLeaseResult → LeaseRenewer
  | .error _ => renewer
  | .ok result =>
      if result.updated then renewer.safeInsertLease result.lease else renewer

/-- What the store makes of an update request, which it may refuse with an
error. -/
def serveUpdate (dynamo : Service) (refused : Option DynamoDBErrors)
    (lease : Lease) (tbl : Table) :
    Table × Except DynamoDBErrors UpdateLeaseResult :=
  match refused with
  | some e => (tbl, .error e)
  | none => LeaseManager.updateLease dynamo lease tbl

/-- `LeaseRenewer::updateLease`, from the call to the callback, where nothing else
of this worker comes between; `none` where a `DCHECK` fails. -/
def updateLease (dchecks : Bool) (dynamo : Service)
    (refused : Option DynamoDBErrors) (renewer : LeaseRenewer) (lease : Lease)
    (token : ConcurrencyToken) (tbl : Table) :
    Option (LeaseRenewer × Table × Except DynamoDBErrors UpdateLeaseResult) :=
  match renewer.startUpdate dchecks lease token with
  | .dies => none
  | .refused => some (renewer, tbl, notUpdated lease)
  | .requests =>
      let answer := serveUpdate dynamo refused lease tbl
      some (renewer.onUpdateLease answer.2, answer.1, answer.2)

/-- What the store makes of a renewal request, under the conditions of the
round. -/
def serveRenewal (manager : LeaseManager) (dynamo : Service)
    (conditions : RoundConditions) (lease : Lease) (tbl : Table) :
    Table × RenewLeaseOutcome :=
  let tbl := conditions.meanwhile lease.leaseKey tbl
  match conditions.refuses lease.leaseKey with
  | some e => (tbl, .error e)
  | none => manager.renewLease dynamo lease tbl

/-- The state a round runs over: the renewer, the table and what the renewals
have answered so far, latest first. -/
structure RoundState where
  renewer : LeaseRenewer
  tbl : Table
  outcomes : List (LeaseKey × RenewLeaseOutcome) := []

/-- `LeaseRenewer::renewLease`, from the decision to the callback. -/
def renewLease (manager : LeaseManager) (dynamo : Service)
    (conditions : RoundConditions) (options : RenewLeaseOptions)
    (s : RoundState) (lease : Lease) : RoundState :=
  if s.renewer.shouldRenew options (conditions.now lease.leaseKey) lease then
    let answer := serveRenewal manager dynamo conditions lease s.tbl
    { renewer := s.renewer.onRenewLease lease answer.2
      tbl := answer.1
      outcomes := (lease.leaseKey, answer.2) :: s.outcomes }
  else
    { renewer := s.renewer.dropLease lease
      tbl := s.tbl
      outcomes := (lease.leaseKey, notRenewed lease) :: s.outcomes }

/-- `LeaseRenewer::renewLeases`: one round over the leases that are held when it
starts. -/
def renewLeases (manager : LeaseManager) (dynamo : Service)
    (conditions : RoundConditions) (renewer : LeaseRenewer) (tbl : Table) :
    RoundState :=
  renewer.ownedLeases.toList.foldl
    (renewLease manager dynamo conditions {}) { renewer, tbl }

end LeaseRenewer

end Leases

end Kclpp
