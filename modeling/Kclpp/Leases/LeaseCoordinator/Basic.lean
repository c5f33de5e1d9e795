import Kclpp.Leases.LeaseRenewer.Basic
import Kclpp.Leases.LeaseTaker.Basic

/-!
# The lease coordinator

The coordinator owns a taker and a renewer and runs a round of each from its
timers. A `CHECK` that fails ends the process; a round in which one does is
`none`.
-/

namespace Kclpp

namespace Leases

open Clock Dynamo

/-- `LeaseCoordinator`: the running flag, the taker and the renewer. -/
structure LeaseCoordinator where
  running : Bool
  taker : LeaseTaker
  renewer : LeaseRenewer

namespace LeaseCoordinator

/-- What `LeaseCoordinator::runTaker` does with the leases that were taken. -/
def onTakeLeases (coordinator : LeaseCoordinator) (leases : List Lease) :
    LeaseRenewer :=
  if coordinator.running then coordinator.renewer.addLeasesToRenew leases
  else coordinator.renewer

def getCurrentlyHeldLease (coordinator : LeaseCoordinator)
    (now : NanosecondPoint) (key : LeaseKey) : Option Lease :=
  coordinator.renewer.getCurrentlyHeldLease now key

def updateLease (dchecks : Bool) (dynamo : Service)
    (refused : Option DynamoDBErrors) (coordinator : LeaseCoordinator)
    (lease : Lease) (token : ConcurrencyToken) (tbl : Table) :
    Option (LeaseCoordinator × Table ×
      Except DynamoDBErrors UpdateLeaseResult) :=
  (coordinator.renewer.updateLease dchecks dynamo refused lease token tbl).map
    fun answer => ({ coordinator with renewer := answer.1 }, answer.2)

/-- `LeaseCoordinator::runTaker`: the coordinator and the table after the round,
and the leases taken in it. -/
def runTaker (manager : LeaseManager) (dynamo : Service)
    (conditions : TakerConditions) (coordinator : LeaseCoordinator)
    (tbl : Table) : Option (LeaseCoordinator × Table × List Lease) :=
  match coordinator.taker.takeLeases manager dynamo conditions tbl with
  | (_, _, .error _) => none
  | (taker, tbl, .ok leases) =>
      some ({ coordinator with
        taker := taker
        renewer := coordinator.onTakeLeases leases }, tbl, leases)

/-- `LeaseCoordinator::runRenewer`. The outcome of a round of renewals is always
a success, so its `CHECK`s never fail. -/
def runRenewer (manager : LeaseManager) (dynamo : Service)
    (conditions : RoundConditions) (coordinator : LeaseCoordinator)
    (tbl : Table) : LeaseCoordinator × Table :=
  let s := coordinator.renewer.renewLeases manager dynamo conditions tbl
  ({ coordinator with renewer := s.renewer }, s.tbl)

theorem runTaker_eq_some_iff (manager : LeaseManager) (dynamo : Service)
    (conditions : TakerConditions) (coordinator after : LeaseCoordinator)
    (tbl tbl' : Table) (taken : List Lease) :
    coordinator.runTaker manager dynamo conditions tbl =
        some (after, tbl', taken) ↔
      ∃ updatedLeases,
        LeaseTaker.scanLeases manager dynamo conditions tbl = .ok updatedLeases ∧
        let taker :=
          coordinator.taker.updateAllLeases conditions.scanTime updatedLeases
        let s := taker.takeScannedLeases manager dynamo conditions tbl
        after = { coordinator with
          taker := taker
          renewer := coordinator.onTakeLeases s.takenLeases } ∧
          tbl' = s.tbl ∧ taken = s.takenLeases := by
  unfold runTaker LeaseTaker.takeLeases
  cases LeaseTaker.scanLeases manager dynamo conditions tbl with
  | error e => simp
  | ok updatedLeases =>
      simp only [Option.some.injEq, Prod.mk.injEq, Except.ok.injEq,
        exists_eq_left']
      rw [eq_comm, eq_comm (a := LeaseTaker.TakeState.tbl _),
        eq_comm (a := LeaseTaker.TakeState.takenLeases _)]

end LeaseCoordinator

end Leases

end Kclpp
