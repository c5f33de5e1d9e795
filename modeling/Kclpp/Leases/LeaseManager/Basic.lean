import Kclpp.Leases.DynamoHelpers

/-!
# The lease manager

Each operation builds one request, the service answers it, and the callback
turns the answer into a result. The request and the callback are translated
here around the service's answer, so an operation is a function of the table it
meets.
-/

open Std OrderedMap

namespace Kclpp

namespace Leases

open Dynamo Util Lease

/-- `LeaseManager`, with the table its requests name. -/
structure LeaseManager where
  tableName : TableName
  deriving DecidableEq, Repr

structure CreateLeaseIfNotExistsResult where
  created : Bool := false
  lease : Option Lease := none
  deriving DecidableEq, Repr

structure RenewLeaseResult where
  renewed : Bool := false
  lease : Lease
  deriving DecidableEq, Repr

structure EvictLeaseResult where
  evicted : Bool := false
  deriving DecidableEq, Repr

structure TakeLeaseResult where
  taken : Bool := false
  lease : Lease
  deriving DecidableEq, Repr

structure UpdateLeaseResult where
  updated : Bool := false
  lease : Lease
  deriving DecidableEq, Repr

structure DeleteLeaseResult where
  deleted : Bool := false
  deriving DecidableEq, Repr

namespace LeaseManager

/-- `LeaseManager::createLeaseIfNotExists`. A failed condition is an answer, and
not an error: the lease is there already. -/
def createLeaseIfNotExists (manager : LeaseManager) (dynamo : Service)
    (lease : Lease) (tbl : Table) :
    Table × Except DynamoDBErrors CreateLeaseIfNotExistsResult :=
  let request : PutItemRequest :=
    { tableName := some manager.tableName
      item := lease.toDynamoDict
      expected := (∅ : ExpectedMap).insertIfNew "leaseKey" .notExists }
  match dynamo.putItem request tbl with
  | (tbl', .ok ()) => (tbl', .ok { created := true, lease := some lease })
  | (tbl', .error .conditionalCheckFailed) => (tbl', .ok { created := false })
  | (tbl', .error e) => (tbl', .error e)

def internalUpdateLease (manager : LeaseManager) (dynamo : Service)
    (lease : Lease) (updateParams : UpdateLeaseParams) (tbl : Table) :
    Table × Except DynamoDBErrors Unit :=
  dynamo.updateItem
    { tableName := some manager.tableName
      key := makeLeaseKey lease
      expected := makeCASExpectation lease
      attributeUpdates := makeUpdateValues lease updateParams } tbl

def renewLease (manager : LeaseManager) (dynamo : Service) (lease : Lease)
    (tbl : Table) : Table × Except DynamoDBErrors RenewLeaseResult :=
  let answer := manager.internalUpdateLease dynamo lease {} tbl
  (answer.1, answer.2.map fun _ =>
    { renewed := true, lease := lease.copySharedWithIncrementedCounter })

def evictLease (manager : LeaseManager) (dynamo : Service) (lease : Lease)
    (tbl : Table) : Table × Except DynamoDBErrors EvictLeaseResult :=
  let answer :=
    manager.internalUpdateLease dynamo lease { setOwnerToNull := true } tbl
  (answer.1, answer.2.map fun _ => { evicted := true })

def takeLease (manager : LeaseManager) (dynamo : Service) (lease : Lease)
    (newOwner : LeaseOwner) (tbl : Table) :
    Table × Except DynamoDBErrors TakeLeaseResult :=
  let answer :=
    manager.internalUpdateLease dynamo lease { newOwner := some newOwner } tbl
  (answer.1, answer.2.map fun _ => { taken := true, lease := lease })

def insertCheckpointUpdate {c : StringProxyClass} (toUpdate : UpdateMap)
    (name : String) : Option (StringProxy c) → UpdateMap
  | some value => toUpdate.insertIfNew name (.withValue (.s value.value))
  | none => toUpdate

/-- The attribute updates of `LeaseManager::updateLease`. -/
def checkpointUpdates (lease : Lease) : UpdateMap :=
  insertCheckpointUpdate
    (insertCheckpointUpdate (makeUpdateValues lease) "checkpoint"
      lease.checkpointID)
    "checkpointSubSequenceNumber" lease.subCheckpointID

/-- `LeaseManager::updateLease`. Its request names no table. -/
def updateLease (dynamo : Service) (lease : Lease) (tbl : Table) :
    Table × Except DynamoDBErrors UpdateLeaseResult :=
  let answer := dynamo.updateItem
    { key := makeLeaseKey lease
      expected := makeCASExpectation lease
      attributeUpdates := checkpointUpdates lease } tbl
  (answer.1, answer.2.map fun _ => { updated := true, lease := lease })

def handleDeleteResponse (outcome : Except DynamoDBErrors Unit) :
    Except DynamoDBErrors DeleteLeaseResult :=
  outcome.map fun _ => { deleted := true }

def deleteLeaseCAS (manager : LeaseManager) (dynamo : Service) (lease : Lease)
    (tbl : Table) : Table × Except DynamoDBErrors DeleteLeaseResult :=
  let answer := dynamo.deleteItem
    { tableName := some manager.tableName
      key := makeLeaseKey lease
      expected := makeCASExpectation lease } tbl
  (answer.1, handleDeleteResponse answer.2)

/-- Read a page of rows, skipping those that are not leases. -/
def readLeases (errno : Errno) : List Item → List Lease × Errno
  | [] => ([], errno)
  | item :: items =>
      match fromDynamoDict errno item with
      | (.ok lease, errno) =>
          let (leases, errno) := readLeases errno items
          (lease :: leases, errno)
      | (.error _, errno) => readLeases errno items

/-- `LeaseManager::listLeases`: one page of at most a hundred rows. `order` is
the order in which the service walks the table. -/
def listLeases (manager : LeaseManager) (dynamo : Service)
    (order : List String) (errno : Errno) (tbl : Table) :
    Except DynamoDBErrors (List Lease) :=
  (dynamo.scan { tableName := some manager.tableName, limit := 100 } order
    tbl).map fun items => (readLeases errno items).1

/-- `LeaseManager::getLease`; `none` where its `CHECK` fails because the row is
not a lease. -/
def getLease (manager : LeaseManager) (dynamo : Service) (errno : Errno)
    (key : LeaseKey) (tbl : Table) : Option (Except DynamoDBErrors Lease) :=
  let request : GetItemRequest :=
    { tableName := some manager.tableName
      key := (∅ : Item).insert "leaseKey" (.s key.value) }
  match dynamo.getItem request tbl with
  | .error e => some (.error e)
  | .ok item =>
      match fromDynamoDict errno item with
      | (.ok lease, _) => some (.ok lease)
      | (.error _, _) => none

/-- The request of `LeaseManager::listLeases`. -/
def listLeasesRequest (manager : LeaseManager) : ScanRequest where
  tableName := some manager.tableName
  limit := 100

/-- The request of `LeaseManager::getLease`. -/
def getLeaseRequest (manager : LeaseManager) (key : LeaseKey) : GetItemRequest where
  tableName := some manager.tableName
  key := (∅ : Item).insert "leaseKey" (.s key.value)

theorem listLeases_eq (manager : LeaseManager) (dynamo : Service)
    (order : List String) (errno : Errno) (tbl : Table) :
    manager.listLeases dynamo order errno tbl =
      (dynamo.scan manager.listLeasesRequest order tbl).map
        fun items => (readLeases errno items).1 := rfl

@[simp] theorem lookup_insertCheckpointUpdate {c : StringProxyClass}
    (toUpdate : UpdateMap) (name a : String) (field : Option (StringProxy c)) :
    lookup (insertCheckpointUpdate toUpdate name field) a =
      if name = a ∧ lookup toUpdate name = none then
        field.map fun value => .withValue (.s value.value)
      else lookup toUpdate a := by
  have h := lookup_elim_insertIfNew toUpdate name a field fun value =>
    .withValue (.s value.value)
  cases field <;> exact h

end LeaseManager

end Leases

end Kclpp
