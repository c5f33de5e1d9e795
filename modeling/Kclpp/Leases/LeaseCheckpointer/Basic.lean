import Kclpp.Leases.LeaseCoordinator.Basic
import Kclpp.Leases.LeaseManager.Readability

/-!
# The lease checkpointer

A checkpoint is a sequence number and perhaps a sub-sequence number. It is kept
in two attributes of the lease row: `setCheckpoint` writes them through an update
of the lease that the worker holds, and `getCheckpoint` puts them together again
from the row. The lemmas here say what each lease operation does to the two
attributes, and what `getCheckpoint` answers from a row.
-/

open Std OrderedMap

namespace Kclpp

namespace Leases

open Clock Dynamo Util Lease Kinesis

structure SetCheckpointParams where
  shardID : ShardID
  sequenceNumber : ExtendedSequenceNumber
  concurrencyToken : ConcurrencyToken

structure SetCheckpointResult where
  succeeded : Bool := false
  deriving DecidableEq, Repr

/-- What `LeaseCheckpointer::getCheckpoint` calls its callback with, and whether
the process is still there afterwards. -/
structure GetCheckpointAnswer where
  answers : List (Except DynamoDBErrors (Option ExtendedSequenceNumber))
  alive : Bool
  deriving DecidableEq

namespace LeaseCheckpointer

/-- The lease that `LeaseCheckpointer::setCheckpoint` updates to. -/
def checkpointed (existing : Lease) (sequenceNumber : ExtendedSequenceNumber) :
    Lease :=
  { existing with
    checkpointID := some sequenceNumber.sequenceNumber
    subCheckpointID := sequenceNumber.subSequenceNumber }

/-- `LeaseCheckpointer::setCheckpoint`, from the call to the callback; `none`
where a `DCHECK` fails. -/
def setCheckpoint (dchecks : Bool) (dynamo : Service) (now : NanosecondPoint)
    (refused : Option DynamoDBErrors) (coordinator : LeaseCoordinator)
    (params : SetCheckpointParams) (tbl : Table) :
    Option (LeaseCoordinator × Table ×
      Except DynamoDBErrors SetCheckpointResult) :=
  let leaseKey : LeaseKey := ⟨params.shardID.value⟩
  match coordinator.getCurrentlyHeldLease now leaseKey with
  | none => some (coordinator, tbl, .ok { succeeded := false })
  | some existing =>
      let newLease := checkpointed existing params.sequenceNumber
      (coordinator.updateLease dchecks dynamo refused newLease
        params.concurrencyToken tbl).map fun answer =>
          (answer.1, answer.2.1,
            answer.2.2.map fun result => { succeeded := result.updated })

/-- `LeaseCheckpointer::getCheckpoint`. A row that is not a lease fails a `CHECK`
of the manager; an error is answered, and then the result that is not there is
read. -/
def getCheckpoint (manager : LeaseManager) (dynamo : Service) (errno : Errno)
    (shardID : ShardID) (tbl : Table) : GetCheckpointAnswer :=
  match manager.getLease dynamo errno ⟨shardID.value⟩ tbl with
  | none => { answers := [], alive := false }
  | some (.error e) => { answers := [.error e], alive := false }
  | some (.ok lease) =>
      { answers := [.ok lease.getExtendedSequenceNumber], alive := true }

end LeaseCheckpointer

theorem LeaseRenewer.leaseKey_of_getCopyOfHeldLease {renewer : LeaseRenewer}
    {key : LeaseKey} {nowTime : NanosecondPoint} {lease : Lease}
    (h : renewer.getCopyOfHeldLease key nowTime = some lease) :
    lease.leaseKey = key := by
  unfold getCopyOfHeldLease at h
  split at h
  · cases h
  · rename_i found hfound
    split_ifs at h
    cases h
    exact LeaseMap.leaseKey_of_get hfound

/-- An update that is made is one accepted call; any other answer leaves the
table as it is. -/
theorem LeaseRenewer.updateLease_cases (manager : LeaseManager)
    {dchecks : Bool} {dynamo : Service} {refused : Option DynamoDBErrors}
    {renewer renewer' : LeaseRenewer} {lease : Lease} {token : ConcurrencyToken}
    {tbl tbl' : Table} {outcome : Except DynamoDBErrors UpdateLeaseResult}
    (h : renewer.updateLease dchecks dynamo refused lease token tbl =
      some (renewer', tbl', outcome)) :
    (tbl' = tbl ∧ ∀ result, outcome = .ok result → result.updated = false) ∨
      ((LeaseCall.updateLease lease).perform manager dynamo tbl =
          (tbl', .ok ⟨true, some lease⟩) ∧ outcome = .ok ⟨true, lease⟩) := by
  unfold updateLease at h
  cases hstart : renewer.startUpdate dchecks lease token with
  | dies =>
      rw [hstart] at h
      cases h
  | refused =>
      rw [hstart] at h
      cases h
      left
      refine ⟨rfl, ?_⟩
      rintro result ⟨⟩
      rfl
  | requests =>
      rw [hstart] at h
      cases h
      cases refused with
      | some e => exact Or.inl ⟨rfl, by rintro result ⟨⟩⟩
      | none =>
          dsimp only [serveUpdate]
          rcases LeaseManager.updateLease_cases manager dynamo lease tbl with
            ⟨tbl', heq, hperform⟩ | ⟨e, heq, -⟩
          · rw [heq]
            exact Or.inr ⟨hperform, rfl⟩
          · rw [heq]
            exact Or.inl ⟨rfl, by rintro result ⟨⟩⟩

namespace LeaseCheckpointer

/-- A checkpoint that is set is one accepted update of the held lease; any other
answer leaves the table as it is. -/
theorem setCheckpoint_cases (manager : LeaseManager) {dchecks : Bool}
    {dynamo : Service} {now : NanosecondPoint}
    {refused : Option DynamoDBErrors} {coordinator coordinator' : LeaseCoordinator}
    {params : SetCheckpointParams} {tbl tbl' : Table}
    {outcome : Except DynamoDBErrors SetCheckpointResult}
    (h : setCheckpoint dchecks dynamo now refused coordinator params tbl =
      some (coordinator', tbl', outcome)) :
    (tbl' = tbl ∧ outcome ≠ .ok ⟨true⟩) ∨
      ∃ existing, existing.leaseKey.value = params.shardID.value ∧
        (LeaseCall.updateLease
            (checkpointed existing params.sequenceNumber)).perform manager
              dynamo tbl =
          (tbl', .ok
            ⟨true, some (checkpointed existing params.sequenceNumber)⟩) ∧
        outcome = .ok ⟨true⟩ := by
  unfold setCheckpoint at h
  dsimp only at h
  cases hheld : coordinator.getCurrentlyHeldLease now ⟨params.shardID.value⟩ with
  | none =>
      rw [hheld] at h
      cases h
      exact Or.inl ⟨rfl, by simp⟩
  | some existing =>
      rw [hheld] at h
      have hkey : existing.leaseKey.value = params.shardID.value :=
        congrArg StringProxy.value
          (LeaseRenewer.leaseKey_of_getCopyOfHeldLease hheld)
      obtain ⟨answer, hanswer, heq⟩ := Option.map_eq_some_iff.mp h
      obtain ⟨⟨renewer', tbl'', updated⟩, hupdated, rfl⟩ :=
        Option.map_eq_some_iff.mp hanswer
      cases heq
      rcases LeaseRenewer.updateLease_cases manager hupdated with
        ⟨rfl, hnot⟩ | ⟨hperform, rfl⟩
      · refine Or.inl ⟨rfl, fun hok => ?_⟩
        cases updated with
        | error e => cases hok
        | ok result =>
            have hfalse := hnot result rfl
            simp [Except.map, hfalse] at hok
      · exact Or.inr ⟨existing, hkey, hperform, rfl⟩

end LeaseCheckpointer

namespace LeaseCall

/-- What an accepted call writes to the checkpoint attributes, where it writes
them. -/
def writtenCheckpoint : LeaseCall → Option CheckpointID
  | updateLease lease => lease.checkpointID
  | _ => none

def writtenSubCheckpoint : LeaseCall → Option SubCheckpointID
  | updateLease lease => lease.subCheckpointID
  | _ => none

theorem attributeOf_of_perform {manager : LeaseManager} {dynamo : Service}
    {call : LeaseCall} (hupdate : call.isUpdate = true) {tbl tbl' : Table}
    {result : CallResult}
    (h : call.perform manager dynamo tbl = (tbl', .ok result)) {name : String}
    (hname : keyAttribute ≠ name) :
    attributeOf (tbl'.row call.key) name =
      (lookup call.updates name).elim (attributeOf (tbl.row call.key) name)
        AttributeValueUpdate.result := by
  obtain ⟨-, -, htbl, -⟩ :=
    (perform_eq_ok_iff_of_isUpdate manager dynamo hupdate _ _ _).mp h
  have hold : lookup ((tbl.row call.key).getD ∅) name =
      attributeOf (tbl.row call.key) name := by
    cases tbl.row call.key <;> simp
  rw [htbl, Table.row_put, if_pos rfl, attributeOf_some, lookup_insert,
    if_neg hname, updatedRow, lookup_applyUpdates, hold]

/-- Only an update of a lease writes the checkpoint, and only the parts that the
lease object has. -/
theorem checkpoint_of_perform {manager : LeaseManager} {dynamo : Service}
    {call : LeaseCall} (hupdate : call.isUpdate = true) {tbl tbl' : Table}
    {result : CallResult}
    (h : call.perform manager dynamo tbl = (tbl', .ok result)) :
    attributeOf (tbl'.row call.key) "checkpoint" =
        (stringAttribute call.writtenCheckpoint).or
          (attributeOf (tbl.row call.key) "checkpoint") ∧
      attributeOf (tbl'.row call.key) "checkpointSubSequenceNumber" =
        (stringAttribute call.writtenSubCheckpoint).or
          (attributeOf (tbl.row call.key) "checkpointSubSequenceNumber") := by
  rw [attributeOf_of_perform hupdate h (by decide),
    attributeOf_of_perform hupdate h (by decide)]
  cases call with
  | createLeaseIfNotExists lease => cases hupdate
  | updateLease lease =>
      simp only [updates, LeaseManager.checkpointUpdates,
        LeaseManager.lookup_insertCheckpointUpdate, lookup_makeUpdateValues,
        writtenCheckpoint, writtenSubCheckpoint]
      cases lease.checkpointID <;> cases lease.subCheckpointID <;>
        simp [AttributeValueUpdate.result, stringAttribute]
  | _ =>
      simp [updates, lookup_makeUpdateValues, writtenCheckpoint,
        writtenSubCheckpoint]

end LeaseCall

namespace LeaseCheckpointer

/-- What `getCheckpoint` answers from a row that has its two checkpoint
attributes and whose numbers were printed: it needs a key, an owner attribute and
no number that is lost. -/
theorem getCheckpoint_eq_iff {manager : LeaseManager} {dynamo : Service}
    (hreach : dynamo.reaches (some manager.tableName) = true) (errno : Errno)
    {key : LeaseKey} {tbl : Table} {item : Item}
    (hrow : tbl.row key.value = some item) (hprinted : NumbersPrinted item)
    {checkpointID : Option CheckpointID}
    {subCheckpointID : Option SubCheckpointID}
    (hcheckpoint : lookup item "checkpoint" = stringAttribute checkpointID)
    (hsub : lookup item "checkpointSubSequenceNumber" =
      stringAttribute subCheckpointID)
    (sequenceNumber : Option ExtendedSequenceNumber) :
    getCheckpoint manager dynamo errno ⟨key.value⟩ tbl =
        ⟨[.ok sequenceNumber], true⟩ ↔
      (key.value ≠ "" ∧ lookup item "leaseOwner" ≠ none ∧
          NumbersKept errno item) ∧
        sequenceNumber = checkpointID.map fun id => ⟨id, subCheckpointID⟩ := by
  have hkey : lookup item "leaseKey" = some (.s key.value) :=
    Table.keyAttribute_of_row hrow
  have hreadable : Readable errno item ↔ _ := readable_iff hprinted
  simp only [hkey, Option.some.injEq, exists_eq_left', AttributeValue.getS]
    at hreadable
  have hget : dynamo.getItem
      { tableName := some manager.tableName
        key := (∅ : Item).insert "leaseKey" (.s key.value) } tbl = .ok item := by
    simp [Service.getItem, Service.addresses, hreach, primaryKey, keyAttribute,
      hrow]
  rw [← hreadable, getCheckpoint, LeaseManager.getLease]
  simp only [hget]
  cases hread : fromDynamoDict errno item with
  | mk outcome errno' =>
  cases outcome with
  | error e =>
      refine iff_of_false (by simp) ?_
      rintro ⟨⟨lease, errno'', hok⟩, -⟩
      rw [hread] at hok
      cases hok
  | ok lease =>
      have hlease : lease.getExtendedSequenceNumber =
          checkpointID.map fun id => ⟨id, subCheckpointID⟩ := by
        obtain ⟨-, -, -, -, -, -, -, -, -, -, -, -, -, rfl⟩ :=
          (fromDynamoDict_eq_ok_iff _ _ _ _).mp hread
        rw [getExtendedSequenceNumber_eq]
        simp only [hcheckpoint, hsub, stringAttribute, Option.map_map]
        cases checkpointID <;> cases subCheckpointID <;> rfl
      have hok : Readable errno item := ⟨lease, errno', hread⟩
      simp [hlease, hok, eq_comm]

end LeaseCheckpointer

end Leases

end Kclpp
