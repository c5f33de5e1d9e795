import Kclpp.Leases.LeaseManager.Calls

/-!
# The lease object a call hands back

A lease object agrees with the table when the row under its key has its owner
and its counter, so that the next update built from it is accepted. A renewal
hands back the object it has just written; so does a creation, unless the lease
has no counter. A take and an update of the checkpoint hand back the object they
were built from, which the write has just outdated.
-/

open Std OrderedMap

namespace Kclpp

namespace Leases

open Dynamo Util Lease

/-- The row under the lease's key is what updates built from the lease
expect. -/
def AgreesWith (tbl : Table) (lease : Lease) : Prop :=
  expectationHolds (makeCASExpectation lease)
    (tbl.row lease.leaseKey.value) = true

/-- Every update built from the lease that arrives at the lease table is
accepted. -/
def FollowUpsAccepted (manager : LeaseManager) (dynamo : Service) (tbl : Table)
    (lease : Lease) : Prop :=
  ∀ call : LeaseCall, call.isUpdate = true → call.lease = lease →
    dynamo.reaches (call.tableName manager) = true →
    ∃ tbl' result, call.perform manager dynamo tbl = (tbl', .ok result)

theorem agreesWith_iff (tbl : Table) (lease : Lease) :
    AgreesWith tbl lease ↔
      attributeOf (tbl.row lease.leaseKey.value) "leaseOwner" =
          stringAttribute lease.leaseOwner ∧
        attributeOf (tbl.row lease.leaseKey.value) "leaseCounter" =
          counterAttribute lease.leaseCounter :=
  expectationHolds_makeCASExpectation lease _

theorem AgreesWith.followUpsAccepted {tbl : Table} {lease : Lease}
    (h : AgreesWith tbl lease) (manager : LeaseManager) (dynamo : Service) :
    FollowUpsAccepted manager dynamo tbl lease := by
  rintro call hupdate rfl hreach
  obtain ⟨tbl', htbl'⟩ := LeaseCall.exists_perform_eq_ok hupdate hreach h
  exact ⟨tbl', _, htbl'⟩

namespace LeaseCall

/-- Whether the lease object a call hands back is the one it has stored. -/
def handsBackStored : LeaseCall → Bool
  | createLeaseIfNotExists lease => lease.leaseCounter.isSome
  | renewLease _ => true
  | _ => false

/-- A created row agrees with the lease it was made from unless the lease has no
counter: the row then holds a zero where the lease expects nothing. -/
theorem agreesWith_put_toDynamoDict_iff (tbl : Table) (lease : Lease) :
    AgreesWith (tbl.put lease.leaseKey.value lease.toDynamoDict) lease ↔
      lease.leaseCounter.isSome = true := by
  rw [agreesWith_iff]
  simp only [Table.row_put, if_true, attributeOf_some, lookup_insert,
    keyAttribute, lookup_toDynamoDict]
  cases hcounter : lease.leaseCounter with
  | none => simp [counterAttribute]
  | some counter => simp [printNumber, counterAttribute]

/-- After an update the row agrees with a lease object of the same key exactly
when the object has the new owner and the new counter. -/
theorem agreesWith_of_perform_iff {manager : LeaseManager} {dynamo : Service}
    {call : LeaseCall} (hupdate : call.isUpdate = true) {tbl tbl' : Table}
    {result : CallResult}
    (h : call.perform manager dynamo tbl = (tbl', .ok result)) (lease : Lease)
    (hkey : lease.leaseKey = call.lease.leaseKey) :
    AgreesWith tbl' lease ↔
      lease.leaseOwner = call.ownerAfter ∧
        lease.leaseCounter = some ⟨nextCounter call.lease⟩ := by
  have hrow : tbl'.row lease.leaseKey.value = tbl'.row call.key := by
    rw [hkey]
    rfl
  rw [agreesWith_iff, hrow, leaseOwner_of_perform hupdate h,
    leaseCounter_of_perform hupdate h, stringAttribute_injective.eq_iff,
    counterAttribute_injective.eq_iff]
  exact and_congr eq_comm eq_comm

/-- A call that reports success with a lease object hands back an object that
agrees with the row now stored, and that the next call may therefore be built
from, exactly when it is a renewal or the creation of a lease that has a
counter. -/
theorem agreesWith_returned_iff (manager : LeaseManager) (dynamo : Service)
    (call : LeaseCall) (tbl tbl' : Table) (lease : Lease)
    (h : call.perform manager dynamo tbl = (tbl', .ok ⟨true, some lease⟩)) :
    (AgreesWith tbl' lease ∧ FollowUpsAccepted manager dynamo tbl' lease) ↔
      call.handsBackStored = true := by
  rw [and_iff_left_of_imp fun hagree => hagree.followUpsAccepted manager dynamo]
  cases hupdate : call.isUpdate with
  | false =>
      cases call with
      | createLeaseIfNotExists created =>
          obtain ⟨-, ⟨-, rfl, hres⟩ | ⟨-, -, hres⟩⟩ :=
            (perform_createLeaseIfNotExists_eq_ok_iff _ _ _ _ _ _).mp h
          · cases hres
            exact agreesWith_put_toDynamoDict_iff tbl lease
          · cases hres
      | _ => cases hupdate
  | true =>
      obtain ⟨-, -, -, hres⟩ :=
        (perform_eq_ok_iff_of_isUpdate manager dynamo hupdate _ _ _).mp h
      have hreturned : call.returned = some lease :=
        (congrArg CallResult.lease hres).symm
      cases call with
      | createLeaseIfNotExists created => cases hupdate
      | renewLease held =>
          cases hreturned
          rw [agreesWith_of_perform_iff hupdate h _ (by simp [LeaseCall.lease])]
          simp [ownerAfter, LeaseCall.lease, handsBackStored]
      | takeLease held newOwner =>
          cases hreturned
          have hiff := agreesWith_of_perform_iff hupdate h lease rfl
          rw [hiff]
          simp [LeaseCall.lease, handsBackStored, (nextCounter_ne _).symm]
      | evictLease held => cases hreturned
      | updateLease held =>
          cases hreturned
          have hiff := agreesWith_of_perform_iff hupdate h lease rfl
          rw [hiff]
          simp [LeaseCall.lease, handsBackStored, (nextCounter_ne _).symm]

theorem agreesWith_returned_iff_renewLease :
    (AgreesWith
        ((renewLease sampleLease).perform sampleManager sampleDynamo
          sampleTable).1 sampleLease.copySharedWithIncrementedCounter ∧
      FollowUpsAccepted sampleManager sampleDynamo
        ((renewLease sampleLease).perform sampleManager sampleDynamo
          sampleTable).1 sampleLease.copySharedWithIncrementedCounter) ↔
      (renewLease sampleLease).handsBackStored = true :=
  agreesWith_returned_iff sampleManager sampleDynamo (renewLease sampleLease)
    sampleTable _ _ (Prod.ext rfl (by decide +kernel))

/-- A worker takes a lease from another one. The call succeeds, the row has the
new owner and the next counter, and a renewal built from the lease object that
the call hands back is refused. -/
theorem takeLease_handsBack_outdated :
    let call := takeLease sampleLease ⟨"worker-b"⟩
    let tbl := (call.perform sampleManager sampleDynamo sampleTable).1
    (call.perform sampleManager sampleDynamo sampleTable).2 =
        .ok ⟨true, some sampleLease⟩ ∧
      ¬ AgreesWith tbl sampleLease ∧
      ((renewLease sampleLease).perform sampleManager sampleDynamo tbl).2 =
        .error .conditionalCheckFailed := by
  unfold AgreesWith
  decide +kernel

end LeaseCall

end Leases

end Kclpp
