import Kclpp.Leases.LeaseManager.Agreement

/-!
# Calls built from a row that was just read

A lease read from a row is what a conditional call expects of that row, and the
reader and the expectation disagree about what is not there: a missing counter is
read as a zero, and an owner or a counter that is there but is empty or of
another type is read as none. `freshRead_iff` says for which rows the two agree.
-/

open Std OrderedMap

namespace Kclpp

namespace Leases

open Dynamo Util Lease

def OwnerNamed (item : Item) : Prop :=
  ∃ owner, owner ≠ "" ∧ lookup item "leaseOwner" = some (.s owner)

/-- The counter of the row is a number in the form in which numbers are
written. -/
def CounterPrinted (item : Item) : Prop :=
  ∃ counter, lookup item "leaseCounter" = some (.n (printUll counter))

/-- A conditional delete is accepted where it arrives and the row agrees with the
lease. -/
theorem LeaseManager.deleteLeaseCAS_of_agreesWith {manager : LeaseManager}
    {dynamo : Service} {tbl : Table} {lease : Lease}
    (h : AgreesWith tbl lease)
    (hreach : dynamo.reaches (some manager.tableName) = true) :
    manager.deleteLeaseCAS dynamo lease tbl =
      (tbl.erase lease.leaseKey.value, .ok ⟨true⟩) := by
  have hok := (Service.conditionalWrite_eq_ok_iff dynamo
    (some manager.tableName) (makeLeaseKey lease) (makeCASExpectation lease)
    (fun key => tbl.erase key) tbl _).mpr
    ⟨lease.leaseKey.value, (LeaseCall.addresses_makeLeaseKey _ _ _ _).mpr
      ⟨hreach, rfl⟩, h, rfl⟩
  rw [deleteLeaseCAS, Service.deleteItem, hok]
  rfl

/-- The owner that is read from a row is the one the row has exactly if the row
names an owner. -/
theorem stringAttribute_leaseOwner_iff {item : Item} {owner : AttributeValue}
    (h : lookup item "leaseOwner" = some owner) :
    lookup item "leaseOwner" = stringAttribute
        (if owner.getS.isEmpty then none else some (⟨owner.getS⟩ : LeaseOwner)) ↔
      OwnerNamed item := by
  unfold OwnerNamed
  rw [h]
  cases owner with
  | s value =>
      by_cases hempty : value = "" <;>
        simp [AttributeValue.getS, stringAttribute, hempty]
  | _ => simp [AttributeValue.getS]

/-- The counter that is read from a row is the one the row has exactly if it is
written as numbers are. -/
theorem counterAttribute_leaseCounter_iff {item : Item} {errno errno' : Errno}
    {number : Option UInt64}
    (h : readNumber "leaseCounter" errno item = (.ok number, errno')) :
    lookup item "leaseCounter" = counterAttribute (number.map fun n => ⟨n⟩) ↔
      CounterPrinted item := by
  unfold CounterPrinted
  constructor
  · intro hsame
    cases number with
    | none =>
        rw [Option.map_none] at hsame
        rw [readNumber, hsame] at h
        cases h
    | some n => exact ⟨n, hsame⟩
  · rintro ⟨counter, hprinted⟩
    rw [readNumber_of_lookup hprinted] at h
    split_ifs at h
    · cases h
    · cases h
      exact hprinted

/-- A lease that was just read from a row meets the expectation of conditional
calls at that row, so that no update or delete built from it is rejected there,
exactly if the row names an owner and has a counter that is written as numbers
are. -/
theorem freshRead_iff (errno errno' : Errno) (item : Item) (lease : Lease)
    (hread : fromDynamoDict errno item = (.ok lease, errno')) :
    (expectationHolds (makeCASExpectation lease) (some item) = true ∧
      ∀ (manager : LeaseManager) (dynamo : Service) (tbl : Table),
        tbl.row lease.leaseKey.value = some item →
        FollowUpsAccepted manager dynamo tbl lease ∧
          (dynamo.reaches (some manager.tableName) = true →
            ∃ tbl', manager.deleteLeaseCAS dynamo lease tbl =
              (tbl', .ok ⟨true⟩))) ↔
      OwnerNamed item ∧ CounterPrinted item := by
  have hagrees : expectationHolds (makeCASExpectation lease) (some item) = true ↔
      OwnerNamed item ∧ CounterPrinted item := by
    obtain ⟨-, owner, counter, -, -, e₁, -, -, -, howner, hcounter, -, -, rfl⟩ :=
      (fromDynamoDict_eq_ok_iff _ _ _ _).mp hread
    rw [expectationHolds_makeCASExpectation, attributeOf_some, attributeOf_some]
    exact and_congr (stringAttribute_leaseOwner_iff howner)
      (counterAttribute_leaseCounter_iff hcounter)
  rw [hagrees]
  refine and_iff_left_of_imp fun hrow manager dynamo tbl htbl => ?_
  have hfresh : AgreesWith tbl lease := by
    rw [AgreesWith, htbl]
    exact hagrees.mpr hrow
  exact ⟨hfresh.followUpsAccepted manager dynamo,
    fun hreach => ⟨_, LeaseManager.deleteLeaseCAS_of_agreesWith hfresh hreach⟩⟩

/-- The row of `sampleLease`, and the lease that is read from it. -/
theorem freshRead_iff_sampleLease :
    expectationHolds
      (makeCASExpectation { sampleLease with
        lastCounterIncrementNanoseconds := some ⟨0⟩
        ownerSwitchesSinceCheckpoint := some ⟨0⟩ })
      (some sampleLease.toDynamoDict) = true :=
  ((freshRead_iff 0 0 sampleLease.toDynamoDict _
    (Prod.ext (by decide +kernel) (by decide +kernel))).mpr
      ⟨⟨"worker-a", by decide, by decide +kernel⟩, 5, by decide +kernel⟩).1

/-- A row without a counter is read as a lease with the counter zero, and a
renewal that is built from this lease is rejected. -/
theorem missingCounter_rejected :
    let item := ((∅ : Item).insert "leaseKey" (.s "shard-1")).insert "leaseOwner"
      (.s "worker-a")
    let lease : Lease :=
      { leaseKey := ⟨"shard-1"⟩
        leaseOwner := some ⟨"worker-a"⟩
        lastCounterIncrementNanoseconds := some ⟨0⟩
        leaseCounter := some ⟨0⟩
        ownerSwitchesSinceCheckpoint := some ⟨0⟩ }
    fromDynamoDict 0 item = (.ok lease, 0) ∧
      expectationHolds (makeCASExpectation lease) (some item) = false ∧
      (sampleManager.renewLease sampleDynamo lease
        (Table.empty.put "shard-1" item)).2 = .error .conditionalCheckFailed :=
  ⟨Prod.ext (by decide +kernel) (by decide +kernel), by decide +kernel,
    by decide +kernel⟩

end Leases

end Kclpp
