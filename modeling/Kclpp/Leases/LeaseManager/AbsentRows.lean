import Kclpp.Leases.LeaseManager.Calls

/-!
# Conditional operations on a lease without a row

An update of an absent row creates it, so it is the condition of the update that
has to refuse it. `makeCASExpectation` expects the values that the lease object
has, and the absence of those it lacks; an absent row has no attributes, and meets
the condition of a lease object that has neither an owner nor a counter. The
deletion makes the same condition. Only `createLeaseIfNotExists` asks for the key,
the one attribute that every row has.
-/

open Std OrderedMap

namespace Kclpp

namespace Leases

open Dynamo Util Lease

/-- What an absent row needs to be told from the row of a lease: a value that the
lease object expects. -/
def ExpectsValue (lease : Lease) : Prop :=
  lease.leaseOwner ≠ none ∨ lease.leaseCounter ≠ none

theorem expectationHolds_makeCASExpectation_none (lease : Lease) :
    expectationHolds (makeCASExpectation lease) none = true ↔
      ¬ ExpectsValue lease := by
  rw [expectationHolds_makeCASExpectation, ExpectsValue]
  cases lease.leaseOwner <;> cases lease.leaseCounter <;>
    simp [stringAttribute, counterAttribute]

def RefusesAll (manager : LeaseManager) (dynamo : Service) (lease : Lease)
    (tbl : Table) : Prop :=
  (∀ call : LeaseCall, call.isUpdate = true → call.lease = lease →
      ∃ e, call.perform manager dynamo tbl = (tbl, .error e)) ∧
    ∃ e, manager.deleteLeaseCAS dynamo lease tbl = (tbl, .error e)

namespace LeaseCall

theorem refused_iff_of_isUpdate (manager : LeaseManager) (dynamo : Service)
    {call : LeaseCall} (hupdate : call.isUpdate = true) (tbl : Table) :
    (∃ e, call.perform manager dynamo tbl = (tbl, .error e)) ↔
      ¬ (dynamo.reaches (call.tableName manager) = true ∧
        call.matchesRow tbl = true) := by
  constructor
  · rintro ⟨e, herror⟩ ⟨hreach, hmatch⟩
    obtain ⟨tbl', hok⟩ := exists_perform_eq_ok hupdate hreach hmatch
    rw [herror] at hok
    cases hok
  · intro hnot
    cases hperform : call.perform manager dynamo tbl with
    | mk tbl' outcome =>
    cases outcome with
    | ok result =>
        obtain ⟨hreach, hmatch, -⟩ :=
          (perform_eq_ok_iff_of_isUpdate manager dynamo hupdate _ _ _).mp hperform
        exact absurd ⟨hreach, hmatch⟩ hnot
    | error e =>
        cases perform_fst_of_error hperform
        exact ⟨e, rfl⟩

/-- An update that arrives at a table without the row is refused exactly when its
lease object expects a value; otherwise it makes a row. -/
theorem refused_iff_of_row_eq_none (manager : LeaseManager) {dynamo : Service}
    {call : LeaseCall} (hupdate : call.isUpdate = true)
    (hreach : dynamo.reaches (call.tableName manager) = true) {tbl : Table}
    (hrow : tbl.row call.key = none) :
    ((∃ e, call.perform manager dynamo tbl = (tbl, .error e)) ↔
        ExpectsValue call.lease) ∧
      ((call.perform manager dynamo tbl).1.row call.key ≠ none ↔
        ¬ ExpectsValue call.lease) := by
  have hmatch : call.matchesRow tbl = true ↔ ¬ ExpectsValue call.lease := by
    rw [matchesRow, hrow, expectationHolds_makeCASExpectation_none]
  rw [refused_iff_of_isUpdate manager dynamo hupdate, perform_fst]
  simp only [writes, hreach, hupdate, if_true, Bool.true_and, true_and]
  refine ⟨by rw [hmatch, not_not], ?_⟩
  split_ifs with hwrites
  · simpa using hmatch.mp hwrites
  · simpa [hrow] using mt hmatch.mpr hwrites

end LeaseCall

/-- A deletion that arrives at a table without the row is refused exactly when its
lease object expects a value; otherwise it is reported to have been made. -/
theorem LeaseManager.deleteLeaseCAS_of_row_eq_none {manager : LeaseManager}
    {dynamo : Service} (hreach : dynamo.reaches (some manager.tableName) = true)
    {lease : Lease} {tbl : Table} (hrow : tbl.row lease.leaseKey.value = none) :
    (∃ e, manager.deleteLeaseCAS dynamo lease tbl = (tbl, .error e)) ↔
      ExpectsValue lease := by
  have haddresses : dynamo.addresses (some manager.tableName)
      (makeLeaseKey lease) = some lease.leaseKey.value :=
    (LeaseCall.addresses_makeLeaseKey _ _ _ _).mpr ⟨hreach, rfl⟩
  have hholds := expectationHolds_makeCASExpectation_none lease
  rw [deleteLeaseCAS, Service.deleteItem, Service.conditionalWrite]
  simp only [haddresses, hrow]
  by_cases hvalue : ExpectsValue lease
  · rw [if_neg (mt hholds.mp (not_not.mpr hvalue))]
    exact iff_of_true ⟨_, rfl⟩ hvalue
  · rw [if_pos (hholds.mpr hvalue)]
    refine iff_of_false ?_ hvalue
    rintro ⟨e, herror⟩
    cases (Prod.mk.inj herror).2

/-- On a lease without a row the conditional operations are all refused exactly
when the lease object expects a value. -/
theorem refusesAll_iff (manager : LeaseManager) (dynamo : Service)
    (hreach : dynamo.reaches (some manager.tableName) = true) (lease : Lease)
    (tbl : Table) (hrow : tbl.row lease.leaseKey.value = none) :
    RefusesAll manager dynamo lease tbl ↔
      lease.leaseOwner ≠ none ∨ lease.leaseCounter ≠ none := by
  constructor
  · intro h
    exact (LeaseManager.deleteLeaseCAS_of_row_eq_none hreach hrow).mp h.2
  · intro hvalue
    refine ⟨?_, (LeaseManager.deleteLeaseCAS_of_row_eq_none hreach hrow).mpr hvalue⟩
    rintro call hupdate rfl
    refine (LeaseCall.refused_iff_of_isUpdate manager dynamo hupdate tbl).mpr ?_
    rintro ⟨-, hmatch⟩
    rw [LeaseCall.matchesRow, LeaseCall.key, hrow,
      expectationHolds_makeCASExpectation_none] at hmatch
    exact hmatch hvalue

theorem refusesAll_iff_sampleLease :
    RefusesAll sampleManager sampleDynamo sampleLease Table.empty ↔
      sampleLease.leaseOwner ≠ none ∨ sampleLease.leaseCounter ≠ none :=
  refusesAll_iff sampleManager sampleDynamo (by decide) sampleLease Table.empty
    (by simp)

/-- A lease object with nothing but its key is renewed in an empty table. The
renewal succeeds and makes a row, one that cannot be read as a lease. -/
theorem renewLease_makesRow :
    let lease : Lease := { leaseKey := ⟨"shard-1"⟩ }
    let answer := sampleManager.renewLease sampleDynamo lease Table.empty
    Table.empty.row lease.leaseKey.value = none ∧
      answer.2 = .ok ⟨true, { lease with leaseCounter := some ⟨1⟩ }⟩ ∧
      (answer.1.row "shard-1").isSome = true ∧
      sampleManager.getLease sampleDynamo 0 lease.leaseKey answer.1 = none ∧
      (sampleManager.deleteLeaseCAS sampleDynamo lease Table.empty).2 =
        .ok ⟨true⟩ ∧
      ¬ RefusesAll sampleManager sampleDynamo lease Table.empty := by
  refine ⟨by simp, by decide +kernel, by decide +kernel, by decide +kernel,
    by decide +kernel, ?_⟩
  rintro ⟨-, e, herror⟩
  have hdeleted : (sampleManager.deleteLeaseCAS sampleDynamo
      { leaseKey := ⟨"shard-1"⟩ } Table.empty).2 = .ok ⟨true⟩ := by decide +kernel
  rw [herror] at hdeleted
  cases hdeleted

end Leases

end Kclpp
