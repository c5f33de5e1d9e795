import Kclpp.Leases.LeaseCheckpointer.Basic
import Kclpp.Leases.LeaseManager.Agreement

/-!
# An update of a row that agrees

`updateLease` builds its request on its own: the key, the condition and the
updates are those of the other operations, the two checkpoint attributes are
added, and the table is left out. `Updated` is what such an update is for.
`takesEffect_iff` says what becomes of it where the row agrees with the lease
object, for a store that refuses a request without a table and for one that
does not.
-/

open Std OrderedMap

namespace Kclpp

namespace Leases

open Dynamo Util Lease

def checkpointNames : List String :=
  ["checkpoint", "checkpointSubSequenceNumber", "leaseCounter"]

/-- The row of the lease has its checkpoint and its next counter, and nothing
else has changed in the table. -/
structure Updated (lease : Lease) (tbl tbl' : Table) : Prop where
  checkpoint : attributeOf (tbl'.row lease.leaseKey.value) "checkpoint" =
    stringAttribute lease.checkpointID
  subCheckpoint :
    attributeOf (tbl'.row lease.leaseKey.value) "checkpointSubSequenceNumber" =
      stringAttribute lease.subCheckpointID
  leaseCounter : attributeOf (tbl'.row lease.leaseKey.value) "leaseCounter" =
    counterAttribute (some ⟨nextCounter lease⟩)
  rest : ∀ name, name ∉ checkpointNames →
    attributeOf (tbl'.row lease.leaseKey.value) name =
      attributeOf (tbl.row lease.leaseKey.value) name
  rows : ∀ key, key ≠ lease.leaseKey.value → tbl'.row key = tbl.row key

/-- `updateLease` succeeds and does what it is for. -/
def TakesEffect (dynamo : Service) (lease : Lease) (tbl : Table) : Prop :=
  ∃ tbl', LeaseManager.updateLease dynamo lease tbl = (tbl', .ok ⟨true, lease⟩) ∧
    Updated lease tbl tbl'

/-- The row has no part of a checkpoint that the lease object lacks. -/
def LeavesNoCheckpoint (lease : Lease) (tbl : Table) : Prop :=
  (lease.checkpointID = none →
      attributeOf (tbl.row lease.leaseKey.value) "checkpoint" = none) ∧
    (lease.subCheckpointID = none →
      attributeOf (tbl.row lease.leaseKey.value) "checkpointSubSequenceNumber" =
        none)

/-- The request of an update names no table, so a store that refuses such a
request refuses every update. -/
theorem updateLease_of_not_servesUnnamed {dynamo : Service}
    (h : dynamo.servesUnnamed = false) (lease : Lease) (tbl : Table) :
    LeaseManager.updateLease dynamo lease tbl = (tbl, .error .validation) := by
  have haddresses : dynamo.addresses none (makeLeaseKey lease) = none := by
    simp [Service.addresses, Service.reaches, h]
  rw [LeaseManager.updateLease, Service.updateItem, Service.conditionalWrite]
  simp only [haddresses, Except.map]

/-- Writing a field over an attribute leaves the field in it, unless the field is
missing and the attribute is not. -/
theorem stringAttribute_or_eq_iff {c : StringProxyClass}
    (field : Option (StringProxy c)) (old : Option AttributeValue) :
    (stringAttribute field).or old = stringAttribute field ↔
      (field = none → old = none) := by
  cases field <;> simp [stringAttribute]

theorem updated_iff_of_perform {manager : LeaseManager} {dynamo : Service}
    {lease : Lease} {tbl tbl' : Table} {result : CallResult}
    (hrow : tbl.row lease.leaseKey.value ≠ none)
    (h : (LeaseCall.updateLease lease).perform manager dynamo tbl =
      (tbl', .ok result)) :
    Updated lease tbl tbl' ↔ LeavesNoCheckpoint lease tbl := by
  have hparts := LeaseCall.checkpoint_of_perform rfl h
  have hcounter := LeaseCall.leaseCounter_of_perform rfl h
  simp only [LeaseCall.key, LeaseCall.lease, LeaseCall.writtenCheckpoint,
    LeaseCall.writtenSubCheckpoint] at hparts hcounter
  constructor
  · intro hupdated
    exact ⟨(stringAttribute_or_eq_iff _ _).mp (hparts.1.symm.trans hupdated.checkpoint),
      (stringAttribute_or_eq_iff _ _).mp
        (hparts.2.symm.trans hupdated.subCheckpoint)⟩
  · rintro ⟨hcheckpoint, hsub⟩
    refine ⟨hparts.1.trans ((stringAttribute_or_eq_iff _ _).mpr hcheckpoint),
      hparts.2.trans ((stringAttribute_or_eq_iff _ _).mpr hsub), hcounter, ?_, ?_⟩
    · intro name hname
      simp only [checkpointNames, List.mem_cons, List.not_mem_nil, or_false,
        not_or] at hname
      by_cases hkey : keyAttribute = name
      · -- the key attribute is written too, with the value it has
        obtain ⟨item, hitem⟩ := Option.ne_none_iff_exists'.mp hrow
        obtain ⟨-, -, htbl, -⟩ :=
          (LeaseCall.perform_eq_ok_iff_of_isUpdate manager dynamo rfl _ _ _).mp h
        have hkeyed := Table.keyAttribute_of_row hitem
        rw [htbl, ← hkey, hitem]
        simp [LeaseCall.key, LeaseCall.lease, hkeyed]
      · have hattr := LeaseCall.attributeOf_of_perform rfl h hkey
        have hnone : lookup (LeaseCall.updateLease lease).updates name = none := by
          rw [LeaseCall.lookup_updates rfl (Ne.symm hname.1) (Ne.symm hname.2.1),
            lookup_makeUpdateValues, if_neg (Ne.symm hname.2.2)]
          simp [LeaseCall.params, switchesUpdate, ownerUpdate]
        rw [hnone] at hattr
        exact hattr
    · intro key hne
      have hframe := LeaseCall.perform_row_of_ne manager dynamo
        (LeaseCall.updateLease lease) tbl (Ne.symm hne)
      rwa [h] at hframe

/-- An update of a row that agrees with the lease object never takes effect at a
store that refuses a request without a table. At one that serves it, it takes
effect unless the row keeps a part of a checkpoint that the lease object does not
have. -/
theorem takesEffect_iff (dynamo : Service) (lease : Lease) (tbl : Table)
    (hrow : tbl.row lease.leaseKey.value ≠ none) (hagree : AgreesWith tbl lease) :
    (dynamo.servesUnnamed = false →
        LeaseManager.updateLease dynamo lease tbl = (tbl, .error .validation) ∧
          ¬ TakesEffect dynamo lease tbl) ∧
      (dynamo.servesUnnamed = true →
        (TakesEffect dynamo lease tbl ↔ LeavesNoCheckpoint lease tbl)) := by
  constructor
  · intro h
    have hrefused := updateLease_of_not_servesUnnamed h lease tbl
    refine ⟨hrefused, ?_⟩
    rintro ⟨tbl', hok, -⟩
    rw [hrefused] at hok
    cases hok
  · intro h
    let manager : LeaseManager := ⟨dynamo.leaseTable⟩
    let call := LeaseCall.updateLease lease
    obtain ⟨tbl', hperform⟩ : ∃ tbl', call.perform manager dynamo tbl =
        (tbl', .ok ⟨true, call.returned⟩) :=
      LeaseCall.exists_perform_eq_ok rfl h hagree
    have hupdated := updated_iff_of_perform hrow hperform
    rcases LeaseManager.updateLease_cases manager dynamo lease tbl with
      ⟨tbl'', heq, hperform'⟩ | ⟨e, -, hperform'⟩
    · rw [hperform] at hperform'
      cases hperform'
      constructor
      · rintro ⟨tbl'', hok, hdone⟩
        rw [heq] at hok
        cases hok
        exact hupdated.mp hdone
      · intro hleaves
        exact ⟨tbl', heq, hupdated.mpr hleaves⟩
    · rw [hperform] at hperform'
      cases hperform'

/-- The sample worker's own row, at a store that refuses requests without a
table. -/
theorem takesEffect_iff_sampleLease :
    ((⟨⟨"leases"⟩, false⟩ : Service).servesUnnamed = false →
        LeaseManager.updateLease ⟨⟨"leases"⟩, false⟩ sampleLease sampleTable =
            (sampleTable, .error .validation) ∧
          ¬ TakesEffect ⟨⟨"leases"⟩, false⟩ sampleLease sampleTable) ∧
      ((⟨⟨"leases"⟩, false⟩ : Service).servesUnnamed = true →
        (TakesEffect ⟨⟨"leases"⟩, false⟩ sampleLease sampleTable ↔
          LeavesNoCheckpoint sampleLease sampleTable)) :=
  takesEffect_iff ⟨⟨"leases"⟩, false⟩ sampleLease sampleTable
    (by decide +kernel) (by unfold AgreesWith; decide +kernel)

/-- A worker updates the checkpoint of a lease whose row it knows exactly. The
update is refused. -/
theorem not_takesEffect_sampleLease :
    let dynamo : Service := ⟨⟨"leases"⟩, false⟩
    let lease := { sampleLease with checkpointID := some ⟨"1"⟩ }
    sampleTable.row lease.leaseKey.value ≠ none ∧ AgreesWith sampleTable lease ∧
      (LeaseManager.updateLease dynamo lease sampleTable).2 = .error .validation ∧
      ¬ TakesEffect dynamo lease sampleTable := by
  refine ⟨by decide +kernel, by unfold AgreesWith; decide +kernel, rfl, ?_⟩
  rintro ⟨tbl', hok, -⟩
  rw [updateLease_of_not_servesUnnamed rfl] at hok
  cases hok

end Leases

end Kclpp
