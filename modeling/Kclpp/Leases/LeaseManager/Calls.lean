import Kclpp.Leases.LeaseManager.Basic

/-!
# Calls of the lease manager

`LeaseCall` collects the five operations that write leases, and `perform` runs
one of them on the table it meets. The four conditional updates differ only in
the table they name, the updates they make and the lease object they hand back;
`perform_eq_ok_iff_of_isUpdate` is the one specification they share, and
`perform_createLeaseIfNotExists_eq_ok_iff` is that of the creation.
-/

open Std OrderedMap

namespace Kclpp

namespace Leases

open Dynamo Util Lease

inductive LeaseCall where
  | createLeaseIfNotExists (lease : Lease)
  | renewLease (lease : Lease)
  | takeLease (lease : Lease) (newOwner : LeaseOwner)
  | evictLease (lease : Lease)
  | updateLease (lease : Lease)
  deriving DecidableEq, Repr

/-- What a successful call reports: whether it had its effect, and the lease
object it hands back. -/
structure CallResult where
  done : Bool
  lease : Option Lease
  deriving DecidableEq, Repr

namespace LeaseCall

def lease : LeaseCall → Lease
  | createLeaseIfNotExists lease => lease
  | renewLease lease => lease
  | takeLease lease _ => lease
  | evictLease lease => lease
  | updateLease lease => lease

def perform (manager : LeaseManager) (dynamo : Service) :
    LeaseCall → Table → Table × Except DynamoDBErrors CallResult
  | createLeaseIfNotExists lease, tbl =>
      let answer := manager.createLeaseIfNotExists dynamo lease tbl
      (answer.1, answer.2.map fun r => ⟨r.created, r.lease⟩)
  | renewLease lease, tbl =>
      let answer := manager.renewLease dynamo lease tbl
      (answer.1, answer.2.map fun r => ⟨r.renewed, some r.lease⟩)
  | takeLease lease newOwner, tbl =>
      let answer := manager.takeLease dynamo lease newOwner tbl
      (answer.1, answer.2.map fun r => ⟨r.taken, some r.lease⟩)
  | evictLease lease, tbl =>
      let answer := manager.evictLease dynamo lease tbl
      (answer.1, answer.2.map fun r => ⟨r.evicted, none⟩)
  | updateLease lease, tbl =>
      let answer := LeaseManager.updateLease dynamo lease tbl
      (answer.1, answer.2.map fun r => ⟨r.updated, some r.lease⟩)

def tableName (manager : LeaseManager) : LeaseCall → Option TableName
  | updateLease _ => none
  | _ => some manager.tableName

def params : LeaseCall → UpdateLeaseParams
  | takeLease _ newOwner => { newOwner := some newOwner }
  | evictLease _ => { setOwnerToNull := true }
  | _ => {}

def updates : LeaseCall → UpdateMap
  | updateLease lease => LeaseManager.checkpointUpdates lease
  | call => makeUpdateValues call.lease call.params

def returned : LeaseCall → Option Lease
  | createLeaseIfNotExists lease => some lease
  | renewLease lease => some lease.copySharedWithIncrementedCounter
  | takeLease lease _ => some lease
  | evictLease _ => none
  | updateLease lease => some lease

/-- Whether a call is a conditional update of a row, as all are but the
creation of a lease. -/
def isUpdate : LeaseCall → Bool
  | createLeaseIfNotExists _ => false
  | _ => true

def key (call : LeaseCall) : String := call.lease.leaseKey.value

def matchesRow (call : LeaseCall) (tbl : Table) : Bool :=
  expectationHolds (makeCASExpectation call.lease) (tbl.row call.key)

def updatedRow (call : LeaseCall) (tbl : Table) : Item :=
  applyUpdates ((tbl.row call.key).getD ∅) call.updates

theorem perform_of_isUpdate (manager : LeaseManager) (dynamo : Service)
    {call : LeaseCall} (h : call.isUpdate = true) (tbl : Table) :
    call.perform manager dynamo tbl =
      let answer := dynamo.updateItem
        { tableName := call.tableName manager
          key := makeLeaseKey call.lease
          expected := makeCASExpectation call.lease
          attributeUpdates := call.updates } tbl
      (answer.1, answer.2.map fun _ => ⟨true, call.returned⟩) := by
  have hmap : ∀ {α β γ ε : Type} (f : α → β) (g : β → γ) (o : Except ε α),
      (o.map f).map g = o.map (g ∘ f) := by
    intro α β γ ε f g o
    cases o <;> rfl
  cases call with
  | createLeaseIfNotExists lease => cases h
  | renewLease lease => exact congrArg _ (hmap _ _ _)
  | takeLease lease newOwner => exact congrArg _ (hmap _ _ _)
  | evictLease lease => exact congrArg _ (hmap _ _ _)
  | updateLease lease => exact congrArg _ (hmap _ _ _)

theorem addresses_makeLeaseKey (dynamo : Service) (name : Option TableName)
    (lease : Lease) (k : String) :
    dynamo.addresses name (makeLeaseKey lease) = some k ↔
      dynamo.reaches name = true ∧ lease.leaseKey.value = k := by
  unfold Service.addresses
  split_ifs with h <;> simp [h]

theorem eq_ok_of_map_eq_ok {α ε : Type} {answer : Table × Except ε Unit}
    {f : Unit → α} {tbl' : Table} {result : α}
    (h : (answer.1, answer.2.map f) = (tbl', .ok result)) :
    answer = (tbl', .ok ()) ∧ result = f () := by
  obtain ⟨tbl, outcome⟩ := answer
  cases outcome with
  | error e => cases h
  | ok u =>
      cases h
      exact ⟨rfl, rfl⟩

/-- A conditional update succeeds exactly when its request arrives at the lease
table and the row matches the lease object; it then writes that row only. -/
theorem perform_eq_ok_iff_of_isUpdate (manager : LeaseManager)
    (dynamo : Service) {call : LeaseCall} (h : call.isUpdate = true)
    (tbl tbl' : Table) (result : CallResult) :
    call.perform manager dynamo tbl = (tbl', .ok result) ↔
      dynamo.reaches (call.tableName manager) = true ∧
        call.matchesRow tbl = true ∧
        tbl' = tbl.put call.key (call.updatedRow tbl) ∧
        result = ⟨true, call.returned⟩ := by
  rw [perform_of_isUpdate manager dynamo h]
  have hok := Service.conditionalWrite_eq_ok_iff dynamo (call.tableName manager)
    (makeLeaseKey call.lease) (makeCASExpectation call.lease)
    (fun key => tbl.put key
      (applyUpdates ((tbl.row key).getD ∅) call.updates)) tbl tbl'
  simp only [addresses_makeLeaseKey] at hok
  constructor
  · intro heq
    obtain ⟨hanswer, hres⟩ := eq_ok_of_map_eq_ok heq
    obtain ⟨k, ⟨hreach, rfl⟩, hmatch, htbl⟩ := hok.mp hanswer
    exact ⟨hreach, hmatch, htbl, hres⟩
  · rintro ⟨hreach, hmatch, htbl, hres⟩
    rw [Service.updateItem, hok.mpr ⟨call.key, ⟨hreach, rfl⟩, hmatch, htbl⟩, hres]
    rfl

theorem expectationHolds_leaseKey_notExists (tbl : Table) (key : String) :
    expectationHolds ((∅ : ExpectedMap).insertIfNew "leaseKey" .notExists)
      (tbl.row key) = true ↔ tbl.row key = none := by
  rw [expectationHolds_iff]
  constructor
  · intro h
    have hattr := h "leaseKey" .notExists (by simp)
    rw [holds_notExists] at hattr
    cases hrow : tbl.row key with
    | none => rfl
    | some item =>
        have hkey := Table.keyAttribute_of_row hrow
        rw [hrow, attributeOf_some] at hattr
        rw [keyAttribute, hattr] at hkey
        cases hkey
  · intro h name e he
    rw [h]
    rw [lookup_insertIfNew] at he
    split_ifs at he with hname
    · cases he
      rfl
    · simp at he

theorem primaryKey_toDynamoDict (lease : Lease) :
    primaryKey lease.toDynamoDict = some lease.leaseKey.value := by
  simp [primaryKey, keyAttribute, lookup_toDynamoDict]

theorem putItem_toDynamoDict (dynamo : Service) (name : Option TableName)
    (lease : Lease) (tbl : Table) :
    dynamo.putItem
        { tableName := name
          item := lease.toDynamoDict
          expected := (∅ : ExpectedMap).insertIfNew "leaseKey" .notExists } tbl =
      if dynamo.reaches name = true then
        if tbl.row lease.leaseKey.value = none then
          (tbl.put lease.leaseKey.value lease.toDynamoDict, .ok ())
        else (tbl, .error .conditionalCheckFailed)
      else (tbl, .error .validation) := by
  unfold Service.putItem Service.conditionalWrite Service.addresses
  rw [primaryKey_toDynamoDict]
  by_cases hreach : dynamo.reaches name = true
  · rw [if_pos hreach, if_pos hreach]
    have hexp := expectationHolds_leaseKey_notExists tbl lease.leaseKey.value
    by_cases hrow : tbl.row lease.leaseKey.value = none
    · simp only [if_pos (hexp.mpr hrow), if_pos hrow]
    · simp only [if_neg (mt hexp.mp hrow), if_neg hrow]
  · rw [if_neg hreach, if_neg hreach]

/-- A creation succeeds exactly when its request arrives at the lease table; it
writes the lease where there was no row, and reports that it did. -/
theorem perform_createLeaseIfNotExists_eq_ok_iff (manager : LeaseManager)
    (dynamo : Service) (lease : Lease) (tbl tbl' : Table)
    (result : CallResult) :
    (createLeaseIfNotExists lease).perform manager dynamo tbl =
        (tbl', .ok result) ↔
      dynamo.reaches (some manager.tableName) = true ∧
        (tbl.row lease.leaseKey.value = none ∧
            tbl' = tbl.put lease.leaseKey.value lease.toDynamoDict ∧
            result = ⟨true, some lease⟩ ∨
          tbl.row lease.leaseKey.value ≠ none ∧
            tbl' = tbl ∧ result = ⟨false, none⟩) := by
  simp only [perform, LeaseManager.createLeaseIfNotExists,
    putItem_toDynamoDict]
  by_cases hreach : dynamo.reaches (some manager.tableName) = true
  · rw [if_pos hreach]
    by_cases hrow : tbl.row lease.leaseKey.value = none
    · rw [if_pos hrow]
      simp only [Except.map, Prod.mk.injEq, Except.ok.injEq, hreach, hrow,
        true_and, ne_eq, not_true_eq_false, false_and, or_false]
      rw [eq_comm, eq_comm (a := result)]
    · rw [if_neg hrow]
      simp only [Except.map, Prod.mk.injEq, Except.ok.injEq, hreach, hrow,
        true_and, ne_eq, not_false_eq_true, false_and, false_or]
      rw [eq_comm, eq_comm (a := result)]
  · rw [if_neg hreach]
    simp [Except.map, hreach]

theorem perform_fst_of_error {manager : LeaseManager} {dynamo : Service}
    {call : LeaseCall} {tbl tbl' : Table} {e : DynamoDBErrors}
    (h : call.perform manager dynamo tbl = (tbl', .error e)) : tbl' = tbl := by
  cases hupdate : call.isUpdate with
  | true =>
      rw [perform_of_isUpdate manager dynamo hupdate] at h
      dsimp only at h
      obtain ⟨htbl, hres⟩ := Prod.mk.inj h
      generalize hanswer : dynamo.updateItem _ tbl = answer at htbl hres
      obtain ⟨tbl'', outcome⟩ := answer
      cases outcome with
      | ok u => cases hres
      | error e' =>
          rw [← htbl]
          exact Service.conditionalWrite_fst_of_error hanswer
  | false =>
      cases call with
      | createLeaseIfNotExists lease =>
          simp only [perform, LeaseManager.createLeaseIfNotExists] at h
          split at h
          · cases h
          · cases h
          · rename_i hanswer
            rw [← (Prod.mk.inj h).1]
            exact Service.conditionalWrite_fst_of_error hanswer
      | _ => cases hupdate

/-- Whether a call has its effect on the table it meets: its request arrives,
and its condition holds of the row. -/
def writes (manager : LeaseManager) (dynamo : Service) (call : LeaseCall)
    (tbl : Table) : Bool :=
  dynamo.reaches (call.tableName manager) &&
    if call.isUpdate then call.matchesRow tbl else (tbl.row call.key).isNone

/-- The row a call writes, where it has its effect. -/
def newRow (call : LeaseCall) (tbl : Table) : Item :=
  if call.isUpdate then call.updatedRow tbl else call.lease.toDynamoDict

theorem perform_fst (manager : LeaseManager) (dynamo : Service)
    (call : LeaseCall) (tbl : Table) :
    (call.perform manager dynamo tbl).1 =
      if call.writes manager dynamo tbl = true then
        tbl.put call.key (call.newRow tbl)
      else tbl := by
  cases hperform : call.perform manager dynamo tbl with
  | mk tbl' outcome =>
  cases hupdate : call.isUpdate with
  | true =>
      simp only [writes, newRow, hupdate, if_true, Bool.and_eq_true]
      split_ifs with hwrites
      · have hok := (perform_eq_ok_iff_of_isUpdate manager dynamo hupdate tbl _
          ⟨true, call.returned⟩).mpr ⟨hwrites.1, hwrites.2, rfl, rfl⟩
        rw [hperform] at hok
        exact (Prod.mk.inj hok).1
      · cases outcome with
        | error e => exact perform_fst_of_error hperform
        | ok result =>
            obtain ⟨hreach, hmatch, -, -⟩ :=
              (perform_eq_ok_iff_of_isUpdate _ _ hupdate _ _ _).mp hperform
            exact absurd ⟨hreach, hmatch⟩ hwrites
  | false =>
      cases call with
      | createLeaseIfNotExists created =>
          simp only [perform, LeaseManager.createLeaseIfNotExists,
            putItem_toDynamoDict] at hperform
          by_cases hreach : dynamo.reaches (some manager.tableName) = true
          · by_cases hrow : tbl.row created.leaseKey.value = none
            · rw [if_pos hreach, if_pos hrow] at hperform
              rw [← (Prod.mk.inj hperform).1]
              simp [writes, tableName, isUpdate, key, LeaseCall.lease, newRow,
                hreach, hrow]
            · rw [if_pos hreach, if_neg hrow] at hperform
              rw [← (Prod.mk.inj hperform).1]
              simp [writes, isUpdate, key, LeaseCall.lease, hrow]
          · rw [if_neg hreach] at hperform
            rw [← (Prod.mk.inj hperform).1]
            simp [writes, tableName, hreach]
      | _ => cases hupdate

theorem perform_row_of_ne (manager : LeaseManager) (dynamo : Service)
    (call : LeaseCall) (tbl : Table) {k : String} (hk : call.key ≠ k) :
    (call.perform manager dynamo tbl).1.row k = tbl.row k := by
  rw [perform_fst]
  split_ifs
  · rw [Table.row_put, if_neg hk]
  · rfl

def ownerAfter : LeaseCall → Option LeaseOwner
  | takeLease _ newOwner => some newOwner
  | evictLease _ => none
  | call => call.lease.leaseOwner

/-- The checkpoint attributes are all that `updateLease` adds to the updates of
the other operations. -/
theorem lookup_updates {call : LeaseCall} (h : call.isUpdate = true)
    {name : String} (h₁ : "checkpoint" ≠ name)
    (h₂ : "checkpointSubSequenceNumber" ≠ name) :
    lookup call.updates name =
      lookup (makeUpdateValues call.lease call.params) name := by
  cases call with
  | createLeaseIfNotExists lease => cases h
  | updateLease lease =>
      simp only [updates, LeaseManager.checkpointUpdates,
        LeaseManager.lookup_insertCheckpointUpdate, h₁, h₂, false_and, if_false]
      rfl
  | _ => rfl

theorem ownerUpdate_elim (call : LeaseCall) :
    (ownerUpdate call.lease call.params).elim
        (stringAttribute call.lease.leaseOwner) AttributeValueUpdate.result =
      stringAttribute call.ownerAfter := by
  cases call with
  | takeLease lease newOwner =>
      by_cases h : lease.leaseOwner = some newOwner
      · simp [ownerUpdate, params, ownerAfter, LeaseCall.lease, h]
      · simp [ownerUpdate, params, ownerAfter, LeaseCall.lease, h,
          AttributeValueUpdate.result, stringAttribute]
  | evictLease lease =>
      cases h : lease.leaseOwner <;>
        simp [ownerUpdate, params, ownerAfter, LeaseCall.lease, h,
          AttributeValueUpdate.result]
  | _ => simp [ownerUpdate, params, ownerAfter, LeaseCall.lease]

/-- After a conditional update the row holds the counter after the one the
lease object carries. -/
theorem leaseCounter_of_perform {manager : LeaseManager} {dynamo : Service}
    {call : LeaseCall} (hupdate : call.isUpdate = true) {tbl tbl' : Table}
    {result : CallResult}
    (h : call.perform manager dynamo tbl = (tbl', .ok result)) :
    attributeOf (tbl'.row call.key) "leaseCounter" =
      counterAttribute (some ⟨nextCounter call.lease⟩) := by
  obtain ⟨-, -, htbl, -⟩ :=
    (perform_eq_ok_iff_of_isUpdate manager dynamo hupdate _ _ _).mp h
  simp [htbl, updatedRow, keyAttribute, lookup_updates hupdate,
    lookup_makeUpdateValues, AttributeValueUpdate.result, counterAttribute]

theorem leaseOwner_of_perform {manager : LeaseManager} {dynamo : Service}
    {call : LeaseCall} (hupdate : call.isUpdate = true) {tbl tbl' : Table}
    {result : CallResult}
    (h : call.perform manager dynamo tbl = (tbl', .ok result)) :
    attributeOf (tbl'.row call.key) "leaseOwner" =
      stringAttribute call.ownerAfter := by
  obtain ⟨-, hmatch, htbl, -⟩ :=
    (perform_eq_ok_iff_of_isUpdate manager dynamo hupdate _ _ _).mp h
  have howner := ((expectationHolds_makeCASExpectation _ _).mp hmatch).1
  have hold : lookup ((tbl.row call.key).getD ∅) "leaseOwner" =
      stringAttribute call.lease.leaseOwner := by
    rw [← howner]
    cases tbl.row call.key <;> simp
  rw [htbl, Table.row_put, if_pos rfl, attributeOf_some, lookup_insert,
    if_neg (by decide), updatedRow, lookup_applyUpdates,
    lookup_updates hupdate (by decide) (by decide), lookup_makeUpdateValues,
    hold]
  simp only [if_neg (show "leaseCounter" ≠ "leaseOwner" by decide),
    if_neg (show "ownerSwitchesSinceCheckpoint" ≠ "leaseOwner" by decide),
    if_true]
  exact ownerUpdate_elim call

theorem exists_perform_eq_ok {manager : LeaseManager} {dynamo : Service}
    {call : LeaseCall} (hupdate : call.isUpdate = true) {tbl : Table}
    (hreach : dynamo.reaches (call.tableName manager) = true)
    (hmatch : call.matchesRow tbl = true) :
    ∃ tbl', call.perform manager dynamo tbl =
      (tbl', .ok ⟨true, call.returned⟩) :=
  ⟨_, (perform_eq_ok_iff_of_isUpdate manager dynamo hupdate _ _ _).mpr
    ⟨hreach, hmatch, rfl, rfl⟩⟩

/-- A conditional update whose answer is told from that of an operation: the
operation succeeds with the call, or fails with it and changes nothing. -/
theorem perform_cases_of_isUpdate {manager : LeaseManager} {dynamo : Service}
    {call : LeaseCall} (hupdate : call.isUpdate = true) {tbl : Table} {ρ : Type}
    {answer : Table × Except DynamoDBErrors ρ} (toResult : ρ → CallResult)
    (h : call.perform manager dynamo tbl = (answer.1, answer.2.map toResult)) :
    (∃ tbl' result, answer = (tbl', .ok result) ∧
        toResult result = ⟨true, call.returned⟩ ∧
        call.perform manager dynamo tbl = (tbl', .ok ⟨true, call.returned⟩)) ∨
      ∃ e, answer = (tbl, .error e) ∧
        call.perform manager dynamo tbl = (tbl, .error e) := by
  obtain ⟨tbl', outcome⟩ := answer
  cases outcome with
  | ok result =>
      have hresult := ((perform_eq_ok_iff_of_isUpdate manager dynamo hupdate
        _ _ _).mp h).2.2.2
      exact Or.inl ⟨tbl', result, rfl, hresult, hresult ▸ h⟩
  | error e =>
      cases perform_fst_of_error h
      exact Or.inr ⟨e, rfl, h⟩

end LeaseCall

namespace LeaseManager

theorem renewLease_cases (manager : LeaseManager) (dynamo : Service)
    (lease : Lease) (tbl : Table) :
    (∃ tbl', manager.renewLease dynamo lease tbl =
        (tbl', .ok ⟨true, lease.copySharedWithIncrementedCounter⟩) ∧
      (LeaseCall.renewLease lease).perform manager dynamo tbl =
        (tbl', .ok ⟨true, some lease.copySharedWithIncrementedCounter⟩)) ∨
    ∃ e, manager.renewLease dynamo lease tbl = (tbl, .error e) ∧
      (LeaseCall.renewLease lease).perform manager dynamo tbl =
        (tbl, .error e) := by
  have hperform : (LeaseCall.renewLease lease).perform manager dynamo tbl =
      ((manager.renewLease dynamo lease tbl).1,
        (manager.renewLease dynamo lease tbl).2.map fun r =>
          ⟨r.renewed, some r.lease⟩) := rfl
  rcases LeaseCall.perform_cases_of_isUpdate rfl _ hperform with
    ⟨tbl', ⟨renewed, renewedLease⟩, heq, hresult, hcall⟩ | herror
  · cases hresult
    exact Or.inl ⟨tbl', heq, hcall⟩
  · exact Or.inr herror

theorem updateLease_cases (manager : LeaseManager) (dynamo : Service)
    (lease : Lease) (tbl : Table) :
    (∃ tbl', updateLease dynamo lease tbl = (tbl', .ok ⟨true, lease⟩) ∧
      (LeaseCall.updateLease lease).perform manager dynamo tbl =
        (tbl', .ok ⟨true, some lease⟩)) ∨
    ∃ e, updateLease dynamo lease tbl = (tbl, .error e) ∧
      (LeaseCall.updateLease lease).perform manager dynamo tbl =
        (tbl, .error e) := by
  have hperform : (LeaseCall.updateLease lease).perform manager dynamo tbl =
      ((updateLease dynamo lease tbl).1,
        (updateLease dynamo lease tbl).2.map fun r =>
          ⟨r.updated, some r.lease⟩) := rfl
  rcases LeaseCall.perform_cases_of_isUpdate rfl _ hperform with
    ⟨tbl', ⟨updated, updatedLease⟩, heq, hresult, hcall⟩ | herror
  · cases hresult
    exact Or.inl ⟨tbl', heq, hcall⟩
  · exact Or.inr herror

end LeaseManager

/-- The lease manager, the service, a lease that another worker holds and its
table, as the concrete runs of this development use them. -/
def sampleManager : LeaseManager := ⟨⟨"leases"⟩⟩

def sampleDynamo : Service := ⟨⟨"leases"⟩, true⟩

def sampleLease : Lease where
  leaseKey := ⟨"shard-1"⟩
  leaseOwner := some ⟨"worker-a"⟩
  leaseCounter := some ⟨5⟩

def sampleTable : Table :=
  Table.empty.put sampleLease.leaseKey.value sampleLease.toDynamoDict

end Leases

end Kclpp
