import Kclpp.Leases.LeaseManager.Calls
import Kclpp.Transition.VersionedCell

/-!
# Lease objects in circulation

Any number of workers read lease objects from the table, get them back from
calls, and build calls from them at any later time. `Circulation` is the table
with all the lease objects that some worker has, and `step` one reading or one
call. Seen at one key it is a versioned cell, with the row's counter as its
version: `Refines` relates the two, and `refines_step` is the simulation. What
the cell guarantees then holds of the lease counters.
-/

open OrderedMap

namespace Kclpp

namespace Leases

open Dynamo Util Lease

open Transition (run Meets VersionedCell)

/-- The table, the lease objects that workers have, and the updates accepted so
far, newest first. -/
structure Circulation where
  tbl : Table
  pool : List Lease
  accepted : List LeaseCall

/-- What a worker does: list the leases of a page, or make a call. -/
inductive WorkerAction where
  | listLeases (order : List String) (errno : Errno)
  | call (call : LeaseCall)

def sameVersion (lease lease' : Lease) : Bool :=
  lease.leaseKey = lease'.leaseKey ∧ lease.leaseOwner = lease'.leaseOwner ∧
    lease.leaseCounter = lease'.leaseCounter

def builtFrom (pool : List Lease) (call : LeaseCall) : Bool :=
  !call.isUpdate || pool.any fun lease => sameVersion lease call.lease

/-- The row under the key has the counter `n`. -/
def HasCounter (tbl : Table) (key : String) (n : ℕ) : Prop :=
  ∃ counter : LeaseCounter,
    attributeOf (tbl.row key) "leaseCounter" = counterAttribute (some counter) ∧
      counter.value.toNat = n

def Succeeds (manager : LeaseManager) (dynamo : Service) (call : LeaseCall)
    (tbl : Table) : Prop :=
  ∃ tbl' result, call.perform manager dynamo tbl = (tbl', .ok result)

namespace Circulation

def step (manager : LeaseManager) (dynamo : Service) (s : Circulation) :
    WorkerAction → Option Circulation
  | .listLeases order errno =>
      match manager.listLeases dynamo order errno s.tbl with
      | .ok leases => some { s with pool := leases ++ s.pool }
      | .error _ => some s
  | .call call =>
      if builtFrom s.pool call then
        match call.perform manager dynamo s.tbl with
        | (tbl', .ok result) =>
            some
              { tbl := tbl'
                pool := result.lease.toList ++ s.pool
                accepted :=
                  if call.isUpdate then call :: s.accepted else s.accepted }
        | (tbl', .error _) => some { s with tbl := tbl' }
      else none

def CounterBelowMax (key : String) (s : Circulation) : Prop :=
  ∀ n, HasCounter s.tbl key n → n < 2 ^ 64 - 1

/-- The counters that the accepted updates of a key were built from. -/
def acceptedCounters (key : String) (s : Circulation) :
    List (Option LeaseCounter) :=
  (s.accepted.filter fun call => call.key = key).map fun call =>
    call.lease.leaseCounter

end Circulation

theorem HasCounter.unique {tbl : Table} {key : String} {n n' : ℕ}
    (h : HasCounter tbl key n) (h' : HasCounter tbl key n') : n = n' := by
  obtain ⟨counter, hattr, rfl⟩ := h
  obtain ⟨counter', hattr', rfl⟩ := h'
  rw [hattr] at hattr'
  rw [Option.some.inj (counterAttribute_injective hattr')]

theorem HasCounter.row_ne_none {tbl : Table} {key : String} {n : ℕ}
    (h : HasCounter tbl key n) : tbl.row key ≠ none := by
  obtain ⟨counter, hattr, -⟩ := h
  intro hrow
  rw [hrow] at hattr
  cases hattr

theorem hasCounter_put_toDynamoDict (tbl : Table) (lease : Lease) :
    HasCounter (tbl.put lease.leaseKey.value lease.toDynamoDict)
      lease.leaseKey.value
      (lease.leaseCounter.elim 0 fun counter => counter.value).toNat := by
  refine ⟨⟨lease.leaseCounter.elim 0 fun counter => counter.value⟩, ?_, rfl⟩
  rw [Table.row_put, if_pos rfl, attributeOf_some, lookup_insert,
    if_neg (by decide), lookup_toDynamoDict]
  simp [printNumber_eq, counterAttribute]

theorem leaseCounter_of_matchesRow {call : LeaseCall} {tbl : Table} {n : ℕ}
    (hmatch : call.matchesRow tbl = true) (hn : HasCounter tbl call.key n) :
    ∃ counter, call.lease.leaseCounter = some counter ∧
      counter.value.toNat = n := by
  obtain ⟨counter, hattr, hval⟩ := hn
  have hcounter := ((expectationHolds_makeCASExpectation _ _).mp hmatch).2
  rw [hattr] at hcounter
  exact ⟨counter, (counterAttribute_injective hcounter).symm, hval⟩

theorem hasCounter_succ_of_perform {manager : LeaseManager} {dynamo : Service}
    {call : LeaseCall} (hupdate : call.isUpdate = true) {tbl tbl' : Table}
    {result : CallResult}
    (h : call.perform manager dynamo tbl = (tbl', .ok result)) {n : ℕ}
    (hn : HasCounter tbl call.key n) (hmax : n < 2 ^ 64 - 1) :
    HasCounter tbl' call.key (n + 1) := by
  obtain ⟨-, hmatch, -, -⟩ :=
    (LeaseCall.perform_eq_ok_iff_of_isUpdate _ _ hupdate _ _ _).mp h
  obtain ⟨counter, hcounter, rfl⟩ := leaseCounter_of_matchesRow hmatch hn
  refine ⟨⟨nextCounter call.lease⟩,
    LeaseCall.leaseCounter_of_perform hupdate h, ?_⟩
  have hnext : nextCounter call.lease = counter.value + 1 := by
    rw [nextCounter, hcounter]
    rfl
  rw [hnext, UInt64.toNat_add]
  exact Nat.mod_eq_of_lt (by
    have : (1 : UInt64).toNat = 1 := rfl
    omega)

theorem mem_readLeases {lease : Lease} {errno : Errno} {items : List Item}
    (h : lease ∈ (LeaseManager.readLeases errno items).1) :
    ∃ item ∈ items, ∃ e e', fromDynamoDict e item = (.ok lease, e') := by
  induction items generalizing errno with
  | nil => cases h
  | cons item items ih =>
      cases hread : fromDynamoDict errno item with
      | mk outcome e' =>
      cases outcome with
      | error err =>
          simp only [LeaseManager.readLeases, hread] at h
          obtain ⟨found, hfound, hread'⟩ := ih h
          exact ⟨found, List.mem_cons_of_mem _ hfound, hread'⟩
      | ok first =>
          simp only [LeaseManager.readLeases, hread] at h
          rcases List.mem_cons.mp h with rfl | h
          · exact ⟨item, List.mem_cons_self, errno, e', hread⟩
          · obtain ⟨found, hfound, hread'⟩ := ih h
            exact ⟨found, List.mem_cons_of_mem _ hfound, hread'⟩

theorem mem_listLeases {manager : LeaseManager} {dynamo : Service}
    {order : List String} {errno : Errno} {tbl : Table} {leases : List Lease}
    (h : manager.listLeases dynamo order errno tbl = .ok leases) {lease : Lease}
    (hmem : lease ∈ leases) :
    ∃ item, tbl.row lease.leaseKey.value = some item ∧
      ∃ e e', fromDynamoDict e item = (.ok lease, e') := by
  unfold LeaseManager.listLeases Service.scan at h
  split_ifs at h with hreach
  · cases h
    obtain ⟨item, hitem, e, e', hread⟩ := mem_readLeases hmem
    obtain ⟨key, -, hrow⟩ :=
      List.mem_filterMap.mp (List.mem_of_mem_take hitem)
    refine ⟨item, ?_, e, e', hread⟩
    obtain ⟨attr, -, -, -, -, -, -, hattr, -, -, -, -, -, rfl⟩ :=
      (fromDynamoDict_eq_ok_iff _ _ _ _).mp hread
    have hkey := Table.keyAttribute_of_row hrow
    rw [keyAttribute, hattr] at hkey
    cases hkey
    exact hrow
  · cases h

theorem leaseCounter_of_mem_listLeases {manager : LeaseManager}
    {dynamo : Service} {order : List String} {errno : Errno} {tbl : Table}
    {leases : List Lease}
    (h : manager.listLeases dynamo order errno tbl = .ok leases) {lease : Lease}
    (hmem : lease ∈ leases) {n : ℕ}
    (hn : HasCounter tbl lease.leaseKey.value n) :
    ∃ counter, lease.leaseCounter = some counter ∧ counter.value.toNat = n := by
  obtain ⟨item, hrow, e, e', hread⟩ := mem_listLeases h hmem
  obtain ⟨counter, hattr, hval⟩ := hn
  rw [hrow, attributeOf_some] at hattr
  obtain ⟨-, -, number, -, -, e₁, -, -, -, -, hnumber, -, -, rfl⟩ :=
    (fromDynamoDict_eq_ok_iff _ _ _ _).mp hread
  rw [readNumber_of_lookup hattr] at hnumber
  split_ifs at hnumber with hlost
  · cases hnumber
  · cases hnumber
    exact ⟨counter, rfl, hval⟩

/-- The lease object an update hands back is about the same row, with the
counter before the update or the one after it. -/
theorem returned_cases {call : LeaseCall} (hupdate : call.isUpdate = true)
    {lease : Lease} (h : call.returned = some lease) :
    lease.leaseKey = call.lease.leaseKey ∧
      (lease.leaseCounter = call.lease.leaseCounter ∨
        lease.leaseCounter = some ⟨nextCounter call.lease⟩) := by
  cases call with
  | createLeaseIfNotExists created => cases hupdate
  | renewLease held =>
      cases h
      exact ⟨leaseKey_copySharedWithIncrementedCounter held,
        Or.inr (leaseCounter_copySharedWithIncrementedCounter held)⟩
  | takeLease held newOwner =>
      cases h
      exact ⟨rfl, Or.inl rfl⟩
  | evictLease held => cases h
  | updateLease held =>
      cases h
      exact ⟨rfl, Or.inl rfl⟩

namespace Circulation

/-- What one call does: it changes nothing, or it is answered, and the lease
object it hands back enters circulation. -/
theorem step_call_cases {manager : LeaseManager} {dynamo : Service}
    {s s' : Circulation} {call : LeaseCall}
    (h : step manager dynamo s (.call call) = some s') :
    builtFrom s.pool call = true ∧
      (s' = s ∨ ∃ tbl' result,
        call.perform manager dynamo s.tbl = (tbl', .ok result) ∧
          s' =
            { tbl := tbl'
              pool := result.lease.toList ++ s.pool
              accepted :=
                if call.isUpdate then call :: s.accepted else s.accepted }) := by
  simp only [step] at h
  by_cases hbuilt : builtFrom s.pool call = true
  case neg =>
    rw [if_neg hbuilt] at h
    cases h
  rw [if_pos hbuilt] at h
  refine ⟨hbuilt, ?_⟩
  cases hperform : call.perform manager dynamo s.tbl with
  | mk tbl' outcome =>
  rw [hperform] at h
  cases outcome with
  | error e =>
      cases h
      rw [LeaseCall.perform_fst_of_error hperform]
      exact Or.inl rfl
  | ok result =>
      cases h
      exact Or.inr ⟨tbl', result, rfl, rfl⟩

/-- The state seen at one key: the row's counter is the version of the cell, the
counters of the lease objects circulate, and the accepted updates are accepted
swaps. -/
structure Refines (key : String) (s : Circulation) (cell : VersionedCell) :
    Prop where
  version : HasCounter s.tbl key cell.version
  circulating : ∀ lease ∈ s.pool, lease.leaseKey.value = key →
    ∀ counter, lease.leaseCounter = some counter →
      counter.value.toNat ∈ cell.circulating
  accepted : (acceptedCounters key s).map
      (Option.map fun counter => counter.value.toNat) =
    cell.accepted.map some

theorem refines_listLeases {manager : LeaseManager} {dynamo : Service}
    {key : String} {s s' : Circulation} {cell : VersionedCell}
    {order : List String} {errno : Errno} (hR : Refines key s cell)
    (h : step manager dynamo s (.listLeases order errno) = some s') :
    ∃ rs cell', run VersionedCell.step cell rs = some cell' ∧
      Refines key s' cell' := by
  simp only [step] at h
  cases hlist : manager.listLeases dynamo order errno s.tbl with
  | error e =>
      rw [hlist] at h
      cases h
      exact ⟨[], cell, rfl, hR⟩
  | ok leases =>
      rw [hlist] at h
      cases h
      refine ⟨[.observe], _, rfl, hR.version, ?_, hR.accepted⟩
      intro lease hmem hkey counter hcounter
      rcases List.mem_append.mp hmem with hmem | hmem
      · subst hkey
        obtain ⟨counter', hcounter', hval⟩ :=
          leaseCounter_of_mem_listLeases hlist hmem hR.version
        rw [hcounter] at hcounter'
        cases hcounter'
        rw [hval]
        exact List.mem_cons_self
      · exact List.mem_cons_of_mem _ (hR.circulating lease hmem hkey counter hcounter)

theorem mem_pool_of_key_ne {key : String} {call : LeaseCall} {result : CallResult}
    (hkey : call.key ≠ key)
    (hlease : ∀ lease ∈ result.lease, lease.leaseKey = call.lease.leaseKey)
    {pool : List Lease} {lease : Lease} (hmem : lease ∈ result.lease.toList ++ pool)
    (hlkey : lease.leaseKey.value = key) : lease ∈ pool := by
  rcases List.mem_append.mp hmem with hnew | hold
  · refine absurd ?_ hkey
    rw [← hlkey, hlease lease (Option.mem_toList.mp hnew)]
    rfl
  · exact hold

theorem refines_of_key_ne {manager : LeaseManager} {dynamo : Service}
    {key : String} {s : Circulation} {cell : VersionedCell} {call : LeaseCall}
    {tbl' : Table} {result : CallResult} (hR : Refines key s cell)
    (h : call.perform manager dynamo s.tbl = (tbl', .ok result))
    (hkey : call.key ≠ key)
    (hlease : ∀ lease ∈ result.lease, lease.leaseKey = call.lease.leaseKey) :
    Refines key
      { tbl := tbl'
        pool := result.lease.toList ++ s.pool
        accepted := if call.isUpdate then call :: s.accepted else s.accepted }
      cell := by
  refine ⟨?_, ?_, ?_⟩
  · have hrow := LeaseCall.perform_row_of_ne manager dynamo call s.tbl hkey
    rw [h] at hrow
    unfold HasCounter
    rw [hrow]
    exact hR.version
  · intro lease hmem hlkey counter hcounter
    exact hR.circulating lease (mem_pool_of_key_ne hkey hlease hmem hlkey) hlkey
      counter hcounter
  · rw [← hR.accepted, acceptedCounters, acceptedCounters]
    cases call.isUpdate <;> simp [hkey]

/-- An accepted update of the row is a swap of the cell: the counter it expects is
the version that is current, and came to it from an object in circulation. What
it hands back is an observation of the new version, or the object it was given. -/
theorem refines_update {manager : LeaseManager} {dynamo : Service}
    {s : Circulation} {cell : VersionedCell} {call : LeaseCall}
    {tbl' : Table} {result : CallResult} (hupdate : call.isUpdate = true)
    (hR : Refines call.key s cell) (hmax : CounterBelowMax call.key s)
    (hbuilt : builtFrom s.pool call = true)
    (h : call.perform manager dynamo s.tbl = (tbl', .ok result))
    (hreturned : ∀ lease ∈ result.lease, call.returned = some lease) :
    ∃ rs cell', run VersionedCell.step cell rs = some cell' ∧
      Refines call.key
        { tbl := tbl'
          pool := result.lease.toList ++ s.pool
          accepted := call :: s.accepted } cell' := by
  obtain ⟨-, hmatch, -⟩ :=
    (LeaseCall.perform_eq_ok_iff_of_isUpdate _ _ hupdate _ _ _).mp h
  obtain ⟨counter, hcounter, hval⟩ := leaseCounter_of_matchesRow hmatch hR.version
  have hmem : cell.version ∈ cell.circulating := by
    rw [builtFrom, hupdate] at hbuilt
    obtain ⟨lease, hlease, hsame⟩ := List.any_eq_true.mp hbuilt
    obtain ⟨hkey, -, hcounter'⟩ := of_decide_eq_true hsame
    rw [← hval]
    refine hR.circulating lease hlease ?_ counter (hcounter'.trans hcounter)
    rw [hkey]
    rfl
  have hsucc := hasCounter_succ_of_perform hupdate h hR.version
    (hmax _ hR.version)
  refine ⟨[.swap cell.version, .observe],
    { version := cell.version + 1
      circulating := (cell.version + 1) :: cell.circulating
      accepted := cell.version :: cell.accepted }, ?_, hsucc, ?_, ?_⟩
  · rw [Transition.run_cons, VersionedCell.step_swap_version cell hmem]
    rfl
  · intro lease hpool hlkey c hc
    rcases List.mem_append.mp hpool with hnew | hold
    · obtain ⟨-, hc' | hc'⟩ := returned_cases hupdate
        (hreturned lease (Option.mem_toList.mp hnew))
      · rw [hc', hcounter] at hc
        cases hc
        rw [hval]
        exact List.mem_cons_of_mem _ hmem
      · rw [hc] at hc'
        cases hc'
        obtain ⟨stored, hstored, hval'⟩ := hsucc
        rw [LeaseCall.leaseCounter_of_perform hupdate h] at hstored
        cases counterAttribute_injective hstored
        rw [hval']
        exact List.mem_cons_self
    · exact List.mem_cons_of_mem _ (hR.circulating lease hold hlkey c hc)
  · have haccepted := hR.accepted
    simp only [acceptedCounters, List.filter_cons, decide_true, if_true,
      List.map_cons, hcounter, Option.map_some, hval] at haccepted ⊢
    rw [haccepted]

/-- A call that is answered is a swap of the cell followed by an observation
where it is an update of the row, and nothing where it is about another row or
finds the row already created. -/
theorem refines_call {manager : LeaseManager} {dynamo : Service}
    {key : String} {s : Circulation} {cell : VersionedCell} {call : LeaseCall}
    {tbl' : Table} {result : CallResult} (hR : Refines key s cell)
    (hmax : CounterBelowMax key s) (hbuilt : builtFrom s.pool call = true)
    (h : call.perform manager dynamo s.tbl = (tbl', .ok result)) :
    ∃ rs cell', run VersionedCell.step cell rs = some cell' ∧
      Refines key
        { tbl := tbl'
          pool := result.lease.toList ++ s.pool
          accepted := if call.isUpdate then call :: s.accepted else s.accepted }
        cell' := by
  cases hupdate : call.isUpdate with
  | false =>
      refine ⟨[], cell, rfl, ?_⟩
      cases call with
      | createLeaseIfNotExists created =>
          obtain ⟨-, ⟨hrow, -, hres⟩ | ⟨-, htbl, hres⟩⟩ :=
            (LeaseCall.perform_createLeaseIfNotExists_eq_ok_iff
              _ _ _ _ _ _).mp h
          · have hkey : created.leaseKey.value ≠ key := by
              rintro rfl
              exact hR.version.row_ne_none hrow
            refine refines_of_key_ne hR h hkey ?_
            rw [hres]
            rintro lease ⟨⟩
            rfl
          · rw [htbl, hres]
            exact hR
      | _ => cases hupdate
  | true =>
      have hreturned : ∀ lease ∈ result.lease, call.returned = some lease := by
        obtain ⟨-, -, -, hres⟩ :=
          (LeaseCall.perform_eq_ok_iff_of_isUpdate _ _ hupdate _ _ _).mp h
        rw [hres]
        exact fun lease hlease => hlease
      by_cases hkey : call.key = key
      · subst hkey
        exact refines_update hupdate hR hmax hbuilt h hreturned
      · have hframe := refines_of_key_ne hR h hkey fun lease hlease =>
          (returned_cases hupdate (hreturned lease hlease)).1
        rw [hupdate] at hframe
        exact ⟨[], cell, rfl, hframe⟩

/-- Every action of a worker is a run of the cell. -/
theorem refines_step {manager : LeaseManager} {dynamo : Service} {key : String}
    {s s' : Circulation} {action : WorkerAction} {cell : VersionedCell}
    (hR : Refines key s cell) (hmax : CounterBelowMax key s)
    (h : step manager dynamo s action = some s') :
    ∃ rs cell', run VersionedCell.step cell rs = some cell' ∧
      Refines key s' cell' := by
  cases action with
  | listLeases order errno => exact refines_listLeases hR h
  | call call =>
      obtain ⟨hbuilt, rfl | ⟨tbl', result, hperform, rfl⟩⟩ := step_call_cases h
      · exact ⟨[], cell, rfl, hR⟩
      · exact refines_call hR hmax hbuilt hperform

/-- Every run in which the counter does not reach its last value is a run of the
cell. -/
theorem refines_run {manager : LeaseManager} {dynamo : Service} {key : String}
    {s s' : Circulation} {actions : List WorkerAction} {cell : VersionedCell}
    (hR : Refines key s cell)
    (hm : Meets (step manager dynamo) (fun s _ => CounterBelowMax key s) s
      actions)
    (hr : run (step manager dynamo) s actions = some s') :
    ∃ rs cell', run VersionedCell.step cell rs = some cell' ∧
      Refines key s' cell' :=
  Transition.run_simulation
    (fun _ _ _ _ hR hmax hstep => refines_step hR hmax hstep) hR hm hr

theorem refines_created {manager : LeaseManager} {dynamo : Service}
    {created : Lease} {tbl₀ tbl : Table} {pool : List Lease}
    (hcreate : (LeaseCall.createLeaseIfNotExists created).perform manager dynamo
      tbl₀ = (tbl, .ok ⟨true, some created⟩))
    (hpool : ∀ lease ∈ pool, lease.leaseKey ≠ created.leaseKey) :
    ∃ n, Refines created.leaseKey.value ⟨tbl, created :: pool, []⟩ ⟨n, [n], []⟩ := by
  obtain ⟨-, ⟨-, rfl, -⟩ | ⟨-, -, hres⟩⟩ :=
    (LeaseCall.perform_createLeaseIfNotExists_eq_ok_iff _ _ _ _ _ _).mp hcreate
  · refine ⟨_, hasCounter_put_toDynamoDict tbl₀ created, ?_, rfl⟩
    intro lease hmem hkey counter hcounter
    rcases List.mem_cons.mp hmem with rfl | hmem
    · rw [hcounter]
      exact List.mem_cons_self
    · exact absurd (StringProxy.ext hkey) (hpool lease hmem)
  · cases hres

/-- Fencing. In every run of the workers after the creation of a row, up to the
last value of its counter: a successful update raises the counter by exactly
one, a refused call changes nothing, no two accepted updates were built from the
same counter, and once an update is accepted none built from a lease object that
was already in circulation is accepted again. -/
theorem fencing_of_run (manager : LeaseManager) (dynamo : Service)
    (created : Lease) (tbl₀ tbl : Table) (pool : List Lease)
    (hcreate : (LeaseCall.createLeaseIfNotExists created).perform manager dynamo
      tbl₀ = (tbl, .ok ⟨true, some created⟩))
    (hpool : ∀ lease ∈ pool, lease.leaseKey ≠ created.leaseKey)
    (actions : List WorkerAction) (s : Circulation)
    (hm : Meets (step manager dynamo)
      (fun s _ => CounterBelowMax created.leaseKey.value s)
      ⟨tbl, created :: pool, []⟩ actions)
    (hr : run (step manager dynamo) ⟨tbl, created :: pool, []⟩ actions = some s) :
    (∀ (call : LeaseCall) tbl' result, call.isUpdate = true →
      call.key = created.leaseKey.value →
      CounterBelowMax created.leaseKey.value s →
      call.perform manager dynamo s.tbl = (tbl', .ok result) →
      ∃ n, HasCounter s.tbl created.leaseKey.value n ∧
        HasCounter tbl' created.leaseKey.value (n + 1)) ∧
    (∀ (call : LeaseCall) tbl' e,
      call.perform manager dynamo s.tbl = (tbl', .error e) → tbl' = s.tbl) ∧
    (acceptedCounters created.leaseKey.value s).Nodup ∧
    (∀ (call : LeaseCall) actions' s', call.isUpdate = true →
      call.key = created.leaseKey.value → Succeeds manager dynamo call s.tbl →
      Meets (step manager dynamo)
        (fun s _ => CounterBelowMax created.leaseKey.value s) s
        (.call call :: actions') →
      run (step manager dynamo) s (.call call :: actions') = some s' →
      ∀ old ∈ s.pool, old.leaseKey = created.leaseKey →
        ∀ later : LeaseCall, later.isUpdate = true →
          sameVersion old later.lease = true →
          ¬ Succeeds manager dynamo later s'.tbl) := by
  obtain ⟨n, hR₀⟩ := refines_created hcreate hpool
  obtain ⟨rs, cell, hcell, hR⟩ := refines_run hR₀ hm hr
  have hfenced : VersionedCell.Fenced ⟨n, [n], []⟩ := by
    refine ⟨?_, ?_, List.Pairwise.nil⟩ <;> simp
  have hinv := VersionedCell.fenced_of_run hfenced hcell
  refine ⟨?_, ?_, ?_, ?_⟩
  · intro call tbl' result hupdate hkey hmax hperform
    have hn := hR.version
    rw [← hkey] at hn ⊢
    exact ⟨cell.version, hn,
      hasCounter_succ_of_perform hupdate hperform hn (hmax _ hR.version)⟩
  · intro call tbl' e hperform
    exact LeaseCall.perform_fst_of_error hperform
  · have hnodup := VersionedCell.accepted_nodup_of_run hfenced hcell
    have himage := hnodup.map (Option.some_injective ℕ)
    rw [← hR.accepted] at himage
    exact himage.of_map
  · rintro call actions' s' hupdate hkey ⟨tbl', result, hperform⟩ hm' hr' old
      hold hokey later hlater hsame ⟨tbl'', result', hperform'⟩
    obtain ⟨s₁, hstep, hrun⟩ :=
      (Transition.run_cons_eq_some_iff _ _ _ _ _).mp hr'
    obtain ⟨-, cell₁, -, hR₁⟩ := refines_step hR hm'.1 hstep
    obtain ⟨rs', cell', hcell', hR'⟩ := refines_run hR₁ (hm'.2 s₁ hstep) hrun
    have htbl : s₁.tbl = tbl' := by
      simp only [step, hperform] at hstep
      split_ifs at hstep
      cases hstep
      rfl
    have hsucc : HasCounter s₁.tbl created.leaseKey.value (cell.version + 1) := by
      have hn := hR.version
      rw [← hkey] at hn ⊢
      rw [htbl]
      exact hasCounter_succ_of_perform hupdate hperform hn (hm'.1 _ hR.version)
    have hlt : cell.version < cell₁.version := by
      rw [hR₁.version.unique hsucc]
      exact Nat.lt_succ_self _
    obtain ⟨hkey', -, hcounter'⟩ := of_decide_eq_true hsame
    obtain ⟨-, hmatch, -, -⟩ :=
      (LeaseCall.perform_eq_ok_iff_of_isUpdate _ _ hlater _ _ _).mp hperform'
    have hversion' : HasCounter s'.tbl later.key cell'.version := by
      rw [LeaseCall.key, ← hkey', hokey]
      exact hR'.version
    obtain ⟨counter, hcounter, hval⟩ :=
      leaseCounter_of_matchesRow hmatch hversion'
    have hbehind := VersionedCell.lt_version_of_run hinv hlt hcell'
      (hR.circulating old hold (congrArg StringProxy.value hokey) counter
        (hcounter'.trans hcounter))
    exact absurd hval (ne_of_lt hbehind)

theorem counterBelowMax_of_attributeOf {key : String} {s : Circulation}
    {counter : LeaseCounter} (hlt : counter.value.toNat < 2 ^ 64 - 1)
    (h : attributeOf (s.tbl.row key) "leaseCounter" = counterAttribute (some counter)) :
    CounterBelowMax key s := by
  intro n hn
  rwa [hn.unique ⟨counter, h, rfl⟩]

/-- The owner renews; the other worker takes, first with the object from before the
renewal and then with the renewed one; the owner does not notice and renews again. -/
def sampleRace : List WorkerAction :=
  let renewed := sampleLease.copySharedWithIncrementedCounter
  let taken : Lease :=
    { sampleLease with leaseOwner := some ⟨"worker-b"⟩, leaseCounter := some ⟨7⟩ }
  [.call (.renewLease sampleLease), .call (.takeLease sampleLease ⟨"worker-b"⟩),
    .call (.takeLease renewed ⟨"worker-b"⟩), .call (.renewLease renewed),
    .listLeases ["shard-1"] 0, .call (.renewLease taken)]

theorem fencing_of_run_sampleRace :
    ∃ s, run (step sampleManager sampleDynamo) ⟨sampleTable, [sampleLease], []⟩
        sampleRace = some s ∧
      acceptedCounters sampleLease.leaseKey.value s = [some ⟨7⟩, some ⟨6⟩, some ⟨5⟩] ∧
      (acceptedCounters sampleLease.leaseKey.value s).Nodup := by
  have hcounters : (run (step sampleManager sampleDynamo) ⟨sampleTable, [sampleLease], []⟩
      sampleRace).map (acceptedCounters sampleLease.leaseKey.value) =
        some [some ⟨7⟩, some ⟨6⟩, some ⟨5⟩] := by decide +kernel
  obtain ⟨s, hs, heq⟩ := Option.map_eq_some_iff.mp hcounters
  have hmeets : Meets (step sampleManager sampleDynamo)
      (fun s _ => ∃ counter ∈ ([⟨5⟩, ⟨6⟩, ⟨7⟩, ⟨8⟩] : List LeaseCounter),
        counter.value.toNat < 2 ^ 64 - 1 ∧
          attributeOf (s.tbl.row sampleLease.leaseKey.value) "leaseCounter" =
            counterAttribute (some counter))
      ⟨sampleTable, [sampleLease], []⟩ sampleRace := by decide +kernel
  refine ⟨s, hs, heq, (fencing_of_run sampleManager sampleDynamo sampleLease
    Table.empty sampleTable [] ?_ (by simp) sampleRace s ?_ hs).2.2.1⟩
  · exact Prod.ext rfl (by decide +kernel)
  · refine Transition.meets_mono (fun s _ h => ?_) hmeets
    obtain ⟨counter, -, hlt, hattr⟩ := h
    exact counterBelowMax_of_attributeOf hlt hattr

end Circulation

end Leases

end Kclpp
