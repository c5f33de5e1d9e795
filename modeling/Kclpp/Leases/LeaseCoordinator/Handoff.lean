import Kclpp.Leases.LeaseCoordinator.Basic
import Kclpp.Leases.LeaseRenewer.Rounds
import Kclpp.Leases.LeaseTaker.Rounds

/-!
# From taking a lease to holding it

One round of the coordinator's taker followed by a round of its renewer. What
the taker reports as taken is the lease object it went for, which has the owner
and the counter from before the take; `addLeasesToRenew` passes it on, or skips
it when it has no increment time, and never replaces an object that is held
already. So the renewal of a lease just taken depends on what the renewer held
before the take, and on nothing the take did: `renewedAfterTake_iff`.
-/

open OrderedMap

namespace Kclpp

namespace Leases

open Clock Dynamo Lease

namespace LeaseCoordinator

/-- The row of a lease that the round has taken: it names this worker, and has
the counter after the one the taken object carries. -/
theorem agreesWith_of_runTaker_iff {manager : LeaseManager} {dynamo : Service}
    {conditions : TakerConditions} {coordinator after : LeaseCoordinator}
    {tbl tbl' : Table} {taken : List Lease}
    (hrun : coordinator.runTaker manager dynamo conditions tbl =
      some (after, tbl', taken)) {lease : Lease} (hmem : lease ∈ taken)
    (hmeanwhile : ∀ k tbl, (conditions.meanwhile k tbl).row
      lease.leaseKey.value = tbl.row lease.leaseKey.value) :
    dynamo.reaches (some manager.tableName) = true ∧
      ∀ held : Lease, held.leaseKey = lease.leaseKey →
        (AgreesWith tbl' held ↔
          held.leaseOwner = some coordinator.taker.workerID ∧
            held.leaseCounter = some ⟨nextCounter lease⟩) := by
  obtain ⟨updatedLeases, -, -, rfl, rfl⟩ :=
    (runTaker_eq_some_iff _ _ _ _ _ _ _ _).mp hrun
  obtain ⟨s, s', hperform, hrow⟩ :=
    LeaseTaker.exists_perform_of_mem_takenLeases hmeanwhile hmem
  obtain ⟨hreach, -, -, -⟩ :=
    (LeaseCall.perform_eq_ok_iff_of_isUpdate _ _ rfl _ _ _).mp hperform
  refine ⟨hreach, fun held hkey => ?_⟩
  have hiff := LeaseCall.agreesWith_of_perform_iff rfl hperform held hkey
  unfold AgreesWith at hiff ⊢
  rw [hkey] at hiff ⊢
  rw [hrow]
  exact hiff

theorem not_agreesWith_of_mem_taken {manager : LeaseManager} {dynamo : Service}
    {conditions : TakerConditions} {coordinator after : LeaseCoordinator}
    {tbl tbl' : Table} {taken : List Lease}
    (hrun : coordinator.runTaker manager dynamo conditions tbl =
      some (after, tbl', taken)) {lease : Lease} (hmem : lease ∈ taken)
    (hmeanwhile : ∀ k tbl, (conditions.meanwhile k tbl).row
      lease.leaseKey.value = tbl.row lease.leaseKey.value) :
    ¬ AgreesWith tbl' lease := by
  obtain ⟨-, hagree⟩ := agreesWith_of_runTaker_iff hrun hmem hmeanwhile
  rw [hagree lease rfl]
  rintro ⟨-, hcounter⟩
  exact nextCounter_ne lease hcounter.symm

/-- What the renewer holds after the round: what it held before, or a lease that
was taken. -/
theorem get_onTakeLeases (coordinator : LeaseCoordinator) (leases : List Lease)
    (key : LeaseKey) :
    (coordinator.onTakeLeases leases).leaseDuration =
        coordinator.renewer.leaseDuration ∧
      (∀ held, coordinator.renewer.ownedLeases.get key = some held →
        (coordinator.onTakeLeases leases).ownedLeases.get key = some held) ∧
      ∀ held, (coordinator.onTakeLeases leases).ownedLeases.get key = some held →
        coordinator.renewer.ownedLeases.get key = some held ∨
          held ∈ leases ∧ held.leaseKey = key := by
  unfold onTakeLeases
  cases coordinator.running with
  | false => exact ⟨rfl, fun _ h => h, fun _ h => Or.inl h⟩
  | true =>
      exact ⟨rfl, LeaseRenewer.get_addLeasesToRenew coordinator.renewer leases key⟩

/-- A worker takes a lease, nobody else writes its row, and the store serves the
renewal of a round at any later time. Then the worker holds the lease, the round
renews it and the worker still holds it exactly when the renewer already held,
before the take, an unexpired object of that key with this worker as its owner
and with the counter that the take was about to write. -/
theorem renewedAfterTake_iff (manager : LeaseManager) (dynamo : Service)
    (conditions : TakerConditions) (coordinator after : LeaseCoordinator)
    (tbl tbl₁ tbl₂ : Table) (taken : List Lease) (lease : Lease)
    (renewal : RoundConditions)
    (hrun : coordinator.runTaker manager dynamo conditions tbl =
      some (after, tbl₁, taken))
    (hmem : lease ∈ taken)
    (hmeanwhile : ∀ k tbl, (conditions.meanwhile k tbl).row
      lease.leaseKey.value = tbl.row lease.leaseKey.value)
    (hbetween : tbl₂.row lease.leaseKey.value = tbl₁.row lease.leaseKey.value)
    (hmeanwhile' : ∀ k tbl, (renewal.meanwhile k tbl).row
      lease.leaseKey.value = tbl.row lease.leaseKey.value)
    (hserved : renewal.refuses lease.leaseKey = none) :
    (after.renewer.ownedLeases.get lease.leaseKey ≠ none ∧
        LeaseRenewer.RenewsAndKeeps manager dynamo renewal after.renewer tbl₂
          lease.leaseKey) ↔
      ∃ held, coordinator.renewer.ownedLeases.get lease.leaseKey = some held ∧
        held.leaseOwner = some coordinator.taker.workerID ∧
        held.leaseCounter = some ⟨nextCounter lease⟩ ∧
        held.isExpired coordinator.renewer.leaseDuration
          (renewal.now lease.leaseKey) = false := by
  obtain ⟨hreach, hagree⟩ := agreesWith_of_runTaker_iff hrun hmem hmeanwhile
  have hsame : ∀ held : Lease, held.leaseKey = lease.leaseKey →
      (AgreesWith tbl₂ held ↔ AgreesWith tbl₁ held) := by
    intro held hkey
    unfold AgreesWith
    rw [hkey, hbetween]
  have houtdated : ∀ held ∈ taken, held.leaseKey = lease.leaseKey →
      ¬ AgreesWith tbl₁ held := by
    intro held htaken hkey
    rw [← hkey] at hmeanwhile
    exact not_agreesWith_of_mem_taken hrun htaken hmeanwhile
  have hafter : after.renewer = coordinator.onTakeLeases taken := by
    obtain ⟨updatedLeases, -, rfl, -, rfl⟩ :=
      (runTaker_eq_some_iff _ _ _ _ _ _ _ _).mp hrun
    rfl
  obtain ⟨hduration, hkeep, honly⟩ :=
    get_onTakeLeases coordinator taken lease.leaseKey
  rw [LeaseRenewer.renewsAndKeeps_iff hreach hmeanwhile' hserved, hafter,
    hduration]
  constructor
  · rintro ⟨-, held, hheld, hexpired, hrow⟩
    have hkey := LeaseMap.leaseKey_of_get hheld
    rw [hsame held hkey] at hrow
    rcases honly held hheld with hprior | ⟨htaken, -⟩
    · obtain ⟨howner, hcounter⟩ := (hagree held hkey).mp hrow
      exact ⟨held, hprior, howner, hcounter, hexpired⟩
    · exact absurd hrow (houtdated held htaken hkey)
  · rintro ⟨held, hprior, howner, hcounter, hexpired⟩
    have hkey := LeaseMap.leaseKey_of_get hprior
    have hheld := hkeep held hprior
    refine ⟨by rw [hheld]; simp, held, hheld, hexpired, ?_⟩
    rw [hsame held hkey, hagree held hkey]
    exact ⟨howner, hcounter⟩

def sampleStealTable : Table :=
  let other : Lease := { sampleLease with leaseKey := ⟨"shard-2"⟩ }
  sampleTable.put other.leaseKey.value other.toDynamoDict

def sampleThief : LeaseCoordinator where
  running := true
  taker := { workerID := ⟨"worker-b"⟩, leaseDuration := ⟨10⟩ }
  renewer :=
    { workerID := ⟨"worker-b"⟩, leaseDuration := ⟨10⟩, ownedLeases := .empty }

/-- A round of the taker at which nobody else writes, the store serves every
request and the shuffle changes nothing. -/
def quietTake (scanTime : NanosecondPoint) : TakerConditions where
  order := ["shard-1", "shard-2"]
  errno := 0
  scanRefused := none
  scanTime := scanTime
  shuffle := .identity
  meanwhile := fun _ tbl => tbl
  refuses := fun _ => none

theorem renewedAfterTake_iff_sampleThief :
    ∃ after tbl taken lease,
      sampleThief.runTaker sampleManager sampleDynamo (quietTake ⟨100⟩)
        sampleStealTable = some (after, tbl, taken) ∧ lease ∈ taken ∧
      ((after.renewer.ownedLeases.get lease.leaseKey ≠ none ∧
          LeaseRenewer.RenewsAndKeeps sampleManager sampleDynamo (.quiet ⟨105⟩)
            after.renewer tbl lease.leaseKey) ↔
        ∃ held, sampleThief.renewer.ownedLeases.get lease.leaseKey = some held ∧
          held.leaseOwner = some ⟨"worker-b"⟩ ∧
          held.leaseCounter = some ⟨nextCounter lease⟩ ∧
          held.isExpired ⟨10⟩ ⟨105⟩ = false) := by
  have hrun : ∃ after tbl taken,
      sampleThief.runTaker sampleManager sampleDynamo (quietTake ⟨100⟩)
        sampleStealTable = some (after, tbl, taken) ∧ taken ≠ [] :=
    ⟨_, _, _, rfl, by decide +kernel⟩
  obtain ⟨after, tbl, taken, hrun, hne⟩ := hrun
  obtain ⟨lease, hmem⟩ := List.exists_mem_of_ne_nil _ hne
  exact ⟨after, tbl, taken, lease, hrun, hmem,
    renewedAfterTake_iff sampleManager sampleDynamo (quietTake ⟨100⟩) sampleThief
      after sampleStealTable tbl tbl taken lease (.quiet ⟨105⟩) hrun hmem
      (fun _ _ => rfl) rfl (fun _ _ => rfl) rfl⟩

/-- A worker steals a lease. The row is its own, with the next counter; what its
renewer holds is the other worker's object, and its renewal is refused well
within the lease duration. -/
theorem stolenLease_lost :
    ∃ after tbl lease,
      sampleThief.runTaker sampleManager sampleDynamo (quietTake ⟨100⟩)
        sampleStealTable = some (after, tbl, [lease]) ∧
      attributeOf (tbl.row lease.leaseKey.value) "leaseOwner" =
        some (.s "worker-b") ∧
      attributeOf (tbl.row lease.leaseKey.value) "leaseCounter" =
        some (.n "6") ∧
      (after.renewer.ownedLeases.get lease.leaseKey).map
        (fun held => (held.leaseOwner, held.leaseCounter)) =
          some (some ⟨"worker-a"⟩, some ⟨5⟩) ∧
      (after.renewer.renewLeases sampleManager sampleDynamo (.quiet ⟨105⟩)
        tbl).outcomes = [(lease.leaseKey, .error .conditionalCheckFailed)] ∧
      (after.renewer.renewLeases sampleManager sampleDynamo (.quiet ⟨105⟩)
        tbl).renewer.ownedLeases.get lease.leaseKey = none := by
  refine ⟨_, _, _, rfl, ?_⟩
  decide +kernel

end LeaseCoordinator

end Leases

end Kclpp
