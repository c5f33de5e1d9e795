import Kclpp.Balancing.Loads
import Kclpp.Leases.LeaseTaker.Scans

/-!
# Lease counts

The taker counts the leases that have not expired by their owner: the map it
makes is `countOf` on the owners and on its own worker. From that, the size of
the map is the number of workers the taker knows of, the most loaded worker has
the highest count, and the target is the share of a worker, capped.
-/

open OrderedMap

namespace Kclpp

namespace Leases

open Balancing

namespace LeaseTaker

def liveOwner (expiredLeaseKeys : List LeaseKey) (lease : Lease) :
    Option LeaseOwner :=
  if lease.leaseKey ∈ expiredLeaseKeys then none else lease.leaseOwner

def liveCount (leases : List Lease) (expiredLeaseKeys : List LeaseKey) :
    LeaseOwner → ℕ :=
  countOf (liveOwner expiredLeaseKeys) leases

def liveOwners (leases : List Lease) (expiredLeaseKeys : List LeaseKey) :
    Finset LeaseOwner :=
  (leases.filterMap (liveOwner expiredLeaseKeys)).toFinset

theorem mem_liveOwners_iff (leases : List Lease)
    (expiredLeaseKeys : List LeaseKey) (worker : LeaseOwner) :
    worker ∈ liveOwners leases expiredLeaseKeys ↔
      0 < liveCount leases expiredLeaseKeys worker := by
  simp [liveOwners, liveCount, countOf_pos_iff]

/-- One step of `computeLeaseCounts`: a lease counts for its live owner. -/
def countLive (expiredLeaseKeys : List LeaseKey) (result : LeaseCountMap)
    (lease : Lease) : LeaseCountMap :=
  (liveOwner expiredLeaseKeys lease).elim result (insertOrIncrement result)

theorem computeLeaseCounts_eq (taker : LeaseTaker)
    (expiredLeaseKeys : List LeaseKey) :
    taker.computeLeaseCounts expiredLeaseKeys =
      (taker.allLeases.toList.foldl (countLive expiredLeaseKeys)
        ∅).insertIfNew taker.workerID 0 := by
  unfold computeLeaseCounts
  dsimp only
  congr 2
  funext result lease
  unfold countLive liveOwner
  split_ifs
  · rfl
  · cases lease.leaseOwner <;> rfl

theorem lookup_foldl_countLive (expiredLeaseKeys : List LeaseKey)
    (leases : List Lease) (counts : LeaseCountMap) (worker : LeaseOwner) :
    lookup (leases.foldl (countLive expiredLeaseKeys) counts) worker =
      if 0 < liveCount leases expiredLeaseKeys worker then
        some ((lookup counts worker).getD 0 +
          liveCount leases expiredLeaseKeys worker)
      else lookup counts worker := by
  induction leases generalizing counts with
  | nil => simp [liveCount]
  | cons lease leases ih =>
      rw [List.foldl_cons, ih]
      unfold liveCount countLive
      rw [countOf_cons]
      cases liveOwner expiredLeaseKeys lease with
      | none => simp
      | some owner =>
          by_cases hworker : owner = worker
          · subst hworker
            simp only [Option.elim_some, insertOrIncrement, lookup_insert,
              if_true, Option.getD_some]
            rw [if_pos (Nat.succ_pos _)]
            split_ifs with hpos
            · rw [add_assoc, add_comm 1]
            · rw [Nat.eq_zero_of_not_pos hpos]
          · simp [hworker, insertOrIncrement]

theorem lookup_computeLeaseCounts (taker : LeaseTaker)
    (expiredLeaseKeys : List LeaseKey) (worker : LeaseOwner) :
    lookup (taker.computeLeaseCounts expiredLeaseKeys) worker =
      if worker ∈ insert taker.workerID
          (liveOwners taker.allLeases.toList expiredLeaseKeys) then
        some (liveCount taker.allLeases.toList expiredLeaseKeys worker)
      else none := by
  rw [computeLeaseCounts_eq]
  simp only [lookup_insertIfNew, lookup_foldl_countLive, lookup_empty,
    Finset.mem_insert, mem_liveOwners_iff]
  by_cases hself : taker.workerID = worker
  · subst hself
    split_ifs <;> simp_all
  · have hself' : worker ≠ taker.workerID := fun h => hself h.symm
    simp [hself, hself']

/-- The workers a taker knows of: the owners of leases, and its own. -/
def knownWorkers (taker : LeaseTaker) (expiredLeaseKeys : List LeaseKey) :
    Finset LeaseOwner :=
  insert taker.workerID (liveOwners taker.allLeases.toList expiredLeaseKeys)

theorem size_computeLeaseCounts (taker : LeaseTaker)
    (expiredLeaseKeys : List LeaseKey) :
    (taker.computeLeaseCounts expiredLeaseKeys).size =
      (taker.knownWorkers expiredLeaseKeys).card := by
  refine size_eq_card _ fun worker => ?_
  rw [lookup_computeLeaseCounts, knownWorkers]
  split_ifs with h <;> simp [h]

theorem knownWorkers_card_pos (taker : LeaseTaker)
    (expiredLeaseKeys : List LeaseKey) :
    0 < (taker.knownWorkers expiredLeaseKeys).card :=
  Finset.card_pos.mpr ⟨taker.workerID, Finset.mem_insert_self _ _⟩

/-- A search that has started ends with its start or a pair of the list, and
with a count that none of them exceeds. -/
theorem foldl_moreLoaded_some (counts : List (LeaseOwner × ℕ))
    (found : LeaseOwner × ℕ) :
    ∃ best, counts.foldl moreLoaded (some found) = some best ∧
      (best = found ∨ best ∈ counts) ∧ found.2 ≤ best.2 ∧
      ∀ countPair ∈ counts, countPair.2 ≤ best.2 := by
  induction counts generalizing found with
  | nil => exact ⟨found, rfl, Or.inl rfl, le_rfl, by simp⟩
  | cons countPair counts ih =>
      rw [List.foldl_cons, moreLoaded]
      split_ifs with hlt
      · obtain ⟨best, heq, hmem, hle, hall⟩ := ih countPair
        refine ⟨best, heq, Or.inr (List.mem_cons.mpr hmem), ?_, ?_⟩
        · omega
        · exact List.forall_mem_cons.mpr ⟨hle, hall⟩
      · obtain ⟨best, heq, hmem, hle, hall⟩ := ih found
        refine ⟨best, heq, hmem.imp_right (List.mem_cons_of_mem _), hle, ?_⟩
        refine List.forall_mem_cons.mpr ⟨?_, hall⟩
        omega

/-- Among the counts of a taker there is a most loaded worker, and no worker has
a higher count. -/
theorem exists_mostLoadedWorker (taker : LeaseTaker)
    (expiredLeaseKeys : List LeaseKey) :
    ∃ worker ∈ taker.knownWorkers expiredLeaseKeys,
      mostLoadedWorker (taker.computeLeaseCounts expiredLeaseKeys) =
        some (worker,
          liveCount taker.allLeases.toList expiredLeaseKeys worker) ∧
      ∀ other ∈ taker.knownWorkers expiredLeaseKeys,
        liveCount taker.allLeases.toList expiredLeaseKeys other ≤
          liveCount taker.allLeases.toList expiredLeaseKeys worker := by
  have hmem : ∀ worker count,
      (worker, count) ∈ (taker.computeLeaseCounts expiredLeaseKeys).toList ↔
        worker ∈ taker.knownWorkers expiredLeaseKeys ∧
          liveCount taker.allLeases.toList expiredLeaseKeys worker = count := by
    intro worker count
    rw [mem_toList_iff_lookup, lookup_computeLeaseCounts, knownWorkers]
    split_ifs with h <;> simp [h]
  rw [mostLoadedWorker]
  have hself := (hmem taker.workerID _).mpr ⟨Finset.mem_insert_self _ _, rfl⟩
  generalize (taker.computeLeaseCounts expiredLeaseKeys).toList = counts at *
  cases counts with
  | nil => cases hself
  | cons first counts =>
      obtain ⟨⟨worker, count⟩, heq, hbest, hle, hall⟩ :=
        foldl_moreLoaded_some counts first
      obtain ⟨hworker, rfl⟩ := (hmem worker count).mp (List.mem_cons.mpr hbest)
      refine ⟨worker, hworker, heq, fun other hother => ?_⟩
      have hother' := (hmem other _).mpr ⟨hother, rfl⟩
      rcases List.mem_cons.mp hother' with h | h
      · rw [← h] at hle
        exact hle
      · exact hall _ h

/-- The target is the share of a worker, capped by the number of leases that are
stolen at once. -/
theorem leaseTarget_eq (taker : LeaseTaker) {numLeases numWorkers : ℕ}
    (hsteal : 1 ≤ taker.maxLeasesToStealAtOnce.value.toNat)
    (hleases : 0 < numLeases) (hworkers : 0 < numWorkers) :
    taker.leaseTarget numLeases numWorkers =
      min taker.maxLeasesToStealAtOnce.value.toNat
        (numLeases ⌈/⌉ numWorkers) := by
  have hshare : ∀ target, numLeases ≤ numWorkers * target →
      numWorkers * (target - 1) < numLeases →
      numLeases ⌈/⌉ numWorkers = target := by
    intro target hle hlt
    refine le_antisymm ((ceilDiv_le_iff_le_smul hworkers).mpr hle) ?_
    by_contra hless
    have hle' : numLeases ⌈/⌉ numWorkers ≤ target - 1 := by omega
    have := (ceilDiv_le_iff_le_smul hworkers).mp hle'
    exact absurd this (not_le.mpr hlt)
  have hdiv := Nat.div_add_mod numLeases numWorkers
  have hmod := Nat.mod_lt numLeases hworkers
  unfold leaseTarget
  split_ifs with hmany hrest
  · rw [hshare 1 (by omega) (by simpa using hleases)]
    omega
  · rw [hshare (numLeases / numWorkers + 1) ?_ ?_]
    · rw [Nat.mul_add]
      omega
    · rw [Nat.add_sub_cancel]
      omega
  · have hpos : 1 ≤ numLeases / numWorkers :=
      Nat.div_pos (not_lt.mp hmany) hworkers
    rw [hshare (numLeases / numWorkers) ?_ ?_]
    · omega
    · rw [Nat.mul_sub, Nat.mul_one]
      omega

end LeaseTaker

end Leases

end Kclpp
