import Kclpp.Leases.LeaseTaker.Steals

/-!
# What a taker chooses

`ChosenWell` is what the choice of a taker is for: leases of its map, no two of
one key, as many as are missing to its target, expired ones before those of
others, and those of others from a single worker that has the most.
`computeLeasesToTake_chosenWell` says that every choice is one, whatever the
shuffle.

The target is not what `maxLeasesForWorker` allows. It is capped by the number of
leases that may be stolen at once, and the parameter that limits the worker is
read nowhere: `limitKept_iff` says when the limit is kept all the same.
-/

open OrderedMap

namespace Kclpp

namespace Leases

open Balancing Clock Dynamo Util

namespace LeaseTaker

def expiredKeys (taker : LeaseTaker) : List LeaseKey :=
  taker.getExpiredLeases.map fun lease => lease.leaseKey

def unexpiredCount (taker : LeaseTaker) (worker : LeaseOwner) : ℕ :=
  taker.allLeases.toList.countP fun lease =>
    lease.leaseOwner = some worker ∧
      lease.isExpired taker.leaseDuration (taker.lastScanTime.getD ⟨0⟩) = false

def ownCount (taker : LeaseTaker) : ℕ := taker.unexpiredCount taker.workerID

theorem mem_expiredKeys_iff {taker : LeaseTaker} {lease : Lease}
    (h : lease ∈ taker.allLeases.toList) :
    lease.leaseKey ∈ taker.expiredKeys ↔
      lease.isExpired taker.leaseDuration (taker.lastScanTime.getD ⟨0⟩) = true :=
  LeaseMap.leaseKey_mem_map_filter_iff h _

theorem liveCount_expiredKeys (taker : LeaseTaker) (worker : LeaseOwner) :
    liveCount taker.allLeases.toList taker.expiredKeys worker =
      taker.unexpiredCount worker := by
  refine List.countP_congr fun lease hmem => ?_
  have hkey := mem_expiredKeys_iff hmem
  simp only [liveOwner, decide_eq_true_eq]
  split_ifs with hexpired
  · simp [hkey.mp hexpired]
  · simp [Bool.eq_false_iff.mpr (mt hkey.mpr hexpired)]

theorem selfCount_expiredKeys (taker : LeaseTaker) :
    taker.selfCount taker.expiredKeys = taker.ownCount :=
  taker.liveCount_expiredKeys _

/-- What the choice of a taker is for. -/
structure ChosenWell (taker : LeaseTaker) (chosen : List Lease) : Prop where
  distinct : DistinctKeys chosen
  listed : ∀ lease ∈ chosen, lease ∈ taker.allLeases.toList
  enough : taker.target taker.expiredKeys ≤ taker.ownCount → chosen = []
  expired : taker.ownCount < taker.target taker.expiredKeys →
    taker.getExpiredLeases ≠ [] →
      (∀ lease ∈ chosen, lease ∈ taker.getExpiredLeases) ∧
      chosen.length = min taker.getExpiredLeases.length
        (taker.target taker.expiredKeys - taker.ownCount)
  stolen : taker.ownCount < taker.target taker.expiredKeys →
    taker.getExpiredLeases = [] →
      chosen.length ≤ min (taker.target taker.expiredKeys - taker.ownCount)
        taker.maxLeasesToStealAtOnce.value.toNat ∧
      (chosen ≠ [] → ∃ victim, victim ≠ taker.workerID ∧
        (∀ lease ∈ chosen, lease.leaseOwner = some victim) ∧
        ∀ other, taker.unexpiredCount other ≤ taker.unexpiredCount victim)

theorem numToSteal_le_min (taker : LeaseTaker) (mostLoaded : ℕ)
    (options : ChooseLeasesToStealOptions) :
    taker.numToSteal mostLoaded options ≤
      min options.neededNum taker.maxLeasesToStealAtOnce.value.toNat := by
  unfold numToSteal
  dsimp only
  split_ifs with hmost hbump <;> omega

theorem computeLeasesToTake_expired {taker : LeaseTaker} (shuffle : RandomShuffle)
    (hself : taker.ownCount < taker.target taker.expiredKeys)
    (hexpired : taker.getExpiredLeases ≠ []) :
    taker.computeLeasesToTake shuffle taker.getExpiredLeases =
      (shuffle.apply taker.getExpiredLeases).reverse.take
        (taker.target taker.expiredKeys - taker.ownCount) := by
  have hsize : taker.allLeases.size ≠ 0 := by
    intro hzero
    refine hexpired ?_
    rw [getExpiredLeases, List.length_eq_zero_iff.mp hzero, List.filter_nil]
  rw [taker.computeLeasesToTake_eq shuffle rfl, ← expiredKeys, selfCount_expiredKeys,
    if_neg, if_pos hexpired]
  rw [not_or, not_le]
  exact ⟨hsize, hself⟩

theorem length_computeLeasesToTake_expired {taker : LeaseTaker}
    (shuffle : RandomShuffle) (hself : taker.ownCount < taker.target taker.expiredKeys)
    (hexpired : taker.getExpiredLeases ≠ []) :
    (taker.computeLeasesToTake shuffle taker.getExpiredLeases).length =
      min taker.getExpiredLeases.length
        (taker.target taker.expiredKeys - taker.ownCount) := by
  rw [computeLeasesToTake_expired shuffle hself hexpired, List.length_take,
    List.length_reverse, (shuffle.perm _).length_eq, min_comm]

theorem computeLeasesToTake_of_target_le {taker : LeaseTaker} (shuffle : RandomShuffle)
    (hle : taker.target taker.expiredKeys ≤ taker.ownCount) :
    taker.computeLeasesToTake shuffle taker.getExpiredLeases = [] := by
  rw [taker.computeLeasesToTake_eq shuffle rfl, ← expiredKeys, selfCount_expiredKeys,
    if_pos (Or.inr hle)]

theorem expiredKeys_eq_nil {taker : LeaseTaker} (h : taker.getExpiredLeases = []) :
    taker.expiredKeys = [] := by
  rw [expiredKeys, h, List.map_nil]

/-- Whatever the shuffle, the leases that a taker goes for are chosen well. -/
theorem computeLeasesToTake_chosenWell (taker : LeaseTaker)
    (shuffle : RandomShuffle) :
    taker.ChosenWell
      (taker.computeLeasesToTake shuffle taker.getExpiredLeases) := by
  have hshort : taker.ownCount < taker.target taker.expiredKeys →
      taker.getExpiredLeases = [] →
      taker.selfCount [] < taker.target [] ∧
        taker.target taker.expiredKeys - taker.ownCount =
          taker.target [] - taker.selfCount [] := by
    intro hself hfresh
    rw [← selfCount_expiredKeys, expiredKeys_eq_nil hfresh] at hself ⊢
    exact ⟨hself, rfl⟩
  have hperm : ∀ num, ∀ lease ∈
      (shuffle.apply taker.getExpiredLeases).reverse.take num,
      lease ∈ taker.getExpiredLeases := by
    intro num lease hlease
    have hmem := List.mem_of_mem_take hlease
    rw [List.mem_reverse] at hmem
    exact (shuffle.perm _).mem_iff.mp hmem
  refine ⟨taker.distinctKeys_computeLeasesToTake shuffle, ?_,
    computeLeasesToTake_of_target_le shuffle, ?_, ?_⟩
  · intro lease hlease
    by_cases hself : taker.ownCount < taker.target taker.expiredKeys
    · by_cases hexpired : taker.getExpiredLeases = []
      · rw [hexpired] at hlease
        obtain ⟨victim, -, hmem, -⟩ := exists_victim (List.ne_nil_of_mem hlease)
        exact (hmem lease hlease).1
      · rw [computeLeasesToTake_expired shuffle hself hexpired] at hlease
        exact List.mem_of_mem_filter (hperm _ lease hlease)
    · rw [computeLeasesToTake_of_target_le shuffle (not_lt.mp hself)] at hlease
      cases hlease
  · intro hself hexpired
    refine ⟨?_, length_computeLeasesToTake_expired shuffle hself hexpired⟩
    rw [computeLeasesToTake_expired shuffle hself hexpired]
    exact hperm _
  · intro hself hfresh
    obtain ⟨hself, hneeded⟩ := hshort hself hfresh
    rw [hneeded, hfresh]
    constructor
    · by_cases hsize : taker.allLeases.size = 0
      · rw [taker.computeLeasesToTake_eq shuffle List.map_nil,
          if_pos (Or.inl hsize)]
        exact Nat.zero_le _
      · obtain ⟨victim, candidates, -, -, -, heq⟩ :=
          computeLeasesToTake_nil shuffle hsize hself
        rw [heq]
        exact (List.length_take_le _ _).trans (taker.numToSteal_le_min _ _)
    · intro hsome
      obtain ⟨victim, hne, hmem, hmost, -⟩ := exists_victim hsome
      rw [← expiredKeys_eq_nil hfresh] at hmost
      simp only [liveCount_expiredKeys] at hmost
      exact ⟨victim, hne, fun lease hlease => (hmem lease hlease).2, hmost⟩

/-- What a worker would have if the leases were spread evenly, capped by what may
be stolen at once. -/
def cappedShare (taker : LeaseTaker) : ℕ :=
  min taker.maxLeasesToStealAtOnce.value.toNat
    (taker.allLeases.size ⌈/⌉ (taker.knownWorkers taker.expiredKeys).card)

def mostCount (taker : LeaseTaker) : ℕ :=
  (taker.knownWorkers taker.expiredKeys).sup taker.unexpiredCount

/-- The limit leaves room for all that the taker goes for: for a capped share of
the leases, for all expired leases, or for the lead of the most loaded worker over
the share. A worker at its limit must not be two leases below the share where the
most loaded worker is at it. -/
def HasRoom (taker : LeaseTaker) (limit : ℕ) : Prop :=
  taker.cappedShare ≤ limit ∨
    (taker.getExpiredLeases ≠ [] ∧
      taker.ownCount + taker.getExpiredLeases.length ≤ limit) ∨
    (taker.getExpiredLeases = [] ∧
      taker.ownCount + taker.mostCount ≤ limit + taker.cappedShare ∧
      ¬ (taker.ownCount = limit ∧ taker.mostCount = taker.cappedShare ∧
        limit + 2 ≤ taker.cappedShare))

theorem target_cases (taker : LeaseTaker) {limit : ℕ} (hlimit : 1 ≤ limit)
    (hsize : taker.allLeases.size ≠ 0) :
    (taker.target taker.expiredKeys ≤ limit ∧ taker.cappedShare ≤ limit) ∨
      taker.target taker.expiredKeys = taker.cappedShare := by
  have hworkers := taker.knownWorkers_card_pos taker.expiredKeys
  by_cases hsteal : 1 ≤ taker.maxLeasesToStealAtOnce.value.toNat
  · exact Or.inr (taker.leaseTarget_eq hsteal (Nat.pos_of_ne_zero hsize) hworkers)
  · left
    rw [Nat.not_le, Nat.lt_one_iff] at hsteal
    rw [cappedShare, target, leaseTarget, hsteal, Nat.zero_min]
    split_ifs <;> simp [hlimit]

/-- The leases of a worker that the taker does not know have all expired. -/
theorem unexpiredCount_le_mostCount (taker : LeaseTaker) (worker : LeaseOwner) :
    taker.unexpiredCount worker ≤ taker.mostCount := by
  by_cases hknown : worker ∈ taker.knownWorkers taker.expiredKeys
  · exact Finset.le_sup hknown
  · have hzero := mt (fun h => Finset.mem_insert_of_mem
      ((mem_liveOwners_iff _ _ _).mpr h)) hknown
    rw [liveCount_expiredKeys] at hzero
    exact (Nat.le_of_not_lt hzero).trans (Nat.zero_le _)

/-- How much a taker steals that is below its target, where no lease has
expired. -/
theorem length_computeLeasesToTake_stolen {taker : LeaseTaker}
    (shuffle : RandomShuffle) (hsize : taker.allLeases.size ≠ 0)
    (hself : taker.ownCount < taker.target taker.expiredKeys)
    (hfresh : taker.getExpiredLeases = []) :
    (taker.computeLeasesToTake shuffle taker.getExpiredLeases).length =
      taker.numToSteal taker.mostCount
        { neededNum := taker.target taker.expiredKeys - taker.ownCount
          targetNum := taker.target taker.expiredKeys } := by
  have hkeys := expiredKeys_eq_nil hfresh
  rw [← selfCount_expiredKeys, hkeys] at hself ⊢
  obtain ⟨victim, candidates, -, hlength, hmost, heq⟩ :=
    computeLeasesToTake_nil shuffle hsize hself
  rw [← hkeys] at hlength hmost
  simp only [liveCount_expiredKeys] at hlength hmost
  have hcount : candidates.length = taker.mostCount :=
    le_antisymm (hlength ▸ taker.unexpiredCount_le_mostCount victim)
      (Finset.sup_le fun other _ => hmost other)
  rw [hfresh, heq, List.length_take, ← hcount]
  exact min_eq_left (taker.numToSteal_le hself)

/-- A worker that is within its limit stays within it exactly when the limit leaves
room for all that the taker goes for. -/
theorem limitKept_iff (taker : LeaseTaker) (shuffle : RandomShuffle)
    (hlimit : 1 ≤ taker.maxLeasesForWorker.value.toNat)
    (hown : taker.ownCount ≤ taker.maxLeasesForWorker.value.toNat) :
    taker.ownCount +
        (taker.computeLeasesToTake shuffle taker.getExpiredLeases).length ≤
          taker.maxLeasesForWorker.value.toNat ↔
      taker.HasRoom taker.maxLeasesForWorker.value.toNat := by
  by_cases hsize : taker.allLeases.size = 0
  · -- without leases there is nothing to take, and the share is nothing
    have hshare : taker.cappedShare = 0 := by
      rw [cappedShare, hsize, zero_ceilDiv, Nat.min_zero]
    rw [taker.computeLeasesToTake_eq shuffle rfl, if_pos (Or.inl hsize)]
    exact iff_of_true hown (Or.inl (hshare ▸ Nat.zero_le _))
  have htarget := taker.target_cases hlimit hsize
  by_cases hself : taker.ownCount < taker.target taker.expiredKeys
  case neg =>
    rw [computeLeasesToTake_of_target_le shuffle (not_lt.mp hself)]
    refine iff_of_true hown (Or.inl ?_)
    omega
  by_cases hexpired : taker.getExpiredLeases = []
  · have hlength := length_computeLeasesToTake_stolen shuffle hsize hself hexpired
    have hcap : taker.cappedShare ≤ taker.maxLeasesToStealAtOnce.value.toNat :=
      Nat.min_le_left _ _
    rw [hlength]
    simp only [HasRoom, hexpired, ne_eq, not_true_eq_false, false_and, true_and,
      false_or, numToSteal]
    split_ifs <;> omega
  · rw [length_computeLeasesToTake_expired shuffle hself hexpired]
    simp only [HasRoom, hexpired, ne_eq, not_false_eq_true, true_and, false_and,
      or_false]
    omega

/-- A taker that may hold one lease and steal three at once, with three expired
leases. -/
def sampleLimitTaker : LeaseTaker where
  workerID := ⟨"worker-a"⟩
  maxLeasesForWorker := ⟨1⟩
  maxLeasesToStealAtOnce := ⟨3⟩
  allLeases :=
    ((LeaseMap.empty.insert { leaseKey := ⟨"shard-1"⟩ }).insert
      { leaseKey := ⟨"shard-2"⟩ }).insert { leaseKey := ⟨"shard-3"⟩ }

theorem limitKept_iff_sampleLimitTaker :
    sampleLimitTaker.ownCount +
        (sampleLimitTaker.computeLeasesToTake RandomShuffle.identity
          sampleLimitTaker.getExpiredLeases).length ≤
          sampleLimitTaker.maxLeasesForWorker.value.toNat ↔
      sampleLimitTaker.HasRoom sampleLimitTaker.maxLeasesForWorker.value.toNat :=
  limitKept_iff sampleLimitTaker RandomShuffle.identity (by decide)
    (by decide +kernel)

/-- It takes all three. -/
theorem sampleLimitTaker_exceedsLimit :
    1 ≤ sampleLimitTaker.maxLeasesForWorker.value.toNat ∧
      sampleLimitTaker.ownCount ≤
        sampleLimitTaker.maxLeasesForWorker.value.toNat ∧
      ¬ sampleLimitTaker.ownCount +
        (sampleLimitTaker.computeLeasesToTake RandomShuffle.identity
          sampleLimitTaker.getExpiredLeases).length ≤
            sampleLimitTaker.maxLeasesForWorker.value.toNat := by
  decide +kernel

end LeaseTaker

end Leases

end Kclpp
