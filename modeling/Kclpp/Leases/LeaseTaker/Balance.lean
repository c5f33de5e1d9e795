import Kclpp.Leases.LeaseTaker.Steals

/-!
# Quiescent workers

A fleet is a set of workers that have made the same scan of a table in which
every lease has expired or belongs to one of them. A worker falls short when it
has less than its share while there is something to take, and the fleet is
covered and balanced exactly when none does. Whether a worker that falls short
takes leases depends on one thing more, the number of leases it may steal at
once, which caps what it wants to hold: `computeLeasesToTake_eq_nil_iff` and
`quiescent_iff`.
-/

open OrderedMap

namespace Kclpp

namespace Leases

open Balancing Clock

/-- Workers that have made the same scan, in which every lease has expired or
belongs to one of them. -/
structure Fleet where
  allLeases : LeaseMap
  leaseDuration : NanosecondDuration
  lastScanTime : Option NanosecondPoint
  takers : List LeaseTaker
  sameScan : ∀ taker ∈ takers, taker.allLeases = allLeases ∧
    taker.leaseDuration = leaseDuration ∧ taker.lastScanTime = lastScanTime
  maySteal : ∀ taker ∈ takers,
    1 ≤ taker.maxLeasesToStealAtOnce.value.toNat
  owned : ∀ lease ∈ allLeases.toList,
    lease.isExpired leaseDuration (lastScanTime.getD ⟨0⟩) = true ∨
      ∃ taker ∈ takers, lease.leaseOwner = some taker.workerID

namespace Fleet

def expiredLeases (fleet : Fleet) : List Lease :=
  fleet.allLeases.toList.filter fun lease =>
    lease.isExpired fleet.leaseDuration (fleet.lastScanTime.getD ⟨0⟩)

def expiredLeaseKeys (fleet : Fleet) : List LeaseKey :=
  fleet.expiredLeases.map fun lease => lease.leaseKey

def workers (fleet : Fleet) : Finset LeaseOwner :=
  (fleet.takers.map fun taker => taker.workerID).toFinset

def liveCount (fleet : Fleet) : LeaseOwner → ℕ :=
  LeaseTaker.liveCount fleet.allLeases.toList fleet.expiredLeaseKeys

/-- A worker has less than its share of the leases, and there is one that has
expired or a worker that has at least two more. -/
def FallsShort (fleet : Fleet) (taker : LeaseTaker) : Prop :=
  fleet.liveCount taker.workerID <
      fleet.allLeases.size ⌈/⌉
        (taker.knownWorkers fleet.expiredLeaseKeys).card ∧
    (fleet.expiredLeases ≠ [] ∨
      ∃ other, fleet.liveCount taker.workerID + 2 ≤ fleet.liveCount other)

theorem getExpiredLeases_eq {fleet : Fleet} {taker : LeaseTaker}
    (h : taker ∈ fleet.takers) :
    taker.getExpiredLeases = fleet.expiredLeases := by
  obtain ⟨hleases, hduration, htime⟩ := fleet.sameScan taker h
  rw [LeaseTaker.getExpiredLeases, hleases, hduration, htime]
  rfl

theorem mem_expiredLeaseKeys_iff {fleet : Fleet} {lease : Lease}
    (h : lease ∈ fleet.allLeases.toList) :
    lease.leaseKey ∈ fleet.expiredLeaseKeys ↔
      lease.isExpired fleet.leaseDuration
        (fleet.lastScanTime.getD ⟨0⟩) = true :=
  LeaseMap.leaseKey_mem_map_filter_iff h _

theorem mem_liveOwners_iff (fleet : Fleet) (worker : LeaseOwner) :
    worker ∈ LeaseTaker.liveOwners fleet.allLeases.toList
        fleet.expiredLeaseKeys ↔ 0 < fleet.liveCount worker :=
  LeaseTaker.mem_liveOwners_iff _ _ _

theorem mem_workers_iff (fleet : Fleet) (worker : LeaseOwner) :
    worker ∈ fleet.workers ↔
      ∃ taker ∈ fleet.takers, taker.workerID = worker := by
  simp [workers]

theorem exists_liveOwner {fleet : Fleet} {lease : Lease}
    (h : lease ∈ fleet.allLeases.toList)
    (hlive : lease.isExpired fleet.leaseDuration
      (fleet.lastScanTime.getD ⟨0⟩) = false) :
    ∃ worker ∈ fleet.workers,
      LeaseTaker.liveOwner fleet.expiredLeaseKeys lease = some worker := by
  rcases fleet.owned lease h with hexpired | ⟨taker, hmem, howner⟩
  · rw [hlive] at hexpired
    cases hexpired
  · refine ⟨taker.workerID, (fleet.mem_workers_iff _).mpr ⟨taker, hmem, rfl⟩, ?_⟩
    rw [LeaseTaker.liveOwner, if_neg, howner]
    rw [mem_expiredLeaseKeys_iff h, hlive]
    simp

theorem liveOwner_of_expired {fleet : Fleet} {lease : Lease}
    (h : lease ∈ fleet.allLeases.toList)
    (hexpired : lease.isExpired fleet.leaseDuration
      (fleet.lastScanTime.getD ⟨0⟩) = true) :
    LeaseTaker.liveOwner fleet.expiredLeaseKeys lease = none := by
  rw [LeaseTaker.liveOwner, if_pos]
  exact (mem_expiredLeaseKeys_iff h).mpr hexpired

theorem mem_workers_of_liveCount_pos {fleet : Fleet} {worker : LeaseOwner}
    (h : 0 < fleet.liveCount worker) : worker ∈ fleet.workers := by
  obtain ⟨lease, hmem, howner⟩ := (countOf_pos_iff _ _ _).mp h
  cases hlive : lease.isExpired fleet.leaseDuration
      (fleet.lastScanTime.getD ⟨0⟩) with
  | true =>
      rw [liveOwner_of_expired hmem hlive] at howner
      cases howner
  | false =>
      obtain ⟨worker', hworker', howner'⟩ := exists_liveOwner hmem hlive
      rw [howner] at howner'
      cases howner'
      exact hworker'

/-- The live leases of the workers and the expired leases are all leases. -/
theorem sum_liveCount (fleet : Fleet) :
    ∑ worker ∈ fleet.workers, fleet.liveCount worker +
      fleet.expiredLeases.length = fleet.allLeases.size := by
  have hlive : fleet.allLeases.toList.countP (fun lease =>
      ∃ worker ∈ fleet.workers,
        LeaseTaker.liveOwner fleet.expiredLeaseKeys lease = some worker) =
      fleet.allLeases.toList.countP (fun lease =>
        ¬ lease.isExpired fleet.leaseDuration
          (fleet.lastScanTime.getD ⟨0⟩) = true) := by
    refine List.countP_congr fun lease hmem => ?_
    cases hexpired : lease.isExpired fleet.leaseDuration
        (fleet.lastScanTime.getD ⟨0⟩) with
    | true => simp [liveOwner_of_expired hmem hexpired]
    | false => simpa using exists_liveOwner hmem hexpired
  unfold liveCount LeaseTaker.liveCount expiredLeases
  rw [sum_countOf, hlive, ← List.countP_eq_length_filter, LeaseMap.size,
    List.length_eq_countP_add_countP (fun lease : Lease =>
      lease.isExpired fleet.leaseDuration (fleet.lastScanTime.getD ⟨0⟩)),
    add_comm]

theorem expiredLeases_eq_nil_of_size {fleet : Fleet}
    (h : fleet.allLeases.size = 0) : fleet.expiredLeases = [] := by
  rw [expiredLeases, List.length_eq_zero_iff.mp h, List.filter_nil]

theorem knownWorkers_eq {fleet : Fleet} {taker : LeaseTaker}
    (h : taker ∈ fleet.takers) :
    taker.knownWorkers fleet.expiredLeaseKeys =
      insert taker.workerID (LeaseTaker.liveOwners fleet.allLeases.toList
        fleet.expiredLeaseKeys) := by
  rw [LeaseTaker.knownWorkers, (fleet.sameScan taker h).1]

theorem knownWorkers_eq_workers {fleet : Fleet} {taker : LeaseTaker}
    (h : taker ∈ fleet.takers)
    (hall : ∀ worker ∈ fleet.workers, 0 < fleet.liveCount worker) :
    taker.knownWorkers fleet.expiredLeaseKeys = fleet.workers := by
  rw [knownWorkers_eq h]
  ext worker
  rw [Finset.mem_insert, mem_liveOwners_iff]
  constructor
  · rintro (rfl | hpos)
    · exact (fleet.mem_workers_iff _).mpr ⟨taker, h, rfl⟩
    · exact mem_workers_of_liveCount_pos hpos
  · exact fun hworker => Or.inr (hall worker hworker)

/-- Where no lease has expired, the share of a worker is at most the highest
count among the workers it knows of. -/
theorem share_le {fleet : Fleet} {taker : LeaseTaker}
    (h : taker ∈ fleet.takers) (hfresh : fleet.expiredLeases = []) {b : ℕ}
    (hb : ∀ worker ∈ taker.knownWorkers fleet.expiredLeaseKeys,
      fleet.liveCount worker ≤ b) :
    fleet.allLeases.size ⌈/⌉
      (taker.knownWorkers fleet.expiredLeaseKeys).card ≤ b := by
  refine ceilDiv_card_le ?_ hb
  have hsum := fleet.sum_liveCount
  rw [hfresh, List.length_nil, add_zero] at hsum
  rw [← hsum]
  refine Finset.sum_le_sum_of_ne_zero fun worker _ hne => ?_
  rw [knownWorkers_eq h, Finset.mem_insert, mem_liveOwners_iff]
  exact Or.inr (Nat.pos_of_ne_zero hne)

theorem share_pos {fleet : Fleet} (taker : LeaseTaker)
    (hsize : fleet.allLeases.size ≠ 0) :
    0 < fleet.allLeases.size ⌈/⌉
      (taker.knownWorkers fleet.expiredLeaseKeys).card := by
  by_contra hzero
  have hle := (ceilDiv_le_iff_le_smul (taker.knownWorkers_card_pos
    fleet.expiredLeaseKeys)).mp (Nat.le_of_not_lt hzero)
  simp only [smul_zero, Nat.le_zero] at hle
  exact hsize hle

theorem target_eq {fleet : Fleet} {taker : LeaseTaker}
    (h : taker ∈ fleet.takers) (hsize : fleet.allLeases.size ≠ 0) :
    taker.target fleet.expiredLeaseKeys =
      min taker.maxLeasesToStealAtOnce.value.toNat
        (fleet.allLeases.size ⌈/⌉
          (taker.knownWorkers fleet.expiredLeaseKeys).card) := by
  rw [LeaseTaker.target, (fleet.sameScan taker h).1]
  exact taker.leaseTarget_eq (fleet.maySteal taker h)
    (Nat.pos_of_ne_zero hsize) (taker.knownWorkers_card_pos _)

/-- Where no lease has expired, a worker below its target steals exactly when
some worker has at least two leases more. -/
theorem chooseLeasesToSteal_eq_nil_iff {fleet : Fleet} {taker : LeaseTaker}
    (h : taker ∈ fleet.takers) (hfresh : fleet.expiredLeases = [])
    (hsize : fleet.allLeases.size ≠ 0)
    (hself : fleet.liveCount taker.workerID < taker.target [])
    (shuffle : RandomShuffle) :
    taker.chooseLeasesToSteal shuffle (taker.computeLeaseCounts [])
        { neededNum := taker.target [] - fleet.liveCount taker.workerID
          targetNum := taker.target [] } = [] ↔
      ¬ ∃ other,
        fleet.liveCount taker.workerID + 2 ≤ fleet.liveCount other := by
  have hkeys : fleet.expiredLeaseKeys = [] := by
    rw [expiredLeaseKeys, hfresh, List.map_nil]
  have hlive : LeaseTaker.liveCount taker.allLeases.toList [] =
      fleet.liveCount := by
    rw [(fleet.sameScan taker h).1, liveCount, hkeys]
  obtain ⟨victim, candidates, -, hlength, hmost, heq⟩ :=
    taker.chooseLeasesToSteal_eq shuffle
      { neededNum := taker.target [] - fleet.liveCount taker.workerID
        targetNum := taker.target [] }
  obtain ⟨-, hzero⟩ :=
    @LeaseTaker.numToSteal_spec taker candidates.length _ _ hself
  rw [hlive] at hlength hmost
  have htarget : taker.target [] ≤ candidates.length := by
    rw [← hkeys, target_eq h hsize]
    refine (Nat.min_le_right _ _).trans (share_le h hfresh ?_)
    rw [hkeys]
    exact hmost
  have hmay := fleet.maySteal taker h
  rw [heq, List.take_eq_nil_iff, hzero]
  constructor
  · rintro hnone ⟨other, hother⟩
    have hknown : other ∈ taker.knownWorkers [] := by
      rw [← hkeys, knownWorkers_eq h, Finset.mem_insert, mem_liveOwners_iff]
      exact Or.inr (by omega)
    have hle := hmost other hknown
    rcases hnone with hnone | hnil
    · omega
    · rw [hnil, List.length_nil] at hle
      omega
  · intro hnone
    have hvictim : ¬ fleet.liveCount taker.workerID + 2 ≤ candidates.length :=
      fun hle => hnone ⟨victim, hlength ▸ hle⟩
    omega

/-- A worker takes nothing exactly when it does not fall short, or has as many
leases as it may steal at once. -/
theorem computeLeasesToTake_eq_nil_iff {fleet : Fleet} {taker : LeaseTaker}
    (h : taker ∈ fleet.takers) (shuffle : RandomShuffle) :
    taker.computeLeasesToTake shuffle taker.getExpiredLeases = [] ↔
      ¬ (fleet.FallsShort taker ∧ fleet.liveCount taker.workerID <
        taker.maxLeasesToStealAtOnce.value.toNat) := by
  have hself : taker.selfCount fleet.expiredLeaseKeys =
      fleet.liveCount taker.workerID := by
    rw [LeaseTaker.selfCount, (fleet.sameScan taker h).1]
    rfl
  have hleases : taker.allLeases.size = fleet.allLeases.size := by
    rw [(fleet.sameScan taker h).1]
  have hkeys : (fleet.expiredLeases.map fun lease => lease.leaseKey) =
      fleet.expiredLeaseKeys := rfl
  rw [getExpiredLeases_eq h, taker.computeLeasesToTake_eq shuffle hkeys, hself,
    hleases]
  by_cases hsize : fleet.allLeases.size = 0
  · simp [FallsShort, hsize]
  have htarget := target_eq h hsize
  by_cases hreached : taker.target fleet.expiredLeaseKeys ≤
      fleet.liveCount taker.workerID
  · rw [if_pos (Or.inr hreached)]
    refine iff_of_true rfl ?_
    rintro ⟨⟨hshare, -⟩, hmay⟩
    omega
  rw [if_neg (by simp [hsize, hreached])]
  have hshort : fleet.liveCount taker.workerID <
      fleet.allLeases.size ⌈/⌉
        (taker.knownWorkers fleet.expiredLeaseKeys).card ∧
      fleet.liveCount taker.workerID <
        taker.maxLeasesToStealAtOnce.value.toNat := by
    omega
  by_cases hexpired : fleet.expiredLeases = []
  · rw [if_neg (not_not_intro hexpired)]
    have hkeys : fleet.expiredLeaseKeys = [] := by
      rw [expiredLeaseKeys, hexpired, List.map_nil]
    have hsteal := chooseLeasesToSteal_eq_nil_iff h hexpired hsize
      (hkeys ▸ not_le.mp hreached) shuffle
    rw [← hkeys] at hsteal
    refine hsteal.trans (not_congr ?_)
    simp [FallsShort, hexpired, hshort.1, hshort.2]
  · rw [if_pos hexpired]
    refine iff_of_false ?_ (not_not_intro ⟨⟨hshort.1, Or.inl hexpired⟩, hshort.2⟩)
    have hperm := (shuffle.perm fleet.expiredLeases).length_eq
    have hpos := List.length_pos_iff.mpr hexpired
    rw [List.take_eq_nil_iff, List.reverse_eq_nil_iff, ← List.length_eq_zero_iff]
    omega

theorem expiredLeases_eq_nil {fleet : Fleet} (hne : fleet.takers ≠ [])
    (h : ∀ taker ∈ fleet.takers, ¬ fleet.FallsShort taker) :
    fleet.expiredLeases = [] := by
  by_contra hexpired
  have hsize : fleet.allLeases.size ≠ 0 :=
    fun hzero => hexpired (expiredLeases_eq_nil_of_size hzero)
  have hshare : ∀ taker ∈ fleet.takers, fleet.allLeases.size ⌈/⌉
      (taker.knownWorkers fleet.expiredLeaseKeys).card ≤
        fleet.liveCount taker.workerID := by
    intro taker hmem
    by_contra hlt
    exact h taker hmem ⟨not_le.mp hlt, Or.inl hexpired⟩
  have hall : ∀ worker ∈ fleet.workers, 0 < fleet.liveCount worker := by
    intro worker hworker
    obtain ⟨taker, hmem, rfl⟩ := (fleet.mem_workers_iff worker).mp hworker
    exact (share_pos taker hsize).trans_le (hshare taker hmem)
  obtain ⟨taker, hmem⟩ := List.exists_mem_of_ne_nil _ hne
  have hsome : fleet.workers.Nonempty :=
    ⟨taker.workerID, (fleet.mem_workers_iff _).mpr ⟨taker, hmem, rfl⟩⟩
  have hle : fleet.allLeases.size ≤
      ∑ worker ∈ fleet.workers, fleet.liveCount worker := by
    refine le_sum_of_ceilDiv_card_le hsome fun worker hworker => ?_
    obtain ⟨taker', hmem', rfl⟩ := (fleet.mem_workers_iff worker).mp hworker
    rw [← knownWorkers_eq_workers hmem' hall]
    exact hshare taker' hmem'
  have hsum := fleet.sum_liveCount
  have hpos := List.length_pos_iff.mpr hexpired
  omega

/-- No worker has two leases more than another. -/
theorem liveCount_le {fleet : Fleet}
    (h : ∀ taker ∈ fleet.takers, ¬ fleet.FallsShort taker)
    (hfresh : fleet.expiredLeases = []) {u v : LeaseOwner}
    (hu : u ∈ fleet.workers) (hv : v ∈ fleet.workers) :
    fleet.liveCount v ≤ fleet.liveCount u + 1 := by
  by_contra hlt
  obtain ⟨w, hw, hmin⟩ :=
    Finset.exists_min_image fleet.workers fleet.liveCount ⟨u, hu⟩
  have hwu := hmin u hu
  obtain ⟨taker, hmem, rfl⟩ := (fleet.mem_workers_iff w).mp hw
  have hsum := fleet.sum_liveCount
  rw [hfresh, List.length_nil, add_zero] at hsum
  have hsize : fleet.allLeases.size ≠ 0 := by
    have hle := Finset.single_le_sum (f := fleet.liveCount)
      (fun _ _ => Nat.zero_le _) hv
    omega
  have hshare : fleet.allLeases.size ⌈/⌉
      (taker.knownWorkers fleet.expiredLeaseKeys).card ≤
        fleet.liveCount taker.workerID := by
    by_contra hless
    exact h taker hmem ⟨not_le.mp hless, Or.inr ⟨v, by omega⟩⟩
  have hpos := share_pos taker hsize
  have hknown := knownWorkers_eq_workers hmem fun worker hworker =>
    (hpos.trans_le hshare).trans_le (hmin worker hworker)
  rw [hknown] at hshare
  have hexceeds := lt_sum_of_ceilDiv_card_le
    (fun worker hworker => hshare.trans (hmin worker hworker)) hv (by omega)
  omega

theorem liveCount_eq_ownedCount {fleet : Fleet}
    (hfresh : fleet.expiredLeases = []) :
    fleet.liveCount = fleet.allLeases.ownedCount := by
  rw [liveCount, expiredLeaseKeys, hfresh, List.map_nil]
  rfl

/-- No lease has expired, and the counts of any two workers differ by at most
one. -/
def CoveredAndBalanced (fleet : Fleet) : Prop :=
  fleet.expiredLeases = [] ∧ ∀ u ∈ fleet.workers, ∀ v ∈ fleet.workers,
    fleet.allLeases.ownedCount v ≤ fleet.allLeases.ownedCount u + 1

theorem coveredAndBalanced_iff {fleet : Fleet} (hne : fleet.takers ≠ []) :
    fleet.CoveredAndBalanced ↔
      ∀ taker ∈ fleet.takers, ¬ fleet.FallsShort taker := by
  constructor
  · rintro ⟨hfresh, hbalanced⟩ taker hmem ⟨-, hexpired | ⟨other, hother⟩⟩
    · exact hexpired hfresh
    · have hle := hbalanced taker.workerID
        ((fleet.mem_workers_iff _).mpr ⟨taker, hmem, rfl⟩) other
        (mem_workers_of_liveCount_pos (by omega))
      rw [← liveCount_eq_ownedCount hfresh] at hle
      omega
  · intro h
    have hfresh := expiredLeases_eq_nil hne h
    refine ⟨hfresh, fun u hu v hv => ?_⟩
    rw [← liveCount_eq_ownedCount hfresh]
    exact liveCount_le h hfresh hu hv

/-- That no worker takes anything means that the fleet is covered and balanced
exactly when there is a worker for the leases, and where workers fall short, one
of them has less leases than it may steal at once. -/
theorem quiescent_iff (fleet : Fleet) (shuffle : LeaseTaker → RandomShuffle) :
    ((∀ taker ∈ fleet.takers, taker.computeLeasesToTake (shuffle taker)
        taker.getExpiredLeases = []) → fleet.CoveredAndBalanced) ↔
      (fleet.allLeases.size ≠ 0 → fleet.takers ≠ []) ∧
      ((∃ taker ∈ fleet.takers, fleet.FallsShort taker) →
        ∃ taker ∈ fleet.takers, fleet.FallsShort taker ∧
          fleet.liveCount taker.workerID <
            taker.maxLeasesToStealAtOnce.value.toNat) := by
  by_cases hne : fleet.takers = []
  · have hworkers : fleet.workers = ∅ := by simp [workers, hne]
    have hsum := fleet.sum_liveCount
    rw [hworkers, Finset.sum_empty, zero_add] at hsum
    simp [CoveredAndBalanced, hne, hworkers, ← hsum]
  · rw [coveredAndBalanced_iff hne]
    constructor
    · intro h
      refine ⟨fun _ => hne, ?_⟩
      rintro ⟨taker, hmem, hshort⟩
      by_contra hnone
      refine h (fun other hother => ?_) taker hmem hshort
      rw [computeLeasesToTake_eq_nil_iff hother]
      exact fun hacts => hnone ⟨other, hother, hacts⟩
    · rintro ⟨-, h⟩ hquiet taker hmem hshort
      obtain ⟨other, hother, hacts⟩ := h ⟨taker, hmem, hshort⟩
      exact (computeLeasesToTake_eq_nil_iff hother _).mp
        (hquiet other hother) hacts

def sampleFleetLease (key : String) (owner : LeaseOwner) : Lease where
  leaseKey := ⟨key⟩
  leaseOwner := some owner
  lastCounterIncrementNanoseconds := some ⟨0⟩
  leaseCounter := some ⟨1⟩

def sampleFleetTaker (workerID : LeaseOwner) : LeaseTaker where
  workerID := workerID
  allLeases :=
    (((LeaseMap.empty.insert (sampleFleetLease "shard-1" ⟨"worker-a"⟩)).insert
      (sampleFleetLease "shard-2" ⟨"worker-a"⟩)).insert
      (sampleFleetLease "shard-3" ⟨"worker-a"⟩)).insert
      (sampleFleetLease "shard-4" ⟨"worker-b"⟩)

def sampleFleet : Fleet where
  allLeases := (sampleFleetTaker ⟨"worker-a"⟩).allLeases
  leaseDuration := ⟨30000000000⟩
  lastScanTime := some ⟨0⟩
  takers := [sampleFleetTaker ⟨"worker-a"⟩, sampleFleetTaker ⟨"worker-b"⟩]
  sameScan := by
    rintro taker htaker
    simp only [List.mem_cons, List.not_mem_nil, or_false] at htaker
    rcases htaker with rfl | rfl <;> exact ⟨rfl, rfl, rfl⟩
  maySteal := by decide
  owned := by decide +kernel

/-- Both workers have reached their target, which the number of leases they may
steal at once keeps at one, and neither takes anything. -/
theorem sampleFleet_quiescent :
    (∀ taker ∈ sampleFleet.takers,
      sampleFleet.allLeases.size ≤ taker.maxLeasesForWorker.value.toNat ∧
      taker.computeLeasesToTake RandomShuffle.identity
        taker.getExpiredLeases = []) ∧
      ¬ sampleFleet.CoveredAndBalanced := by
  unfold CoveredAndBalanced
  decide +kernel

end Fleet

end Leases

end Kclpp
