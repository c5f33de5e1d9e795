import Kclpp.Leases.LeaseTaker.Counts
import Kclpp.Leases.LeaseManager.Calls
import Kclpp.Transition.Run

/-!
# Steals

When no lease has expired, a taker steals from the most loaded worker, and never
so much that the victim is left with less than the thief: `exists_victim`. A
steal lowers the sum of the squares of the counts, so only finitely many follow
each other: `steals_terminate`.
-/

open OrderedMap

namespace Kclpp

namespace Leases

open Balancing Clock Dynamo Util

namespace LeaseTaker

def target (taker : LeaseTaker) (expiredLeaseKeys : List LeaseKey) : ℕ :=
  taker.leaseTarget taker.allLeases.size
    (taker.knownWorkers expiredLeaseKeys).card

def selfCount (taker : LeaseTaker) (expiredLeaseKeys : List LeaseKey) : ℕ :=
  liveCount taker.allLeases.toList expiredLeaseKeys taker.workerID

theorem computeLeasesToTake_eq (taker : LeaseTaker) (shuffle : RandomShuffle)
    {expiredLeases : List Lease} {keys : List LeaseKey}
    (hkeys : (expiredLeases.map fun lease => lease.leaseKey) = keys) :
    taker.computeLeasesToTake shuffle expiredLeases =
      if taker.allLeases.size = 0 ∨ taker.target keys ≤ taker.selfCount keys then
        []
      else if expiredLeases ≠ [] then
        (shuffle.apply expiredLeases).reverse.take
          (taker.target keys - taker.selfCount keys)
      else
        taker.chooseLeasesToSteal shuffle (taker.computeLeaseCounts keys)
          { neededNum := taker.target keys - taker.selfCount keys
            targetNum := taker.target keys } := by
  have hself : ∀ keys,
      (lookup (taker.computeLeaseCounts keys) taker.workerID).getD 0 =
        taker.selfCount keys := by
    intro keys
    rw [lookup_computeLeaseCounts, if_pos (Finset.mem_insert_self _ _)]
    rfl
  unfold computeLeasesToTake
  simp only [hkeys, hself, size_computeLeaseCounts]
  rw [ite_or]
  rfl

/-- How far a steal goes: never further than to an equal number of leases, and it
comes to nothing only where none may be stolen, or the most loaded worker is
below the target or at most one lease ahead. -/
theorem numToSteal_spec (taker : LeaseTaker) {mostLoaded self target : ℕ}
    (h : self < target) :
    let num := taker.numToSteal mostLoaded
      { neededNum := target - self, targetNum := target }
    (0 < num → self + 2 * num ≤ mostLoaded) ∧
      (num = 0 ↔ taker.maxLeasesToStealAtOnce.value.toNat = 0 ∨
        mostLoaded < target ∨ mostLoaded < self + 2) := by
  unfold numToSteal
  dsimp only
  generalize taker.maxLeasesToStealAtOnce.value.toNat = max
  split_ifs <;> omega

/-- The leases of the worker with the highest count, from which a steal
chooses. -/
theorem chooseLeasesToSteal_eq (taker : LeaseTaker) (shuffle : RandomShuffle)
    (options : ChooseLeasesToStealOptions) :
    ∃ victim, ∃ candidates : List Lease,
      (∀ lease ∈ candidates, lease ∈ taker.allLeases.toList ∧
        lease.leaseOwner = some victim) ∧
      candidates.length = liveCount taker.allLeases.toList [] victim ∧
      (∀ other ∈ taker.knownWorkers [],
        liveCount taker.allLeases.toList [] other ≤ candidates.length) ∧
      taker.chooseLeasesToSteal shuffle (taker.computeLeaseCounts []) options =
        candidates.take (taker.numToSteal candidates.length options) := by
  obtain ⟨victim, -, hmost, hle⟩ := taker.exists_mostLoadedWorker []
  have hlength : (shuffle.apply (taker.allLeases.toList.filter fun lease =>
      lease.leaseOwner = some victim)).length =
      liveCount taker.allLeases.toList [] victim := by
    rw [(shuffle.perm _).length_eq, ← List.countP_eq_length_filter]
    rfl
  refine ⟨victim, shuffle.apply (taker.allLeases.toList.filter fun lease =>
    lease.leaseOwner = some victim), ?_, hlength, ?_, ?_⟩
  · intro lease hlease
    simpa using (shuffle.perm _).mem_iff.mp hlease
  · rw [hlength]
    exact hle
  · unfold chooseLeasesToSteal
    rw [hmost, hlength]
    dsimp only
    split_ifs with hnone
    · rw [hnone, List.take_zero]
    · rfl

/-- What a taker below its target steals where no lease has expired: some of the
leases of a worker with the highest count. -/
theorem computeLeasesToTake_nil {taker : LeaseTaker} (shuffle : RandomShuffle)
    (hsize : taker.allLeases.size ≠ 0)
    (hself : taker.selfCount [] < taker.target []) :
    ∃ victim, ∃ candidates : List Lease,
      (∀ lease ∈ candidates, lease ∈ taker.allLeases.toList ∧
        lease.leaseOwner = some victim) ∧
      candidates.length = liveCount taker.allLeases.toList [] victim ∧
      (∀ other, liveCount taker.allLeases.toList [] other ≤ candidates.length) ∧
      taker.computeLeasesToTake shuffle [] =
        candidates.take (taker.numToSteal candidates.length
          { neededNum := taker.target [] - taker.selfCount []
            targetNum := taker.target [] }) := by
  obtain ⟨victim, candidates, hmem, hlength, hmost, heq⟩ :=
    chooseLeasesToSteal_eq taker shuffle
      { neededNum := taker.target [] - taker.selfCount []
        targetNum := taker.target [] }
  refine ⟨victim, candidates, hmem, hlength, fun other => ?_, ?_⟩
  · by_cases hknown : other ∈ taker.knownWorkers []
    · exact hmost other hknown
    · have hzero := mt (fun h => Finset.mem_insert_of_mem
        ((mem_liveOwners_iff _ _ _).mpr h)) hknown
      exact (Nat.le_of_not_lt hzero).trans (Nat.zero_le _)
  · rw [taker.computeLeasesToTake_eq shuffle List.map_nil, if_neg, if_neg, heq]
    · simp
    · rw [not_or, not_le]
      exact ⟨hsize, hself⟩

theorem numToSteal_le (taker : LeaseTaker) {mostLoaded self target : ℕ}
    (h : self < target) :
    taker.numToSteal mostLoaded
        { neededNum := target - self, targetNum := target } ≤ mostLoaded := by
  obtain ⟨hle, -⟩ := @numToSteal_spec taker mostLoaded self target h
  by_contra hlt
  have := hle (by omega)
  omega

/-- A steal is from one other worker, who is left with at least as many leases
as the thief then has. -/
theorem exists_victim {taker : LeaseTaker} {shuffle : RandomShuffle}
    (hsome : taker.computeLeasesToTake shuffle [] ≠ []) :
    ∃ victim, victim ≠ taker.workerID ∧
      (∀ lease ∈ taker.computeLeasesToTake shuffle [],
        lease ∈ taker.allLeases.toList ∧ lease.leaseOwner = some victim) ∧
      (∀ other, liveCount taker.allLeases.toList [] other ≤
        liveCount taker.allLeases.toList [] victim) ∧
      taker.selfCount [] + 2 * (taker.computeLeasesToTake shuffle []).length ≤
        liveCount taker.allLeases.toList [] victim := by
  have hnone : ¬ (taker.allLeases.size = 0 ∨
      taker.target [] ≤ taker.selfCount []) := by
    intro h
    rw [taker.computeLeasesToTake_eq shuffle List.map_nil, if_pos h] at hsome
    exact hsome rfl
  rw [not_or, not_le] at hnone
  obtain ⟨victim, candidates, hmem, hlength, hmost, heq⟩ :=
    computeLeasesToTake_nil shuffle hnone.1 hnone.2
  obtain ⟨hle, -⟩ := @numToSteal_spec taker candidates.length _ _ hnone.2
  rw [heq] at hsome ⊢
  generalize taker.numToSteal candidates.length _ = num at hsome hle ⊢
  have hpos : 0 < num := by
    refine Nat.pos_of_ne_zero ?_
    rintro rfl
    exact hsome List.take_zero
  have hcount := hle hpos
  have htake := List.length_take_le num candidates
  refine ⟨victim, ?_, fun lease hlease => hmem lease (List.mem_of_mem_take hlease),
    hlength ▸ hmost, by omega⟩
  rintro rfl
  have hself : candidates.length = taker.selfCount [] := hlength
  omega

/-- What a lease reads as after another worker has taken it. -/
def takenBy (worker : LeaseOwner) (lease : Lease) : Lease :=
  { lease with
    leaseOwner := some worker
    leaseCounter := some ⟨nextCounter lease⟩
    ownerSwitchesSinceCheckpoint := some ⟨nextSwitches lease⟩ }

theorem lookup_updatedRow_takeLease {lease : Lease} {worker : LeaseOwner}
    (hne : lease.leaseOwner ≠ some worker) {tbl : Table}
    (hrow : tbl.row lease.leaseKey.value = some lease.toDynamoDict)
    (name : String) :
    lookup ((LeaseCall.takeLease lease worker).updatedRow tbl) name =
      lookup (takenBy worker lease).toDynamoDict name := by
  have hupdates : (LeaseCall.takeLease lease worker).updates =
      makeUpdateValues lease { newOwner := some worker } := rfl
  have hold : ((tbl.row (LeaseCall.takeLease lease worker).key).getD ∅) =
      lease.toDynamoDict := by
    rw [LeaseCall.key, LeaseCall.lease, hrow]
    rfl
  rw [LeaseCall.updatedRow, lookup_applyUpdates, hupdates, hold,
    lookup_makeUpdateValues, Lease.lookup_toDynamoDict,
    Lease.lookup_toDynamoDict]
  by_cases hcounter : "leaseCounter" = name
  · subst hcounter
    rfl
  by_cases hswitches : "ownerSwitchesSinceCheckpoint" = name
  · subst hswitches
    simp [switchesUpdate, hne, AttributeValueUpdate.result, takenBy,
      Lease.printNumber]
  by_cases howner : "leaseOwner" = name
  · subst howner
    simp [ownerUpdate, hne, AttributeValueUpdate.result, takenBy,
      Lease.stringAttribute]
  simp [hcounter, hswitches, howner, takenBy]

end LeaseTaker

namespace LeaseMap

def ownerOf (m : LeaseMap) (key : LeaseKey) : Option LeaseOwner :=
  (m.get key).bind fun lease => lease.leaseOwner

def ownedCount (m : LeaseMap) : LeaseOwner → ℕ :=
  countOf (fun lease => lease.leaseOwner) m.toList

def ownedKeys (m : LeaseMap) (worker : LeaseOwner) : Finset LeaseKey :=
  ((m.toList.filter fun lease => lease.leaseOwner = some worker).map
    fun lease => lease.leaseKey).toFinset

theorem mem_ownedKeys_iff (m : LeaseMap) (worker : LeaseOwner)
    (key : LeaseKey) :
    key ∈ m.ownedKeys worker ↔ m.ownerOf key = some worker := by
  simp only [ownedKeys, List.mem_toFinset, List.mem_map, List.mem_filter,
    mem_toList_iff, decide_eq_true_eq, ownerOf, Option.bind_eq_some_iff]
  constructor
  · rintro ⟨lease, ⟨hget, howner⟩, rfl⟩
    exact ⟨lease, hget, howner⟩
  · rintro ⟨lease, hget, howner⟩
    refine ⟨lease, ⟨?_, howner⟩, leaseKey_of_get hget⟩
    rw [leaseKey_of_get hget]
    exact hget

theorem card_ownedKeys (m : LeaseMap) (worker : LeaseOwner) :
    (m.ownedKeys worker).card = m.ownedCount worker := by
  have hnodup : ((m.toList.filter fun lease => lease.leaseOwner = some worker).map
      fun lease => lease.leaseKey).Nodup :=
    List.pairwise_map.mpr (m.toList_pairwise_leaseKey_ne.filter _)
  rw [ownedKeys, List.toFinset_card_of_nodup hnodup, List.length_map, ownedCount,
    countOf, List.countP_eq_length_filter]

theorem ownedCount_congr {m m' : LeaseMap} (h : m.ownerOf = m'.ownerOf) :
    m.ownedCount = m'.ownedCount := by
  funext worker
  rw [← card_ownedKeys, ← card_ownedKeys]
  congr 1
  ext key
  rw [mem_ownedKeys_iff, mem_ownedKeys_iff, h]

/-- The leases after a worker has taken some of them. -/
def handOver (m : LeaseMap) (worker : LeaseOwner) (leases : List Lease) :
    LeaseMap :=
  leases.foldl
    (fun m lease => (m.get lease.leaseKey).elim m fun row =>
      m.insertOrUpdate (LeaseTaker.takenBy worker row)) m

theorem ownerOf_handOver (m : LeaseMap) (worker : LeaseOwner)
    (leases : List Lease) (key : LeaseKey) :
    (m.handOver worker leases).ownerOf key =
      if (∃ lease ∈ leases, lease.leaseKey = key) ∧ m.get key ≠ none then
        some worker
      else m.ownerOf key := by
  have hget : ∀ (m : LeaseMap) (lease : Lease),
      ((m.get lease.leaseKey).elim m fun row =>
        m.insertOrUpdate (LeaseTaker.takenBy worker row)).get key =
      if lease.leaseKey = key then
        (m.get key).map (LeaseTaker.takenBy worker)
      else m.get key := by
    intro m lease
    by_cases hkey : lease.leaseKey = key
    · subst hkey
      cases hrow : m.get lease.leaseKey with
      | none => simp [hrow]
      | some row => simp [LeaseTaker.takenBy, leaseKey_of_get hrow]
    · cases hrow : m.get lease.leaseKey with
      | none => simp [hkey]
      | some row => simp [LeaseTaker.takenBy, leaseKey_of_get hrow, hkey]
  unfold handOver
  induction leases generalizing m with
  | nil => simp
  | cons lease leases ih =>
      rw [List.foldl_cons, ih]
      unfold ownerOf
      rw [hget]
      by_cases hkey : lease.leaseKey = key
      · cases m.get key <;> simp [hkey, LeaseTaker.takenBy]
      · simp [hkey]

/-- Leases of one worker that another takes are transferred between their
counts. -/
theorem transfer_handOver {m : LeaseMap} {victim thief : LeaseOwner}
    (hne : thief ≠ victim) {leases : List Lease}
    (hdistinct : LeaseTaker.DistinctKeys leases)
    (hvictim : ∀ lease ∈ leases, m.ownerOf lease.leaseKey = some victim) :
    Transfer victim thief leases.length m.ownedCount
      (m.handOver thief leases).ownedCount := by
  have hcard : (leases.map fun lease => lease.leaseKey).toFinset.card =
      leases.length := by
    rw [List.toFinset_card_of_nodup, List.length_map]
    exact List.pairwise_map.mpr hdistinct
  have howner : ∀ key, (m.handOver thief leases).ownerOf key =
      if key ∈ (leases.map fun lease => lease.leaseKey).toFinset then some thief
      else m.ownerOf key := by
    intro key
    rw [ownerOf_handOver]
    have hiff : (∃ lease ∈ leases, lease.leaseKey = key) ∧ m.get key ≠ none ↔
        key ∈ (leases.map fun lease => lease.leaseKey).toFinset := by
      rw [List.mem_toFinset, List.mem_map]
      constructor
      · exact fun h => h.1
      · rintro ⟨lease, hmem, rfl⟩
        refine ⟨⟨lease, hmem, rfl⟩, fun hnone => ?_⟩
        have hfound := hvictim lease hmem
        rw [ownerOf, hnone] at hfound
        cases hfound
    simp only [hiff]
  generalize htaken : (leases.map fun lease => lease.leaseKey).toFinset = taken
    at hcard howner
  have hsub : ∀ key ∈ taken, m.ownerOf key = some victim := by
    intro key hkey
    rw [← htaken, List.mem_toFinset, List.mem_map] at hkey
    obtain ⟨lease, hmem, rfl⟩ := hkey
    exact hvictim lease hmem
  have hgives : (m.handOver thief leases).ownedKeys victim =
      m.ownedKeys victim \ taken := by
    ext key
    rw [mem_ownedKeys_iff, Finset.mem_sdiff, mem_ownedKeys_iff, howner]
    by_cases hkey : key ∈ taken <;> simp [hkey, hne]
  have htakes : (m.handOver thief leases).ownedKeys thief =
      m.ownedKeys thief ∪ taken := by
    ext key
    rw [mem_ownedKeys_iff, Finset.mem_union, mem_ownedKeys_iff, howner]
    by_cases hkey : key ∈ taken <;> simp [hkey]
  refine ⟨hne, ?_, ?_, ?_⟩
  · rw [← card_ownedKeys, ← card_ownedKeys, hgives, ← hcard]
    refine Finset.card_sdiff_add_card_eq_card fun key hkey => ?_
    rw [mem_ownedKeys_iff]
    exact hsub key hkey
  · rw [← card_ownedKeys, ← card_ownedKeys, htakes, ← hcard]
    refine Finset.card_union_of_disjoint ?_
    rw [Finset.disjoint_right]
    intro key hkey hthief
    rw [mem_ownedKeys_iff, hsub key hkey] at hthief
    exact hne (Option.some.inj hthief).symm
  · intro worker hvictim' hthief'
    rw [← card_ownedKeys, ← card_ownedKeys]
    congr 1
    ext key
    rw [mem_ownedKeys_iff, mem_ownedKeys_iff, howner]
    split_ifs with hkey
    · rw [hsub key hkey]
      simp [hvictim'.symm, hthief'.symm]
    · rfl

def owners (m : LeaseMap) : Finset LeaseOwner :=
  (m.toList.filterMap fun lease => lease.leaseOwner).toFinset

theorem mem_owners_iff (m : LeaseMap) (worker : LeaseOwner) :
    worker ∈ m.owners ↔ 0 < m.ownedCount worker := by
  simp [owners, ownedCount, countOf_pos_iff]

theorem find?_toList (m : LeaseMap) (key : LeaseKey) :
    (m.toList.find? fun lease => lease.leaseKey = key) = m.get key := by
  cases hget : m.get key with
  | none =>
      rw [List.find?_eq_none]
      intro lease hlease
      simpa using leaseKey_ne_of_get_eq_none hget lease hlease
  | some lease =>
      obtain ⟨before, after, heq, hbefore, -⟩ := exists_toList_eq_append hget
      have hnone : (before.find? fun lease => lease.leaseKey = key) = none := by
        rw [List.find?_eq_none]
        intro l hl
        simpa using hbefore l hl
      rw [heq, List.find?_append, hnone, Option.none_or]
      simp [leaseKey_of_get hget]

end LeaseMap

namespace LeaseTaker

/-- A steal lowers the number of the thief's leases below that of the victim's,
or to it, and with that the sum of the squares. -/
theorem exists_transfer {taker : LeaseTaker} {shuffle : RandomShuffle}
    (hfresh : taker.getExpiredLeases = [])
    (hsome : taker.computeLeasesToTake shuffle taker.getExpiredLeases ≠ [])
    {tbl : LeaseMap} (htbl : tbl.ownerOf = taker.allLeases.ownerOf) :
    let taken := taker.computeLeasesToTake shuffle taker.getExpiredLeases
    let after := tbl.handOver taker.workerID taken
    ∃ victim, victim ≠ taker.workerID ∧
      (∀ lease ∈ taken, lease.leaseOwner = some victim) ∧
      after.ownedCount taker.workerID ≤ after.ownedCount victim ∧
      Transfer victim taker.workerID taken.length tbl.ownedCount
        after.ownedCount := by
  dsimp only
  have hdistinct := distinctKeys_computeLeasesToTake taker shuffle
  rw [hfresh] at hsome hdistinct ⊢
  obtain ⟨victim, hne, hmem, -, hcount⟩ := exists_victim hsome
  have howner : ∀ lease ∈ taker.computeLeasesToTake shuffle [],
      tbl.ownerOf lease.leaseKey = some victim := by
    intro lease hlease
    obtain ⟨hget, howner⟩ := hmem lease hlease
    rw [htbl, LeaseMap.ownerOf, (LeaseMap.mem_toList_iff _ _).mp hget]
    exact howner
  have htransfer := LeaseMap.transfer_handOver hne.symm hdistinct howner
  refine ⟨victim, hne, fun lease hlease => (hmem lease hlease).2, ?_, htransfer⟩
  have hlive : ∀ worker, liveCount taker.allLeases.toList [] worker =
      tbl.ownedCount worker := by
    intro worker
    rw [LeaseMap.ownedCount_congr htbl]
    rfl
  rw [selfCount, hlive, hlive] at hcount
  have hgives := htransfer.gives
  have htakes := htransfer.takes
  omega

end LeaseTaker

/-- A steal: a taker in whatever state, which scans the table and takes what it
has computed. -/
structure Steal where
  taker : LeaseTaker
  scanTime : Clock.NanosecondPoint
  shuffle : RandomShuffle

namespace Steal

def scanned (steal : Steal) (tbl : LeaseMap) : LeaseTaker :=
  steal.taker.updateAllLeases steal.scanTime tbl.toList

def taken (steal : Steal) (tbl : LeaseMap) : List Lease :=
  (steal.scanned tbl).computeLeasesToTake steal.shuffle
    (steal.scanned tbl).getExpiredLeases

def step (tbl : LeaseMap) (steal : Steal) : Option LeaseMap :=
  if (steal.scanned tbl).getExpiredLeases = [] ∧ steal.taken tbl ≠ [] then
    some (tbl.handOver steal.taker.workerID (steal.taken tbl))
  else none

theorem ownerOf_scanned (steal : Steal) (tbl : LeaseMap) :
    (steal.scanned tbl).allLeases.ownerOf = tbl.ownerOf := by
  funext key
  have hget := LeaseTaker.get_updateAllLeases steal.taker
    ⟨steal.scanTime, tbl.toList, tbl.toList_pairwise_leaseKey_ne⟩ key
  rw [LeaseMap.ownerOf, scanned, hget, Scan.listed, LeaseMap.find?_toList,
    LeaseMap.ownerOf]
  cases tbl.get key <;> simp

theorem sumOfSquares_lt_of_step {tbl tbl' : LeaseMap} {steal : Steal}
    (h : step tbl steal = some tbl') :
    sumOfSquares tbl'.owners tbl'.ownedCount <
      sumOfSquares tbl.owners tbl.ownedCount := by
  unfold step at h
  split_ifs at h with hsteal
  cases h
  obtain ⟨victim, -, -, hle, htransfer⟩ := LeaseTaker.exists_transfer hsteal.1
    hsteal.2 (ownerOf_scanned steal tbl).symm
  have hlength : 0 < (steal.taken tbl).length :=
    List.length_pos_iff.mpr hsteal.2
  have hzero : ∀ (m : LeaseMap) worker, worker ∉ m.owners →
      m.ownedCount worker = 0 := by
    intro m worker hworker
    rw [LeaseMap.mem_owners_iff] at hworker
    omega
  have hvictim : victim ∈ tbl.owners := by
    have hgives := htransfer.gives
    rw [LeaseMap.mem_owners_iff]
    exact lt_of_lt_of_le hlength (hgives ▸ Nat.le_add_left _ _)
  have hbefore : tbl.owners ⊆ insert steal.taker.workerID tbl.owners ∪
      (tbl.handOver steal.taker.workerID (steal.taken tbl)).owners :=
    (Finset.subset_insert _ _).trans Finset.subset_union_left
  rw [sumOfSquares_eq_of_subset Finset.subset_union_right (hzero _),
    sumOfSquares_eq_of_subset hbefore (hzero tbl)]
  refine htransfer.sumOfSquares_lt hlength hle ?_ ?_
  · simp [hvictim]
  · exact Finset.mem_union_left _ (Finset.mem_insert_self _ _)

end Steal

/-- A taker that steals takes leases of one other worker and is left with at most
as many as that worker, which lowers the sum of the squares of the counts; and
no more steals can follow each other than that sum was at the start. -/
theorem steals_terminate :
    (∀ (taker : LeaseTaker) (shuffle : RandomShuffle),
      taker.getExpiredLeases = [] →
      taker.computeLeasesToTake shuffle taker.getExpiredLeases ≠ [] →
      let taken := taker.computeLeasesToTake shuffle taker.getExpiredLeases
      let after := taker.allLeases.handOver taker.workerID taken
      ∃ victim, victim ≠ taker.workerID ∧
        (∀ lease ∈ taken, lease.leaseOwner = some victim) ∧
        after.ownedCount taker.workerID ≤ after.ownedCount victim ∧
        ∀ workers, victim ∈ workers → taker.workerID ∈ workers →
          sumOfSquares workers after.ownedCount <
            sumOfSquares workers taker.allLeases.ownedCount) ∧
    ∀ (tbl : LeaseMap) (steals : List Steal) (tbl' : LeaseMap),
      Transition.run Steal.step tbl steals = some tbl' →
      steals.length ≤ sumOfSquares tbl.owners tbl.ownedCount := by
  refine ⟨fun taker shuffle hfresh hsome => ?_, fun tbl steals tbl' hr => ?_⟩
  · obtain ⟨victim, hne, howner, hle, htransfer⟩ :=
      LeaseTaker.exists_transfer hfresh hsome rfl
    exact ⟨victim, hne, howner, hle, fun workers hvictim hthief =>
      htransfer.sumOfSquares_lt (List.length_pos_iff.mpr hsome) hle hvictim hthief⟩
  · exact Transition.run_length_le_of_lt
      (fun _ _ _ hstep => Steal.sumOfSquares_lt_of_step hstep) hr

def sampleOwnedLease (key : String) : Lease where
  leaseKey := ⟨key⟩
  leaseOwner := some ⟨"worker-b"⟩
  leaseCounter := some ⟨1⟩

def sampleStealTable : LeaseMap :=
  ((LeaseMap.empty.insert (sampleOwnedLease "shard-1")).insert
    (sampleOwnedLease "shard-2")).insert (sampleOwnedLease "shard-3")

def sampleSteal : Steal where
  taker := { workerID := ⟨"worker-a"⟩ }
  scanTime := ⟨5⟩
  shuffle := RandomShuffle.identity

theorem steals_terminate_sampleSteal :
    (∃ victim, victim ≠ (sampleSteal.scanned sampleStealTable).workerID) ∧
      [sampleSteal].length ≤
        sumOfSquares sampleStealTable.owners sampleStealTable.ownedCount := by
  obtain ⟨hvictim, hrun⟩ := steals_terminate
  constructor
  · obtain ⟨victim, hne, -⟩ := hvictim (sampleSteal.scanned sampleStealTable)
      sampleSteal.shuffle (by decide +kernel) (by decide +kernel)
    exact ⟨victim, hne⟩
  · refine hrun sampleStealTable [sampleSteal]
      (sampleStealTable.handOver ⟨"worker-a"⟩
        (sampleSteal.taken sampleStealTable)) ?_
    rw [Transition.run_cons, Steal.step, if_pos (by decide +kernel)]
    rfl

end Leases

end Kclpp
