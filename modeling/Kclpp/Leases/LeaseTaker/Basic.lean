import Kclpp.Leases.LeaseManager.Basic
import Kclpp.Leases.LeaseMap

/-!
# The lease taker

The taker scans the table, keeps for every lease the time at which it last saw
the counter change, and takes leases that have expired or, when none has, steals
some from the worker with the most. Counts are natural numbers, as nothing here
comes near the bound of `size_t`. The random shuffle is an argument: any
function that permutes its list.
-/

open Std OrderedMap

namespace Kclpp

namespace Leases

open Clock Dynamo Util Lease

/-- `util::randomShuffle`, for one state of the random engine. -/
structure RandomShuffle where
  apply : List Lease → List Lease
  perm : ∀ leases, (apply leases).Perm leases

/-- The shuffle that leaves every lease where it is. -/
def RandomShuffle.identity : RandomShuffle where
  apply := id
  perm := List.Perm.refl

/-- `LeaseTaker`, its parameters and its state. -/
structure LeaseTaker where
  workerID : LeaseOwner
  leaseDuration : NanosecondDuration := ⟨30000000000⟩
  maxLeasesForWorker : NumberOfLeases := ⟨999⟩
  maxLeasesToStealAtOnce : NumberOfLeases := ⟨1⟩
  lastScanTime : Option NanosecondPoint := some ⟨0⟩
  allLeases : LeaseMap := .empty

/-- `lease_count_map_t`. -/
abbrev LeaseCountMap := TreeMap LeaseOwner ℕ

structure ChooseLeasesToStealOptions where
  neededNum : ℕ := 0
  targetNum : ℕ := 0
  deriving DecidableEq, Repr

namespace LeaseTaker

/-- What `updateAllLeases` makes of a lease it has listed: the time at which its
counter was seen to change. -/
def scannedLease (scanTime : NanosecondPoint) (oldLease : Option Lease)
    (newLease : Lease) : Lease :=
  match oldLease with
  | some old =>
      if old.leaseCounter = newLease.leaseCounter then
        { newLease with
          lastCounterIncrementNanoseconds := old.lastCounterIncrementNanoseconds }
      else { newLease with lastCounterIncrementNanoseconds := some scanTime }
  | none =>
      if newLease.leaseOwner.isSome then
        { newLease with lastCounterIncrementNanoseconds := some scanTime }
      else { newLease with lastCounterIncrementNanoseconds := none }

/-- What `LeaseTaker::updateAllLeases` does with the leases it has listed.
Leases that were not listed are removed. -/
def updateAllLeases (taker : LeaseTaker) (now : NanosecondPoint)
    (updatedLeases : List Lease) : LeaseTaker :=
  let notUpdated := taker.allLeases.toList.filter fun lease =>
    updatedLeases.all fun newLease => newLease.leaseKey ≠ lease.leaseKey
  let allLeases := updatedLeases.foldl
    (fun allLeases newLease => allLeases.insertOrUpdate
      (scannedLease now (allLeases.get newLease.leaseKey) newLease))
    taker.allLeases
  { taker with
    lastScanTime := some now
    allLeases := notUpdated.foldl
      (fun allLeases lease => allLeases.erase lease.leaseKey) allLeases }

def getExpiredLeases (taker : LeaseTaker) : List Lease :=
  taker.allLeases.toList.filter fun lease =>
    lease.isExpired taker.leaseDuration (taker.lastScanTime.getD ⟨0⟩)

/-- `util::insertOrIncrement`, by one. -/
def insertOrIncrement (counts : LeaseCountMap) (owner : LeaseOwner) :
    LeaseCountMap :=
  counts.insert owner ((lookup counts owner).getD 0 + 1)

def computeLeaseCounts (taker : LeaseTaker) (expiredLeaseKeys : List LeaseKey) :
    LeaseCountMap :=
  let result := taker.allLeases.toList.foldl
    (fun result lease =>
      if lease.leaseKey ∈ expiredLeaseKeys then result
      else
        match lease.leaseOwner with
        | none => result
        | some owner => insertOrIncrement result owner)
    ∅
  result.insertIfNew taker.workerID 0

def moreLoaded (mostLoaded : Option (LeaseOwner × ℕ)) (countPair : LeaseOwner × ℕ) :
    Option (LeaseOwner × ℕ) :=
  match mostLoaded with
  | none => some countPair
  | some found => if found.2 < countPair.2 then some countPair else some found

/-- The first of the workers with the highest count. -/
def mostLoadedWorker (leaseCounts : LeaseCountMap) : Option (LeaseOwner × ℕ) :=
  leaseCounts.toList.foldl moreLoaded none

/-- The number of leases that `chooseLeasesToSteal` goes for. -/
def numToSteal (taker : LeaseTaker) (mostLoaded : ℕ)
    (options : ChooseLeasesToStealOptions) : ℕ :=
  if mostLoaded ≥ options.targetNum ∧ options.neededNum > 0 then
    let leasesOverTarget := mostLoaded - options.targetNum
    let numToSteal := min options.neededNum leasesOverTarget
    let numToSteal :=
      if options.neededNum > 1 ∧ numToSteal = 0 then 1 else numToSteal
    min numToSteal taker.maxLeasesToStealAtOnce.value.toNat
  else 0

def chooseLeasesToSteal (taker : LeaseTaker) (shuffle : RandomShuffle)
    (leaseCounts : LeaseCountMap) (options : ChooseLeasesToStealOptions) :
    List Lease :=
  match mostLoadedWorker leaseCounts with
  | none => []
  | some (mostLoadedKey, mostLoaded) =>
      let numToSteal := taker.numToSteal mostLoaded options
      if numToSteal = 0 then []
      else
        let candidates := taker.allLeases.toList.filter fun lease =>
          lease.leaseOwner = some mostLoadedKey
        (shuffle.apply candidates).take numToSteal

def leaseTarget (taker : LeaseTaker) (numLeases numWorkers : ℕ) : ℕ :=
  if numWorkers > numLeases then 1
  else
    let target := numLeases / numWorkers
    let target := if numLeases % numWorkers ≠ 0 then target + 1 else target
    min taker.maxLeasesToStealAtOnce.value.toNat target

def computeLeasesToTake (taker : LeaseTaker) (shuffle : RandomShuffle)
    (expiredLeases : List Lease) : List Lease :=
  let leaseCounts :=
    taker.computeLeaseCounts (expiredLeases.map fun lease => lease.leaseKey)
  let numLeases := taker.allLeases.size
  let numWorkers := leaseCounts.size
  if numLeases = 0 then []
  else
    let target := taker.leaseTarget numLeases numWorkers
    let selfCount := (lookup leaseCounts taker.workerID).getD 0
    if selfCount ≥ target then []
    else
      let numToTarget := target - selfCount
      if expiredLeases ≠ [] then
        (shuffle.apply expiredLeases).reverse.take numToTarget
      else
        taker.chooseLeasesToSteal shuffle leaseCounts
          { neededNum := numToTarget, targetNum := target }

def DistinctKeys (leases : List Lease) : Prop :=
  leases.Pairwise fun lease lease' => lease.leaseKey ≠ lease'.leaseKey

theorem DistinctKeys.of_perm {leases leases' : List Lease}
    (h : DistinctKeys leases') (hperm : leases.Perm leases') :
    DistinctKeys leases :=
  (hperm.pairwise_iff fun hne => hne.symm).mpr h

theorem DistinctKeys.reverse {leases : List Lease} (h : DistinctKeys leases) :
    DistinctKeys leases.reverse :=
  h.of_perm (List.reverse_perm leases)

theorem distinctKeys_filter (m : LeaseMap) (p : Lease → Bool) :
    DistinctKeys (m.toList.filter p) :=
  m.toList_pairwise_leaseKey_ne.filter p

theorem distinctKeys_computeLeasesToTake (taker : LeaseTaker)
    (shuffle : RandomShuffle) :
    DistinctKeys
      (taker.computeLeasesToTake shuffle taker.getExpiredLeases) := by
  unfold computeLeasesToTake
  dsimp only
  split_ifs with hnone hself hexpired
  · exact List.Pairwise.nil
  · exact List.Pairwise.nil
  · refine List.Pairwise.take ?_
    refine DistinctKeys.reverse ?_
    exact (distinctKeys_filter _ _).of_perm (shuffle.perm _)
  · unfold chooseLeasesToSteal
    split
    · exact List.Pairwise.nil
    · dsimp only
      split_ifs
      · exact List.Pairwise.nil
      · refine List.Pairwise.take ?_
        exact (distinctKeys_filter _ _).of_perm (shuffle.perm _)

end LeaseTaker

/-- What a round of the taker meets: the order in which the store walks the
table, the `errno` it reads with, the error of a scan that fails, the time of
the scan, the shuffle, and around each take, by the key of the lease, what
others write before the store serves it and the error of a request that the
store does not serve. -/
structure TakerConditions where
  order : List String
  errno : Errno
  scanRefused : Option DynamoDBErrors
  scanTime : NanosecondPoint
  shuffle : RandomShuffle
  meanwhile : LeaseKey → Table → Table
  refuses : LeaseKey → Option DynamoDBErrors

namespace LeaseTaker

/-- The table and `TakeLeasesAsyncContext::takenLeases`. -/
structure TakeState where
  tbl : Table
  takenLeases : List Lease := []

/-- What the store makes of a take request, under the conditions of the
round. -/
def serveTake (manager : LeaseManager) (dynamo : Service)
    (conditions : TakerConditions) (workerID : LeaseOwner) (lease : Lease)
    (tbl : Table) : Table × Except DynamoDBErrors TakeLeaseResult :=
  let tbl := conditions.meanwhile lease.leaseKey tbl
  match conditions.refuses lease.leaseKey with
  | some e => (tbl, .error e)
  | none => manager.takeLease dynamo lease workerID tbl

/-- What `LeaseTaker::takeLeases` does when the store has answered a take. -/
def onTakeLease (takenLeases : List Lease) :
    Except DynamoDBErrors TakeLeaseResult → List Lease
  | .ok result => if result.taken then takenLeases ++ [result.lease] else takenLeases
  | .error _ => takenLeases

def takeLease (manager : LeaseManager) (dynamo : Service)
    (conditions : TakerConditions) (workerID : LeaseOwner) (s : TakeState)
    (lease : Lease) : TakeState :=
  let answer := serveTake manager dynamo conditions workerID lease s.tbl
  { tbl := answer.1, takenLeases := onTakeLease s.takenLeases answer.2 }

def scanLeases (manager : LeaseManager) (dynamo : Service)
    (conditions : TakerConditions) (tbl : Table) :
    Except DynamoDBErrors (List Lease) :=
  match conditions.scanRefused with
  | some e => .error e
  | none => manager.listLeases dynamo conditions.order conditions.errno tbl

/-- `LeaseTaker::takeLeases` after the scan: one take after the other. -/
def takeScannedLeases (manager : LeaseManager) (dynamo : Service)
    (conditions : TakerConditions) (taker : LeaseTaker) (tbl : Table) :
    TakeState :=
  (taker.computeLeasesToTake conditions.shuffle taker.getExpiredLeases).foldl
    (takeLease manager dynamo conditions taker.workerID) { tbl }

/-- `LeaseTaker::takeLeases`: the taker and the table after the round, and the
leases it reports. -/
def takeLeases (manager : LeaseManager) (dynamo : Service)
    (conditions : TakerConditions) (taker : LeaseTaker) (tbl : Table) :
    LeaseTaker × Table × Except DynamoDBErrors (List Lease) :=
  match scanLeases manager dynamo conditions tbl with
  | .error e => (taker, tbl, .error e)
  | .ok updatedLeases =>
      let taker := taker.updateAllLeases conditions.scanTime updatedLeases
      let s := taker.takeScannedLeases manager dynamo conditions tbl
      (taker, s.tbl, .ok s.takenLeases)

end LeaseTaker

end Leases

end Kclpp
