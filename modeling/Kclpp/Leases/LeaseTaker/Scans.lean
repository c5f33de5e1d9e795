import Kclpp.Histories.LastRun
import Kclpp.Leases.LeaseTaker.Basic

/-!
# Histories of scans

What a taker holds after a scan is the listing of the scan, with an increment
time for every lease. The time is that of the scan at which the last run of
equal counters of the lease started, and it is missing when the lease was new
and had no owner at that scan: `holds_afterScans`. The expiry of a lease is read
off from it.
-/

open Std OrderedMap

namespace Kclpp

namespace Leases

open Clock Lease Histories

/-- A successful scan: its time and the leases it listed. -/
structure Scan where
  scanTime : NanosecondPoint
  listing : List Lease
  distinct : LeaseTaker.DistinctKeys listing

namespace Scan

def listed (scan : Scan) (key : LeaseKey) : Option Lease :=
  scan.listing.find? fun lease => lease.leaseKey = key

def counterOf (key : LeaseKey) (scan : Scan) : Option (Option LeaseCounter) :=
  (scan.listed key).map fun lease => lease.leaseCounter

end Scan

namespace LeaseTaker

@[simp] theorem leaseKey_scannedLease (scanTime : NanosecondPoint)
    (oldLease : Option Lease) (newLease : Lease) :
    (scannedLease scanTime oldLease newLease).leaseKey = newLease.leaseKey := by
  unfold scannedLease
  split
  · split_ifs <;> rfl
  · split_ifs <;> rfl

@[simp] theorem leaseOwner_scannedLease (scanTime : NanosecondPoint)
    (oldLease : Option Lease) (newLease : Lease) :
    (scannedLease scanTime oldLease newLease).leaseOwner =
      newLease.leaseOwner := by
  unfold scannedLease
  split
  · split_ifs <;> rfl
  · split_ifs <;> rfl

@[simp] theorem leaseCounter_scannedLease (scanTime : NanosecondPoint)
    (oldLease : Option Lease) (newLease : Lease) :
    (scannedLease scanTime oldLease newLease).leaseCounter =
      newLease.leaseCounter := by
  unfold scannedLease
  split
  · split_ifs <;> rfl
  · split_ifs <;> rfl

/-- Merging a listing into the leases that are held changes what is held under
the listed keys only. -/
theorem get_foldl_scannedLease (scanTime : NanosecondPoint)
    {listing : List Lease} (h : DistinctKeys listing) (allLeases : LeaseMap)
    (key : LeaseKey) :
    (listing.foldl (fun allLeases newLease => allLeases.insertOrUpdate
        (scannedLease scanTime (allLeases.get newLease.leaseKey) newLease))
      allLeases).get key =
      ((listing.find? fun lease => lease.leaseKey = key).elim
        (allLeases.get key) fun newLease =>
          some (scannedLease scanTime (allLeases.get key) newLease)) := by
  induction listing generalizing allLeases with
  | nil => rfl
  | cons lease listing ih =>
      rw [DistinctKeys, List.pairwise_cons] at h
      rw [List.foldl_cons, ih h.2]
      by_cases hkey : lease.leaseKey = key
      · have hnone : listing.find? (fun l => l.leaseKey = key) = none := by
          rw [List.find?_eq_none]
          intro l hl heq
          exact h.1 l hl (hkey.trans (of_decide_eq_true heq).symm)
        simp [hnone, hkey]
      · simp [hkey]

theorem get_foldl_erase (leases : List Lease) (m : LeaseMap) (key : LeaseKey) :
    (leases.foldl (fun m lease => m.erase lease.leaseKey) m).get key =
      if ∃ lease ∈ leases, lease.leaseKey = key then none else m.get key := by
  induction leases generalizing m with
  | nil => simp
  | cons lease leases ih =>
      rw [List.foldl_cons, ih, LeaseMap.get_erase]
      by_cases hkey : lease.leaseKey = key <;> simp [hkey]

/-- What is held after a scan is what the scan has listed, merged with what was
held before. -/
theorem get_updateAllLeases (taker : LeaseTaker) (scan : Scan)
    (key : LeaseKey) :
    (taker.updateAllLeases scan.scanTime scan.listing).allLeases.get key =
      (scan.listed key).map
        (scannedLease scan.scanTime (taker.allLeases.get key)) := by
  unfold updateAllLeases
  simp only [get_foldl_erase, get_foldl_scannedLease _ scan.distinct]
  unfold Scan.listed
  cases hfind : scan.listing.find? fun lease => lease.leaseKey = key with
  | none =>
      rw [List.find?_eq_none] at hfind
      cases hold : taker.allLeases.get key with
      | none => simp
      | some old =>
          have hkey := LeaseMap.leaseKey_of_get hold
          rw [if_pos]
          · rfl
          · refine ⟨old, List.mem_filter.mpr ⟨?_, ?_⟩, hkey⟩
            · rw [LeaseMap.mem_toList_iff, hkey, hold]
            · rw [hkey]
              simpa using hfind
  | some lease =>
      rw [if_neg]
      · rfl
      · rintro ⟨old, hold, hkey⟩
        have hnew := List.all_eq_true.mp (List.mem_filter.mp hold).2 lease
          (List.mem_of_find?_eq_some hfind)
        rw [hkey] at hnew
        exact of_decide_eq_true hnew (by simpa using List.find?_some hfind)

def afterScans (taker : LeaseTaker) (scans : List Scan) : LeaseTaker :=
  scans.foldl
    (fun taker scan => taker.updateAllLeases scan.scanTime scan.listing) taker

theorem afterScans_concat (taker : LeaseTaker) (scans : List Scan)
    (last : Scan) :
    taker.afterScans (scans ++ [last]) =
      (taker.afterScans scans).updateAllLeases last.scanTime last.listing := by
  simp [afterScans]

@[simp] theorem lastScanTime_updateAllLeases (taker : LeaseTaker)
    (now : NanosecondPoint) (listing : List Lease) :
    (taker.updateAllLeases now listing).lastScanTime = some now := rfl

@[simp] theorem leaseDuration_updateAllLeases (taker : LeaseTaker)
    (now : NanosecondPoint) (listing : List Lease) :
    (taker.updateAllLeases now listing).leaseDuration = taker.leaseDuration :=
  rfl

@[simp] theorem leaseDuration_afterScans (taker : LeaseTaker)
    (scans : List Scan) :
    (taker.afterScans scans).leaseDuration = taker.leaseDuration := by
  refine List.foldlRecOn
    (motive := fun t : LeaseTaker => t.leaseDuration = taker.leaseDuration)
    scans _ rfl ?_
  intro t ht scan _
  rw [leaseDuration_updateAllLeases, ht]

theorem mem_getExpiredLeases_iff (taker : LeaseTaker) (lease : Lease) :
    lease ∈ taker.getExpiredLeases ↔
      taker.allLeases.get lease.leaseKey = some lease ∧
        lease.isExpired taker.leaseDuration (taker.lastScanTime.getD ⟨0⟩) := by
  rw [getExpiredLeases, List.mem_filter, LeaseMap.mem_toList_iff]

def ReportsExpired (taker : LeaseTaker) (key : LeaseKey) : Prop :=
  ∃ lease ∈ taker.getExpiredLeases, lease.leaseKey = key

theorem reportsExpired_iff {taker : LeaseTaker} {key : LeaseKey} {lease : Lease}
    (h : taker.allLeases.get key = some lease) :
    taker.ReportsExpired key ↔
      lease.isExpired taker.leaseDuration (taker.lastScanTime.getD ⟨0⟩) := by
  have hkey := LeaseMap.leaseKey_of_get h
  constructor
  · rintro ⟨lease', hmem, rfl⟩
    obtain ⟨hget, hexpired⟩ := (mem_getExpiredLeases_iff taker lease').mp hmem
    rw [h] at hget
    cases hget
    exact hexpired
  · intro hexpired
    refine ⟨lease, (mem_getExpiredLeases_iff taker lease).mpr ⟨?_, hexpired⟩, hkey⟩
    rw [hkey]
    exact h

end LeaseTaker

/-- The key appears at a scan that lists it: the scan before it, if there is one,
has not listed it. -/
def Appears (before : List Scan) (key : LeaseKey) : Prop :=
  ∀ scan, before.getLast? = some scan → scan.listed key = none

namespace LeaseTaker

/-- The lease under a key, from the scan at which its last run of equal counters
started: the counter, and the increment time. -/
structure HoldsSince (before : List Scan) (first : Scan) (key : LeaseKey)
    (taker : LeaseTaker) : Prop where
  holds : ∃ lease, taker.allLeases.get key = some lease ∧
    first.counterOf key = some lease.leaseCounter ∧
    (lease.lastCounterIncrementNanoseconds = none ∨
      lease.lastCounterIncrementNanoseconds = some first.scanTime) ∧
    (lease.lastCounterIncrementNanoseconds = none ↔
      Appears before key ∧
        ∃ appeared, first.listed key = some appeared ∧
          appeared.leaseOwner = none)

/-- A scan that lists the same counter keeps the increment time. -/
theorem HoldsSince.updateAllLeases {before : List Scan} {first : Scan}
    {key : LeaseKey} {taker : LeaseTaker} (h : HoldsSince before first key taker)
    {scan : Scan} (hsame : scan.counterOf key = first.counterOf key) :
    HoldsSince before first key
      (taker.updateAllLeases scan.scanTime scan.listing) := by
  obtain ⟨lease, hget, hcounter, htime, hnone⟩ := h.holds
  obtain ⟨new, hnew, hnewCounter⟩ :
      ∃ new, scan.listed key = some new ∧
        new.leaseCounter = lease.leaseCounter := by
    rw [hcounter] at hsame
    exact Option.map_eq_some_iff.mp hsame
  refine ⟨scannedLease scan.scanTime (some lease) new, ?_, ?_, ?_⟩
  · rw [get_updateAllLeases, hnew, hget]
    rfl
  · rw [leaseCounter_scannedLease, hnewCounter, hcounter]
  · rw [scannedLease, if_pos hnewCounter.symm]
    exact ⟨htime, hnone⟩

theorem get_afterScans_of_getLast? {taker : LeaseTaker}
    (hnew : taker.allLeases = LeaseMap.empty) (scans : List Scan)
    (key : LeaseKey) :
    ((taker.afterScans scans).allLeases.get key).map
        (fun lease => lease.leaseCounter) =
      scans.getLast?.bind fun scan => scan.counterOf key := by
  rcases List.eq_nil_or_concat scans with rfl | ⟨scans, last, rfl⟩
  · simp [afterScans, hnew]
  · rw [List.concat_eq_append, afterScans_concat, get_updateAllLeases,
      List.getLast?_concat, Option.bind_some, Scan.counterOf, Option.map_map]
    cases last.listed key <;> simp

/-- The scan at which the last run of equal counters starts sets the increment
time. -/
theorem holdsSince_first {taker : LeaseTaker}
    (hnew : taker.allLeases = LeaseMap.empty) {before : List Scan} {first : Scan}
    {key : LeaseKey} {appeared : Lease}
    (hlisted : first.listed key = some appeared)
    (hchanged : ∀ scan, before.getLast? = some scan →
      scan.counterOf key ≠ first.counterOf key) :
    HoldsSince before first key
      ((taker.afterScans before).updateAllLeases first.scanTime
        first.listing) := by
  have hcounter : first.counterOf key = some appeared.leaseCounter := by
    simp [Scan.counterOf, hlisted]
  have hheld := get_afterScans_of_getLast? hnew before key
  refine ⟨scannedLease first.scanTime
    ((taker.afterScans before).allLeases.get key) appeared, ?_, ?_, ?_⟩
  · rw [get_updateAllLeases, hlisted]
    rfl
  · rw [leaseCounter_scannedLease, hcounter]
  cases hold : (taker.afterScans before).allLeases.get key with
  | none =>
      have happears : Appears before key := by
        intro scan hscan
        rw [hold, hscan] at hheld
        simpa [Scan.counterOf] using hheld.symm
      cases howner : appeared.leaseOwner <;>
        simp [scannedLease, howner, happears, hlisted]
  | some old =>
      obtain ⟨scan, hscan, hscanCounter⟩ :
          ∃ scan, before.getLast? = some scan ∧
            scan.counterOf key = some old.leaseCounter := by
        rw [hold] at hheld
        exact Option.bind_eq_some_iff.mp hheld.symm
      have hne : old.leaseCounter ≠ appeared.leaseCounter := by
        intro heq
        apply hchanged scan hscan
        rw [hscanCounter, hcounter, heq]
      have hseen : ¬ Appears before key := by
        intro happears
        rw [Scan.counterOf, happears scan hscan] at hscanCounter
        cases hscanCounter
      simp [scannedLease, hne, hseen]

theorem holdsSince_afterScans {taker : LeaseTaker}
    (hnew : taker.allLeases = LeaseMap.empty) {before rest : List Scan}
    {first : Scan} {key : LeaseKey}
    (hrun : LastRun (Scan.counterOf key) before first rest)
    (hlisted : first.counterOf key ≠ none) :
    HoldsSince before first key
      (taker.afterScans (before ++ first :: rest)) := by
  obtain ⟨appeared, happeared⟩ : ∃ appeared, first.listed key = some appeared := by
    rw [Scan.counterOf, Ne, Option.map_eq_none_iff] at hlisted
    exact Option.ne_none_iff_exists'.mp hlisted
  exact hrun.foldl (I := HoldsSince before first key)
    (holdsSince_first hnew happeared hrun.new)
    fun _ _ hs hsame => hs.updateAllLeases hsame

/-- The age that is compared is the time since the start of the run. -/
theorem HoldsSince.reportsExpired_iff {before : List Scan} {first : Scan}
    {key : LeaseKey} {taker : LeaseTaker} (h : HoldsSince before first key taker)
    {now : NanosecondPoint} (hscan : taker.lastScanTime = some now)
    (htime : first.scanTime.value ≤ now.value) :
    taker.ReportsExpired key ↔
      (Appears before key ∧ ∃ appeared, first.listed key = some appeared ∧
        appeared.leaseOwner = none) ∨
      min taker.leaseDuration.value.toNat getMaxLeaseAge.value.toNat <
        now.value.toNat - first.scanTime.value.toNat := by
  obtain ⟨lease, hget, -, htimes, hnone⟩ := h.holds
  rw [LeaseTaker.reportsExpired_iff hget, hscan, Option.getD_some, ← hnone]
  rcases htimes with hlast | hlast
  · simp [isExpired, hlast]
  · rw [isExpired_iff_of_le hlast taker.leaseDuration htime, hlast]
    simp

theorem lastScanTime_afterScans_concat (taker : LeaseTaker) (scans : List Scan)
    (last : Scan) :
    (taker.afterScans (scans ++ [last])).lastScanTime = some last.scanTime := by
  rw [afterScans_concat, lastScanTime_updateAllLeases]

def ChangesEveryScan (key : LeaseKey) (scans : List Scan) : Prop :=
  scans.IsChain fun scan next => scan.counterOf key ≠ next.counterOf key

theorem ChangesEveryScan.getLast?_ne {key : LeaseKey} {scans : List Scan}
    {last : Scan} (h : ChangesEveryScan key (scans ++ [last])) (scan : Scan)
    (hscan : scans.getLast? = some scan) :
    scan.counterOf key ≠ last.counterOf key := by
  refine (List.isChain_append.mp h).2.2 scan ?_ last rfl
  exact hscan

/-- After a history of scans a new taker holds what the last scan has listed. A
lease is reported expired exactly when the last run of scans with an equal
counter started with its appearance without an owner, or more than the lease
duration or the maximal age before the last scan. A lease whose counter changes
from every scan to the next is reported only at a scan at which it appears
without an owner. -/
theorem reportsExpired_afterScans (taker : LeaseTaker)
    (hnew : taker.allLeases = LeaseMap.empty) (scans : List Scan) (last : Scan)
    (htimes : (scans ++ [last]).Pairwise fun scan later =>
      scan.scanTime.value ≤ later.scanTime.value) :
    (∀ key, (taker.afterScans (scans ++ [last])).allLeases.get key = none ↔
      last.listed key = none) ∧
    ∀ key, last.listed key ≠ none →
      (∃ before first rest, scans ++ [last] = before ++ first :: rest ∧
        LastRun (Scan.counterOf key) before first rest) ∧
      (∀ before first rest, scans ++ [last] = before ++ first :: rest →
        LastRun (Scan.counterOf key) before first rest →
        ((taker.afterScans (scans ++ [last])).ReportsExpired key ↔
          (Appears before key ∧ ∃ appeared, first.listed key = some appeared ∧
            appeared.leaseOwner = none) ∨
          min taker.leaseDuration.value.toNat getMaxLeaseAge.value.toNat <
            last.scanTime.value.toNat - first.scanTime.value.toNat)) ∧
      (ChangesEveryScan key (scans ++ [last]) →
        (taker.afterScans (scans ++ [last])).ReportsExpired key →
        Appears scans key ∧ ∃ appeared, last.listed key = some appeared ∧
          appeared.leaseOwner = none) := by
  have hreports : ∀ key, last.listed key ≠ none → ∀ before first rest,
      scans ++ [last] = before ++ first :: rest →
      LastRun (Scan.counterOf key) before first rest →
      ((taker.afterScans (scans ++ [last])).ReportsExpired key ↔
        (Appears before key ∧ ∃ appeared, first.listed key = some appeared ∧
          appeared.leaseOwner = none) ∨
        min taker.leaseDuration.value.toNat getMaxLeaseAge.value.toNat <
          last.scanTime.value.toNat - first.scanTime.value.toNat) := by
    intro key hlisted before first rest heq hrun
    have hfirst : first.counterOf key ≠ none := by
      rw [← hrun.observe_last heq, Scan.counterOf, Ne, Option.map_eq_none_iff]
      exact hlisted
    have htime : first.scanTime.value ≤ last.scanTime.value := by
      have hmem : first ∈ scans ++ [last] := by simp [heq]
      rcases List.mem_append.mp hmem with hmem | hmem
      · exact (List.pairwise_append.mp htimes).2.2 first hmem last (by simp)
      · rw [List.mem_singleton.mp hmem]
        exact UInt64.le_refl _
    have hholds := holdsSince_afterScans hnew hrun hfirst
    rw [← heq] at hholds
    rw [hholds.reportsExpired_iff (lastScanTime_afterScans_concat _ _ _) htime,
      leaseDuration_afterScans]
  refine ⟨?_, fun key hlisted => ⟨exists_lastRun _ _ _, hreports key hlisted, ?_⟩⟩
  · intro key
    rw [afterScans_concat, get_updateAllLeases, Option.map_eq_none_iff]
  · intro hchanges hreported
    have hrun : LastRun (Scan.counterOf key) scans last [] :=
      lastRun_of_new hchanges.getLast?_ne
    rcases (hreports key hlisted scans last [] rfl hrun).mp hreported with h | h
    · exact h
    · simp at h

def sampleScanTaker : LeaseTaker := { workerID := ⟨"worker-a"⟩ }

def sampleScan (scanTime : NanosecondPoint) (owner : Option LeaseOwner)
    (counter : LeaseCounter) : Scan where
  scanTime := scanTime
  listing := [{ leaseKey := ⟨"shard-1"⟩, leaseOwner := owner,
                leaseCounter := some counter }]
  distinct := List.pairwise_singleton _ _

/-- An owned lease that three scans list with the same counter, for longer than
the lease duration. -/
theorem reportsExpired_afterScans_sampleScan :
    (sampleScanTaker.afterScans
      ([sampleScan ⟨0⟩ (some ⟨"worker-b"⟩) ⟨4⟩,
        sampleScan ⟨20000000000⟩ (some ⟨"worker-b"⟩) ⟨4⟩] ++
        [sampleScan ⟨40000000000⟩ (some ⟨"worker-b"⟩) ⟨4⟩])).ReportsExpired
      ⟨"shard-1"⟩ := by
  obtain ⟨-, hreports⟩ := reportsExpired_afterScans sampleScanTaker rfl
    [sampleScan ⟨0⟩ (some ⟨"worker-b"⟩) ⟨4⟩,
      sampleScan ⟨20000000000⟩ (some ⟨"worker-b"⟩) ⟨4⟩]
    (sampleScan ⟨40000000000⟩ (some ⟨"worker-b"⟩) ⟨4⟩) (by decide)
  refine ((hreports ⟨"shard-1"⟩ (by decide)).2.1 []
    (sampleScan ⟨0⟩ (some ⟨"worker-b"⟩) ⟨4⟩) _ rfl ⟨?_, ?_⟩).mpr (Or.inr ?_)
  · decide
  · simp
  · decide

/-- The counter of this lease changes from every scan to the next, and it is
reported expired when it is first listed. -/
theorem sampleScan_reportsExpired :
    ChangesEveryScan ⟨"shard-1"⟩ [sampleScan ⟨1⟩ none ⟨0⟩, sampleScan ⟨2⟩ none ⟨1⟩] ∧
      (sampleScanTaker.afterScans
        [sampleScan ⟨1⟩ none ⟨0⟩]).ReportsExpired ⟨"shard-1"⟩ := by
  constructor
  · unfold ChangesEveryScan
    decide
  · unfold ReportsExpired
    decide +kernel

end LeaseTaker

end Leases

end Kclpp
