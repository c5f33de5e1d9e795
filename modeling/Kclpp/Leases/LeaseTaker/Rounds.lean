import Kclpp.Leases.LeaseManager.Calls
import Kclpp.Leases.LeaseTaker.Basic

/-!
# Rounds of takes

A take touches nothing but the row of its lease. So a lease that a round reports
as taken was taken from its row, and the row has been left alone since:
`exists_perform_of_mem_takenLeases`.
-/

open OrderedMap

namespace Kclpp

namespace Leases

open Dynamo Lease

namespace LeaseTaker

/-- Two moments of a round of takes between which nothing has happened under a
key. -/
structure SameAt (conditions : TakerConditions) (key : LeaseKey)
    (s s' : TakeState) : Prop where
  takenLeases : ∀ lease, lease.leaseKey = key →
    (lease ∈ s'.takenLeases ↔ lease ∈ s.takenLeases)
  row : (∀ k tbl, (conditions.meanwhile k tbl).row key.value = tbl.row key.value) →
    s'.tbl.row key.value = s.tbl.row key.value

theorem SameAt.refl (conditions : TakerConditions) (key : LeaseKey)
    (s : TakeState) : SameAt conditions key s s :=
  ⟨fun _ _ => Iff.rfl, fun _ => rfl⟩

theorem SameAt.trans {conditions : TakerConditions} {key : LeaseKey}
    {s s' s'' : TakeState} (h : SameAt conditions key s s')
    (h' : SameAt conditions key s' s'') : SameAt conditions key s s'' where
  takenLeases := fun lease hkey =>
    (h'.takenLeases lease hkey).trans (h.takenLeases lease hkey)
  row := fun hmeanwhile => (h'.row hmeanwhile).trans (h.row hmeanwhile)

/-- The store answers a take with the lease it was asked for, or with an
error. -/
theorem serveTake_cases (manager : LeaseManager) (dynamo : Service)
    (conditions : TakerConditions) (workerID : LeaseOwner) (lease : Lease)
    (tbl : Table) :
    ((serveTake manager dynamo conditions workerID lease tbl).2 =
        .ok { taken := true, lease := lease } ∧
      (LeaseCall.takeLease lease workerID).perform manager dynamo
          (conditions.meanwhile lease.leaseKey tbl) =
        ((serveTake manager dynamo conditions workerID lease tbl).1,
          .ok ⟨true, some lease⟩)) ∨
      ∃ e, (serveTake manager dynamo conditions workerID lease tbl).2 =
        .error e := by
  unfold serveTake
  cases conditions.refuses lease.leaseKey with
  | some e => exact Or.inr ⟨e, rfl⟩
  | none =>
      simp only [LeaseManager.takeLease, LeaseCall.perform]
      cases (manager.internalUpdateLease dynamo lease
        { newOwner := some workerID }
        (conditions.meanwhile lease.leaseKey tbl)).2 with
      | error e => exact Or.inr ⟨e, rfl⟩
      | ok u => exact Or.inl ⟨rfl, rfl⟩

theorem serveTake_row_of_ne (manager : LeaseManager) (dynamo : Service)
    (conditions : TakerConditions) (workerID : LeaseOwner) {lease : Lease}
    {key : LeaseKey} (hne : lease.leaseKey ≠ key) (tbl : Table)
    (hmeanwhile : ∀ k tbl,
      (conditions.meanwhile k tbl).row key.value = tbl.row key.value) :
    (serveTake manager dynamo conditions workerID lease tbl).1.row key.value =
      tbl.row key.value := by
  unfold serveTake
  cases conditions.refuses lease.leaseKey with
  | some e => exact hmeanwhile _ _
  | none =>
      have hrow := LeaseCall.perform_row_of_ne manager dynamo
        (.takeLease lease workerID) (conditions.meanwhile lease.leaseKey tbl)
        fun h => hne (StringProxy.ext h)
      exact hrow.trans (hmeanwhile _ _)

theorem mem_takenLeases_takeLease (manager : LeaseManager) (dynamo : Service)
    (conditions : TakerConditions) (workerID : LeaseOwner) (s : TakeState)
    (lease taken : Lease) :
    taken ∈ (takeLease manager dynamo conditions workerID s lease).takenLeases ↔
      taken ∈ s.takenLeases ∨ taken = lease ∧
        (serveTake manager dynamo conditions workerID lease s.tbl).2 =
          .ok { taken := true, lease := lease } := by
  unfold takeLease
  rcases serveTake_cases manager dynamo conditions workerID lease s.tbl with
    ⟨h, -⟩ | ⟨e, h⟩
  · simp [h, onTakeLease]
  · simp [h, onTakeLease]

theorem sameAt_takeLease (manager : LeaseManager) (dynamo : Service)
    (conditions : TakerConditions) (workerID : LeaseOwner) (s : TakeState)
    {lease : Lease} {key : LeaseKey} (hne : lease.leaseKey ≠ key) :
    SameAt conditions key s
      (takeLease manager dynamo conditions workerID s lease) := by
  refine ⟨?_, serveTake_row_of_ne manager dynamo conditions workerID hne s.tbl⟩
  intro taken hkey
  rw [mem_takenLeases_takeLease]
  constructor
  · rintro (h | ⟨rfl, -⟩)
    · exact h
    · exact absurd hkey hne
  · exact Or.inl

theorem sameAt_foldl_takeLease (manager : LeaseManager) (dynamo : Service)
    (conditions : TakerConditions) (workerID : LeaseOwner) {key : LeaseKey}
    {leases : List Lease} (hne : ∀ l ∈ leases, l.leaseKey ≠ key)
    (s : TakeState) :
    SameAt conditions key s
      (leases.foldl (takeLease manager dynamo conditions workerID) s) := by
  refine List.foldlRecOn leases _ (SameAt.refl conditions key s) ?_
  intro s' hs' lease hlease
  exact hs'.trans
    (sameAt_takeLease manager dynamo conditions workerID s' (hne lease hlease))

theorem mem_of_mem_takenLeases (manager : LeaseManager) (dynamo : Service)
    (conditions : TakerConditions) (workerID : LeaseOwner) (leases : List Lease)
    (s : TakeState) {taken : Lease}
    (h : taken ∈ (leases.foldl
      (takeLease manager dynamo conditions workerID) s).takenLeases) :
    taken ∈ s.takenLeases ∨ taken ∈ leases := by
  induction leases generalizing s with
  | nil => exact Or.inl h
  | cons lease leases ih =>
      rcases ih _ h with h | h
      · rcases (mem_takenLeases_takeLease _ _ _ _ _ _ _).mp h with h | ⟨rfl, -⟩
        · exact Or.inl h
        · exact Or.inr List.mem_cons_self
      · exact Or.inr (List.mem_cons_of_mem _ h)

/-- A lease that the round reports as taken was taken from its row, which
nothing has touched since. -/
theorem exists_perform_of_mem_takenLeases {manager : LeaseManager}
    {dynamo : Service} {conditions : TakerConditions} {taker : LeaseTaker}
    {tbl : Table} {taken : Lease}
    (hmeanwhile : ∀ k tbl, (conditions.meanwhile k tbl).row
      taken.leaseKey.value = tbl.row taken.leaseKey.value)
    (h : taken ∈
      (taker.takeScannedLeases manager dynamo conditions tbl).takenLeases) :
    ∃ before after,
      (LeaseCall.takeLease taken taker.workerID).perform manager dynamo before =
        (after, .ok ⟨true, some taken⟩) ∧
      (taker.takeScannedLeases manager dynamo conditions tbl).tbl.row
        taken.leaseKey.value = after.row taken.leaseKey.value := by
  have hdistinct :=
    distinctKeys_computeLeasesToTake taker conditions.shuffle
  unfold takeScannedLeases at h ⊢
  generalize taker.computeLeasesToTake conditions.shuffle
    taker.getExpiredLeases = leases at h hdistinct ⊢
  generalize taker.workerID = workerID at h ⊢
  have hmem : taken ∈ leases := by
    rcases mem_of_mem_takenLeases _ _ _ _ _ _ h with h | h
    · cases h
    · exact h
  obtain ⟨before, after, rfl⟩ := List.append_of_mem hmem
  rw [DistinctKeys, List.pairwise_append, List.pairwise_cons] at hdistinct
  have hbefore := sameAt_foldl_takeLease manager dynamo conditions workerID
    (fun l hl => hdistinct.2.2 l hl taken List.mem_cons_self) { tbl }
  rw [List.foldl_append, List.foldl_cons] at h ⊢
  have hafter := sameAt_foldl_takeLease manager dynamo conditions workerID
    (fun l hl => (hdistinct.2.1.1 l hl).symm)
    (takeLease manager dynamo conditions workerID
      (before.foldl (takeLease manager dynamo conditions workerID) { tbl }) taken)
  rw [hafter.row hmeanwhile]
  rcases (mem_takenLeases_takeLease _ _ _ _ _ _ _).mp
    ((hafter.takenLeases taken rfl).mp h) with h | ⟨-, h⟩
  · cases (hbefore.takenLeases taken rfl).mp h
  · rcases serveTake_cases manager dynamo conditions workerID taken
      (before.foldl (takeLease manager dynamo conditions workerID)
        { tbl }).tbl with ⟨-, hperform⟩ | ⟨e, he⟩
    · exact ⟨_, _, hperform, rfl⟩
    · rw [he] at h
      cases h

end LeaseTaker

end Leases

end Kclpp
