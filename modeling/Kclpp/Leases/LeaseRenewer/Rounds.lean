import Kclpp.Leases.LeaseManager.Agreement
import Kclpp.Leases.LeaseRenewer.Basic
import Kclpp.Transition.Run

/-!
# Rounds of renewals

A renewal touches nothing but what is under its own key, so a round does to one
held lease what its renewal alone does: `renewLeases_of_get` says what. A run of
rounds is a run of `round`. Renewing a lease keeps its increment time, so the
expiry of the lease object that is held in the end is that of the object the
rounds began with; `steadilyHeld_iff` draws the conclusion.
-/

open OrderedMap

namespace Kclpp

namespace Leases

open Clock Dynamo Lease

open Transition (Meets)

namespace LeaseRenewer

/-- Two moments of a round between which nothing has happened under a key. -/
structure SameAt (conditions : RoundConditions) (key : LeaseKey)
    (s s' : RoundState) : Prop where
  leaseDuration : s'.renewer.leaseDuration = s.renewer.leaseDuration
  held : s'.renewer.ownedLeases.get key = s.renewer.ownedLeases.get key
  outcomes : ∀ outcome, (key, outcome) ∈ s'.outcomes ↔ (key, outcome) ∈ s.outcomes
  row : (∀ k tbl, (conditions.meanwhile k tbl).row key.value = tbl.row key.value) →
    s'.tbl.row key.value = s.tbl.row key.value

theorem SameAt.refl (conditions : RoundConditions) (key : LeaseKey)
    (s : RoundState) : SameAt conditions key s s :=
  ⟨rfl, rfl, fun _ => Iff.rfl, fun _ => rfl⟩

theorem SameAt.trans {conditions : RoundConditions} {key : LeaseKey}
    {s s' s'' : RoundState} (h : SameAt conditions key s s')
    (h' : SameAt conditions key s' s'') : SameAt conditions key s s'' where
  leaseDuration := h'.leaseDuration.trans h.leaseDuration
  held := h'.held.trans h.held
  outcomes := fun outcome => (h'.outcomes outcome).trans (h.outcomes outcome)
  row := fun hmeanwhile => (h'.row hmeanwhile).trans (h.row hmeanwhile)

theorem serveRenewal_cases (manager : LeaseManager) (dynamo : Service)
    (conditions : RoundConditions) (lease : Lease) (tbl : Table) :
    (serveRenewal manager dynamo conditions lease tbl).2 =
        .ok { renewed := true, lease := lease.copySharedWithIncrementedCounter } ∨
      ∃ e, (serveRenewal manager dynamo conditions lease tbl).2 = .error e := by
  unfold serveRenewal
  cases conditions.refuses lease.leaseKey with
  | some e => exact Or.inr ⟨e, rfl⟩
  | none =>
      simp only [LeaseManager.renewLease]
      cases (manager.internalUpdateLease dynamo lease {}
        (conditions.meanwhile lease.leaseKey tbl)).2 with
      | error e => exact Or.inr ⟨e, rfl⟩
      | ok u => exact Or.inl rfl

theorem serveRenewal_row_of_ne (manager : LeaseManager) (dynamo : Service)
    (conditions : RoundConditions) {lease : Lease} {key : LeaseKey}
    (hne : lease.leaseKey ≠ key) (tbl : Table)
    (hmeanwhile : ∀ k tbl,
      (conditions.meanwhile k tbl).row key.value = tbl.row key.value) :
    (serveRenewal manager dynamo conditions lease tbl).1.row key.value =
      tbl.row key.value := by
  unfold serveRenewal
  cases conditions.refuses lease.leaseKey with
  | some e => exact hmeanwhile _ _
  | none =>
      have hrow := LeaseCall.perform_row_of_ne manager dynamo
        (.renewLease lease) (conditions.meanwhile lease.leaseKey tbl)
        fun h => hne (StringProxy.ext h)
      exact hrow.trans (hmeanwhile _ _)

theorem leaseDuration_onRenewLease (renewer : LeaseRenewer) (lease : Lease)
    (outcome : RenewLeaseOutcome) :
    (renewer.onRenewLease lease outcome).leaseDuration = renewer.leaseDuration := by
  cases outcome <;> rfl

theorem get_onRenewLease (manager : LeaseManager) (dynamo : Service)
    (conditions : RoundConditions) (renewer : LeaseRenewer) (lease : Lease)
    (tbl : Table) (key : LeaseKey) :
    (renewer.onRenewLease lease
        (serveRenewal manager dynamo conditions lease tbl).2).ownedLeases.get key =
      if lease.leaseKey = key then
        ((serveRenewal manager dynamo conditions lease tbl).2.toOption.map
          fun _ => lease.copySharedWithIncrementedCounter)
      else renewer.ownedLeases.get key := by
  rcases serveRenewal_cases manager dynamo conditions lease tbl with h | ⟨e, h⟩
  · rw [h]
    simp [onRenewLease, replaceRenewedLease, Except.toOption]
  · rw [h]
    simp [onRenewLease, dropLease, Except.toOption]

theorem sameAt_renewLease (manager : LeaseManager) (dynamo : Service)
    (conditions : RoundConditions) (options : RenewLeaseOptions)
    (s : RoundState) {lease : Lease} {key : LeaseKey}
    (hne : lease.leaseKey ≠ key) :
    SameAt conditions key s
      (renewLease manager dynamo conditions options s lease) := by
  unfold renewLease
  split_ifs with hrenew
  · refine ⟨leaseDuration_onRenewLease _ _ _, ?_, ?_, ?_⟩
    · rw [get_onRenewLease, if_neg hne]
    · intro outcome
      simp [hne.symm]
    · exact serveRenewal_row_of_ne manager dynamo conditions hne s.tbl
  · refine ⟨rfl, ?_, ?_, fun _ => rfl⟩
    · simp [dropLease, hne]
    · intro outcome
      simp [hne.symm]

theorem sameAt_foldl_renewLease (manager : LeaseManager) (dynamo : Service)
    (conditions : RoundConditions) (options : RenewLeaseOptions)
    {key : LeaseKey} {leases : List Lease}
    (hne : ∀ l ∈ leases, l.leaseKey ≠ key) (s : RoundState) :
    SameAt conditions key s
      (leases.foldl (renewLease manager dynamo conditions options) s) := by
  refine List.foldlRecOn leases _ (SameAt.refl conditions key s) ?_
  intro s' hs' lease hlease
  exact hs'.trans
    (sameAt_renewLease manager dynamo conditions options s' (hne lease hlease))

/-- What a round does under the key of a held lease: what the renewal of this
lease does, at a table in which nothing has happened to its row. -/
theorem renewLeases_of_get (manager : LeaseManager) (dynamo : Service)
    (conditions : RoundConditions) {renewer : LeaseRenewer} (tbl : Table)
    {key : LeaseKey} {lease : Lease}
    (hheld : renewer.ownedLeases.get key = some lease) :
    ∃ s : RoundState, SameAt conditions key { renewer, tbl } s ∧
      SameAt conditions key
        (renewLease manager dynamo conditions {} s lease)
        (renewLeases manager dynamo conditions renewer tbl) := by
  obtain ⟨before, after, heq, hbefore, hafter⟩ :=
    LeaseMap.exists_toList_eq_append hheld
  refine ⟨_, sameAt_foldl_renewLease manager dynamo conditions {} hbefore _, ?_⟩
  rw [renewLeases, heq, List.foldl_append, List.foldl_cons]
  exact sameAt_foldl_renewLease manager dynamo conditions {} hafter _

theorem sameAt_renewLeases_of_get_eq_none (manager : LeaseManager)
    (dynamo : Service) (conditions : RoundConditions) {renewer : LeaseRenewer}
    (tbl : Table) {key : LeaseKey} (hheld : renewer.ownedLeases.get key = none) :
    SameAt conditions key { renewer, tbl }
      (renewLeases manager dynamo conditions renewer tbl) :=
  sameAt_foldl_renewLease manager dynamo conditions {}
    (LeaseMap.leaseKey_ne_of_get_eq_none hheld) _

theorem get_renewLeases_of_not_refused (manager : LeaseManager)
    (dynamo : Service) (conditions : RoundConditions) {renewer : LeaseRenewer}
    (tbl : Table) {key : LeaseKey} {lease : Lease}
    (hheld : renewer.ownedLeases.get key = some lease)
    (hsucceed : ∀ e, (key, .error e) ∉
      (renewLeases manager dynamo conditions renewer tbl).outcomes) :
    (renewLeases manager dynamo conditions renewer tbl).renewer.leaseDuration =
        renewer.leaseDuration ∧
      (renewLeases manager dynamo conditions renewer tbl).renewer.ownedLeases.get
          key =
        if lease.isExpired renewer.leaseDuration (conditions.now key) = true then
          none
        else some lease.copySharedWithIncrementedCounter := by
  obtain ⟨s, hbefore, hafter⟩ :=
    renewLeases_of_get manager dynamo conditions tbl hheld
  have hkey := LeaseMap.leaseKey_of_get hheld
  have hduration : s.renewer.leaseDuration = renewer.leaseDuration :=
    hbefore.leaseDuration
  rw [hafter.leaseDuration, hafter.held]
  simp only [hafter.outcomes] at hsucceed
  unfold renewLease at hsucceed ⊢
  simp only [shouldRenew, Bool.false_or, Bool.not_eq_true', hkey,
    hduration] at hsucceed ⊢
  cases hexpired :
      lease.isExpired renewer.leaseDuration (conditions.now key) with
  | true =>
      simp [dropLease, hkey, hduration]
  | false =>
      simp only [hexpired, if_true] at hsucceed ⊢
      rw [leaseDuration_onRenewLease, get_onRenewLease, if_pos hkey]
      refine ⟨hduration, ?_⟩
      rcases serveRenewal_cases manager dynamo conditions lease s.tbl with
        h | ⟨e, h⟩
      · rw [h]
        rfl
      · rw [h] at hsucceed
        exact absurd List.mem_cons_self (hsucceed e)

theorem get_addLeasesToRenew (renewer : LeaseRenewer) (leases : List Lease)
    (key : LeaseKey) :
    (∀ held, renewer.ownedLeases.get key = some held →
        (renewer.addLeasesToRenew leases).ownedLeases.get key = some held) ∧
      ∀ held, (renewer.addLeasesToRenew leases).ownedLeases.get key = some held →
        renewer.ownedLeases.get key = some held ∨
          held ∈ leases ∧ held.leaseKey = key := by
  unfold addLeasesToRenew
  dsimp only
  generalize renewer.ownedLeases = ownedLeases
  induction leases generalizing ownedLeases with
  | nil => exact ⟨fun _ h => h, fun _ h => Or.inl h⟩
  | cons lease leases ih =>
      have hstep : (addLeaseToRenew ownedLeases lease).get key =
          ownedLeases.get key ∨ lease.leaseKey = key ∧
            ownedLeases.get key = none ∧
            (addLeaseToRenew ownedLeases lease).get key = some lease := by
        unfold addLeaseToRenew
        cases lease.lastCounterIncrementNanoseconds with
        | none => exact Or.inl rfl
        | some last =>
            rw [LeaseMap.get_insert]
            by_cases hkey : lease.leaseKey = key
            · cases hget : ownedLeases.get key with
              | none => exact Or.inr ⟨hkey, rfl, by simp [
                  copyWithNewConcurrencyToken, hkey]⟩
              | some held => exact Or.inl (by simp [
                  copyWithNewConcurrencyToken, hkey])
            · exact Or.inl (by simp [copyWithNewConcurrencyToken, hkey])
      obtain ⟨hkeep, honly⟩ := ih (addLeaseToRenew ownedLeases lease)
      rw [List.foldl_cons]
      constructor
      · intro held hheld
        rcases hstep with h | ⟨-, h, -⟩
        · exact hkeep held (h.trans hheld)
        · rw [h] at hheld
          cases hheld
      · intro held hheld
        rcases honly held hheld with h | ⟨hmem, hkey⟩
        · rcases hstep with heq | ⟨hkey, -, heq⟩
          · exact Or.inl (heq.symm.trans h)
          · rw [heq] at h
            cases h
            exact Or.inr ⟨List.mem_cons_self, hkey⟩
        · exact Or.inr ⟨List.mem_cons_of_mem _ hmem, hkey⟩

def RenewsAndKeeps (manager : LeaseManager) (dynamo : Service)
    (conditions : RoundConditions) (renewer : LeaseRenewer) (tbl : Table)
    (key : LeaseKey) : Prop :=
  let s := renewLeases manager dynamo conditions renewer tbl
  (∃ lease, (key, .ok { renewed := true, lease := lease }) ∈ s.outcomes) ∧
    s.renewer.ownedLeases.get key ≠ none

/-- The store accepts a renewal that it serves exactly when the row agrees with
the lease. -/
theorem serveRenewal_eq_ok_iff {manager : LeaseManager} {dynamo : Service}
    {conditions : RoundConditions} (lease : Lease) (tbl : Table)
    (hreach : dynamo.reaches (some manager.tableName) = true)
    (hserved : conditions.refuses lease.leaseKey = none) :
    (serveRenewal manager dynamo conditions lease tbl).2 = .ok
        { renewed := true, lease := lease.copySharedWithIncrementedCounter } ↔
      AgreesWith (conditions.meanwhile lease.leaseKey tbl) lease := by
  have hupdate : (LeaseCall.renewLease lease).isUpdate = true := rfl
  simp only [serveRenewal, hserved]
  rcases manager.renewLease_cases dynamo lease
    (conditions.meanwhile lease.leaseKey tbl) with
    ⟨tbl', heq, hperform⟩ | ⟨e, heq, hperform⟩
  · rw [heq]
    obtain ⟨-, hagrees, -, -⟩ :=
      (LeaseCall.perform_eq_ok_iff_of_isUpdate _ _ hupdate _ _ _).mp hperform
    exact iff_of_true rfl hagrees
  · rw [heq]
    refine iff_of_false nofun fun hagrees => ?_
    obtain ⟨tbl', hok⟩ :=
      LeaseCall.exists_perform_eq_ok hupdate hreach hagrees
    rw [hperform] at hok
    cases hok

/-- A round whose requests the store serves renews exactly the lease that is
held unexpired and agrees with the row. -/
theorem renewsAndKeeps_iff {manager : LeaseManager} {dynamo : Service}
    {conditions : RoundConditions} {renewer : LeaseRenewer} {tbl : Table}
    {key : LeaseKey} (hreach : dynamo.reaches (some manager.tableName) = true)
    (hmeanwhile : ∀ k tbl,
      (conditions.meanwhile k tbl).row key.value = tbl.row key.value)
    (hserved : conditions.refuses key = none) :
    RenewsAndKeeps manager dynamo conditions renewer tbl key ↔
      ∃ held, renewer.ownedLeases.get key = some held ∧
        held.isExpired renewer.leaseDuration (conditions.now key) = false ∧
        AgreesWith tbl held := by
  unfold RenewsAndKeeps
  dsimp only
  cases hheld : renewer.ownedLeases.get key with
  | none =>
      have hsame := sameAt_renewLeases_of_get_eq_none manager dynamo conditions
        tbl hheld
      simp [hsame.held, hheld]
  | some held =>
      obtain ⟨s, hbefore, hafter⟩ :=
        renewLeases_of_get manager dynamo conditions tbl hheld
      have hkey := LeaseMap.leaseKey_of_get hheld
      have hduration : s.renewer.leaseDuration = renewer.leaseDuration :=
        hbefore.leaseDuration
      have hnone : ∀ outcome, (key, outcome) ∉ s.outcomes := by
        intro outcome houtcome
        cases (hbefore.outcomes outcome).mp houtcome
      have hagree : AgreesWith (conditions.meanwhile held.leaseKey s.tbl) held ↔
          AgreesWith tbl held := by
        unfold AgreesWith
        rw [hkey, hmeanwhile, hbefore.row hmeanwhile]
      simp only [hafter.outcomes, hafter.held, Option.some.injEq, exists_eq_left']
      unfold renewLease
      simp only [shouldRenew, Bool.false_or, Bool.not_eq_true', hkey, hduration]
      cases hexpired :
          held.isExpired renewer.leaseDuration (conditions.now key) with
      | true => simp [notRenewed, dropLease, hkey, hnone]
      | false =>
          rw [← hkey] at hserved
          have hok := serveRenewal_eq_ok_iff held s.tbl hreach hserved
          simp only [if_true, true_and, ← hagree, ← hok, get_onRenewLease,
            if_pos hkey, List.mem_cons, Prod.mk.injEq, hnone, or_false]
          rcases serveRenewal_cases manager dynamo conditions held s.tbl with
            h | ⟨e, h⟩
          · rw [h]
            simp [Except.toOption]
          · rw [h]
            simp

def round (manager : LeaseManager) (dynamo : Service)
    (s : LeaseRenewer × Table) (conditions : RoundConditions) :
    Option (LeaseRenewer × Table) :=
  let s' := renewLeases manager dynamo conditions s.1 s.2
  some (s'.renewer, s'.tbl)

/-- The store refuses no renewal of the key in this round. -/
def NotRefused (manager : LeaseManager) (dynamo : Service) (key : LeaseKey)
    (s : LeaseRenewer × Table) (conditions : RoundConditions) : Prop :=
  ∀ e, (key, .error e) ∉ (renewLeases manager dynamo conditions s.1 s.2).outcomes

theorem notRefused_of_isOk {manager : LeaseManager} {dynamo : Service} {key : LeaseKey}
    {s : LeaseRenewer × Table} {conditions : RoundConditions}
    (h : ∀ outcome ∈ (renewLeases manager dynamo conditions s.1 s.2).outcomes,
      outcome.2.isOk = true) : NotRefused manager dynamo key s conditions := by
  intro e he
  cases h _ he

/-- The instants less than a lease duration after a round has decided on a
key. -/
def withinLeaseDuration (leaseDuration : NanosecondDuration)
    (decided asOf : NanosecondPoint) : Prop :=
  decided.value ≤ asOf.value ∧
    asOf.value.toNat < decided.value.toNat + leaseDuration.value.toNat

/-- After this round the key is held, and the lease that is held is returned at
every instant less than a lease duration later. -/
def HeldAfter (manager : LeaseManager) (dynamo : Service) (key : LeaseKey)
    (s : LeaseRenewer × Table) (conditions : RoundConditions) : Prop :=
  let renewer := (renewLeases manager dynamo conditions s.1 s.2).renewer
  ∃ lease, renewer.ownedLeases.get key = some lease ∧
    ∀ asOf, withinLeaseDuration s.1.leaseDuration (conditions.now key) asOf →
      renewer.getCurrentlyHeldLease asOf key = some lease

/-- The lease is unexpired when the round decides on it, and at every instant
less than a lease duration later. -/
def UnexpiredAround (leaseDuration : NanosecondDuration) (lease : Lease)
    (decided : NanosecondPoint) : Prop :=
  lease.isExpired leaseDuration decided = false ∧
    ∀ asOf, withinLeaseDuration leaseDuration decided asOf →
      lease.isExpired leaseDuration asOf = false

/-- One round keeps the lease when the held object is itself unexpired. -/
theorem heldAfter_iff {manager : LeaseManager} {dynamo : Service}
    {conditions : RoundConditions} {renewer : LeaseRenewer} {tbl : Table}
    {key : LeaseKey} {lease : Lease}
    (hheld : renewer.ownedLeases.get key = some lease)
    (hsucceed : NotRefused manager dynamo key (renewer, tbl) conditions) :
    HeldAfter manager dynamo key (renewer, tbl) conditions ↔
      UnexpiredAround renewer.leaseDuration lease (conditions.now key) := by
  obtain ⟨hduration, hget⟩ :=
    get_renewLeases_of_not_refused manager dynamo conditions tbl hheld hsucceed
  unfold HeldAfter UnexpiredAround
  simp only [getCurrentlyHeldLease, getCopyOfHeldLease, hget, hduration]
  cases hexpired :
      lease.isExpired renewer.leaseDuration (conditions.now key) with
  | true => simp
  | false => simp

/-- A lease that no renewal is refused for is held after every round, and
returned less than a lease duration after it, exactly when the object held at
the start is unexpired at all these instants: the renewals do not move its
increment time. -/
theorem steadilyHeld_iff (manager : LeaseManager) (dynamo : Service)
    (key : LeaseKey) (renewer : LeaseRenewer) (tbl : Table) (lease : Lease)
    (rounds : List RoundConditions)
    (hheld : renewer.ownedLeases.get key = some lease)
    (hsucceed : Meets (round manager dynamo) (NotRefused manager dynamo key)
      (renewer, tbl) rounds) :
    Meets (round manager dynamo) (HeldAfter manager dynamo key) (renewer, tbl)
        rounds ↔
      ∀ conditions ∈ rounds,
        UnexpiredAround renewer.leaseDuration lease (conditions.now key) := by
  induction rounds generalizing renewer tbl lease with
  | nil => simp
  | cons conditions rounds ih =>
      obtain ⟨hfirst, hrest⟩ := hsucceed
      have hrest' := hrest _ rfl
      obtain ⟨hduration, hget⟩ := get_renewLeases_of_not_refused manager dynamo
        conditions tbl hheld hfirst
      rw [Transition.meets_cons, heldAfter_iff hheld hfirst, List.forall_mem_cons]
      refine and_congr_right fun hunexpired => ?_
      rw [hunexpired.1] at hget
      have hnext := ih _ _ _ hget hrest'
      simp only [UnexpiredAround, isExpired_copySharedWithIncrementedCounter,
        hduration] at hnext ⊢
      rw [← hnext]
      constructor
      · intro h
        exact h _ rfl
      · rintro h s' ⟨⟩
        exact h

def sampleHeld : Lease :=
  { sampleLease with lastCounterIncrementNanoseconds := some ⟨100⟩ }

/-- A renewer that holds `sampleHeld` for 10. -/
def sampleRenewer : LeaseRenewer where
  workerID := ⟨"worker-a"⟩
  leaseDuration := ⟨10⟩
  ownedLeases := LeaseMap.empty.insert sampleHeld

theorem unexpiredAround_sampleHeld {decided : NanosecondPoint}
    (hle : 100 ≤ decided.value.toNat) (hge : decided.value.toNat ≤ 101) :
    UnexpiredAround sampleRenewer.leaseDuration sampleHeld decided := by
  have hexpired : ∀ asOf : NanosecondPoint, 100 ≤ asOf.value.toNat →
      asOf.value.toNat ≤ 110 → sampleHeld.isExpired sampleRenewer.leaseDuration asOf = false := by
    intro asOf hlow hhigh
    have hlast : sampleHeld.lastCounterIncrementNanoseconds = some ⟨100⟩ := rfl
    rw [← Bool.not_eq_true, isExpired_iff_of_le hlast sampleRenewer.leaseDuration
      (UInt64.le_iff_toNat_le.mpr hlow)]
    change ¬ 10 < asOf.value.toNat - 100
    omega
  refine ⟨hexpired decided hle (by omega), fun asOf hasOf => ?_⟩
  obtain ⟨hfrom, hto⟩ := hasOf
  have hfrom' := UInt64.le_iff_toNat_le.mp hfrom
  change asOf.value.toNat < decided.value.toNat + 10 at hto
  exact hexpired asOf (hle.trans hfrom') (by omega)

/-- Rounds at 100 and 101 keep the lease. After one at 105 it would have to be returned
at 114 still. -/
theorem steadilyHeld_iff_sampleRenewer :
    Meets (round sampleManager sampleDynamo)
        (HeldAfter sampleManager sampleDynamo sampleLease.leaseKey)
        (sampleRenewer, sampleTable) [.quiet ⟨100⟩, .quiet ⟨101⟩] ∧
      ¬ Meets (round sampleManager sampleDynamo)
        (HeldAfter sampleManager sampleDynamo sampleLease.leaseKey)
        (sampleRenewer, sampleTable) [.quiet ⟨101⟩, .quiet ⟨105⟩] := by
  have hiff := fun rounds hsucceed => steadilyHeld_iff sampleManager sampleDynamo
    sampleLease.leaseKey sampleRenewer sampleTable sampleHeld rounds (by decide +kernel)
    (Transition.meets_mono (fun _ _ => notRefused_of_isOk) hsucceed)
  constructor
  · refine (hiff _ (by decide +kernel)).mpr fun conditions hmem => ?_
    rcases List.mem_pair.mp hmem with rfl | rfl <;>
      exact unexpiredAround_sampleHeld (by decide) (by decide)
  · intro h
    have hunexpired := (hiff _ (by decide +kernel)).mp h (.quiet ⟨105⟩) (by simp)
    exact absurd (hunexpired.2 ⟨114⟩ ⟨by decide, by decide⟩) (by decide)

/-- A lease counted last at 100 is held for 10 at a time, and renewed at 105 and
at 115. The store accepts the first renewal, but the lease object that replaces
the renewed one is expired at 115: it is dropped, and the row is still there to
be renewed. -/
theorem renewedLease_dropped :
    let first := renewLeases sampleManager sampleDynamo (.quiet ⟨105⟩)
      sampleRenewer sampleTable
    let second := renewLeases sampleManager sampleDynamo (.quiet ⟨115⟩)
      first.renewer first.tbl
    let held : Lease :=
      { sampleLease with lastCounterIncrementNanoseconds := some ⟨100⟩ }
    sampleRenewer.ownedLeases.get held.leaseKey = some held ∧
      held.isExpired sampleRenewer.leaseDuration ⟨105⟩ = false ∧
      first.outcomes = [(held.leaseKey,
        .ok ⟨true, held.copySharedWithIncrementedCounter⟩)] ∧
      second.outcomes = [(held.leaseKey,
        .ok ⟨false, held.copySharedWithIncrementedCounter⟩)] ∧
      second.renewer.ownedLeases.get held.leaseKey = none ∧
      ((renewLease sampleManager sampleDynamo (.quiet ⟨115⟩)
        { renewEvenIfExpired := true } first
        held.copySharedWithIncrementedCounter).renewer.ownedLeases.get
          held.leaseKey).isSome = true := by
  decide +kernel

end LeaseRenewer

end Leases

end Kclpp
