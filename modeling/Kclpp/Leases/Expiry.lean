import Kclpp.Leases.LeaseTaker.Basic
import Kclpp.Leases.LeaseRenewer.Basic

/-!
# Expiry as time goes on

A lease that has expired should stay so, and one that has not been held for any time
should not have expired. The age is an unsigned difference, so that a lease whose
increment time lies ahead of the observer's clock has a huge one: it counts as expired,
until the clock comes to the increment time. `expiresInOrder_iff` says at which
instants. The increment time of a lease is that of the worker that has written it.
-/

open Std OrderedMap

namespace Kclpp

namespace Leases

open Clock

namespace Lease

/-- From `earlier` to `later` a lease with an increment time stays expired, and at
neither of them is it expired unless its increment time is past. -/
def ExpiresInOrder (lease : Lease) (leaseDuration : NanosecondDuration)
    (earlier later : NanosecondPoint) : Prop :=
  ∀ last, lease.lastCounterIncrementNanoseconds = some last →
    (lease.isExpired leaseDuration earlier = true →
        lease.isExpired leaseDuration later = true) ∧
      ∀ asOf, asOf = earlier ∨ asOf = later →
        asOf.value ≤ last.value → lease.isExpired leaseDuration asOf = false

/-- The increment time is not ahead of an instant, or by so much that the difference
wraps to an age within the limits. -/
def SeenInTime (leaseDuration : NanosecondDuration) (last asOf : NanosecondPoint) : Prop :=
  last.value ≤ asOf.value ∨
    asOf.value.toNat + 2 ^ 64 ≤
      last.value.toNat + min leaseDuration.value.toNat getMaxLeaseAge.value.toNat

variable {lease : Lease} {last : NanosecondPoint}

theorem isExpired_self (hlast : lease.lastCounterIncrementNanoseconds = some last)
    (leaseDuration : NanosecondDuration) : lease.isExpired leaseDuration last = false := by
  rw [isExpired_eq_false_iff]
  refine ⟨last, hlast, ?_⟩
  rw [UInt64.sub_self]
  exact ⟨UInt64.zero_le, UInt64.zero_le⟩

/-- Up to its increment time, a lease is expired at just the instants that do not see
it in time. -/
theorem isExpired_eq_false_iff_of_le
    (hlast : lease.lastCounterIncrementNanoseconds = some last)
    (leaseDuration : NanosecondDuration) {asOf : NanosecondPoint}
    (hle : asOf.value ≤ last.value) :
    lease.isExpired leaseDuration asOf = false ↔ SeenInTime leaseDuration last asOf := by
  rcases UInt64.lt_or_eq_of_le hle with hlt | heq
  · rw [← not_iff_not, Bool.not_eq_false, isExpired_iff_of_lt hlast leaseDuration hlt,
      SeenInTime, or_iff_right (UInt64.not_le.mpr hlt), Nat.not_le]
  · obtain rfl : asOf = last := UnsignedProxy.ext heq
    exact iff_of_true (isExpired_self hlast leaseDuration) (Or.inl (UInt64.le_refl _))

theorem isExpired_mono_of_le (hlast : lease.lastCounterIncrementNanoseconds = some last)
    (leaseDuration : NanosecondDuration) {earlier later : NanosecondPoint}
    (hle : last.value ≤ earlier.value) (htime : earlier.value ≤ later.value)
    (hexpired : lease.isExpired leaseDuration earlier = true) :
    lease.isExpired leaseDuration later = true := by
  rw [isExpired_iff_of_le hlast leaseDuration hle] at hexpired
  rw [isExpired_iff_of_le hlast leaseDuration (UInt64.le_trans hle htime)]
  have htimeNat := UInt64.le_iff_toNat_le.mp htime
  omega

def sampleAged : Lease :=
  { leaseKey := ⟨"shard-1"⟩
    lastCounterIncrementNanoseconds := some ⟨100⟩ }

/-- Expiry goes with time from one instant to a later one exactly when both see the
lease in time. -/
theorem expiresInOrder_iff (lease : Lease) (leaseDuration : NanosecondDuration)
    (earlier later : NanosecondPoint) (htime : earlier.value ≤ later.value) :
    lease.ExpiresInOrder leaseDuration earlier later ↔
      ∀ last, lease.lastCounterIncrementNanoseconds = some last →
        SeenInTime leaseDuration last earlier ∧ SeenInTime leaseDuration last later := by
  refine forall₂_congr fun last hlast => ?_
  have hseen : ∀ asOf : NanosecondPoint,
      (asOf.value ≤ last.value → lease.isExpired leaseDuration asOf = false) ↔
        SeenInTime leaseDuration last asOf := by
    intro asOf
    by_cases hle : asOf.value ≤ last.value
    · rw [imp_iff_right hle, isExpired_eq_false_iff_of_le hlast leaseDuration hle]
    · exact iff_of_true (fun h => absurd h hle)
        (Or.inl (UInt64.le_of_lt (UInt64.not_le.mp hle)))
  simp only [forall_eq_or_imp, forall_eq, hseen]
  refine and_iff_right_of_imp fun h => ?_
  intro hexpired
  by_cases hle : last.value ≤ earlier.value
  · exact isExpired_mono_of_le hlast leaseDuration hle htime hexpired
  · have hnot := (hseen earlier).mpr h.1 (UInt64.le_of_lt (UInt64.not_le.mp hle))
    rw [hexpired] at hnot
    cases hnot

theorem expiresInOrder_iff_sampleLease :
    (⟨105⟩ : NanosecondPoint).value ≤ (⟨120⟩ : NanosecondPoint).value ∧
      (sampleAged.ExpiresInOrder ⟨10⟩ ⟨105⟩ ⟨120⟩ ↔
        ∀ last, sampleAged.lastCounterIncrementNanoseconds = some last →
          SeenInTime ⟨10⟩ last ⟨105⟩ ∧ SeenInTime ⟨10⟩ last ⟨120⟩) :=
  ⟨by decide, expiresInOrder_iff sampleAged ⟨10⟩ ⟨105⟩ ⟨120⟩ (by decide)⟩

/-- A clock that is one nanosecond behind finds the lease expired, and finds it not
expired a nanosecond later. -/
theorem not_expiresInOrder_sampleAged :
    sampleAged.isExpired ⟨10⟩ ⟨99⟩ = true ∧ sampleAged.isExpired ⟨10⟩ ⟨100⟩ = false ∧
      ¬ sampleAged.ExpiresInOrder ⟨10⟩ ⟨99⟩ ⟨100⟩ := by
  have hearlier : sampleAged.isExpired ⟨10⟩ ⟨99⟩ = true := by decide
  have hlater : sampleAged.isExpired ⟨10⟩ ⟨100⟩ = false := by decide
  refine ⟨hearlier, hlater, fun h => ?_⟩
  have hkept := (h ⟨100⟩ rfl).1 hearlier
  rw [hlater] at hkept
  cases hkept

/-- Over all instants, a lease with an increment time expires in order only if that
time is the start of the clock. -/
theorem expiresInOrder_always_iff (lease : Lease) (leaseDuration : NanosecondDuration) :
    (∀ earlier later : NanosecondPoint, earlier.value ≤ later.value →
        lease.ExpiresInOrder leaseDuration earlier later) ↔
      ∀ last, lease.lastCounterIncrementNanoseconds = some last → last.value = 0 := by
  constructor
  · intro h last hlast
    by_contra hne
    -- the instant just before the increment time
    have hpos : 1 ≤ last.value.toNat := by
      refine Nat.one_le_iff_ne_zero.mpr fun hzero => hne (UInt64.toNat_inj.mp hzero)
    obtain ⟨before, hbefore⟩ : ∃ before : NanosecondPoint,
        before.value.toNat = last.value.toNat - 1 :=
      ⟨⟨last.value - 1⟩, UInt64.toNat_sub_of_le _ _ (UInt64.le_iff_toNat_le.mpr hpos)⟩
    have hsame := h before before (UInt64.le_refl _) last hlast
    have hnot := hsame.2 before (Or.inl rfl) (UInt64.le_iff_toNat_le.mpr (by omega))
    have hmax : getMaxLeaseAge.value.toNat < 2 ^ 64 - 1 := by decide
    rw [← Bool.not_eq_true, isExpired_iff_of_lt hlast leaseDuration
      (UInt64.lt_iff_toNat_lt.mpr (by omega))] at hnot
    omega
  · intro h earlier later htime
    refine (expiresInOrder_iff lease leaseDuration earlier later htime).mpr
      fun last hlast => ?_
    have hzero := h last hlast
    exact ⟨Or.inl (hzero ▸ UInt64.zero_le), Or.inl (hzero ▸ UInt64.zero_le)⟩

end Lease

open Lease

/-- A scan at an instant that does not see a lease in time takes it for expired,
although its owner has just renewed it. -/
theorem LeaseTaker.mem_getExpiredLeases_of_ahead {taker : LeaseTaker} {lease : Lease}
    {last now : NanosecondPoint} (hmem : lease ∈ taker.allLeases.toList)
    (hlast : lease.lastCounterIncrementNanoseconds = some last)
    (hscan : taker.lastScanTime = some now) (hahead : now.value < last.value)
    (hnot : ¬ SeenInTime taker.leaseDuration last now) :
    lease ∈ taker.getExpiredLeases := by
  refine List.mem_filter.mpr ⟨hmem, ?_⟩
  rw [hscan, Option.getD_some, ← Bool.not_eq_false,
    isExpired_eq_false_iff_of_le hlast taker.leaseDuration (UInt64.le_of_lt hahead)]
  exact hnot

theorem LeaseRenewer.getCopyOfHeldLease_eq_none_of_ahead {renewer : LeaseRenewer}
    {key : LeaseKey} {held : Lease} {last now : NanosecondPoint}
    (hheld : renewer.ownedLeases.get key = some held)
    (hlast : held.lastCounterIncrementNanoseconds = some last)
    (hahead : now.value < last.value)
    (hnot : ¬ SeenInTime renewer.leaseDuration last now) :
    renewer.getCopyOfHeldLease key now = none := by
  have hexpired : held.isExpired renewer.leaseDuration now = true := by
    rw [← Bool.not_eq_false,
      isExpired_eq_false_iff_of_le hlast renewer.leaseDuration (UInt64.le_of_lt hahead)]
    exact hnot
  rw [getCopyOfHeldLease, hheld]
  exact if_pos hexpired

end Leases

end Kclpp
