import Kclpp.Async.Wheel.Bucket

/-!
# Whether a later deadline has a later slot

A whole number of resolutions is counted in full, and what lies above it, up to the
next one, as one resolution less. So the slots of `20` and `25` milliseconds, in a
bucket with a resolution of ten, are `2` and `1`. In the bottom bucket the rounding
of short times makes up for it between one and two resolutions, from the middle on,
and puts the times just below one resolution behind those just above it.
`slotsInOrder_iff` says for which two times the slots are in order.
-/

namespace Kclpp

namespace Async

namespace Wheel

/-- `getSlotIdx` finds a slot for both times, and the later time does not have an
earlier one. -/
def Bucket.SlotsInOrder (bucket : Bucket) (d₁ d₂ : ℕ) : Prop :=
  ∃ idx₁ idx₂, bucket.getSlotIdx d₁ = some idx₁ ∧ bucket.getSlotIdx d₂ = some idx₂ ∧
    idx₁ ≤ idx₂

/-- The earlier time is a whole number of resolutions, and the later one is less
than a resolution above it. In a bottom bucket, the second half of the first
resolution above is not meant. -/
def JustAboveWhole (isBottom : Bool) (resolution d₁ d₂ : ℕ) : Prop :=
  d₁ % resolution = 0 ∧ 1 ≤ d₁ / resolution ∧ d₂ % resolution ≠ 0 ∧
    d₂ / resolution = d₁ / resolution ∧
    ¬ (isBottom = true ∧ d₂ / resolution = 1 ∧ resolution < 2 * (d₂ % resolution))

/-- In a bottom bucket: the earlier time is below the resolution and in the half
that is rounded up, the later one is above it and in the half that is not. -/
def RoundedApart (isBottom : Bool) (resolution d₁ d₂ : ℕ) : Prop :=
  isBottom = true ∧ d₁ / resolution = 0 ∧ resolution < 2 * (d₁ % resolution) ∧
    d₂ / resolution = 1 ∧ d₂ % resolution ≠ 0 ∧ 2 * (d₂ % resolution) ≤ resolution

def slotOf (isBottom : Bool) (resolution q r : ℕ) : ℕ :=
  if r = 0 then q
  else if q ≤ 1 then if isBottom = true ∧ resolution < 2 * r then 1 else 0
  else q - 1

theorem slotIdx_eq_slotOf {resolution : ℕ} (hres : 0 < resolution) (isBottom : Bool)
    (d : ℕ) :
    slotIdx isBottom resolution d =
      slotOf isBottom resolution (d / resolution) (d % resolution) := by
  have hmod := Nat.mod_lt d hres
  have hround : (isBottom && decide (resolution - d % resolution < d % resolution)) =
      decide (isBottom = true ∧ resolution < 2 * (d % resolution)) := by
    cases isBottom with
    | false => simp
    | true =>
        simp only [Bool.true_and, true_and, decide_eq_decide]
        omega
  rw [slotIdx_eq hres, slotOf, hround]
  simp only [decide_eq_true_eq]

/-- A whole number of resolutions is counted in full, which no smaller time
exceeds. -/
theorem slotOf_le_of_exact {isBottom : Bool} {resolution q₁ r₁ q₂ : ℕ}
    (hq : q₁ ≤ q₂) (hr : q₁ = q₂ → r₁ ≤ 0) :
    slotOf isBottom resolution q₁ r₁ ≤ slotOf isBottom resolution q₂ 0 := by
  unfold slotOf
  rw [if_pos rfl]
  split_ifs <;> omega

/-- From two resolutions on, a time that is not exact is counted as one resolution
less, and is behind none but the exact time just below it. -/
theorem slotOf_le_iff_of_long {isBottom : Bool} {resolution q₁ r₁ q₂ r₂ : ℕ}
    (hq : q₁ ≤ q₂) (hinexact : r₂ ≠ 0) (hlong : 2 ≤ q₂) :
    slotOf isBottom resolution q₁ r₁ ≤ slotOf isBottom resolution q₂ r₂ ↔
      ¬ (r₁ = 0 ∧ q₂ = q₁) := by
  unfold slotOf
  rw [if_neg hinexact, if_neg (show ¬ q₂ ≤ 1 by omega)]
  split_ifs <;> omega

/-- Below two resolutions it is counted as none, or as one where it is rounded
up. -/
theorem slotOf_le_iff_of_short {isBottom : Bool} {resolution q₁ r₁ q₂ r₂ : ℕ}
    (hq : q₁ ≤ q₂) (hr : q₁ = q₂ → r₁ ≤ r₂) (hinexact : r₂ ≠ 0) (hshort : q₂ ≤ 1) :
    slotOf isBottom resolution q₁ r₁ ≤ slotOf isBottom resolution q₂ r₂ ↔
      isBottom = true ∧ resolution < 2 * r₂ ∨
        ¬ (r₁ = 0 ∧ q₁ = 1) ∧
          ¬ (isBottom = true ∧ q₁ = 0 ∧ resolution < 2 * r₁ ∧ q₂ = 1) := by
  unfold slotOf
  rw [if_neg hinexact, if_pos hshort]
  cases isBottom with
  | false =>
      simp only [Bool.false_eq_true, false_and, if_false, false_or, not_false_eq_true,
        and_true]
      split_ifs <;> omega
  | true =>
      simp only [true_and]
      split_ifs <;> omega

theorem mod_le_mod_of_div_eq {resolution d₁ d₂ : ℕ} (hle : d₁ ≤ d₂)
    (hdiv : d₁ / resolution = d₂ / resolution) :
    d₁ % resolution ≤ d₂ % resolution := by
  have h₁ := Nat.div_add_mod d₁ resolution
  have h₂ := Nat.div_add_mod d₂ resolution
  rw [hdiv] at h₁
  omega

/-- The slots of two times are in order, but in the two cases. -/
theorem slotIdx_le_iff {resolution : ℕ} (hres : 0 < resolution) (isBottom : Bool)
    {d₁ d₂ : ℕ} (hle : d₁ ≤ d₂) :
    slotIdx isBottom resolution d₁ ≤ slotIdx isBottom resolution d₂ ↔
      ¬ JustAboveWhole isBottom resolution d₁ d₂ ∧
        ¬ RoundedApart isBottom resolution d₁ d₂ := by
  have hq : d₁ / resolution ≤ d₂ / resolution := Nat.div_le_div_right hle
  have hr := @mod_le_mod_of_div_eq resolution d₁ d₂ hle
  rw [slotIdx_eq_slotOf hres, slotIdx_eq_slotOf hres, JustAboveWhole, RoundedApart]
  generalize d₁ / resolution = q₁ at hq hr ⊢
  generalize d₁ % resolution = r₁ at hr ⊢
  generalize d₂ / resolution = q₂ at hq hr ⊢
  generalize d₂ % resolution = r₂ at hr ⊢
  by_cases hexact : r₂ = 0
  · subst hexact
    refine iff_of_true (slotOf_le_of_exact hq fun h => hr h) ⟨?_, ?_⟩
    · rintro ⟨-, -, hne, -⟩
      exact hne rfl
    · rintro ⟨-, -, -, -, hne, -⟩
      exact hne rfl
  by_cases hlong : 2 ≤ q₂
  · rw [slotOf_le_iff_of_long hq hexact hlong]
    omega
  · rw [slotOf_le_iff_of_short hq hr hexact (by omega)]
    cases isBottom with
    | false =>
        simp only [Bool.false_eq_true, false_and, not_false_eq_true, and_true,
          false_or]
        omega
    | true =>
        simp only [true_and]
        omega

/-- A later time within the capacity has no earlier slot, but in the two cases. -/
theorem slotsInOrder_iff (bucket : Bucket) (hres : 0 < bucket.resolution)
    {d₁ d₂ : ℕ} (hle : d₁ ≤ d₂) (hcapacity : d₂ ≤ bucket.timeCapacity) :
    bucket.SlotsInOrder d₁ d₂ ↔
      ¬ JustAboveWhole bucket.isBottom bucket.resolution d₁ d₂ ∧
        ¬ RoundedApart bucket.isBottom bucket.resolution d₁ d₂ := by
  rw [← slotIdx_le_iff hres bucket.isBottom hle]
  simp only [Bucket.SlotsInOrder, Bucket.getSlotIdx, Nat.not_lt.mpr hcapacity,
    Nat.not_lt.mpr (hle.trans hcapacity), if_false, Option.some.injEq]
  constructor
  · rintro ⟨idx₁, idx₂, rfl, rfl, hidx⟩
    exact hidx
  · intro hidx
    exact ⟨_, _, rfl, rfl, hidx⟩

theorem slotsInOrder_iff_sample :
    (Bucket.createNew true 10 10).SlotsInOrder 20 30 ↔
      ¬ JustAboveWhole true 10 20 30 ∧ ¬ RoundedApart true 10 20 30 :=
  slotsInOrder_iff (Bucket.createNew true 10 10) (by decide) (by decide)
    (by decide)

/-- What is due in 25 milliseconds is put before what is due in 20, at the bottom
and above it. -/
theorem not_slotsInOrder_sample :
    ¬ (Bucket.createNew true 10 10).SlotsInOrder 20 25 ∧
      ¬ (Bucket.createNew false 10 10).SlotsInOrder 20 25 := by
  constructor
  · rintro ⟨idx₁, idx₂, h₁, h₂, hle⟩
    rw [show (Bucket.createNew true 10 10).getSlotIdx 20 = some 2 by decide] at h₁
    rw [show (Bucket.createNew true 10 10).getSlotIdx 25 = some 1 by decide] at h₂
    cases h₁
    cases h₂
    omega
  · rintro ⟨idx₁, idx₂, h₁, h₂, hle⟩
    rw [show (Bucket.createNew false 10 10).getSlotIdx 20 = some 2 by decide] at h₁
    rw [show (Bucket.createNew false 10 10).getSlotIdx 25 = some 1 by decide] at h₂
    cases h₁
    cases h₂
    omega

end Wheel

end Async

end Kclpp
