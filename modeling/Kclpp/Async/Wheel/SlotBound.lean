import Kclpp.Async.Wheel.Bucket

/-!
# The bounds of a slot

`BucketSettings` is a bucket without its slots, in the machine's own integers: sizes
are 64-bit unsigned, times are 64-bit signed, the capacity wraps, and the loop of
`getSlotIdx` runs until it is left. A time that `HTimerWheel::addEntry` gives to a
level is small enough that nothing wraps in the loop, so that it is left with the slot
that `slotIdx` counts: `getSlotIdx_eq`. `landsInside_iff` says when this is a slot of
the bucket. `Fits.getSlotIdx_eq` is for the buckets of the wheel: where the capacity
does not wrap, a `Bucket` does what its settings do.
-/

namespace Kclpp

namespace Async

namespace Wheel

/-- The settings of an `HTimerWheel::Bucket`. -/
structure BucketSettings where
  isBottom : Bool
  resolutionMsec : UInt64
  nSlots : UInt64
  deriving DecidableEq, Repr

/-- How a call of `getSlotIdx` ends. -/
inductive SlotIdxEnd where
  | returned (idx : UInt64)
  | threw (what : String)
  deriving DecidableEq, Repr

/-- The loop of `Bucket::getSlotIdx` in `size_t`; `none` where it has not been left
after so many turns. -/
def machineLoop (resolution overflow toConsider : UInt64) :
    ℕ → UInt64 → UInt64 → Option UInt64
  | 0, _, _ => none
  | turns + 1, current, idx =>
      if 0 < overflow then
        if current + resolution < toConsider then
          machineLoop resolution overflow toConsider turns (current + resolution) (idx + 1)
        else some idx
      else
        if current + resolution ≤ toConsider then
          machineLoop resolution overflow toConsider turns (current + resolution) (idx + 1)
        else some idx

namespace BucketSettings

/-- `Bucket::timeCapacity`. The product wraps, and is read as a signed number. -/
def timeCapacity (bucket : BucketSettings) : Int64 :=
  (bucket.resolutionMsec * bucket.nSlots).toInt64

/-- The end of `Bucket::getSlotIdx`, after its loop: in a bottom bucket, a time that is
nearer to the end of slot `0` is put into slot `1`. -/
def rounded (bucket : BucketSettings) (totalMsec idx : UInt64) : UInt64 :=
  let overflow := totalMsec % bucket.resolutionMsec
  if bucket.isBottom then
    if idx = 0 then
      let zeroDelta := overflow
      let tickDelta := bucket.resolutionMsec - overflow
      if tickDelta < zeroDelta then idx + 1 else idx
    else idx
  else if totalMsec < bucket.resolutionMsec then 0
  else idx

/-- `Bucket::getSlotIdx`; `none` where it has not ended after so many turns of its
loop. -/
def getSlotIdx (bucket : BucketSettings) (turns : ℕ) (msecDelay : Int64) :
    Option SlotIdxEnd :=
  if bucket.timeCapacity < msecDelay then some (.threw "slot out of range.")
  else
    let totalMsec := msecDelay.toUInt64
    let overflow := totalMsec % bucket.resolutionMsec
    let toConsider := totalMsec - overflow
    let idx :=
      if totalMsec < bucket.resolutionMsec then some 0
      else machineLoop bucket.resolutionMsec overflow toConsider turns 0 0
    idx.map fun idx => .returned (bucket.rounded totalMsec idx)

/-- `HTimerWheel::addEntry` gives a remaining time, which is not negative, to the
level. -/
def Accepts (bucket : BucketSettings) (remaining : Int64) : Prop :=
  0 ≤ remaining ∧ remaining < bucket.timeCapacity

/-- `getSlotIdx` ends for this time, without throwing, and the `CHECK` of `getSlotAt`
holds of what it returns. -/
def LandsInside (bucket : BucketSettings) (remaining : Int64) : Prop :=
  ∃ idx, idx < bucket.nSlots ∧
    ∃ needed, ∀ turns ≥ needed, bucket.getSlotIdx turns remaining = some (.returned idx)

variable {bucket : BucketSettings} {remaining : Int64}

/-- Whatever the product wraps to, it is no more than it was. -/
theorem toInt_timeCapacity_le (bucket : BucketSettings) :
    bucket.timeCapacity.toInt ≤
      (bucket.resolutionMsec.toNat * bucket.nSlots.toNat : ℕ) := by
  have hwraps : (bucket.resolutionMsec * bucket.nSlots).toNat ≤
      bucket.resolutionMsec.toNat * bucket.nSlots.toNat := by
    rw [UInt64.toNat_mul]
    exact Nat.mod_le _ _
  have hsigned : bucket.timeCapacity.toInt ≤
      ((bucket.resolutionMsec * bucket.nSlots).toNat : ℤ) := by
    change (bucket.resolutionMsec * bucket.nSlots).toBitVec.toInt ≤
      ((bucket.resolutionMsec * bucket.nSlots).toBitVec.toNat : ℤ)
    rw [BitVec.toInt_eq_toNat_cond]
    split <;> omega
  exact hsigned.trans (Int.ofNat_le.mpr hwraps)

theorem natCast_toNatClampNeg (h : 0 ≤ remaining) :
    (remaining.toNatClampNeg : ℤ) = remaining.toInt :=
  Int.toNat_of_nonneg (Int64.le_iff_toInt_le.mp h)

theorem Accepts.toNat_lt (h : bucket.Accepts remaining) :
    remaining.toUInt64.toNat = remaining.toNatClampNeg ∧
      remaining.toNatClampNeg < 2 ^ 63 ∧
      remaining.toNatClampNeg < bucket.resolutionMsec.toNat * bucket.nSlots.toNat := by
  refine ⟨Int64.toNat_toUInt64_of_le h.1, ?_, ?_⟩
  · exact remaining.toNatClampNeg_lt
  · have hlt := Int64.lt_iff_toInt_lt.mp h.2
    have hle := toInt_timeCapacity_le bucket
    rw [← natCast_toNatClampNeg h.1] at hlt
    exact Int.ofNat_lt.mp (hlt.trans_le hle)

end BucketSettings

/-- Where nothing wraps, the loop in machine integers is left with what the loop on
numbers comes to. -/
theorem machineLoop_eq {resolution toConsider : UInt64} (overflow : UInt64)
    (hres : 0 < resolution.toNat)
    (hfits : toConsider.toNat + resolution.toNat < 2 ^ 64) :
    ∀ (turns : ℕ) (current idx : UInt64), current.toNat ≤ toConsider.toNat →
      idx.toNat ≤ current.toNat → toConsider.toNat < current.toNat + turns →
      ∃ result, machineLoop resolution overflow toConsider turns current idx = some result ∧
        result.toNat = slotLoop resolution.toNat overflow.toNat toConsider.toNat turns
          current.toNat idx.toNat
  | 0, current, idx, hcurrent, hidx, hturns => by omega
  | turns + 1, current, idx, hcurrent, hidx, hturns => by
      have hnext : (current + resolution).toNat = current.toNat + resolution.toNat := by
        rw [UInt64.toNat_add]
        exact Nat.mod_eq_of_lt (by omega)
      have hcount : (idx + 1).toNat = idx.toNat + 1 := by
        rw [UInt64.toNat_add]
        exact Nat.mod_eq_of_lt (by change idx.toNat + 1 < 2 ^ 64; omega)
      have hgo : (current + resolution).toNat ≤ toConsider.toNat →
          ∃ result, machineLoop resolution overflow toConsider turns (current + resolution)
              (idx + 1) = some result ∧
            result.toNat = slotLoop resolution.toNat overflow.toNat toConsider.toNat turns
              (current.toNat + resolution.toNat) (idx.toNat + 1) := by
        intro hle
        have hrest := machineLoop_eq overflow hres hfits turns (current + resolution)
          (idx + 1) hle (by omega) (by omega)
        rwa [hnext, hcount] at hrest
      rw [machineLoop, slotLoop]
      simp only [UInt64.lt_iff_toNat_lt, UInt64.le_iff_toNat_le, UInt64.toNat_zero, hnext]
      split_ifs with hoverflow hlt hle
      · exact hgo (by omega)
      · exact ⟨idx, rfl, rfl⟩
      · exact hgo (by omega)
      · exact ⟨idx, rfl, rfl⟩

namespace BucketSettings

variable {bucket : BucketSettings} {remaining : Int64}

/-- The slots that are counted, whatever the number of turns that the loop is given
beyond those it needs. -/
theorem exists_counted (hres : 0 < bucket.resolutionMsec.toNat) {totalMsec : UInt64}
    (hfits : totalMsec.toNat < 2 ^ 63) :
    ∃ idx : UInt64,
      idx.toNat =
        (if totalMsec.toNat < bucket.resolutionMsec.toNat then 0
          else slotLoop bucket.resolutionMsec.toNat
            (totalMsec.toNat % bucket.resolutionMsec.toNat)
            (totalMsec.toNat - totalMsec.toNat % bucket.resolutionMsec.toNat)
            (totalMsec.toNat + 1) 0 0) ∧
      ∀ turns ≥ totalMsec.toNat + 1,
        (if totalMsec < bucket.resolutionMsec then some 0
          else machineLoop bucket.resolutionMsec (totalMsec % bucket.resolutionMsec)
            (totalMsec - totalMsec % bucket.resolutionMsec) turns 0 0) = some idx := by
  by_cases hshort : totalMsec < bucket.resolutionMsec
  · refine ⟨0, ?_, fun turns _ => if_pos hshort⟩
    rw [if_pos (UInt64.lt_iff_toNat_lt.mp hshort)]
    rfl
  have hlong : bucket.resolutionMsec.toNat ≤ totalMsec.toNat :=
    UInt64.le_iff_toNat_le.mp (UInt64.not_lt.mp hshort)
  have hoverflow : (totalMsec % bucket.resolutionMsec).toNat =
      totalMsec.toNat % bucket.resolutionMsec.toNat := UInt64.toNat_mod _ _
  have hle : totalMsec % bucket.resolutionMsec ≤ totalMsec := by
    rw [UInt64.le_iff_toNat_le, hoverflow]
    exact Nat.mod_le _ _
  have hconsidered : (totalMsec - totalMsec % bucket.resolutionMsec).toNat =
      totalMsec.toNat - totalMsec.toNat % bucket.resolutionMsec.toNat := by
    rw [UInt64.toNat_sub_of_le _ _ hle, hoverflow]
  have hloop : ∀ turns ≥ totalMsec.toNat + 1, ∃ idx : UInt64,
      machineLoop bucket.resolutionMsec (totalMsec % bucket.resolutionMsec)
          (totalMsec - totalMsec % bucket.resolutionMsec) turns 0 0 = some idx ∧
        idx.toNat = if totalMsec.toNat % bucket.resolutionMsec.toNat = 0
          then totalMsec.toNat / bucket.resolutionMsec.toNat
          else totalMsec.toNat / bucket.resolutionMsec.toNat - 1 := by
    intro turns hturns
    obtain ⟨idx, hidx, hcounted⟩ := machineLoop_eq (totalMsec % bucket.resolutionMsec) hres
      (by rw [hconsidered]; omega) turns 0 0 (Nat.zero_le _) le_rfl
      (by rw [hconsidered, UInt64.toNat_zero]; omega)
    rw [hoverflow, hconsidered, UInt64.toNat_zero, slotLoop_eq hres hturns] at hcounted
    exact ⟨idx, hidx, hcounted⟩
  obtain ⟨idx, -, hcounted⟩ := hloop (totalMsec.toNat + 1) le_rfl
  refine ⟨idx, ?_, fun turns hturns => ?_⟩
  · rw [if_neg (Nat.not_lt.mpr hlong), slotLoop_eq hres (Nat.lt_succ_self _), hcounted]
  · obtain ⟨other, hother, hsame⟩ := hloop turns hturns
    rw [if_neg hshort, hother, UInt64.toNat_inj.mp (hsame.trans hcounted.symm)]

theorem toNat_rounded (hres : 0 < bucket.resolutionMsec.toNat) {totalMsec idx : UInt64}
    (hcounted : idx.toNat =
      if totalMsec.toNat < bucket.resolutionMsec.toNat then 0
      else slotLoop bucket.resolutionMsec.toNat
        (totalMsec.toNat % bucket.resolutionMsec.toNat)
        (totalMsec.toNat - totalMsec.toNat % bucket.resolutionMsec.toNat)
        (totalMsec.toNat + 1) 0 0) :
    (bucket.rounded totalMsec idx).toNat =
      slotIdx bucket.isBottom bucket.resolutionMsec.toNat totalMsec.toNat := by
  have hoverflow : (totalMsec % bucket.resolutionMsec).toNat =
      totalMsec.toNat % bucket.resolutionMsec.toNat := UInt64.toNat_mod _ _
  have hdelta : (bucket.resolutionMsec - totalMsec % bucket.resolutionMsec).toNat =
      bucket.resolutionMsec.toNat - totalMsec.toNat % bucket.resolutionMsec.toNat := by
    rw [UInt64.toNat_sub_of_le, hoverflow]
    rw [UInt64.le_iff_toNat_le, hoverflow]
    exact (Nat.mod_lt _ hres).le
  have hzero : idx = 0 ↔ idx.toNat = 0 := by
    rw [← UInt64.toNat_inj, UInt64.toNat_zero]
  have hnext : idx = 0 → (idx + 1).toNat = idx.toNat + 1 := by
    rintro rfl
    rfl
  unfold rounded slotIdx
  dsimp only
  rw [← hcounted]
  simp only [UInt64.lt_iff_toNat_lt, hoverflow, hdelta, ← hzero]
  split_ifs with hbottom hfirst
  · exact hnext hfirst
  all_goals rfl

/-- For a time that is not beyond the capacity `getSlotIdx` ends with the slot that
`slotIdx` counts. -/
theorem getSlotIdx_eq_of_not_lt (hres : 0 < bucket.resolutionMsec.toNat)
    (hnonneg : 0 ≤ remaining) (hwithin : ¬ bucket.timeCapacity < remaining) :
    ∃ idx : UInt64,
      idx.toNat = slotIdx bucket.isBottom bucket.resolutionMsec.toNat
          remaining.toNatClampNeg ∧
        ∀ turns ≥ remaining.toNatClampNeg + 1,
          bucket.getSlotIdx turns remaining = some (.returned idx) := by
  have hsmall := remaining.toNatClampNeg_lt
  rw [← Int64.toNat_toUInt64_of_le hnonneg] at hsmall ⊢
  obtain ⟨idx, hcounted, hloop⟩ := exists_counted hres hsmall
  refine ⟨bucket.rounded remaining.toUInt64 idx, toNat_rounded hres hcounted,
    fun turns hturns => ?_⟩
  rw [getSlotIdx, if_neg hwithin]
  dsimp only
  rw [hloop turns hturns, Option.map_some]

theorem getSlotIdx_eq (hres : 0 < bucket.resolutionMsec.toNat)
    (h : bucket.Accepts remaining) :
    ∃ idx : UInt64,
      idx.toNat = slotIdx bucket.isBottom bucket.resolutionMsec.toNat
          remaining.toNatClampNeg ∧
        ∀ turns ≥ remaining.toNatClampNeg + 1,
          bucket.getSlotIdx turns remaining = some (.returned idx) := by
  refine getSlotIdx_eq_of_not_lt hres h.1 ?_
  rw [Int64.lt_iff_toInt_lt]
  exact Int.not_lt.mpr (Int64.lt_iff_toInt_lt.mp h.2).le

/-- The bucket of these settings, on numbers. -/
def toBucket (bucket : BucketSettings) : Bucket :=
  Bucket.createNew bucket.isBottom bucket.resolutionMsec.toNat bucket.nSlots.toNat

/-- The capacity is less than `2^63` milliseconds. -/
def Fits (bucket : BucketSettings) : Prop := bucket.toBucket.timeCapacity < 2 ^ 63

theorem Fits.toInt_timeCapacity (h : bucket.Fits) :
    bucket.timeCapacity.toInt = bucket.toBucket.timeCapacity := by
  have hfits : bucket.resolutionMsec.toNat * bucket.nSlots.toNat < 2 ^ 63 := h
  have hproduct : (bucket.resolutionMsec * bucket.nSlots).toNat =
      bucket.resolutionMsec.toNat * bucket.nSlots.toNat := by
    rw [UInt64.toNat_mul]
    exact Nat.mod_eq_of_lt (hfits.trans (by norm_num))
  change (bucket.resolutionMsec * bucket.nSlots).toBitVec.toInt = _
  rw [BitVec.toInt_eq_toNat_of_lt]
  · exact congrArg Int.ofNat hproduct
  · change 2 * (bucket.resolutionMsec * bucket.nSlots).toNat < 2 ^ 64
    rw [hproduct]
    omega

/-- A time is beyond the capacity in machine integers where it is beyond it in
numbers. -/
theorem Fits.timeCapacity_lt_iff (h : bucket.Fits) (hnonneg : 0 ≤ remaining) :
    bucket.timeCapacity < remaining ↔
      bucket.toBucket.timeCapacity < remaining.toNatClampNeg := by
  rw [Int64.lt_iff_toInt_lt, h.toInt_timeCapacity, ← natCast_toNatClampNeg hnonneg,
    Int.ofNat_lt]

theorem Fits.lt_timeCapacity_iff (h : bucket.Fits) (hnonneg : 0 ≤ remaining) :
    remaining < bucket.timeCapacity ↔
      remaining.toNatClampNeg < bucket.toBucket.timeCapacity := by
  rw [Int64.lt_iff_toInt_lt, h.toInt_timeCapacity, ← natCast_toNatClampNeg hnonneg,
    Int.ofNat_lt]

theorem Fits.getSlotIdx_eq (h : bucket.Fits) (hres : 0 < bucket.resolutionMsec.toNat)
    (hnonneg : 0 ≤ remaining) :
    ∀ turns ≥ remaining.toNatClampNeg + 1, bucket.getSlotIdx turns remaining =
      some ((bucket.toBucket.getSlotIdx remaining.toNatClampNeg).elim
        (.threw "slot out of range.") fun idx => .returned (UInt64.ofNat idx)) := by
  intro turns hturns
  by_cases hbeyond : bucket.timeCapacity < remaining
  · rw [Bucket.getSlotIdx, if_pos ((h.timeCapacity_lt_iff hnonneg).mp hbeyond),
      getSlotIdx, if_pos hbeyond]
    rfl
  · obtain ⟨idx, hidx, hends⟩ := getSlotIdx_eq_of_not_lt hres hnonneg hbeyond
    rw [Bucket.getSlotIdx, if_neg (mt (h.timeCapacity_lt_iff hnonneg).mpr hbeyond),
      hends turns hturns, Option.elim_some]
    change _ = some (SlotIdxEnd.returned (UInt64.ofNat (slotIdx bucket.isBottom
      bucket.resolutionMsec.toNat remaining.toNatClampNeg)))
    rw [← hidx, UInt64.ofNat_toNat]

/-- Whatever its settings, `getSlotIdx` ends with a slot of the bucket for every time
that the level is given, except in a bottom bucket of one slot for the times in the second
half of this slot. -/
theorem landsInside_iff (bucket : BucketSettings) (remaining : Int64)
    (h : bucket.Accepts remaining) :
    bucket.LandsInside remaining ↔
      ¬ (bucket.isBottom = true ∧ bucket.nSlots = 1 ∧
        bucket.resolutionMsec.toNat < 2 * remaining.toNatClampNeg) := by
  obtain ⟨-, -, hlt⟩ := h.toNat_lt
  have hres : 0 < bucket.resolutionMsec.toNat :=
    Nat.pos_of_mul_pos_right ((Nat.zero_le _).trans_lt hlt)
  obtain ⟨idx, hidx, hends⟩ := getSlotIdx_eq hres h
  have hone : bucket.nSlots = 1 ↔ bucket.nSlots.toNat = 1 := by
    rw [← UInt64.toNat_inj]
    rfl
  rw [hone, ← slotIdx_lt_iff hres hlt, ← hidx, ← UInt64.lt_iff_toNat_lt]
  constructor
  · rintro ⟨other, hother, needed, hall⟩
    have hsame := hall (max needed (remaining.toNatClampNeg + 1)) (le_max_left _ _)
    rw [hends _ (le_max_right _ _)] at hsame
    cases hsame
    exact hother
  · exact fun hinside => ⟨idx, hinside, _, hends⟩

def sampleBucket : BucketSettings := ⟨true, 10, 1⟩

theorem landsInside_iff_sampleBucket :
    sampleBucket.LandsInside 5 ↔
      ¬ (sampleBucket.isBottom = true ∧ sampleBucket.nSlots = 1 ∧
        sampleBucket.resolutionMsec.toNat < 2 * (5 : Int64).toNatClampNeg) :=
  landsInside_iff sampleBucket 5 ⟨by decide, by decide⟩

/-- Six milliseconds are rounded up to slot `1`, which this bucket has not. -/
theorem not_landsInside_sampleBucket :
    sampleBucket.Accepts 6 ∧ sampleBucket.getSlotIdx 7 6 = some (.returned 1) ∧
      ¬ sampleBucket.LandsInside 6 := by
  have haccepts : sampleBucket.Accepts 6 := ⟨by decide, by decide⟩
  refine ⟨haccepts, by decide +kernel, ?_⟩
  rintro ⟨idx, hidx, needed, hends⟩
  obtain ⟨other, hother, hall⟩ := getSlotIdx_eq (by decide) haccepts
  have hsame := hall (max needed 7) (le_max_right _ _)
  rw [hends _ (le_max_left _ _)] at hsame
  cases hsame
  rw [UInt64.lt_iff_toNat_lt, hother] at hidx
  revert hidx
  decide +kernel

end BucketSettings

/-- `Entry::getRemainingTime`, in machine integers. -/
def remainingTime (addedTime interval nowTime : Int64) : Int64 :=
  let endTime := addedTime + interval
  if endTime ≤ nowTime then 0 else endTime - nowTime

/-- As long as the end of the entry and what is left until then fit, the remaining time
is that on numbers. -/
theorem toInt_remainingTime {addedTime interval nowTime : Int64} {entry : Entry}
    (hadded : entry.addedTime = addedTime.toInt)
    (hinterval : entry.interval = interval.toInt)
    (hlow : -2 ^ 63 ≤ entry.endTime) (hhigh : entry.endTime < 2 ^ 63)
    (hleft : entry.endTime - nowTime.toInt < 2 ^ 63) :
    (remainingTime addedTime interval nowTime).toInt =
      entry.getRemainingTime nowTime.toInt := by
  have hend : (addedTime + interval).toInt = entry.endTime := by
    rw [Int64.toInt_add, Entry.endTime, hadded, hinterval]
    rw [Entry.endTime, hadded, hinterval] at hlow hhigh
    exact Int.bmod_eq_of_le hlow hhigh
  have hdue : addedTime + interval ≤ nowTime ↔ entry.endTime ≤ nowTime.toInt := by
    rw [Int64.le_iff_toInt_le, hend]
  rw [remainingTime, Entry.getRemainingTime]
  by_cases hover : entry.endTime ≤ nowTime.toInt
  · rw [if_pos hover]
    exact congrArg Int64.toInt (if_pos (hdue.mpr hover))
  · rw [if_neg hover]
    refine (congrArg Int64.toInt (if_neg (mt hdue.mp hover))).trans ?_
    rw [Int64.toInt_sub, hend, Int.toNat_of_nonneg (by omega)]
    exact Int.bmod_eq_of_le (by omega) hleft

end Wheel

end Async

end Kclpp
