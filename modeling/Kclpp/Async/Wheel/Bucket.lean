import Kclpp.Async.Wheel.DynamicWheelBuffer

/-!
# Entries and buckets

An `Entry` is due its interval after the time at which it has been added. A `Bucket`
is one level of the wheel: a ring of slots, each as long as the resolution of the
level, of which slot `0` is emptied by the next tick of the level. `getSlotIdx` finds
the slot of a remaining time.

Sizes and times, in milliseconds, are numbers here. `BucketSettings.Fits.getSlotIdx_eq`
and `toInt_remainingTime` connect them with the machine integers of the code: nothing
wraps as long as the capacities of the levels and the ends of the entries stay below
`2^63` milliseconds.
-/

namespace Kclpp

namespace Async

namespace Wheel

/-- What `add` is called with. Of the callback it matters whether there is one. -/
structure AddCall where
  hasCallback : Bool
  msecDelay : ℤ
  repeating : Bool
  deriving DecidableEq, Repr

/-- `HTimerWheel::Entry`, with the number of the call that has added it. -/
structure Entry where
  number : ℕ
  hasCallback : Bool
  interval : ℤ
  addedTime : ℤ
  repeating : Bool
  deriving DecidableEq, Repr

namespace Entry

def endTime (entry : Entry) : ℤ := entry.addedTime + entry.interval

def getRemainingTime (entry : Entry) (nowTime : ℤ) : ℕ :=
  if entry.endTime ≤ nowTime then 0 else (entry.endTime - nowTime).toNat

def setAddedTime (entry : Entry) (added : ℤ) : Entry :=
  { entry with addedTime := added }

theorem getRemainingTime_eq (entry : Entry) (nowTime : ℤ) :
    entry.getRemainingTime nowTime = (entry.endTime - nowTime).toNat := by
  unfold getRemainingTime
  split <;> omega

end Entry

/-- `HTimerWheel::Bucket`. -/
structure Bucket where
  isBottom : Bool
  resolution : ℕ
  nSlots : ℕ
  buffer : DynamicWheelBuffer (List Entry)

/-- The loop of `Bucket::getSlotIdx`. -/
def slotLoop (resolution overflow toConsider : ℕ) : ℕ → ℕ → ℕ → ℕ
  | 0, _, idx => idx
  | fuel + 1, current, idx =>
      if 0 < overflow then
        if current + resolution < toConsider then
          slotLoop resolution overflow toConsider fuel (current + resolution) (idx + 1)
        else idx
      else
        if current + resolution ≤ toConsider then
          slotLoop resolution overflow toConsider fuel (current + resolution) (idx + 1)
        else idx

/-- `Bucket::getSlotIdx`, for a time within the capacity. -/
def slotIdx (isBottom : Bool) (resolution totalMsec : ℕ) : ℕ :=
  let overflow := totalMsec % resolution
  let toConsider := totalMsec - overflow
  let idx :=
    if totalMsec < resolution then 0
    else slotLoop resolution overflow toConsider (totalMsec + 1) 0 0
  if isBottom then
    if idx = 0 then
      let zeroDelta := overflow
      let tickDelta := resolution - overflow
      if tickDelta < zeroDelta then idx + 1 else idx
    else idx
  else if totalMsec < resolution then 0
  else idx

namespace Bucket

/-- The constructor of `Bucket`. -/
def createNew (isBottom : Bool) (resolution slots : ℕ) : Bucket where
  isBottom := isBottom
  resolution := resolution
  nSlots := slots
  buffer := DynamicWheelBuffer.create slots

def timeCapacity (bucket : Bucket) : ℕ := bucket.resolution * bucket.nSlots

/-- `Bucket::getSlotIdx`; `none` where it throws. -/
def getSlotIdx (bucket : Bucket) (msecDelay : ℕ) : Option ℕ :=
  if bucket.timeCapacity < msecDelay then none
  else some (slotIdx bucket.isBottom bucket.resolution msecDelay)

/-- `Bucket::addEntry`; `none` where it throws or its `CHECK` fails. -/
def addEntry (bucket : Bucket) (nowTime : ℤ) (entry : Entry) : Option Bucket :=
  (bucket.getSlotIdx (entry.getRemainingTime nowTime)).bind fun idx =>
    if idx < bucket.nSlots then
      some { bucket with buffer := bucket.buffer.modifyAt idx (· ++ [entry]) }
    else none

/-- The entries of slot `0`, and the bucket with this slot cleared. -/
def takeSlot (bucket : Bucket) : Option (List Entry × Bucket) :=
  (bucket.getSlotIdx 0).bind fun idx =>
    if idx < bucket.nSlots then
      (bucket.buffer.getAt idx).map fun entries =>
        (entries, { bucket with buffer := bucket.buffer.modifyAt idx fun _ => [] })
    else none

def advance (bucket : Bucket) : Bucket :=
  { bucket with buffer := bucket.buffer.advance }

end Bucket

theorem slotLoop_exact {resolution : ℕ} (hres : 0 < resolution) (q : ℕ) :
    ∀ fuel idx, idx ≤ q → q ≤ fuel + idx →
      slotLoop resolution 0 (q * resolution) fuel (idx * resolution) idx = q
  | 0, idx, hle, hfuel => by
      rw [slotLoop]
      omega
  | fuel + 1, idx, hle, hfuel => by
      rw [slotLoop, if_neg (Nat.lt_irrefl 0), ← Nat.succ_mul]
      by_cases hnext : idx + 1 ≤ q
      · rw [if_pos (Nat.mul_le_mul_right _ hnext)]
        exact slotLoop_exact hres q fuel (idx + 1) hnext (by omega)
      · rw [if_neg (fun h => hnext (Nat.le_of_mul_le_mul_right h hres))]
        omega

/-- In a time that is not exact it leaves out the last whole one. -/
theorem slotLoop_inexact {resolution overflow : ℕ} (hres : 0 < resolution)
    (hoverflow : 0 < overflow) (q : ℕ) :
    ∀ fuel idx, idx ≤ q → q ≤ fuel + idx →
      slotLoop resolution overflow ((q + 1) * resolution) fuel (idx * resolution)
        idx = q
  | 0, idx, hle, hfuel => by
      rw [slotLoop]
      omega
  | fuel + 1, idx, hle, hfuel => by
      rw [slotLoop, if_pos hoverflow, ← Nat.succ_mul]
      by_cases hnext : idx + 1 ≤ q
      · rw [if_pos (Nat.mul_lt_mul_of_pos_right (by omega) hres)]
        exact slotLoop_inexact hres hoverflow q fuel (idx + 1) hnext (by omega)
      · rw [if_neg (fun h => hnext (Nat.lt_succ_iff.mp (Nat.lt_of_mul_lt_mul_right h)))]
        omega

/-- The loop of `getSlotIdx` counts the whole resolutions, less one where the time
is not exact. It needs no more turns than there are milliseconds, and one. -/
theorem slotLoop_eq {resolution : ℕ} (hres : 0 < resolution) {totalMsec fuel : ℕ}
    (hfuel : totalMsec < fuel) :
    slotLoop resolution (totalMsec % resolution) (totalMsec - totalMsec % resolution)
        fuel 0 0 =
      if totalMsec % resolution = 0 then totalMsec / resolution
      else totalMsec / resolution - 1 := by
  have hle : totalMsec / resolution ≤ totalMsec := Nat.div_le_self _ _
  have hsub : totalMsec - totalMsec % resolution =
      totalMsec / resolution * resolution := by
    rw [Nat.mul_comm]
    exact Nat.sub_eq_of_eq_add (Nat.div_add_mod _ _).symm
  rw [hsub]
  split_ifs with hexact
  · rw [hexact]
    have hloop := slotLoop_exact hres (totalMsec / resolution) fuel 0
      (Nat.zero_le _) (by omega)
    rwa [Nat.zero_mul] at hloop
  · cases hq : totalMsec / resolution with
    | zero =>
        obtain ⟨fuel, rfl⟩ := Nat.exists_eq_succ_of_ne_zero (Nat.ne_zero_of_lt hfuel)
        rw [slotLoop, if_pos (Nat.pos_of_ne_zero hexact), Nat.zero_mul, if_neg (by omega)]
    | succ q =>
        have hloop := slotLoop_inexact hres (Nat.pos_of_ne_zero hexact) q fuel
          0 (Nat.zero_le _) (by omega)
        rwa [Nat.zero_mul] at hloop

/-- The slot in terms of quotient and remainder. In a bottom bucket, what is nearer
to the end of slot `0` is put into slot `1`. -/
theorem slotIdx_eq {resolution : ℕ} (hres : 0 < resolution) (isBottom : Bool)
    (totalMsec : ℕ) :
    slotIdx isBottom resolution totalMsec =
      if totalMsec % resolution = 0 then totalMsec / resolution
      else if totalMsec / resolution ≤ 1 then
        if isBottom && resolution - totalMsec % resolution < totalMsec % resolution
        then 1 else 0
      else totalMsec / resolution - 1 := by
  have hdiv : totalMsec / resolution = 0 ↔ totalMsec < resolution :=
    Nat.div_eq_zero_iff_lt hres
  have hmod := Nat.mod_lt totalMsec hres
  unfold slotIdx
  simp only [slotLoop_eq hres (Nat.lt_succ_self totalMsec)]
  by_cases hsmall : totalMsec < resolution
  · have hzero := hdiv.mpr hsmall
    have hsame : totalMsec % resolution = totalMsec := Nat.mod_eq_of_lt hsmall
    rw [hzero, hsame, if_pos hsmall]
    cases isBottom <;> simp only [Bool.false_eq_true, if_false, if_true,
      Bool.true_and, Bool.false_and, decide_eq_true_eq] <;> split_ifs <;> omega
  · have hpos : totalMsec / resolution ≠ 0 := fun h => hsmall (hdiv.mp h)
    cases isBottom <;> simp only [hsmall, if_false, Bool.false_eq_true, if_true,
      Bool.true_and, Bool.false_and, decide_eq_true_eq] <;> split_ifs <;> omega

/-- A time below the capacity of a level has a slot of it, except in a bottom level of
one slot, where a time in the second half of the slot is put behind it. -/
theorem slotIdx_lt_iff {resolution slots totalMsec : ℕ} (hres : 0 < resolution)
    (hlt : totalMsec < resolution * slots) (isBottom : Bool) :
    slotIdx isBottom resolution totalMsec < slots ↔
      ¬ (isBottom = true ∧ slots = 1 ∧ resolution < 2 * totalMsec) := by
  have hq : totalMsec / resolution < slots := Nat.div_lt_of_lt_mul hlt
  rw [slotIdx_eq hres]
  by_cases hone : slots = 1
  · subst hone
    have hsmall : totalMsec < resolution := by rwa [Nat.mul_one] at hlt
    rw [Nat.mod_eq_of_lt hsmall, Nat.div_eq_of_lt hsmall]
    cases isBottom <;> simp only [Bool.true_and, Bool.false_and, decide_eq_true_eq,
      Bool.false_eq_true, if_false, true_and, false_and, not_false_eq_true, iff_true] <;>
      split_ifs <;> omega
  · have hpos : 0 < slots := (Nat.zero_le _).trans_lt hq
    refine iff_of_true ?_ fun h => hone h.2.1
    split_ifs <;> omega

theorem slotIdx_lt {resolution slots totalMsec : ℕ} (hres : 0 < resolution)
    (hslots : 2 ≤ slots) (hlt : totalMsec < resolution * slots) (isBottom : Bool) :
    slotIdx isBottom resolution totalMsec < slots :=
  (slotIdx_lt_iff hres hlt isBottom).mpr fun h => by omega

theorem slotIdx_zero {resolution : ℕ} (hres : 0 < resolution) (isBottom : Bool) :
    slotIdx isBottom resolution 0 = 0 := by
  rw [slotIdx_eq hres, Nat.zero_mod, if_pos rfl, Nat.zero_div]

namespace Bucket

/-- The bucket has slots as its settings say, two at least. -/
structure Formed (bucket : Bucket) : Prop where
  resolution : 0 < bucket.resolution
  slots : 2 ≤ bucket.nSlots
  length : bucket.buffer.buff.length = bucket.nSlots

variable {bucket : Bucket}

theorem formed_createNew (isBottom : Bool) {resolution slots : ℕ}
    (hres : 0 < resolution) (hslots : 2 ≤ slots) :
    (createNew isBottom resolution slots).Formed :=
  ⟨hres, hslots, List.length_replicate⟩

theorem formed_modifyAt (h : bucket.Formed) (idx : ℕ)
    (f : List Entry → List Entry) :
    Formed { bucket with buffer := bucket.buffer.modifyAt idx f } :=
  ⟨h.resolution, h.slots, (bucket.buffer.length_buff_modifyAt idx f).trans h.length⟩

theorem formed_advance (h : bucket.Formed) : bucket.advance.Formed :=
  ⟨h.resolution, h.slots, h.length⟩

/-- What is due within the capacity is put into its slot. -/
theorem addEntry_eq (h : bucket.Formed) {nowTime : ℤ} {entry : Entry}
    (hlt : entry.getRemainingTime nowTime < bucket.timeCapacity) :
    bucket.addEntry nowTime entry = some { bucket with
      buffer := bucket.buffer.modifyAt
        (slotIdx bucket.isBottom bucket.resolution (entry.getRemainingTime nowTime))
        (· ++ [entry]) } := by
  rw [addEntry, getSlotIdx, if_neg (Nat.not_lt.mpr hlt.le), Option.bind_some,
    if_pos (slotIdx_lt h.resolution h.slots hlt _)]

/-- Whatever the settings, it is put into a slot unless that would be slot `1` of one. -/
theorem isSome_addEntry_iff (hres : 0 < bucket.resolution) {nowTime : ℤ} {entry : Entry}
    (hlt : entry.getRemainingTime nowTime < bucket.timeCapacity) :
    (bucket.addEntry nowTime entry).isSome = true ↔
      ¬ (bucket.isBottom = true ∧ bucket.nSlots = 1 ∧
        bucket.resolution < 2 * entry.getRemainingTime nowTime) := by
  rw [addEntry, getSlotIdx, if_neg (Nat.not_lt.mpr hlt.le), Option.bind_some,
    ← slotIdx_lt_iff hres hlt]
  split_ifs with hinside
  · exact iff_of_true rfl hinside
  · exact iff_of_false Bool.false_ne_true hinside

theorem takeSlot_eq (h : bucket.Formed) :
    ∃ entries, bucket.buffer.getAt 0 = some entries ∧
      bucket.takeSlot = some (entries, { bucket with
        buffer := bucket.buffer.modifyAt 0 fun _ => [] }) := by
  have hpos : 0 < bucket.nSlots := Nat.lt_of_lt_of_le Nat.two_pos h.slots
  obtain ⟨entries, hentries⟩ :=
    bucket.buffer.exists_getAt (by rw [h.length]; exact hpos) 0
  refine ⟨entries, hentries, ?_⟩
  rw [takeSlot, getSlotIdx, if_neg (Nat.not_lt_zero _), Option.bind_some,
    slotIdx_zero h.resolution, if_pos hpos, hentries]
  rfl

end Bucket

end Wheel

end Async

end Kclpp
