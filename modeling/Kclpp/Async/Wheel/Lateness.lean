import Kclpp.Async.Wheel.Timers

/-!
# When a slot is emptied

Under ideal timers it is known at what time each slot is emptied next. So it is known,
when an entry is put into a slot, whether this is too late for it: `comesLate` says
when, in terms of its remaining time and of the next tick of its level. An entry of a
bottom slot is never too late, unless the slot has just been emptied.
-/

namespace Kclpp

namespace Async

namespace Wheel

/-- The level of the tick that is being processed, and the lowest level that has
been. -/
def Phase.inTick : Phase → Option (ℕ × ℕ)
  | .idle => none
  | .executing top idx => some (top, idx)
  | .calling top idx _ => some (top, idx)

/-- How long it is to the next tick of a level. -/
def untilTick (settings : List LevelSettings) (t i : ℕ) : ℕ :=
  resolutionAt settings i - t % resolutionAt settings i

/-- How long it is until a slot is emptied. In a tick, the levels up to its own empty
slot `0` at once, or a turn later where they have done so already. -/
def emptiedAfter (settings : List LevelSettings) (t : ℕ) :
    Option (ℕ × ℕ) → ℕ → ℕ → ℕ
  | none, i, k => untilTick settings t i + k * resolutionAt settings i
  | some (top, idx), i, k =>
      if top < i then untilTick settings t i + k * resolutionAt settings i
      else if idx ≤ i ∧ k = 0 then slotsAt settings i * resolutionAt settings i
      else k * resolutionAt settings i

/-- The level that an entry is put into. -/
def levelFor (settings : List LevelSettings) (remaining : ℕ) : ℕ :=
  settings.findIdx fun setting => remaining < setting.resolution * setting.slots

/-- An upper level counts the time in full, but for a remainder, although more than
the remainder and the tolerance is left to its next tick. -/
def countsTooMany (settings : List LevelSettings) (t i remaining : ℕ) : Bool :=
  let res := resolutionAt settings i
  i ≠ 0 &&
    (remaining % res = 0 || (remaining / res = 1 && res < 2 * (remaining % res))) &&
    remaining % res + 2 * resolutionAt settings 0 < untilTick settings t i

/-- The slot of the entry has just been emptied, and it comes too late a turn later. -/
def missesSlot (settings : List LevelSettings) (i remaining : ℕ) : Bool :=
  let res := resolutionAt settings i
  slotIdx true res remaining = 0 &&
    remaining + 2 * resolutionAt settings 0 < slotsAt settings i * res

/-- The slot of an entry is emptied more than two bottom resolutions too late. -/
def comesLate (settings : List LevelSettings) (t : ℕ) (tick : Option (ℕ × ℕ))
    (remaining : ℕ) : Bool :=
  let i := levelFor settings remaining
  match tick with
  | none => countsTooMany settings t i remaining
  | some (top, idx) =>
      if top < i then countsTooMany settings t i remaining
      else idx ≤ i && missesSlot settings i remaining

section Times

variable {settings : List LevelSettings} {t top idx i k : ℕ}

/-- From a multiple of the bottom resolution to the next one, the remainder grows by
it, or becomes zero. -/
theorem mod_add_eq {bottom res t : ℕ} (hbottom : 0 < bottom) (hres : 0 < res)
    (hdvd : bottom ∣ res) (ht : bottom ∣ t) :
    if res ∣ t + bottom then t % res + bottom = res
    else (t + bottom) % res = t % res + bottom := by
  have hlt := Nat.mod_lt t hres
  have hle := Nat.le_of_dvd hres hdvd
  split_ifs with hdiv
  · have hmod : (t % res + bottom) % res = 0 := by
      rw [Nat.mod_add_mod]
      exact Nat.mod_eq_zero_of_dvd hdiv
    by_contra hne
    rcases Nat.lt_or_gt_of_ne hne with hless | hmore
    · rw [Nat.mod_eq_of_lt hless] at hmod
      omega
    · rw [Nat.mod_eq_sub_mod hmore.le, Nat.mod_eq_of_lt (by omega)] at hmod
      omega
  · have hle' : t % res + bottom ≤ res := by
      obtain ⟨c, hc⟩ := (Nat.dvd_mod_iff hdvd).mpr ht
      obtain ⟨d, hd⟩ := hdvd
      rw [hc, hd] at hlt ⊢
      rw [← Nat.mul_succ]
      exact Nat.mul_le_mul_left bottom (Nat.lt_of_mul_lt_mul_left hlt)
    have hne : t % res + bottom ≠ res := by
      intro heq
      refine hdiv (Nat.dvd_of_mod_eq_zero ?_)
      rw [← Nat.mod_add_mod, heq, Nat.mod_self]
    rw [← Nat.mod_add_mod, Nat.mod_eq_of_lt (by omega)]

theorem untilTick_of_dvd (h : resolutionAt settings i ∣ t) :
    untilTick settings t i = resolutionAt settings i := by
  rw [untilTick, Nat.mod_eq_zero_of_dvd h, Nat.sub_zero]

theorem untilTick_le (settings : List LevelSettings) (t i : ℕ) :
    untilTick settings t i ≤ resolutionAt settings i := Nat.sub_le _ _

theorem emptiedAfter_begin (hnested : Nested settings) (hi : i < settings.length)
    (ht : resolutionAt settings 0 ∣ t)
    (hdivides : ∀ i ≤ top, resolutionAt settings i ∣ t + resolutionAt settings 0)
    (habove : ∀ i, top < i → i < settings.length →
      ¬ resolutionAt settings i ∣ t + resolutionAt settings 0) (k : ℕ) :
    t + resolutionAt settings 0 + emptiedAfter settings (t + resolutionAt settings 0)
        (some (top, top + 1)) i k = t + emptiedAfter settings t none i k := by
  have hbottom := hnested.chained.resolutionAt_pos (i.zero_le.trans_lt hi)
  have hres := hnested.chained.resolutionAt_pos hi
  have hmod := mod_add_eq hbottom hres (hnested.chained.dvd i.zero_le hi) ht
  have hlt := Nat.mod_lt t hres
  have hlt' := Nat.mod_lt (t + resolutionAt settings 0) hres
  unfold emptiedAfter untilTick
  dsimp only
  by_cases htop : top < i
  · rw [if_neg (habove i htop hi)] at hmod
    rw [if_pos htop]
    omega
  · rw [if_pos (hdivides i (Nat.not_lt.mp htop))] at hmod
    rw [if_neg htop, if_neg (by omega)]
    omega

theorem emptiedAfter_process (h : i = idx → k ≠ 0) :
    emptiedAfter settings t (some (top, idx)) i k =
      emptiedAfter settings t (some (top, idx + 1)) i k := by
  unfold emptiedAfter
  dsimp only
  have hiff : (idx ≤ i ∧ k = 0) ↔ (idx + 1 ≤ i ∧ k = 0) := by omega
  rw [if_congr hiff rfl rfl]

theorem emptiedAfter_zero (htop : idx ≤ top) :
    emptiedAfter settings t (some (top, idx + 1)) idx 0 = 0 := by
  rw [emptiedAfter, if_neg (by omega), if_neg (by omega), Nat.zero_mul]

theorem emptiedAfter_advance (hdivides : resolutionAt settings i ∣ t)
    (htop : i ≤ top) (k : ℕ) :
    emptiedAfter settings t none i k = emptiedAfter settings t (some (top, 0)) i
      (if k + 1 = slotsAt settings i then 0 else k + 1) := by
  unfold emptiedAfter
  dsimp only
  rw [untilTick_of_dvd hdivides, if_neg (Nat.not_lt.mpr htop), Nat.add_comm,
    ← Nat.succ_mul, Nat.succ_eq_add_one]
  by_cases hturn : k + 1 = slotsAt settings i
  · rw [if_pos hturn, if_pos ⟨Nat.zero_le i, rfl⟩, hturn]
  · rw [if_neg hturn, if_neg fun hzero => Nat.succ_ne_zero k hzero.2]

theorem emptiedAfter_above (htop : top < i) (k : ℕ) :
    emptiedAfter settings t none i k = emptiedAfter settings t (some (top, 0)) i k := by
  rw [emptiedAfter, emptiedAfter, if_pos htop]

end Times

section Slots

variable {res remaining : ℕ}

theorem slotIdx_le (hres : 0 < res) (remaining : ℕ) :
    slotIdx true res remaining ≤ remaining / res + 1 := by
  rw [slotIdx_eq hres]
  generalize remaining / res = q
  split_ifs <;> omega

theorem div_le_slotIdx (hres : 0 < res) (remaining : ℕ) :
    remaining / res ≤ slotIdx true res remaining + 1 := by
  rw [slotIdx_eq hres]
  generalize remaining / res = q
  split_ifs <;> omega

/-- Less than a resolution only is counted as one more. -/
theorem slotIdx_mul_le (hres : 0 < res) (hle : res ≤ remaining) :
    slotIdx true res remaining * res ≤ remaining := by
  have hone : 1 ≤ remaining / res := Nat.div_pos hle hres
  have hslot : slotIdx true res remaining ≤ remaining / res := by
    rw [slotIdx_eq hres]
    split_ifs <;> omega
  exact (Nat.mul_le_mul_right res hslot).trans (Nat.div_mul_le_self remaining res)

end Slots

section Late

variable {settings : List LevelSettings} {t i remaining : ℕ}

/-- The remaining time is within the capacity of its level, and, above the bottom
one, a resolution of it at least. -/
structure Fits (settings : List LevelSettings) (remaining i : ℕ) : Prop where
  level : i < settings.length
  lt : remaining < resolutionAt settings i * slotsAt settings i
  ge : i ≠ 0 → resolutionAt settings i ≤ remaining

theorem countsTooMany_iff (hnested : Nested settings) (hfits : Fits settings remaining i)
    (ht : resolutionAt settings 0 ∣ t) :
    countsTooMany settings t i remaining = true ↔
      remaining + 2 * resolutionAt settings 0 < untilTick settings t i +
        slotIdx true (resolutionAt settings i) remaining * resolutionAt settings i := by
  have hres := hnested.chained.resolutionAt_pos hfits.level
  have hdiv := Nat.div_add_mod' remaining (resolutionAt settings i)
  have hmod := Nat.mod_lt remaining hres
  have huntil := untilTick_le settings t i
  unfold countsTooMany
  simp only [Bool.and_eq_true, Bool.or_eq_true, decide_eq_true_eq]
  by_cases hi : i = 0
  · -- the next tick of the bottom level is a resolution away
    subst hi
    have hslot := Nat.mul_le_mul_right (resolutionAt settings 0)
      (slotIdx_le hres remaining)
    rw [Nat.succ_mul] at hslot
    rw [untilTick_of_dvd ht]
    omega
  · have hone : 1 ≤ remaining / resolutionAt settings i :=
      Nat.div_pos (hfits.ge hi) hres
    have hge := hfits.ge hi
    simp only [slotIdx_eq hres, Bool.true_and, decide_eq_true_eq]
    by_cases hexact : remaining % resolutionAt settings i = 0
    · rw [if_pos hexact]
      omega
    · rw [if_neg hexact]
      by_cases hq : remaining / resolutionAt settings i = 1
      · rw [if_pos hq.le]
        rw [hq, Nat.one_mul] at hdiv
        split_ifs with hround
        · omega
        · omega
      · rw [if_neg (by omega), Nat.sub_mul, Nat.one_mul]
        omega

theorem missesSlot_iff (hnested : Nested settings) (hfits : Fits settings remaining i)
    (top idx : ℕ) (htop : i ≤ top) :
    (idx ≤ i && missesSlot settings i remaining) = true ↔
      remaining + 2 * resolutionAt settings 0 < emptiedAfter settings t (some (top, idx)) i
        (slotIdx true (resolutionAt settings i) remaining) := by
  have hres := hnested.chained.resolutionAt_pos hfits.level
  unfold missesSlot emptiedAfter
  dsimp only
  rw [if_neg (Nat.not_lt.mpr htop)]
  simp only [Bool.and_eq_true, decide_eq_true_eq]
  by_cases hslot : idx ≤ i ∧ slotIdx true (resolutionAt settings i) remaining = 0
  · rw [if_pos hslot]
    exact ⟨fun h => h.2.2, fun h => ⟨hslot.1, hslot.2, h⟩⟩
  · rw [if_neg hslot]
    refine iff_of_false (fun h => hslot ⟨h.1, h.2.1⟩) (Nat.not_lt.mpr ?_)
    by_cases hi : i = 0
    · subst hi
      have hle := Nat.mul_le_mul_right (resolutionAt settings 0)
        (slotIdx_le hres remaining)
      have hdiv := Nat.div_mul_le_self remaining (resolutionAt settings 0)
      rw [Nat.succ_mul] at hle
      omega
    · exact (slotIdx_mul_le hres (hfits.ge hi)).trans (Nat.le_add_right _ _)

/-- When it is emptied, the slot of an entry is too late for it exactly as `comesLate`
says. -/
theorem comesLate_iff (hnested : Nested settings) (ht : resolutionAt settings 0 ∣ t)
    (hfits : Fits settings remaining (levelFor settings remaining))
    (tick : Option (ℕ × ℕ)) :
    comesLate settings t tick remaining = true ↔
      remaining + 2 * resolutionAt settings 0 <
        emptiedAfter settings t tick (levelFor settings remaining)
          (slotIdx true (resolutionAt settings (levelFor settings remaining))
            remaining) := by
  unfold comesLate
  generalize levelFor settings remaining = i at hfits ⊢
  cases tick with
  | none => exact countsTooMany_iff hnested hfits ht
  | some tick =>
      obtain ⟨top, idx⟩ := tick
      dsimp only
      by_cases htop : top < i
      · rw [if_pos htop, emptiedAfter, if_pos htop]
        exact countsTooMany_iff hnested hfits ht
      · rw [if_neg htop]
        exact missesSlot_iff hnested hfits top idx (Nat.not_lt.mp htop)

/-- A slot of the bottom level is never emptied more than two of its resolutions too
early. -/
theorem le_emptiedAfter_bottom (hnested : Nested settings)
    (hfits : Fits settings remaining 0) (tick : Option (ℕ × ℕ)) :
    remaining ≤ emptiedAfter settings t tick 0
      (slotIdx true (resolutionAt settings 0) remaining) +
        2 * resolutionAt settings 0 := by
  have hres := hnested.chained.resolutionAt_pos hfits.level
  have hdiv := Nat.div_add_mod' remaining (resolutionAt settings 0)
  have hmod := Nat.mod_lt remaining hres
  have hslot := Nat.mul_le_mul_right (resolutionAt settings 0)
    (div_le_slotIdx hres remaining)
  rw [Nat.succ_mul] at hslot
  have hlt := hfits.lt
  rw [Nat.mul_comm] at hlt
  unfold emptiedAfter
  split
  · omega
  · split_ifs
    · omega
    · omega
    · omega

theorem PlacedAt.fitsLevel (hnested : Nested settings) {levels : List WheelLevel}
    (hshaped : Shaped settings levels) {now : ℤ} {entry : Entry} {level : WheelLevel}
    (h : PlacedAt now entry levels i level) :
    levelFor settings (entry.getRemainingTime now) = i ∧
      Fits settings (entry.getRemainingTime now) i := by
  obtain ⟨hi, -, hres, hslots, -⟩ := hshaped.configured.level_eq h.found
  have hlt := h.fits
  rw [Bucket.timeCapacity, hres, hslots] at hlt
  have hge : ∀ j < i, resolutionAt settings j * slotsAt settings j ≤
      entry.getRemainingTime now := by
    intro j hj
    have hjlength : j < levels.length := by
      rw [hshaped.length]
      exact hj.trans hi
    have hlower := h.lower j _ hj (List.getElem?_eq_getElem hjlength)
    obtain ⟨-, -, hres', hslots', -⟩ :=
      hshaped.configured.level_eq (List.getElem?_eq_getElem hjlength)
    rw [Bucket.timeCapacity, hres', hslots'] at hlower
    exact hlower
  refine ⟨(List.findIdx_eq hi).mpr ⟨?_, fun j hj => ?_⟩, hi, hlt, fun hne => ?_⟩
  · simp only [resolutionAt, slotsAt, List.getElem?_eq_getElem hi, Option.map_some,
      Option.getD_some] at hlt
    exact decide_eq_true hlt
  · have hlower := hge j hj
    simp only [resolutionAt, slotsAt, List.getElem?_eq_getElem (hj.trans hi),
      Option.map_some, Option.getD_some] at hlower
    exact decide_eq_false (Nat.not_lt.mpr hlower)
  · obtain ⟨j, rfl⟩ := Nat.exists_eq_succ_of_ne_zero hne
    exact (hnested.covers j hi).trans (hge j (Nat.lt_succ_self j))

end Late

end Wheel

end Async

end Kclpp
