import Kclpp.Async.Wheel.Lateness

/-!
# How exactly entries are executed

A one-shot entry is executed within two bottom resolutions of its end, as long as no
one-shot entry is put into a slot that is emptied too late for it: `keepsTime`. It is
so whatever ticks come together in which order, and from inside a callback as well.
`Punctual` is the invariant, for a tick whose levels have been processed down to some
level. Each step either leaves the slots' times as they are or puts an entry into a
slot of the lowest level that it fits.

Otherwise entries are late by up to a turn of a level.
-/

namespace Kclpp

namespace Async

namespace Wheel

open Transition (run Meets meets_and run_invariant_of_meets)

def InSlot (levels : List WheelLevel) (i k : ℕ) (entry : Entry) : Prop :=
  ∃ level slot, levels[i]? = some level ∧ k < level.bucket.nSlots ∧
    level.bucket.buffer.getAt k = some slot ∧ entry ∈ slot

section InSlot

variable {settings : List LevelSettings} {levels : List WheelLevel} {i idx k : ℕ}
  {level : WheelLevel} {entry : Entry}

theorem inSlot_setCounter {wheel : HTimerWheel} {n : ℕ}
    (hlevel : wheel.levels[idx]? = some level)
    (h : InSlot (wheel.setCounter idx level n).levels i k entry) :
    InSlot wheel.levels i k entry := by
  have hlt := (List.getElem?_eq_some_iff.mp hlevel).1
  obtain ⟨found, slot, hfound, hk, hslot, hentry⟩ := h
  unfold HTimerWheel.setCounter at hfound
  dsimp only at hfound
  by_cases hidx : i = idx
  · rw [hidx, List.getElem?_set_self hlt] at hfound
    cases hfound
    exact ⟨level, slot, hidx ▸ hlevel, hk, hslot, hentry⟩
  · rw [List.getElem?_set_ne (Ne.symm hidx)] at hfound
    exact ⟨found, slot, hfound, hk, hslot, hentry⟩

theorem inSlot_clear (hlevel : levels[idx]? = some level) (hformed : level.bucket.Formed)
    (h : InSlot (levels.set idx
      (level.withBuffer (level.bucket.buffer.modifyAt 0 fun _ => []))) i k entry) :
    InSlot levels i k entry ∧ (i = idx → k ≠ 0) := by
  have hlt := (List.getElem?_eq_some_iff.mp hlevel).1
  obtain ⟨found, slot, hfound, hk, hslot, hentry⟩ := h
  by_cases hidx : i = idx
  · rw [hidx, List.getElem?_set_self hlt] at hfound
    cases hfound
    rw [WheelLevel.bucket_withBuffer] at hk hslot
    dsimp only at hk hslot
    have hpos : 0 < level.bucket.nSlots := Nat.zero_lt_of_lt hk
    by_cases hzero : k = 0
    · rw [hzero, DynamicWheelBuffer.getAt_modifyAt_self] at hslot
      obtain ⟨-, -, rfl⟩ := Option.map_eq_some_iff.mp hslot
      cases hentry
    · rw [← hformed.length] at hk hpos
      rw [DynamicWheelBuffer.getAt_modifyAt_of_ne _ hpos hk (Ne.symm hzero)] at hslot
      rw [hformed.length] at hk
      exact ⟨⟨level, slot, hidx ▸ hlevel, hk, hslot, hentry⟩, fun _ => hzero⟩
  · rw [List.getElem?_set_ne (Ne.symm hidx)] at hfound
    exact ⟨⟨found, slot, hfound, hk, hslot, hentry⟩, fun h => absurd h hidx⟩

theorem inSlot_withEntry (hshaped : Shaped settings levels) {now : ℤ} {new : Entry}
    (hplaced : PlacedAt now new levels idx level)
    (h : InSlot (levels.set idx (level.withEntry now new)) i k entry) :
    InSlot levels i k entry ∨ (entry = new ∧ i = idx ∧ k = level.slotFor now new) := by
  have hlt := (List.getElem?_eq_some_iff.mp hplaced.found).1
  have hformed := hplaced.formed hshaped
  have hnew := hplaced.slot_lt hshaped
  obtain ⟨found, slot, hfound, hk, hslot, hentry⟩ := h
  by_cases hidx : i = idx
  · rw [hidx, List.getElem?_set_self hlt] at hfound
    cases hfound
    rw [WheelLevel.withEntry, WheelLevel.bucket_withBuffer] at hk hslot
    dsimp only at hk hslot
    by_cases hsame : k = level.slotFor now new
    · rw [hsame, DynamicWheelBuffer.getAt_modifyAt_self] at hslot
      obtain ⟨old, hold, rfl⟩ := Option.map_eq_some_iff.mp hslot
      rcases List.mem_append.mp hentry with hentry | hentry
      · rw [← hsame] at hold
        exact Or.inl ⟨level, old, hidx ▸ hplaced.found, hk, hold, hentry⟩
      · exact Or.inr ⟨List.mem_singleton.mp hentry, hidx, hsame⟩
    · rw [← hformed.length] at hk hnew
      rw [DynamicWheelBuffer.getAt_modifyAt_of_ne _ hnew hk (Ne.symm hsame)] at hslot
      rw [hformed.length] at hk
      exact Or.inl ⟨level, slot, hidx ▸ hplaced.found, hk, hslot, hentry⟩
  · rw [List.getElem?_set_ne (Ne.symm hidx)] at hfound
    exact Or.inl ⟨found, slot, hfound, hk, hslot, hentry⟩

theorem inSlot_advanceBuckets {wheel : HTimerWheel} {top : ℕ}
    (hshaped : Shaped settings wheel.levels)
    (h : InSlot (wheel.advanceBuckets top).levels i k entry) :
    InSlot wheel.levels i
      (if i ≤ top then if k + 1 = slotsAt settings i then 0 else k + 1 else k)
      entry := by
  obtain ⟨found, slot, hfound, hk, hslot, hentry⟩ := h
  rw [HTimerWheel.getElem?_advanceBuckets] at hfound
  obtain ⟨level, hlevel, rfl⟩ := Option.map_eq_some_iff.mp hfound
  have hformed := hshaped.formed level (List.mem_of_getElem? hlevel)
  obtain ⟨-, -, -, hslots, -⟩ := hshaped.configured.level_eq hlevel
  refine ⟨level, slot, hlevel, ?_⟩
  split_ifs at hk hslot ⊢ with htop hturn
  · refine ⟨Nat.zero_lt_of_lt hk, ?_, hentry⟩
    rw [Bucket.advance] at hslot
    dsimp only at hslot
    rw [DynamicWheelBuffer.getAt_advance, hturn, ← hslots, ← hformed.length,
      DynamicWheelBuffer.getAt_length] at hslot
    exact hslot
  · rw [Bucket.advance] at hk hslot
    dsimp only at hk hslot
    rw [DynamicWheelBuffer.getAt_advance] at hslot
    refine ⟨?_, hslot, hentry⟩
    rw [← hslots] at hturn
    omega
  · exact ⟨hk, hslot, hentry⟩

theorem InSlot.mem_slotEntries (h : InSlot levels i k entry) :
    entry ∈ slotEntries levels := by
  obtain ⟨level, slot, hlevel, -, hslot, hentry⟩ := h
  refine List.mem_flatMap.mpr ⟨level, List.mem_of_getElem? hlevel, ?_⟩
  exact List.mem_flatten.mpr ⟨slot, List.mem_of_getElem? hslot, hentry⟩

theorem exists_inSlot (hshaped : Shaped settings levels)
    (hentry : entry ∈ slotEntries levels) : ∃ i k, InSlot levels i k entry := by
  obtain ⟨level, hlevel, hentry⟩ := List.mem_flatMap.mp hentry
  obtain ⟨slot, hslot, hentry⟩ := List.mem_flatten.mp hentry
  obtain ⟨i, hi⟩ := List.mem_iff_getElem?.mp hlevel
  obtain ⟨k, hk, hget⟩ := level.bucket.buffer.exists_getAt_of_mem hslot
  rw [(hshaped.formed level hlevel).length] at hk
  exact ⟨i, k, level, slot, hi, hk, hget, hentry⟩

end InSlot

def InTime (settings : List LevelSettings) (entry : Entry) (time : ℤ) : Prop :=
  time ≤ entry.endTime + 2 * resolutionAt settings 0 ∧
    entry.endTime ≤ time + 2 * resolutionAt settings 0

/-- The time is not too late for the entry; and where it is executed then, at the
bottom level, neither too early. -/
def SlotInTime (settings : List LevelSettings) (entry : Entry) (i time : ℕ) : Prop :=
  (time : ℤ) ≤ entry.endTime + 2 * resolutionAt settings 0 ∧
    (i = 0 → entry.endTime ≤ time + 2 * resolutionAt settings 0)

/-- An entry is put into a slot that is emptied in time for it, if it does not come
late. -/
theorem PlacedAt.slotInTime {settings : List LevelSettings} {levels : List WheelLevel}
    {t i : ℕ} {entry : Entry} {level : WheelLevel} (hnested : Nested settings)
    (hshaped : Shaped settings levels) (ht : resolutionAt settings 0 ∣ t)
    (hplaced : PlacedAt t entry levels i level) (hend : (t : ℤ) ≤ entry.endTime)
    (tick : Option (ℕ × ℕ))
    (hkeeps : comesLate settings t tick (entry.getRemainingTime t) = false) :
    SlotInTime settings entry i
      (t + emptiedAfter settings t tick i (level.slotFor t entry)) := by
  obtain ⟨hlevelFor, hfits⟩ := hplaced.fitsLevel hnested hshaped
  obtain ⟨-, hbottom, hres, -, -⟩ := hshaped.configured.level_eq hplaced.found
  have hremaining : (entry.getRemainingTime t : ℤ) = entry.endTime - t := by
    rw [Entry.getRemainingTime_eq]
    omega
  have hlate := comesLate_iff hnested ht (hlevelFor ▸ hfits) tick
  rw [hkeeps, hlevelFor] at hlate
  rw [WheelLevel.slotFor, hbottom, hres]
  generalize entry.getRemainingTime t = remaining at *
  refine ⟨?_, ?_⟩
  · have hle := Nat.not_lt.mp fun h => Bool.false_ne_true (hlate.mpr h)
    omega
  · rintro rfl
    have hle := le_emptiedAfter_bottom (t := t) hnested hfits tick
    omega

namespace TimedWheel

/-- An entry is added with a callback and a delay within the capacity of the top
level. -/
def admits (s : TimedWheel) (label : TimedStep) : Bool :=
  match label with
  | .add call => call.hasCallback && call.msecDelay < (topCapacity s.settings : ℤ)
  | _ => true

/-- No one-shot entry comes late: none that is added, with a delay that is not
negative, and none that has been put aside in a tick and is added again at its end. -/
def keepsTime (s : TimedWheel) (label : TimedStep) : Bool :=
  let t := s.wheel.cachedNow.toNat
  match label with
  | .add call =>
      call.repeating || (0 ≤ call.msecDelay &&
        !comesLate s.settings t s.wheel.phase.inTick call.msecDelay.toNat)
  | .levelDone =>
      match s.wheel.phase with
      | .executing _ 0 => s.wheel.subEntriesToAdd.all fun entry =>
          entry.repeating || !comesLate s.settings t none (entry.getRemainingTime t)
      | _ => true
  | _ => true

/-- In a tick whose levels have been processed down to one of them, or between ticks:
the timers are on schedule, and each one-shot entry is where it is executed in time. -/
structure Punctual (settings : List LevelSettings) (tick : Option (ℕ × ℕ))
    (s : TimedWheel) (t : ℕ) : Prop where
  settings_eq : s.settings = settings
  sound : s.wheel.Sound
  initialized : s.wheel.nowInitialized = true
  schedule : s.OnSchedule t
  divides : ∀ top idx, tick = some (top, idx) → ∀ i ≤ top,
    resolutionAt s.settings i ∣ t
  slots : ∀ i k entry, InSlot s.wheel.levels i k entry → entry.repeating = false →
    SlotInTime s.settings entry i (t + emptiedAfter s.settings t tick i k)
  toExecute : ∀ entry ∈ s.wheel.entriesToExecute, entry.repeating = false →
    InTime s.settings entry t
  toAdd : ∀ entry ∈ s.wheel.subEntriesToAdd, entry.repeating = false →
    (t : ℤ) < entry.endTime
  repeating : ∀ entry ∈ s.wheel.repeatingEntriesToAdd, entry.repeating = true
  executed : ∀ execution ∈ s.wheel.executed, execution.1.repeating = false →
    InTime s.settings execution.1 execution.2

section Step

variable {settings : List LevelSettings} {s s' : TimedWheel} {t top idx : ℕ}

theorem dueSoon_iff (wheel : HTimerWheel) (entry : Entry) :
    wheel.dueSoon entry = true ↔
      2 * entry.getRemainingTime wheel.cachedNow <
        resolutionAt wheel.wheelSettings 0 := by
  have hres : wheel.bucket1Res = resolutionAt wheel.wheelSettings 0 := by
    rw [HTimerWheel.bucket1Res, resolutionAt, List.head?_eq_getElem?]
  unfold HTimerWheel.dueSoon
  rw [hres]
  simp only [Bool.and_eq_true, decide_eq_true_eq]
  omega

theorem Punctual.process {wheel' : HTimerWheel}
    (h : Punctual settings (some (top, idx + 1)) s t)
    (hbottom : 0 < resolutionAt s.settings 0) (htop : idx ≤ top)
    (hidx : idx < s.wheel.levels.length)
    (hwheel : s.wheel.onLevelTickImpl top idx t = some wheel') (hsound : wheel'.Sound) :
    Punctual settings (some (top, idx)) ⟨wheel', s.ticks⟩ t := by
  have hlevel := List.getElem?_eq_getElem hidx
  have hformed := h.sound.shaped.formed _ (List.getElem_mem hidx)
  obtain ⟨entries, hentries, heq⟩ := h.sound.onLevelTickImpl_eq hlevel top t
  rw [hwheel] at heq
  cases heq
  -- the slot is emptied now
  have hnow : ∀ entry ∈ entries, entry.repeating = false →
      SlotInTime s.settings entry idx t := by
    intro entry hentry honeShot
    have hslot := h.slots idx 0 entry ⟨_, entries, hlevel,
      Nat.lt_of_lt_of_le Nat.two_pos hformed.slots, hentries, hentry⟩ honeShot
    rw [emptiedAfter_zero htop, Nat.add_zero] at hslot
    exact hslot
  refine ⟨h.settings_eq, hsound, rfl, h.schedule.congr rfl rfl h.schedule.now.symm
      (map_set_eq hlevel rfl), ?_, ?_, ?_, ?_, h.repeating, h.executed⟩
  · rintro top' idx' ⟨⟩
    exact h.divides top (idx + 1) rfl
  · intro i k entry hin honeShot
    obtain ⟨hin', hkept⟩ := inSlot_clear hlevel hformed hin
    have hslot := h.slots i k entry hin' honeShot
    rw [← emptiedAfter_process hkept] at hslot
    exact hslot
  · intro entry hentry honeShot
    rcases List.mem_append.mp hentry with hentry | hentry
    · exact h.toExecute entry hentry honeShot
    · obtain ⟨hmem, hsoon⟩ := List.mem_filter.mp hentry
      obtain ⟨hlate, hearly⟩ := hnow entry hmem honeShot
      refine ⟨hlate, ?_⟩
      rcases Bool.or_eq_true_iff.mp hsoon with hzero | hsoon
      · exact hearly (of_decide_eq_true hzero)
      · have hremaining := (dueSoon_iff _ _).mp hsoon
        rw [Entry.getRemainingTime_eq] at hremaining
        change 2 * (entry.endTime - t).toNat < resolutionAt s.settings 0 at hremaining
        show entry.endTime ≤ t + 2 * resolutionAt s.settings 0
        omega
  · intro entry hentry honeShot
    rcases List.mem_append.mp hentry with hentry | hentry
    · exact h.toAdd entry hentry honeShot
    · obtain ⟨hmem, hlater⟩ := List.mem_filter.mp hentry
      rw [Bool.not_eq_true', Bool.or_eq_false_iff] at hlater
      have hremaining := mt (dueSoon_iff _ _).mpr (Bool.not_eq_true _ ▸ hlater.2)
      rw [Entry.getRemainingTime_eq] at hremaining
      change ¬ 2 * (entry.endTime - t).toNat < resolutionAt s.settings 0 at hremaining
      omega

theorem Punctual.begin {level : WheelLevel} {n : ℕ} (h : Punctual settings none s t)
    (hnested : Nested s.settings) (hphase : s.wheel.phase = .idle)
    (hlevel : s.wheel.levels[top]? = some level)
    (hdivides : ∀ i ≤ top, resolutionAt s.settings i ∣ t + resolutionAt s.settings 0)
    (habove : ∀ i, top < i → i < s.settings.length →
      ¬ resolutionAt s.settings i ∣ t + resolutionAt s.settings 0)
    (hschedule : OnSchedule ⟨(s.wheel.setCounter top level n).updateNowOffset
      ↑(t + resolutionAt s.settings 0), s.ticksAfter (.tick top)⟩
        (t + resolutionAt s.settings 0)) :
    Punctual settings (some (top, top + 1))
      ⟨(s.wheel.setCounter top level n).updateNowOffset
        ↑(t + resolutionAt s.settings 0), s.ticksAfter (.tick top)⟩
      (t + resolutionAt s.settings 0) := by
  have hpending := h.sound.idle hphase
  rw [HTimerWheel.pendingEntries, List.append_eq_nil_iff, List.append_eq_nil_iff]
    at hpending
  obtain ⟨⟨hexecute, hadd⟩, hrepeating⟩ := hpending
  have hclock : s.wheel.cachedNow ≤ ↑(t + resolutionAt s.settings 0) := by
    rw [h.schedule.now]
    omega
  refine ⟨h.settings_eq,
    (h.sound.set_tickCounter hlevel n).updateNowOffset fun _ => hclock, rfl, hschedule,
    ?_, ?_, ?_, ?_, ?_, h.executed⟩
  · rintro top' idx' ⟨⟩
    exact hdivides
  · intro i k entry hin honeShot
    have hin' : InSlot s.wheel.levels i k entry :=
      inSlot_setCounter hlevel hin
    have hslot := h.slots i k entry hin' honeShot
    obtain ⟨found, -, hfound, -⟩ := hin'
    rw [← emptiedAfter_begin hnested (h.sound.shaped.configured.level_eq hfound).1
      h.schedule.divides hdivides habove k] at hslot
    exact hslot
  · intro entry hentry
    change entry ∈ s.wheel.entriesToExecute at hentry
    rw [hexecute] at hentry
    cases hentry
  · intro entry hentry
    change entry ∈ s.wheel.subEntriesToAdd at hentry
    rw [hadd] at hentry
    cases hentry
  · intro entry hentry
    change entry ∈ s.wheel.repeatingEntriesToAdd at hentry
    rw [hrepeating] at hentry
    cases hentry

theorem Punctual.tick (h : Punctual settings s.wheel.phase.inTick s t)
    (hnested : Nested s.settings) (hstep : s.step (.tick idx) = some s')
    (hsound : s'.wheel.Sound) : ∃ t', Punctual settings s'.wheel.phase.inTick s' t' := by
  obtain ⟨hfirst, wheel', hwheel, rfl⟩ := step_eq hstep
  obtain ⟨hphase, htick⟩ := HTimerWheel.step_onLevelTick hwheel
  rw [hphase] at h
  obtain ⟨level, hlevel, hticked⟩ := ticked_of_onLevelTick hnested.chained
    h.sound.shaped.configured h.schedule (of_decide_eq_true hfirst) htick
  cases hticked with
  | skipped hskips hschedule =>
      subst hskips
      refine ⟨t, ?_⟩
      change Punctual settings s.wheel.phase.inTick _ t
      rw [hphase]
      exact ⟨h.settings_eq, hsound, h.initialized, hschedule, h.divides,
        fun i k entry hin => h.slots i k entry (inSlot_setCounter hlevel hin),
        h.toExecute, h.toAdd, h.repeating, h.executed⟩
  | processed n hprocesses hdivides habove hschedule =>
      refine ⟨t + resolutionAt s.settings 0, ?_⟩
      rw [HTimerWheel.phase_of_onLevelTickImpl hprocesses]
      have hidx := (List.getElem?_eq_some_iff.mp hlevel).1
      have hbegun := h.begin hnested hphase hlevel hdivides habove hschedule
      refine hbegun.process (hnested.chained.resolutionAt_pos (idx.zero_le.trans_lt
        (h.sound.shaped.configured.level_eq hlevel).1)) le_rfl ?_ hprocesses hsound
      change idx < (s.wheel.levels.set idx _).length
      rw [List.length_set]
      exact hidx

theorem Punctual.callback (h : Punctual settings s.wheel.phase.inTick s t)
    (hstep : s.step .callback = some s') (hsound : s'.wheel.Sound) :
    Punctual settings s'.wheel.phase.inTick s' t := by
  obtain ⟨-, wheel', hwheel, rfl⟩ := step_eq hstep
  obtain ⟨top, idx, entry, rest, hphase, hexecute, rfl⟩ :=
    HTimerWheel.step_callback hwheel
  rw [hphase] at h
  have htoExecute := h.toExecute
  rw [hexecute] at htoExecute
  refine ⟨h.settings_eq, hsound, h.initialized, h.schedule.congr rfl rfl rfl rfl,
    h.divides, h.slots, fun e he => htoExecute e (List.mem_cons_of_mem entry he),
    h.toAdd, h.repeating, fun execution hexecution honeShot => ?_⟩
  rcases List.mem_append.mp hexecution with hexecution | hexecution
  · exact h.executed execution hexecution honeShot
  · rw [List.mem_singleton] at hexecution
    rw [hexecution] at honeShot ⊢
    rw [h.schedule.now]
    exact htoExecute entry List.mem_cons_self honeShot

theorem Punctual.callbackReturned (h : Punctual settings s.wheel.phase.inTick s t)
    (hstep : s.step .callbackReturned = some s') (hsound : s'.wheel.Sound) :
    Punctual settings s'.wheel.phase.inTick s' t := by
  obtain ⟨-, wheel', hwheel, rfl⟩ := step_eq hstep
  obtain ⟨top, idx, entry, hphase, rfl⟩ := HTimerWheel.step_callbackReturned hwheel
  rw [hphase] at h
  refine ⟨h.settings_eq, hsound, h.initialized, h.schedule.congr rfl rfl rfl rfl,
    h.divides, h.slots, h.toExecute, h.toAdd, fun e he => ?_, h.executed⟩
  dsimp only at he
  split_ifs at he with hrepeating
  · rcases List.mem_append.mp he with he | he
    · exact h.repeating e he
    · rw [List.mem_singleton.mp he]
      exact hrepeating
  · exact h.repeating e he

theorem Punctual.add {call : AddCall} (h : Punctual settings s.wheel.phase.inTick s t)
    (hnested : Nested s.settings) (hadmits : s.admits (.add call) = true)
    (hkeeps : s.keepsTime (.add call) = true) (hstep : s.step (.add call) = some s')
    (hsound : s'.wheel.Sound) : Punctual settings s'.wheel.phase.inTick s' t := by
  obtain ⟨-, wheel', hwheel, rfl⟩ := step_eq hstep
  obtain ⟨-, hadd⟩ := HTimerWheel.step_add hwheel
  have hnow : s.wheel.getNowOffset s.wheel.cachedNow = s.wheel := by
    rw [HTimerWheel.getNowOffset, if_pos h.initialized]
  unfold HTimerWheel.add HTimerWheel.addNewEntry at hadd
  rw [hnow] at hadd
  simp only [admits, Bool.and_eq_true, decide_eq_true_eq] at hadmits
  have hremaining : ((s.wheel.newEntry call).setAddedTime
      s.wheel.cachedNow).getRemainingTime s.wheel.cachedNow = call.msecDelay.toNat := by
    rw [Entry.getRemainingTime_eq, Entry.endTime, Entry.setAddedTime,
      HTimerWheel.newEntry]
    dsimp only
    rw [add_sub_cancel_left]
  have hfits : ((s.wheel.newEntry call).setAddedTime
      s.wheel.cachedNow).getRemainingTime s.wheel.cachedNow <
        topCapacity s.wheel.wheelSettings := by
    have hcapacity := h.sound.capacity
    have hdelay : call.msecDelay < topCapacity s.wheel.wheelSettings := hadmits.2
    rw [hremaining]
    omega
  obtain ⟨i, level, hplaced, heq⟩ := HTimerWheel.addEntry_eq h.sound.shaped hfits
  rw [heq, Option.map_some] at hadd
  cases hadd
  refine ⟨h.settings_eq, hsound, h.initialized, h.schedule.congr rfl rfl rfl
    (map_set_eq hplaced.found rfl), h.divides, fun i' k e hin honeShot => ?_,
    h.toExecute, h.toAdd, h.repeating, h.executed⟩
  rcases inSlot_withEntry h.sound.shaped hplaced hin with hin | ⟨rfl, rfl, rfl⟩
  · exact h.slots i' k e hin honeShot
  · have honeShot' : call.repeating = false := honeShot
    simp only [keepsTime, honeShot', Bool.false_or, Bool.and_eq_true,
      decide_eq_true_eq, Bool.not_eq_true', h.schedule.now, Int.toNat_natCast] at hkeeps
    rw [← hremaining] at hkeeps
    rw [h.schedule.now] at hplaced hkeeps ⊢
    refine hplaced.slotInTime hnested h.sound.shaped h.schedule.divides ?_ _ hkeeps.2
    rw [Entry.endTime, Entry.setAddedTime, HTimerWheel.newEntry]
    dsimp only
    omega

/-- At the end of a tick, while entries are put into slots: those that are in slots
are there in time, and those that are still to come do not come late. -/
structure Ready (s : TimedWheel) (t : ℕ) (entries : List Entry)
    (levels : List WheelLevel) : Prop where
  counters : levels.map WheelLevel.tickCounter =
    s.wheel.levels.map WheelLevel.tickCounter
  slots : ∀ i k entry, InSlot levels i k entry → entry.repeating = false →
    SlotInTime s.settings entry i (t + emptiedAfter s.settings t none i k)
  pending : ∀ entry ∈ entries, entry.repeating = false → (t : ℤ) < entry.endTime ∧
    comesLate s.settings t none (entry.getRemainingTime t) = false

theorem Ready.placed {entry : Entry} {entries : List Entry} {levels : List WheelLevel}
    {i : ℕ} {level : WheelLevel} (h : Ready s t (entry :: entries) levels)
    (hnested : Nested s.settings) (ht : resolutionAt s.settings 0 ∣ t)
    (hshaped : Shaped s.settings levels) (hplaced : PlacedAt t entry levels i level) :
    Ready s t entries (levels.set i (level.withEntry t entry)) := by
  refine ⟨?_, fun i' k e hin honeShot => ?_,
    fun e he => h.pending e (List.mem_cons_of_mem entry he)⟩
  · rw [← h.counters]
    exact map_set_eq hplaced.found rfl
  · rcases inSlot_withEntry hshaped hplaced hin with hin | ⟨rfl, rfl, rfl⟩
    · exact h.slots i' k e hin honeShot
    · obtain ⟨hend, hkept⟩ := h.pending e List.mem_cons_self honeShot
      exact hplaced.slotInTime hnested hshaped ht hend.le none hkept

theorem Punctual.ready (h : Punctual settings (some (top, 0)) s t)
    (hphase : s.wheel.phase = .executing top 0)
    (hkeeps : s.keepsTime .levelDone = true) :
    Ready s t (s.wheel.subEntriesToAdd ++
      s.wheel.repeatingEntriesToAdd.map fun entry => entry.setAddedTime t)
        (s.wheel.advanceBuckets top).levels := by
  have hshaped : Shaped s.settings s.wheel.levels := h.sound.shaped
  refine ⟨HTimerWheel.map_advanceBuckets (fun _ => rfl) s.wheel top,
    fun i k entry hin honeShot => ?_, fun entry hentry honeShot => ?_⟩
  · have hslot := h.slots _ _ _ (inSlot_advanceBuckets hshaped hin) honeShot
    by_cases htop : i ≤ top
    · rw [if_pos htop, ← emptiedAfter_advance (h.divides top 0 rfl i htop) htop] at hslot
      exact hslot
    · rw [if_neg htop, ← emptiedAfter_above (Nat.not_le.mp htop)] at hslot
      exact hslot
  · rcases List.mem_append.mp hentry with hentry | hentry
    · refine ⟨h.toAdd entry hentry honeShot, ?_⟩
      simp only [keepsTime, hphase, List.all_eq_true, Bool.or_eq_true,
        Bool.not_eq_true', h.schedule.now, Int.toNat_natCast] at hkeeps
      refine (hkeeps entry hentry).resolve_left ?_
      rw [honeShot]
      exact Bool.false_ne_true
    · obtain ⟨e, he, rfl⟩ := List.mem_map.mp hentry
      have hrepeating : e.repeating = true := h.repeating e he
      rw [Entry.setAddedTime, hrepeating] at honeShot
      cases honeShot

theorem Punctual.afterTick {wheel' : HTimerWheel}
    (h : Punctual settings (some (top, 0)) s t)
    (hnested : Nested s.settings) (hphase : s.wheel.phase = .executing top 0)
    (hexecute : s.wheel.entriesToExecute = [])
    (hkeeps : s.keepsTime .levelDone = true)
    (hwheel : (s.wheel.advanceBuckets top).onAfterTick t = some wheel')
    (hsound : HTimerWheel.Sound { wheel' with phase := .idle }) :
    Punctual settings none ⟨{ wheel' with phase := .idle }, s.ticks⟩ t := by
  obtain ⟨levels, heq, -, hready⟩ :=
    @HTimerWheel.onAfterTick_eq (s.wheel.advanceBuckets top) t (Ready s t)
      (fun entry entries levels i level hshaped hready hplaced =>
        hready.placed hnested h.schedule.divides hshaped hplaced)
      (HTimerWheel.shaped_advanceBuckets h.sound.shaped top)
      (fun entry hentry => (h.sound.known_afterTick (fun _ => h.schedule.now.le) entry
        hentry).fits h.sound.capacity le_rfl)
      (h.ready hphase hkeeps)
  rw [hwheel] at heq
  cases heq
  refine ⟨h.settings_eq, hsound, rfl,
    h.schedule.congr rfl rfl h.schedule.now.symm hready.counters, ?_, hready.slots, ?_,
    List.forall_mem_nil _, List.forall_mem_nil _, h.executed⟩
  · rintro top' idx' ⟨⟩
  · intro entry hentry
    change entry ∈ s.wheel.entriesToExecute at hentry
    rw [hexecute] at hentry
    cases hentry

theorem Punctual.levelDone (h : Punctual settings s.wheel.phase.inTick s t)
    (hnested : Nested s.settings) (hkeeps : s.keepsTime .levelDone = true)
    (hstep : s.step .levelDone = some s') (hsound : s'.wheel.Sound) :
    Punctual settings s'.wheel.phase.inTick s' t := by
  obtain ⟨-, wheel', hwheel, rfl⟩ := step_eq hstep
  obtain ⟨hexecute, hlevels⟩ := HTimerWheel.step_levelDone hwheel
  rw [h.schedule.now] at hlevels
  have hwithin := h.sound.within
  rcases hlevels with ⟨top, idx, hphase, himpl⟩ | ⟨top, wheel'', hphase, hafter, rfl⟩
  · rw [hphase] at h hwithin
    rw [HTimerWheel.phase_of_onLevelTickImpl himpl]
    have htop : idx ≤ top := Nat.le_of_succ_le hwithin.1
    have hidx : idx < s.wheel.levels.length := htop.trans_lt hwithin.2
    have hlevel := h.sound.shaped.configured.level_eq (List.getElem?_eq_getElem hidx)
    exact h.process (hnested.chained.resolutionAt_pos (idx.zero_le.trans_lt hlevel.1))
      htop hidx himpl hsound
  · rw [hphase] at h
    exact h.afterTick hnested hphase hexecute hkeeps hafter hsound

theorem le_nextTick (h : OnSchedule s t) (hidx : idx < s.settings.length) :
    t ≤ s.nextTick idx := by
  rcases h.next idx hidx with ⟨hlt, -⟩ | ⟨-, -, heq⟩ | ⟨-, -, heq⟩
  · exact hlt.le
  · exact heq.ge
  · omega

/-- The clock of the ideal timers does not go back. -/
theorem admits_wheelStep {label : TimedStep} (h : OnSchedule s t)
    (hadmits : s.admits label = true)
    (hidx : ∀ idx, label = .tick idx → idx < s.settings.length) :
    s.wheel.admits (s.wheelStep label) = true := by
  cases label with
  | add call => exact hadmits
  | tick idx =>
      have hle := le_nextTick h (hidx idx rfl)
      simp only [wheelStep, HTimerWheel.admits, h.now, Bool.or_eq_true, decide_eq_true_eq]
      exact Or.inr (Int.ofNat_le.mpr hle)
  | callback => rfl
  | callbackReturned => rfl
  | levelDone =>
      simp only [wheelStep, HTimerWheel.admits, le_refl, decide_true, Bool.or_true]

theorem Punctual.of_step {label : TimedStep}
    (h : Punctual settings s.wheel.phase.inTick s t)
    (hnested : Nested settings) (hadmits : s.admits label = true)
    (hkeeps : s.keepsTime label = true) (hstep : s.step label = some s') :
    ∃ t', Punctual settings s'.wheel.phase.inTick s' t' := by
  have hnested' : Nested s.settings := h.settings_eq ▸ hnested
  obtain ⟨-, wheel', hwheel, rfl⟩ := step_eq hstep
  have hidx : ∀ idx, label = .tick idx → idx < s.settings.length := by
    rintro idx rfl
    obtain ⟨-, htick⟩ := HTimerWheel.step_onLevelTick hwheel
    obtain ⟨level, hlevel, -⟩ := Option.bind_eq_some_iff.mp htick
    exact (h.sound.shaped.configured.level_eq hlevel).1
  have hsound : wheel'.Sound := HTimerWheel.sound_of_step h.sound
    (admits_wheelStep h.schedule hadmits hidx) hwheel
  cases label with
  | add call => exact ⟨t, h.add hnested' hadmits hkeeps hstep hsound⟩
  | tick idx => exact h.tick hnested' hstep hsound
  | callback => exact ⟨t, h.callback hstep hsound⟩
  | callbackReturned => exact ⟨t, h.callbackReturned hstep hsound⟩
  | levelDone => exact ⟨t, h.levelDone hnested' hkeeps hstep hsound⟩

theorem punctual_createNew {settings : List LevelSettings} (hsettings : settings ≠ [])
    (hnested : Nested settings) :
    Punctual settings (createNew settings).wheel.phase.inTick (createNew settings) 0 := by
  have hsound := HTimerWheel.sound_createNew hsettings hnested.proper
  have hslots := slotEntries_initLevels settings
  refine ⟨rfl, hsound.updateNowOffset (fun hinit => by cases hinit), rfl,
    onSchedule_createNew hnested.chained, ?_, ?_, List.forall_mem_nil _,
    List.forall_mem_nil _, List.forall_mem_nil _, List.forall_mem_nil _⟩
  · rintro top idx ⟨⟩
  · intro i k entry hin
    have hmem : entry ∈ slotEntries (initLevels settings) := hin.mem_slotEntries
    rw [hslots] at hmem
    cases hmem

theorem Punctual.le_of_mem_held {tick : Option (ℕ × ℕ)} {entry : Entry}
    (h : Punctual settings tick s t) (hentry : entry ∈ s.wheel.held)
    (honeShot : entry.repeating = false) :
    s.wheel.cachedNow ≤ entry.endTime + 2 * resolutionAt settings 0 := by
  rw [h.schedule.now, ← h.settings_eq]
  rcases List.mem_append.mp hentry with hentry | hentry
  · rcases List.mem_append.mp hentry with hentry | hentry
    · obtain ⟨i, k, hin⟩ := exists_inSlot h.sound.shaped hentry
      have hslot := (h.slots i k entry hin honeShot).1
      omega
    · rcases List.mem_append.mp hentry with hentry | hentry
      · rcases List.mem_append.mp hentry with hentry | hentry
        · exact (h.toExecute entry hentry honeShot).1
        · have hadd := h.toAdd entry hentry honeShot
          omega
      · rw [h.repeating entry hentry] at honeShot
        cases honeShot
  · unfold HTimerWheel.calledEntries at hentry
    split at hentry
    · split_ifs at hentry with hrepeating
      · rw [List.mem_singleton.mp hentry, hrepeating] at honeShot
        cases honeShot
      · cases hentry
    · cases hentry

end Step

end TimedWheel

namespace HTimerWheel

/-- A one-shot entry that has been added has been executed, once and in time. Or it is
held, and not over for more than two bottom resolutions. -/
def ExecutedInTime (wheel : HTimerWheel) : Prop :=
  ∀ n call, wheel.added[n]? = some call → call.repeating = false →
    (wheel.timesExecuted n = 1 ∧ ∃ execution ∈ wheel.executed,
      execution.1.number = n ∧ execution.1.call = call ∧
        InTime wheel.wheelSettings execution.1 execution.2) ∨
    (wheel.timesExecuted n = 0 ∧ ∃ entry ∈ wheel.held, entry.number = n ∧
      entry.call = call ∧ wheel.cachedNow ≤
        entry.endTime + 2 * resolutionAt wheel.wheelSettings 0)

end HTimerWheel

namespace TimedWheel

theorem Punctual.executedInTime {settings : List LevelSettings} {s : TimedWheel} {t : ℕ}
    (h : Punctual settings s.wheel.phase.inTick s t) : s.wheel.ExecutedInTime := by
  intro n call hcall honeShot
  have hone := h.sound.conserved.oneShot n call hcall honeShot
  by_cases hexecuted : s.wheel.timesExecuted n = 0
  · refine Or.inr ⟨hexecuted, ?_⟩
    have hheld : n ∈ s.wheel.held.map Entry.number := by
      refine List.count_pos_iff.mp ?_
      rw [HTimerWheel.timesHeld] at hone
      omega
    obtain ⟨entry, hentry, rfl⟩ := List.mem_map.mp hheld
    have hadded := (h.sound.known entry hentry).added
    rw [hcall] at hadded
    cases hadded
    refine ⟨entry, hentry, rfl, rfl, ?_⟩
    have hle := h.le_of_mem_held hentry honeShot
    rw [← h.settings_eq] at hle
    exact hle
  · refine Or.inl ⟨by omega, ?_⟩
    have hmem : n ∈ s.wheel.executed.map fun execution => execution.1.number :=
      List.count_pos_iff.mp (Nat.pos_of_ne_zero hexecuted)
    obtain ⟨execution, hexecution, rfl⟩ := List.mem_map.mp hmem
    have hadded := h.sound.executed execution hexecution
    rw [hcall] at hadded
    cases hadded
    exact ⟨execution, hexecution, rfl, rfl, h.executed execution hexecution honeShot⟩

/-- Between ticks the tick that comes first can begin, and within a tick the next step
of it can be taken. -/
theorem Punctual.exists_step {settings : List LevelSettings} {s : TimedWheel} {t : ℕ}
    (h : Punctual settings s.wheel.phase.inTick s t) (hsettings : settings ≠ []) :
    ∃ label s', (∀ call, label ≠ .add call) ∧ s.step label = some s' := by
  have hstep : ∀ label, s.ticksNext label = true → s.admits label = true →
      (∀ idx, label = .tick idx → idx < s.settings.length) →
      s.wheel.inTurn (s.wheelStep label) = true → ∃ s', s.step label = some s' := by
    intro label hfirst hadmits hidx hturn
    obtain ⟨wheel', heq, -⟩ := HTimerWheel.sound_step h.sound
      (admits_wheelStep h.schedule hadmits hidx) hturn
    refine ⟨⟨wheel', s.ticksAfter label⟩, ?_⟩
    rw [step, if_pos hfirst, heq]
    rfl
  cases hphase : s.wheel.phase with
  | idle =>
      have hlength : 0 < s.settings.length := by
        rw [h.settings_eq]
        exact List.length_pos_of_ne_nil hsettings
      obtain ⟨idx, hidx, hfirst⟩ := Finset.exists_min_image
        (Finset.range s.settings.length) s.nextTick ⟨0, Finset.mem_range.mpr hlength⟩
      rw [Finset.mem_range] at hidx
      obtain ⟨s', hs'⟩ := hstep (.tick idx)
        (decide_eq_true fun j hj => hfirst j (Finset.mem_range.mpr hj)) rfl
        (by rintro idx' ⟨⟩; exact hidx) (by
          rw [wheelStep, HTimerWheel.inTurn, hphase]
          exact decide_eq_true (h.sound.shaped.length ▸ hidx))
      exact ⟨.tick idx, s', fun call h => (by cases h), hs'⟩
  | calling top idx entry =>
      obtain ⟨s', hs'⟩ := hstep .callbackReturned rfl rfl (fun idx h => by cases h) (by
        rw [wheelStep, HTimerWheel.inTurn, hphase])
      exact ⟨.callbackReturned, s', fun call h => (by cases h), hs'⟩
  | executing top idx =>
      cases hexecute : s.wheel.entriesToExecute with
      | nil =>
          obtain ⟨s', hs'⟩ := hstep .levelDone rfl rfl (fun idx h => by cases h) (by
            rw [wheelStep, HTimerWheel.inTurn, hphase, hexecute]
            rfl)
          exact ⟨.levelDone, s', fun call h => (by cases h), hs'⟩
      | cons entry rest =>
          obtain ⟨s', hs'⟩ := hstep .callback rfl rfl (fun idx h => by cases h) (by
            rw [wheelStep, HTimerWheel.inTurn, hphase, hexecute]
            rfl)
          exact ⟨.callback, s', fun call h => (by cases h), hs'⟩

/-- Under ideal timers, where no one-shot entry comes late, each of them is executed
in time, and the wheel goes on. -/
theorem executedInTime_of_run (settings : List LevelSettings) (hsettings : settings ≠ [])
    (hnested : Nested settings) (labels : List TimedStep) (s : TimedWheel)
    (hadmits : Meets step (fun s label => s.admits label = true) (createNew settings)
      labels)
    (hkeeps : Meets step (fun s label => s.keepsTime label = true) (createNew settings)
      labels)
    (h : run step (createNew settings) labels = some s) :
    s.wheel.ExecutedInTime ∧
      ∃ label s', (∀ call, label ≠ .add call) ∧ s.step label = some s' := by
  have hpunctual : ∃ t, Punctual settings s.wheel.phase.inTick s t :=
    run_invariant_of_meets
      (I := fun s => ∃ t, Punctual settings s.wheel.phase.inTick s t)
      (fun s label s' ⟨t, ht⟩ hok hstep => ht.of_step hnested hok.1 hok.2 hstep)
      ⟨0, punctual_createNew hsettings hnested⟩
      ((meets_and step _ _ _ _).mpr ⟨hadmits, hkeeps⟩) h
  obtain ⟨t, ht⟩ := hpunctual
  exact ⟨ht.executedInTime, ht.exists_step hsettings⟩

theorem nested_sampleSettings : Nested HTimerWheel.sampleSettings := by
  refine ⟨?_, fun i hi => ?_, fun i hi => ?_⟩
  · unfold Proper
    decide
  · obtain rfl : i = 0 := Nat.lt_one_iff.mp (Nat.lt_of_succ_lt_succ hi)
    decide
  · obtain rfl : i = 0 := Nat.lt_one_iff.mp (Nat.lt_of_succ_lt_succ hi)
    decide

/-- An entry of the upper level is executed at the bottom one, where its callback adds
another. -/
def sampleTimers : List TimedStep :=
  [.add ⟨true, 45, false⟩, .tick 0, .levelDone, .tick 0, .levelDone, .tick 0, .tick 1,
    .levelDone, .levelDone, .tick 0, .callback, .add ⟨true, 25, false⟩,
    .callbackReturned, .levelDone, .add ⟨true, 12, false⟩, .tick 0, .callback]

theorem executedInTime_of_run_sampleTimers :
    ∃ s, run step (createNew HTimerWheel.sampleSettings) sampleTimers = some s ∧
      s.wheel.ExecutedInTime := by
  have hrun : (run step (createNew HTimerWheel.sampleSettings) sampleTimers).isSome =
      true := by decide +kernel
  obtain ⟨s, h⟩ := Option.isSome_iff_exists.mp hrun
  exact ⟨s, h, (executedInTime_of_run HTimerWheel.sampleSettings (by decide)
    nested_sampleSettings sampleTimers s (by decide +kernel) (by decide +kernel) h).1⟩

/-- The settings of the wheel of `EventContext`. -/
def eventContextSettings : List LevelSettings :=
  [⟨10, 10⟩, ⟨100, 10⟩, ⟨1000, 60⟩, ⟨60000, 60⟩]

theorem nested_eventContextSettings : Nested eventContextSettings := by
  refine ⟨?_, fun i hi => ?_, fun i hi => ?_⟩
  · unfold Proper
    decide
  · have hlt : i < 3 := Nat.lt_of_succ_lt_succ hi
    interval_cases i <;> decide
  · have hlt : i < 3 := Nat.lt_of_succ_lt_succ hi
    interval_cases i <;> decide

def bottomTicks (n : ℕ) : List TimedStep :=
  (List.replicate n [.tick 0, .levelDone]).flatten

/-- An entry that is added at time zero with the delay of one upper resolution. -/
def exactTimers : List TimedStep :=
  .add ⟨true, 100, false⟩ :: bottomTicks 9 ++
    [.tick 0, .tick 1, .levelDone, .levelDone] ++ bottomTicks 9 ++
    [.tick 1, .callback]

/-- It is executed at the second tick of the upper level instead of the first one. -/
theorem not_executedInTime_exactTimers :
    Nested eventContextSettings ∧
      Meets step (fun s label => s.admits label = true) (createNew eventContextSettings)
        exactTimers ∧
      ∃ s, run step (createNew eventContextSettings) exactTimers = some s ∧
        s.wheel.executed = [(⟨0, true, 100, 0, false⟩, 200)] ∧
        ¬ s.wheel.ExecutedInTime := by
  have hrun : (run step (createNew eventContextSettings) exactTimers).map (fun s =>
      (s.settings, s.wheel.added, s.wheel.executed)) =
        some (eventContextSettings, [⟨true, 100, false⟩],
          [(⟨0, true, 100, 0, false⟩, 200)]) := by decide +kernel
  obtain ⟨s, h, heq⟩ := Option.map_eq_some_iff.mp hrun
  obtain ⟨hsettings, hrest⟩ := Prod.mk.inj heq
  obtain ⟨hadded, hexecuted⟩ := Prod.mk.inj hrest
  refine ⟨nested_eventContextSettings, by decide +kernel, s, h, hexecuted,
    fun hinTime => ?_⟩
  rcases hinTime 0 ⟨true, 100, false⟩ (by rw [hadded]; rfl) rfl with
    ⟨-, execution, hexecution, -, -, hlate, -⟩ | ⟨hnone, -⟩
  · rw [hexecuted, List.mem_singleton] at hexecution
    rw [hexecution] at hlate
    change _ ≤ _ + 2 * (resolutionAt s.settings 0 : ℤ) at hlate
    rw [hsettings] at hlate
    exact absurd hlate (by decide)
  · rw [HTimerWheel.timesExecuted, hexecuted] at hnone
    exact absurd hnone (by decide)

end TimedWheel

end Wheel

end Async

end Kclpp
