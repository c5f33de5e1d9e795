import Kclpp.Async.Wheel.HTimerWheel

/-!
# What the steps do to the levels

The steps change the rings and the tick counters of the levels, and nothing else of
them: `Shaped`. Each operation of the wheel is described by what it does to the levels
and to the three pending vectors, for entries that are within the capacity of the top
level and have a callback. `slotEntries` are the entries of all slots.
-/

namespace Kclpp

namespace Async

namespace Wheel

namespace WheelLevel

/-- What the steps leave as it is. -/
def config (level : WheelLevel) : Bool × ℕ × ℕ × ℕ :=
  (level.bucket.isBottom, level.bucket.resolution, level.bucket.nSlots, level.skipTick)

def entries (level : WheelLevel) : List Entry := level.bucket.buffer.buff.flatten

def withBuffer (level : WheelLevel) (buffer : DynamicWheelBuffer (List Entry)) :
    WheelLevel :=
  { level with bucket := { level.bucket with buffer := buffer } }

@[simp] theorem bucket_withBuffer (level : WheelLevel)
    (buffer : DynamicWheelBuffer (List Entry)) :
    (level.withBuffer buffer).bucket = { level.bucket with buffer := buffer } := rfl

@[simp] theorem config_withBuffer (level : WheelLevel)
    (buffer : DynamicWheelBuffer (List Entry)) :
    (level.withBuffer buffer).config = level.config := rfl

end WheelLevel

def slotEntries (levels : List WheelLevel) : List Entry :=
  levels.flatMap WheelLevel.entries

def Configured (settings : List LevelSettings) (levels : List WheelLevel) : Prop :=
  levels.map WheelLevel.config = (initLevels settings).map WheelLevel.config

/-- The levels are those of the settings, but for their rings and tick counters. -/
structure Shaped (settings : List LevelSettings) (levels : List WheelLevel) :
    Prop where
  config : levels.map WheelLevel.config = (initLevels settings).map WheelLevel.config
  formed : ∀ level ∈ levels, level.bucket.Formed

def topCapacity (settings : List LevelSettings) : ℕ :=
  (settings.getLast?.map fun setting => setting.resolution * setting.slots).getD 0

/-- Resolutions are positive, and a level has two slots at least. -/
def Proper (settings : List LevelSettings) : Prop :=
  ∀ setting ∈ settings, 0 < setting.resolution ∧ 2 ≤ setting.slots

theorem initLevels_eq (settings : List LevelSettings) :
    ∀ i : ℕ, (initLevels settings)[i]? = settings[i]?.map fun setting =>
      ({ bucket := Bucket.createNew true setting.resolution setting.slots
         skipTick := (settings[i + 1]?.map fun parent =>
          parent.resolution / setting.resolution).getD 0 } : WheelLevel) := by
  induction settings with
  | nil => exact fun i => rfl
  | cons setting rest ih =>
      cases rest with
      | nil =>
          intro i
          cases i with
          | zero => rfl
          | succ i => rfl
      | cons parent rest =>
          intro i
          cases i with
          | zero => rfl
          | succ i => exact ih i

theorem shaped_initLevels {settings : List LevelSettings} (h : Proper settings) :
    Shaped settings (initLevels settings) := by
  refine ⟨rfl, fun level hlevel => ?_⟩
  obtain ⟨i, hi⟩ := List.mem_iff_getElem?.mp hlevel
  rw [initLevels_eq] at hi
  obtain ⟨setting, hsetting, rfl⟩ := Option.map_eq_some_iff.mp hi
  have hmem := List.mem_of_getElem? hsetting
  exact Bucket.formed_createNew true (h setting hmem).1 (h setting hmem).2

theorem slotEntries_initLevels (settings : List LevelSettings) :
    slotEntries (initLevels settings) = [] := by
  refine List.flatMap_eq_nil_iff.mpr fun level hlevel => ?_
  obtain ⟨i, hi⟩ := List.mem_iff_getElem?.mp hlevel
  rw [initLevels_eq] at hi
  obtain ⟨setting, hsetting, rfl⟩ := Option.map_eq_some_iff.mp hi
  exact List.flatten_eq_nil_iff.mpr fun slot hslot => List.eq_of_mem_replicate hslot

section Shaped

variable {settings : List LevelSettings} {levels : List WheelLevel}

theorem Configured.length (h : Configured settings levels) :
    levels.length = settings.length := by
  have hlength := congrArg List.length h
  rw [List.length_map, List.length_map] at hlength
  rw [hlength]
  clear hlength h
  induction settings with
  | nil => rfl
  | cons setting rest ih =>
      cases rest with
      | nil => rfl
      | cons parent rest =>
          rw [initLevels, List.length_cons, ih]
          rfl

theorem Shaped.configured (h : Shaped settings levels) : Configured settings levels :=
  h.config

theorem Shaped.length (h : Shaped settings levels) :
    levels.length = settings.length :=
  h.configured.length

theorem Configured.config_eq (h : Configured settings levels) {i : ℕ} {level : WheelLevel}
    (hlevel : levels[i]? = some level) :
    ∃ setting, settings[i]? = some setting ∧ level.bucket.isBottom = true ∧
      level.bucket.resolution = setting.resolution ∧
      level.bucket.nSlots = setting.slots ∧
      level.skipTick = (settings[i + 1]?.map fun parent =>
        parent.resolution / setting.resolution).getD 0 := by
  have hconfig : (levels.map WheelLevel.config)[i]? =
      ((initLevels settings).map WheelLevel.config)[i]? := congrArg (·[i]?) h
  rw [List.getElem?_map, List.getElem?_map, hlevel, initLevels_eq] at hconfig
  cases hsetting : settings[i]? with
  | none =>
      rw [hsetting] at hconfig
      cases hconfig
  | some setting =>
      rw [hsetting] at hconfig
      simp only [Option.map_some, Option.some.injEq, WheelLevel.config,
        Bucket.createNew, Prod.mk.injEq] at hconfig
      exact ⟨setting, rfl, hconfig.1, hconfig.2.1, hconfig.2.2.1, hconfig.2.2.2⟩

theorem map_set_eq {α : Type*} {f : WheelLevel → α} {i : ℕ} {level level' : WheelLevel}
    (hlevel : levels[i]? = some level) (hsame : f level' = f level) :
    (levels.set i level').map f = levels.map f := by
  obtain ⟨hlt, rfl⟩ := List.getElem?_eq_some_iff.mp hlevel
  rw [List.map_set, hsame, ← List.getElem_map f, List.set_getElem_self]
  rw [List.length_map]
  exact hlt

theorem Shaped.set (h : Shaped settings levels) {i : ℕ} {level level' : WheelLevel}
    (hlevel : levels[i]? = some level) (hconfig : level'.config = level.config)
    (hformed : level'.bucket.Formed) : Shaped settings (levels.set i level') := by
  refine ⟨(map_set_eq hlevel hconfig).trans h.config, fun l hl => ?_⟩
  rcases List.mem_or_eq_of_mem_set hl with hl | rfl
  · exact h.formed l hl
  · exact hformed

theorem perm_slotEntries {i : ℕ} {level : WheelLevel}
    (hlevel : levels[i]? = some level) :
    (slotEntries levels).Perm (level.entries ++ slotEntries (levels.eraseIdx i)) := by
  obtain ⟨hlt, rfl⟩ := List.getElem?_eq_some_iff.mp hlevel
  exact ((List.getElem_cons_eraseIdx_perm hlt).symm.flatMap_right WheelLevel.entries)

theorem perm_slotEntries_set {i : ℕ} {level : WheelLevel}
    (hlevel : levels[i]? = some level) (level' : WheelLevel) :
    (slotEntries (levels.set i level')).Perm
      (level'.entries ++ slotEntries (levels.eraseIdx i)) := by
  obtain ⟨hlt, rfl⟩ := List.getElem?_eq_some_iff.mp hlevel
  exact ((List.set_perm_cons_eraseIdx hlt level').flatMap_right WheelLevel.entries)

end Shaped

def WheelLevel.slotFor (level : WheelLevel) (now : ℤ) (entry : Entry) : ℕ :=
  slotIdx level.bucket.isBottom level.bucket.resolution (entry.getRemainingTime now)

def WheelLevel.withEntry (level : WheelLevel) (now : ℤ) (entry : Entry) :
    WheelLevel :=
  level.withBuffer
    (level.bucket.buffer.modifyAt (level.slotFor now entry) (· ++ [entry]))

/-- The level is the lowest one whose capacity the remaining time is within. -/
structure PlacedAt (now : ℤ) (entry : Entry) (levels : List WheelLevel) (i : ℕ)
    (level : WheelLevel) : Prop where
  found : levels[i]? = some level
  fits : entry.getRemainingTime now < level.bucket.timeCapacity
  lower : ∀ j lower, j < i → levels[j]? = some lower →
    lower.bucket.timeCapacity ≤ entry.getRemainingTime now

theorem addToLevels_eq (now : ℤ) (entry : Entry) :
    ∀ {levels : List WheelLevel}, (∀ level ∈ levels, level.bucket.Formed) →
      (∃ level ∈ levels, entry.getRemainingTime now < level.bucket.timeCapacity) →
      ∃ i level, PlacedAt now entry levels i level ∧
        addToLevels now entry levels =
          some (levels.set i (level.withEntry now entry))
  | [], _, hfits => by
      obtain ⟨level, hlevel, -⟩ := hfits
      cases hlevel
  | level :: levels, hformed, hfits => by
      by_cases hlt : entry.getRemainingTime now < level.bucket.timeCapacity
      · refine ⟨0, level, ⟨rfl, hlt, fun j lower hj => absurd hj (Nat.not_lt_zero j)⟩,
          ?_⟩
        rw [addToLevels, if_pos hlt,
          Bucket.addEntry_eq (hformed level List.mem_cons_self) hlt]
        rfl
      · have hrest : ∃ level ∈ levels,
            entry.getRemainingTime now < level.bucket.timeCapacity := by
          obtain ⟨l, hl, hfit⟩ := hfits
          rcases List.mem_cons.mp hl with rfl | hl
          · exact absurd hfit hlt
          · exact ⟨l, hl, hfit⟩
        obtain ⟨i, l, hplaced, heq⟩ := addToLevels_eq now entry
          (fun l hl => hformed l (List.mem_cons_of_mem _ hl)) hrest
        refine ⟨i + 1, l, ⟨hplaced.found, hplaced.fits, ?_⟩, ?_⟩
        · intro j lower hj hlower
          cases j with
          | zero =>
              cases hlower
              exact Nat.not_lt.mp hlt
          | succ j => exact hplaced.lower j lower (Nat.lt_of_succ_lt_succ hj) hlower
        · rw [addToLevels, if_neg hlt, heq]
          rfl

theorem Shaped.exists_topLevel {settings : List LevelSettings}
    {levels : List WheelLevel} (h : Shaped settings levels) {n : ℕ}
    (hn : n < topCapacity settings) :
    ∃ level ∈ levels, level.bucket.timeCapacity = topCapacity settings := by
  unfold topCapacity at hn ⊢
  cases hlast : settings.getLast? with
  | none =>
      rw [hlast] at hn
      exact absurd hn (Nat.not_lt_zero n)
  | some setting =>
      rw [List.getLast?_eq_getElem?, ← h.length] at hlast
      have hlt : levels.length - 1 < levels.length := by
        have hlt := (List.getElem?_eq_some_iff.mp hlast).1
        rw [← h.length] at hlt
        exact hlt
      obtain ⟨setting', hsetting, -, hres, hslots, -⟩ :=
        h.configured.config_eq (List.getElem?_eq_getElem hlt)
      rw [hlast] at hsetting
      cases hsetting
      refine ⟨_, List.getElem_mem hlt, ?_⟩
      rw [Bucket.timeCapacity, hres, hslots]
      rfl

theorem HTimerWheel.addEntry_eq {wheel : HTimerWheel} {entry : Entry}
    (h : Shaped wheel.wheelSettings wheel.levels)
    (hlt : entry.getRemainingTime wheel.cachedNow < topCapacity wheel.wheelSettings) :
    ∃ i level, PlacedAt wheel.cachedNow entry wheel.levels i level ∧
      wheel.addEntry entry = some { wheel with
        levels := wheel.levels.set i (level.withEntry wheel.cachedNow entry) } := by
  obtain ⟨top, htop, hcapacity⟩ := h.exists_topLevel hlt
  rw [← hcapacity] at hlt
  obtain ⟨i, level, hplaced, heq⟩ :=
    addToLevels_eq wheel.cachedNow entry h.formed ⟨top, htop, hlt⟩
  refine ⟨i, level, hplaced, ?_⟩
  rw [HTimerWheel.addEntry, heq]
  rfl

section Placed

variable {settings : List LevelSettings} {levels : List WheelLevel} {now : ℤ}
  {entry : Entry} {i : ℕ} {level : WheelLevel}

theorem PlacedAt.formed (h : Shaped settings levels)
    (hplaced : PlacedAt now entry levels i level) : level.bucket.Formed :=
  h.formed level (List.mem_of_getElem? hplaced.found)

theorem PlacedAt.shaped (h : Shaped settings levels)
    (hplaced : PlacedAt now entry levels i level) :
    Shaped settings (levels.set i (level.withEntry now entry)) :=
  h.set hplaced.found rfl (Bucket.formed_modifyAt (hplaced.formed h) _ _)

theorem PlacedAt.slot_lt (h : Shaped settings levels)
    (hplaced : PlacedAt now entry levels i level) :
    level.slotFor now entry < level.bucket.nSlots :=
  slotIdx_lt (hplaced.formed h).resolution (hplaced.formed h).slots hplaced.fits _

theorem PlacedAt.perm (h : Shaped settings levels)
    (hplaced : PlacedAt now entry levels i level) :
    (slotEntries (levels.set i (level.withEntry now entry))).Perm
      (entry :: slotEntries levels) := by
  have hformed := hplaced.formed h
  obtain ⟨slot, hslot⟩ := level.bucket.buffer.exists_getAt
    (by rw [hformed.length]; exact Nat.lt_of_lt_of_le Nat.two_pos hformed.slots)
    (level.slotFor now entry)
  have hlevel : (level.withEntry now entry).entries.Perm (entry :: level.entries) := by
    have hbefore := level.bucket.buffer.perm_flatten hslot
    have hafter := level.bucket.buffer.perm_flatten_modifyAt hslot (· ++ [entry])
    refine hafter.trans ?_
    rw [List.append_assoc]
    exact List.perm_middle.trans (hbefore.symm.cons entry)
  exact (perm_slotEntries_set hplaced.found _).trans
    ((hlevel.append_right _).trans ((perm_slotEntries hplaced.found).symm.cons entry))

end Placed

namespace HTimerWheel

theorem processUpperBucketSlots_eq (entries : List Entry) :
    ∀ wheel : HTimerWheel, (∀ entry ∈ entries, entry.hasCallback = true) →
      wheel.processUpperBucketSlots entries = some { wheel with
        entriesToExecute :=
          wheel.entriesToExecute ++ entries.filter wheel.dueSoon
        subEntriesToAdd := wheel.subEntriesToAdd ++
          entries.filter fun entry => !wheel.dueSoon entry } := by
  induction entries with
  | nil =>
      intro wheel hgood
      rw [processUpperBucketSlots, List.filter_nil, List.filter_nil, List.append_nil,
        List.append_nil]
  | cons entry entries ih =>
      intro wheel hgood
      have hentry := hgood entry List.mem_cons_self
      have hrest := fun e he => hgood e (List.mem_cons_of_mem entry he)
      rw [processUpperBucketSlots]
      by_cases hsoon : wheel.dueSoon entry = true
      · rw [if_pos hsoon, if_pos hentry, ih _ hrest,
          List.filter_cons_of_pos hsoon, List.filter_cons_of_neg (by simp [hsoon]),
          List.append_cons wheel.entriesToExecute entry (entries.filter wheel.dueSoon)]
        rfl
      · rw [if_neg hsoon, if_pos hentry, ih _ hrest,
          List.filter_cons_of_neg hsoon, List.filter_cons_of_pos (by simp [hsoon]),
          List.append_cons wheel.subEntriesToAdd entry
            (entries.filter fun entry => !wheel.dueSoon entry)]
        rfl

/-- A level is processed: its slot `0` is cleared, and what was in it is executed or
put aside. -/
theorem processBucket_eq {wheel : HTimerWheel} {idx : ℕ} {level : WheelLevel}
    (hlevel : wheel.levels[idx]? = some level) (hformed : level.bucket.Formed)
    (hgood : ∀ entry ∈ level.entries, entry.hasCallback = true) :
    ∃ entries, level.bucket.buffer.getAt 0 = some entries ∧
      wheel.processBucket idx = some { wheel with
        levels := wheel.levels.set idx
          (level.withBuffer (level.bucket.buffer.modifyAt 0 fun _ => []))
        entriesToExecute := wheel.entriesToExecute ++
          entries.filter fun entry => idx = 0 || wheel.dueSoon entry
        subEntriesToAdd := wheel.subEntriesToAdd ++
          entries.filter fun entry => !(idx = 0 || wheel.dueSoon entry) } := by
  obtain ⟨entries, hentries, htake⟩ := Bucket.takeSlot_eq hformed
  have hgood' : ∀ entry ∈ entries, entry.hasCallback = true := fun entry hentry =>
    hgood entry (List.mem_flatten.mpr ⟨entries, List.mem_of_getElem? hentries, hentry⟩)
  refine ⟨entries, hentries, ?_⟩
  rw [processBucket, hlevel, Option.bind_some, htake, Option.bind_some]
  dsimp only
  by_cases hidx : idx = 0
  · have hall : entries.filter Entry.hasCallback = entries :=
      List.filter_eq_self.mpr hgood'
    simp only [hidx, if_true, hall, decide_true, Bool.true_or, Bool.not_true,
      List.filter_true, List.filter_false, List.append_nil]
    rfl
  · rw [if_neg hidx, processUpperBucketSlots_eq entries _ hgood']
    simp only [hidx, decide_false, Bool.false_or]
    rfl

theorem addEntry_cachedNow {wheel wheel' : HTimerWheel} {entry : Entry}
    (h : wheel.addEntry entry = some wheel') : wheel'.cachedNow = wheel.cachedNow := by
  obtain ⟨levels, -, rfl⟩ := Option.map_eq_some_iff.mp h
  rfl

theorem foldlM_addNewEntry (entries : List Entry) :
    ∀ wheel : HTimerWheel, entries.foldlM addNewEntry wheel =
      (entries.map fun entry =>
        entry.setAddedTime wheel.cachedNow).foldlM addEntry wheel := by
  induction entries with
  | nil => exact fun wheel => rfl
  | cons entry entries ih =>
      intro wheel
      rw [List.map_cons, List.foldlM_cons, List.foldlM_cons, addNewEntry]
      cases hadd : wheel.addEntry (entry.setAddedTime wheel.cachedNow) with
      | none => rfl
      | some wheel' =>
          have hrest := ih wheel'
          rw [addEntry_cachedNow hadd] at hrest
          exact hrest

theorem foldlM_addEntry {settings : List LevelSettings} {now : ℤ}
    {P : List Entry → List WheelLevel → Prop}
    (hstep : ∀ entry entries levels i level, Shaped settings levels →
      P (entry :: entries) levels → PlacedAt now entry levels i level →
      P entries (levels.set i (level.withEntry now entry)))
    (entries : List Entry) :
    ∀ wheel : HTimerWheel, wheel.wheelSettings = settings → wheel.cachedNow = now →
      (∀ entry ∈ entries, entry.getRemainingTime now < topCapacity settings) →
      Shaped settings wheel.levels → P entries wheel.levels →
      ∃ levels, entries.foldlM addEntry wheel = some { wheel with levels := levels } ∧
        Shaped settings levels ∧ P [] levels := by
  induction entries with
  | nil =>
      intro wheel hsettings hnow hfits hshaped hP
      exact ⟨wheel.levels, rfl, hshaped, hP⟩
  | cons entry entries ih =>
      rintro wheel rfl rfl hfits hshaped hP
      obtain ⟨i, level, hplaced, heq⟩ :=
        addEntry_eq hshaped (hfits entry List.mem_cons_self)
      obtain ⟨levels, hfold, hshaped', hP'⟩ := ih
        { wheel with
          levels := wheel.levels.set i (level.withEntry wheel.cachedNow entry) }
        rfl rfl (fun e he => hfits e (List.mem_cons_of_mem _ he))
        (hplaced.shaped hshaped) (hstep entry entries _ i level hshaped hP hplaced)
      refine ⟨levels, ?_, hshaped', hP'⟩
      rw [List.foldlM_cons, heq]
      exact hfold

/-- What a tick does last: it reads the clock, and adds what has been put aside and
what repeats. -/
theorem onAfterTick_eq {wheel : HTimerWheel} {clock : ℤ}
    {P : List Entry → List WheelLevel → Prop}
    (hstep : ∀ entry entries levels i level, Shaped wheel.wheelSettings levels →
      P (entry :: entries) levels → PlacedAt clock entry levels i level →
      P entries (levels.set i (level.withEntry clock entry)))
    (hshaped : Shaped wheel.wheelSettings wheel.levels)
    (hfits : ∀ entry ∈ wheel.subEntriesToAdd ++
      wheel.repeatingEntriesToAdd.map fun entry => entry.setAddedTime clock,
      entry.getRemainingTime clock < topCapacity wheel.wheelSettings)
    (hP : P (wheel.subEntriesToAdd ++
      wheel.repeatingEntriesToAdd.map fun entry => entry.setAddedTime clock)
      wheel.levels) :
    ∃ levels, wheel.onAfterTick clock = some { wheel with
        cachedNow := clock
        nowInitialized := true
        levels := levels
        subEntriesToAdd := []
        repeatingEntriesToAdd := [] } ∧
      Shaped wheel.wheelSettings levels ∧ P [] levels := by
  obtain ⟨levels, hsub, hshaped', hP'⟩ := foldlM_addEntry
    (P := fun entries => P (entries ++ wheel.repeatingEntriesToAdd.map fun entry =>
      entry.setAddedTime clock))
    (fun entry entries => hstep entry _) wheel.subEntriesToAdd
    (wheel.updateNowOffset clock) rfl rfl
    (fun entry hentry => hfits entry (List.mem_append_left _ hentry)) hshaped hP
  obtain ⟨levels', hrepeating, hshaped'', hP''⟩ := foldlM_addEntry hstep
    (wheel.repeatingEntriesToAdd.map fun entry : Entry => entry.setAddedTime clock)
    ({ wheel.updateNowOffset clock with
      levels := levels, subEntriesToAdd := [] } : HTimerWheel) rfl rfl
    (fun entry hentry => hfits entry (List.mem_append_right _ hentry)) hshaped' hP'
  refine ⟨levels', ?_, hshaped'', hP''⟩
  have hadd : (wheel.updateNowOffset clock).addSubEntries =
      some { wheel.updateNowOffset clock with
        levels := levels, subEntriesToAdd := [] } := by
    rw [addSubEntries]
    exact congrArg _ hsub
  rw [onAfterTick, hadd, Option.bind_some, reAddRepeatingEntries, foldlM_addNewEntry]
  exact congrArg _ hrepeating

theorem getElem?_advanceBuckets (wheel : HTimerWheel) (top i : ℕ) :
    (wheel.advanceBuckets top).levels[i]? = wheel.levels[i]?.map fun level =>
      if i ≤ top then { level with bucket := level.bucket.advance } else level := by
  unfold advanceBuckets
  dsimp only
  by_cases hi : i < wheel.levels.length
  · by_cases htop : i ≤ top
    · rw [List.getElem?_append_left (by simp; omega), List.getElem?_map,
        List.getElem?_take_of_lt (by omega)]
      simp [htop]
    · rw [List.getElem?_append_right (by simp; omega)]
      simp [htop]
      congr 1
      omega
  · rw [List.getElem?_eq_none (by simp; omega), List.getElem?_eq_none (by omega)]
    rfl

theorem map_advanceBuckets {α : Type*} {f : WheelLevel → α}
    (hf : ∀ level : WheelLevel, f { level with bucket := level.bucket.advance } = f level)
    (wheel : HTimerWheel) (top : ℕ) :
    (wheel.advanceBuckets top).levels.map f = wheel.levels.map f := by
  refine List.ext_getElem? fun i => ?_
  rw [List.getElem?_map, List.getElem?_map, getElem?_advanceBuckets, Option.map_map]
  refine congrArg (Option.map · _) (funext fun level => ?_)
  dsimp only [Function.comp_apply]
  split_ifs
  · exact hf level
  · rfl

theorem slotEntries_advanceBuckets (wheel : HTimerWheel) (top : ℕ) :
    slotEntries (wheel.advanceBuckets top).levels = slotEntries wheel.levels := by
  unfold slotEntries
  rw [List.flatMap_def, List.flatMap_def, map_advanceBuckets fun _ => rfl]

theorem shaped_advanceBuckets {wheel : HTimerWheel} {settings : List LevelSettings}
    (h : Shaped settings wheel.levels) (top : ℕ) :
    Shaped settings (wheel.advanceBuckets top).levels := by
  refine ⟨(map_advanceBuckets (fun _ => rfl) wheel top).trans h.config,
    fun level hlevel => ?_⟩
  rcases List.mem_append.mp hlevel with hlevel | hlevel
  · obtain ⟨l, hl, rfl⟩ := List.mem_map.mp hlevel
    exact Bucket.formed_advance (h.formed l (List.mem_of_mem_take hl))
  · exact h.formed level (List.mem_of_mem_drop hlevel)

end HTimerWheel

end Wheel

end Async

end Kclpp
