import Kclpp.Async.Wheel.Levels

/-!
# What the operations leave of the rings

Whatever the entries are, with or without a callback, the operations of the wheel move
them about and leave the rest of a level as it is: its configuration, its tick counter
and where its ring stands. Only a tick counts, and only `advanceBuckets` turns a ring.
`HTimerWheel.frame` is what the other operations keep.
-/

namespace Kclpp

namespace Async

namespace Wheel

/-- What a level has besides its entries. -/
def WheelLevel.frame (level : WheelLevel) : (Bool × ℕ × ℕ × ℕ) × ℕ × ℕ × ℕ :=
  (level.config, level.tickCounter, level.bucket.buffer.currentIndex,
    level.bucket.buffer.buff.length)

theorem WheelLevel.frame_eq_iff {level level' : WheelLevel} :
    level'.frame = level.frame ↔ level'.config = level.config ∧
      level'.tickCounter = level.tickCounter ∧
      level'.bucket.buffer.currentIndex = level.bucket.buffer.currentIndex ∧
      level'.bucket.buffer.buff.length = level.bucket.buffer.buff.length := by
  simp only [frame, Prod.mk.injEq]

theorem WheelLevel.frame_modifyAt (level : WheelLevel) (idx : ℕ)
    (f : List Entry → List Entry) :
    (level.withBuffer (level.bucket.buffer.modifyAt idx f)).frame = level.frame :=
  WheelLevel.frame_eq_iff.mpr
    ⟨rfl, rfl, rfl, level.bucket.buffer.length_buff_modifyAt idx f⟩

theorem Bucket.exists_modifyAt_of_addEntry {bucket bucket' : Bucket} {nowTime : ℤ}
    {entry : Entry} (h : bucket.addEntry nowTime entry = some bucket') :
    ∃ idx, bucket' =
      { bucket with buffer := bucket.buffer.modifyAt idx (· ++ [entry]) } := by
  obtain ⟨idx, -, h⟩ := Option.bind_eq_some_iff.mp h
  split_ifs at h with hidx
  exact ⟨idx, (Option.some.inj h).symm⟩

theorem Bucket.exists_modifyAt_of_takeSlot {bucket bucket' : Bucket}
    {entries : List Entry} (h : bucket.takeSlot = some (entries, bucket')) :
    ∃ idx, bucket' =
      { bucket with buffer := bucket.buffer.modifyAt idx fun _ => [] } := by
  obtain ⟨idx, -, h⟩ := Option.bind_eq_some_iff.mp h
  split_ifs at h with hidx
  obtain ⟨slot, -, heq⟩ := Option.map_eq_some_iff.mp h
  cases heq
  exact ⟨idx, rfl⟩

theorem map_frame_addToLevels {now : ℤ} {entry : Entry} :
    ∀ {levels levels' : List WheelLevel}, addToLevels now entry levels = some levels' →
      levels'.map WheelLevel.frame = levels.map WheelLevel.frame
  | [], _, h => by cases h
  | level :: levels, levels', h => by
      rw [addToLevels] at h
      split_ifs at h with hfits
      · obtain ⟨bucket, hbucket, rfl⟩ := Option.map_eq_some_iff.mp h
        obtain ⟨idx, rfl⟩ := Bucket.exists_modifyAt_of_addEntry hbucket
        exact congrArg (· :: levels.map WheelLevel.frame)
          (level.frame_modifyAt idx (· ++ [entry]))
      · obtain ⟨rest, hrest, rfl⟩ := Option.map_eq_some_iff.mp h
        exact congrArg (level.frame :: ·) (map_frame_addToLevels hrest)

namespace HTimerWheel

/-- The time and the phase of the wheel, and what its levels have besides their
entries. -/
def frame (wheel : HTimerWheel) :
    List LevelSettings × ℤ × Phase × List ((Bool × ℕ × ℕ × ℕ) × ℕ × ℕ × ℕ) :=
  (wheel.wheelSettings, wheel.cachedNow, wheel.phase,
    wheel.levels.map WheelLevel.frame)

section Frame

variable {wheel wheel' : HTimerWheel} {entry : Entry} {clock : ℤ}

theorem frame_eq_iff : wheel'.frame = wheel.frame ↔
    wheel'.wheelSettings = wheel.wheelSettings ∧ wheel'.cachedNow = wheel.cachedNow ∧
      wheel'.phase = wheel.phase ∧
      wheel'.levels.map WheelLevel.frame = wheel.levels.map WheelLevel.frame := by
  simp only [frame, Prod.mk.injEq]

theorem frame_addEntry (h : wheel.addEntry entry = some wheel') :
    wheel'.frame = wheel.frame := by
  obtain ⟨levels, hlevels, rfl⟩ := Option.map_eq_some_iff.mp h
  exact frame_eq_iff.mpr ⟨rfl, rfl, rfl, map_frame_addToLevels hlevels⟩

theorem frame_foldlM {f : HTimerWheel → Entry → Option HTimerWheel}
    (hf : ∀ wheel entry wheel', f wheel entry = some wheel' → wheel'.frame = wheel.frame)
    (entries : List Entry) (h : entries.foldlM f wheel = some wheel') :
    wheel'.frame = wheel.frame := by
  induction entries generalizing wheel with
  | nil =>
      cases h
      rfl
  | cons entry entries ih =>
      rw [List.foldlM_cons] at h
      obtain ⟨next, hnext, hrest⟩ := Option.bind_eq_some_iff.mp h
      exact (ih hrest).trans (hf wheel entry next hnext)

theorem frame_add (hclock : wheel.cachedNow = clock) {call : AddCall}
    (h : wheel.add clock call = some wheel') : wheel'.frame = wheel.frame := by
  obtain ⟨next, hnext, rfl⟩ := Option.map_eq_some_iff.mp h
  refine (frame_addEntry hnext).trans ?_
  unfold getNowOffset
  split_ifs with hinit
  · rfl
  · exact frame_eq_iff.mpr ⟨rfl, hclock.symm, rfl, rfl⟩

theorem frame_onAfterTick (h : wheel.onAfterTick clock = some wheel') :
    wheel'.frame = (wheel.updateNowOffset clock).frame := by
  obtain ⟨next, hsub, hrepeating⟩ := Option.bind_eq_some_iff.mp h
  obtain ⟨next', hnext', rfl⟩ := Option.map_eq_some_iff.mp hsub
  obtain ⟨wheel'', hwheel'', rfl⟩ := Option.map_eq_some_iff.mp hrepeating
  have hfirst := frame_foldlM (fun _ _ _ => frame_addEntry) _ hnext'
  have hthen := frame_foldlM (fun _ _ _ => frame_addEntry) _ hwheel''
  exact hthen.trans hfirst

theorem frame_processUpperBucketSlots (entries : List Entry)
    (h : wheel.processUpperBucketSlots entries = some wheel') :
    wheel'.frame = wheel.frame := by
  induction entries generalizing wheel with
  | nil =>
      cases h
      rfl
  | cons entry entries ih =>
      rw [processUpperBucketSlots] at h
      split_ifs at h with hsoon hcallback hcallback
      · exact (ih h).trans rfl
      · exact (ih h).trans rfl
      · exact ih h

theorem frame_processBucket {idx : ℕ} (h : wheel.processBucket idx = some wheel') :
    wheel'.frame = wheel.frame := by
  obtain ⟨level, hlevel, h⟩ := Option.bind_eq_some_iff.mp h
  obtain ⟨⟨entries, bucket⟩, htake, h⟩ := Option.bind_eq_some_iff.mp h
  obtain ⟨slot, rfl⟩ := Bucket.exists_modifyAt_of_takeSlot htake
  have hlevels : (wheel.levels.set idx (level.withBuffer
      (level.bucket.buffer.modifyAt slot fun _ => []))).map WheelLevel.frame =
        wheel.levels.map WheelLevel.frame :=
    map_set_eq hlevel (level.frame_modifyAt slot fun _ => [])
  dsimp only at h
  split_ifs at h with hidx
  · cases h
    exact frame_eq_iff.mpr ⟨rfl, rfl, rfl, hlevels⟩
  · exact (frame_processUpperBucketSlots entries h).trans
      (frame_eq_iff.mpr ⟨rfl, rfl, rfl, hlevels⟩)

theorem frame_onLevelTickImpl {top idx : ℕ}
    (h : wheel.onLevelTickImpl top idx clock = some wheel') :
    wheel'.frame =
      frame { wheel.updateNowOffset clock with phase := .executing top idx } := by
  obtain ⟨next, hnext, rfl⟩ := Option.map_eq_some_iff.mp h
  obtain ⟨hsettings, hnow, -, hlevels⟩ := frame_eq_iff.mp (frame_processBucket hnext)
  exact frame_eq_iff.mpr ⟨hsettings, hnow, rfl, hlevels⟩

theorem exists_level_of_frame (h : wheel'.frame = wheel.frame) {i : ℕ}
    {level' : WheelLevel} (hlevel : wheel'.levels[i]? = some level') :
    ∃ level, wheel.levels[i]? = some level ∧ level'.frame = level.frame := by
  obtain ⟨-, -, -, hlevels⟩ := frame_eq_iff.mp h
  have hframe : (wheel'.levels.map WheelLevel.frame)[i]? =
      (wheel.levels.map WheelLevel.frame)[i]? := by rw [hlevels]
  rw [List.getElem?_map, List.getElem?_map, hlevel] at hframe
  obtain ⟨level, hfound, hsame⟩ := Option.map_eq_some_iff.mp hframe.symm
  exact ⟨level, hfound, hsame.symm⟩

theorem map_levels_of_frame (h : wheel'.frame = wheel.frame) {α : Type*}
    {f : WheelLevel → α} (g : (Bool × ℕ × ℕ × ℕ) × ℕ × ℕ × ℕ → α)
    (hf : ∀ level, f level = g level.frame) :
    wheel'.levels.map f = wheel.levels.map f := by
  obtain rfl : f = g ∘ WheelLevel.frame := funext hf
  obtain ⟨-, -, -, hlevels⟩ := frame_eq_iff.mp h
  rw [← List.map_map, ← List.map_map, hlevels]

end Frame

end HTimerWheel

end Wheel

end Async

end Kclpp
