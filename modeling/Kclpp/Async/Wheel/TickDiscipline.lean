import Kclpp.Async.Wheel.Lateness
import Kclpp.Async.Wheel.Frames

/-!
# How often the rings turn

Under ideal timers each ring turns once in every resolution of its level, although the
handler of a level above it may do so for it. `TracedWheel` is the wheel under its
timers together with what has been done to each ring, and with the ticks that have been
processed, one after the other. `Disciplined` is what the trace comes to at a time of
the wheel, between two ticks and in the middle of one. It holds for any settings whose
resolutions divide each other, whatever the slots are and whatever is added.
-/

namespace Kclpp

namespace Async

namespace Wheel

open Transition (run run_invariant run_cons)

/-- What is done to the ring of a level: a slot of it is processed, or it turns to the
next slot. -/
inductive RingEvent where
  | processed (slot : ℕ)
  | advanced
  deriving DecidableEq, Repr

/-- The turns of a ring, from its first slot on: each slot is processed, just once,
before the ring turns to the next one. -/
def turns (slots : ℕ) : ℕ → List RingEvent
  | 0 => []
  | n + 1 => turns slots n ++ [.processed (n % slots), .advanced]

namespace HTimerWheel

/-- A tick of the level is skipped: it is not the top one, and its counter comes to its
last value. -/
def skips (wheel : HTimerWheel) (idx : ℕ) : Bool :=
  wheel.levels[idx]?.any fun level =>
    idx ≠ wheel.levels.length - 1 && level.tickCounter + 1 = level.skipTick

def currentSlot (wheel : HTimerWheel) (idx : ℕ) : ℕ :=
  (wheel.levels[idx]?.map fun level => level.bucket.buffer.getRealIndex 0).getD 0

@[simp] theorem currentSlot_updateNowOffset (wheel : HTimerWheel) (clock : ℤ) (i : ℕ) :
    (wheel.updateNowOffset clock).currentSlot i = wheel.currentSlot i := rfl

theorem map_setCounter {wheel : HTimerWheel} {idx : ℕ} {level : WheelLevel}
    (hlevel : wheel.levels[idx]? = some level) (n : ℕ) {α : Type*} {f : WheelLevel → α}
    (hf : f { level with tickCounter := n } = f level) :
    (wheel.setCounter idx level n).levels.map f = wheel.levels.map f :=
  map_set_eq hlevel hf

theorem currentSlot_setCounter {wheel : HTimerWheel} {idx : ℕ} {level : WheelLevel}
    (hlevel : wheel.levels[idx]? = some level) (n i : ℕ) :
    (wheel.setCounter idx level n).currentSlot i = wheel.currentSlot i := by
  unfold currentSlot
  rw [← List.getElem?_map, ← List.getElem?_map, map_setCounter hlevel n rfl]

def processes (wheel : HTimerWheel) : WheelStep → Option ℕ
  | .onLevelTick idx _ => if wheel.skips idx then none else some idx
  | .levelDone _ =>
      match wheel.phase with
      | .executing _ (idx + 1) => some idx
      | _ => none
  | _ => none

def advances (wheel : HTimerWheel) : WheelStep → Option ℕ
  | .levelDone _ =>
      match wheel.phase with
      | .executing top 0 => some top
      | _ => none
  | _ => none

def ringEvents (wheel : HTimerWheel) (label : WheelStep) (i : ℕ) : List RingEvent :=
  (if wheel.processes label = some i then [.processed (wheel.currentSlot i)] else []) ++
    if (wheel.advances label).any fun top => i ≤ top then [.advanced] else []

/-- The tick that a step processes, with its time. -/
def handles (wheel : HTimerWheel) : WheelStep → List (ℕ × ℤ)
  | .onLevelTick idx clock => if wheel.skips idx then [] else [(idx, clock)]
  | _ => []

section Events

variable {wheel : HTimerWheel} {top idx : ℕ} (clock : ℤ)

theorem ringEvents_of_skips (h : wheel.skips idx = true) (i : ℕ) :
    wheel.ringEvents (.onLevelTick idx clock) i = [] := by
  simp [ringEvents, processes, advances, h]

theorem ringEvents_of_not_skips (h : wheel.skips idx = false) (i : ℕ) :
    wheel.ringEvents (.onLevelTick idx clock) i =
      if idx = i then [.processed (wheel.currentSlot i)] else [] := by
  simp [ringEvents, processes, advances, h]

theorem ringEvents_of_succ (h : wheel.phase = .executing top (idx + 1)) (i : ℕ) :
    wheel.ringEvents (.levelDone clock) i =
      if idx = i then [.processed (wheel.currentSlot i)] else [] := by
  simp [ringEvents, processes, advances, h]

theorem ringEvents_of_zero (h : wheel.phase = .executing top 0) (i : ℕ) :
    wheel.ringEvents (.levelDone clock) i = if i ≤ top then [.advanced] else [] := by
  simp [ringEvents, processes, advances, h]

end Events

theorem phase_of_onLevelTick {wheel wheel' : HTimerWheel} {idx : ℕ} {clock : ℤ}
    (h : wheel.onLevelTick idx clock = some wheel') :
    wheel'.phase = if wheel.skips idx then wheel.phase else .executing idx idx := by
  obtain ⟨level, hlevel, h⟩ := Option.bind_eq_some_iff.mp h
  unfold skips
  rw [hlevel]
  split_ifs at h with htop hlast
  · rw [phase_of_onLevelTickImpl h]
    simp [htop]
  · cases h
    simp [htop, hlast]
  · rw [phase_of_onLevelTickImpl h]
    simp [hlast]

/-- What is traced as the processing of a slot is a call of `onLevelTickImpl`, with the
rings as they are. -/
theorem exists_onLevelTickImpl_of_processes {wheel wheel' : HTimerWheel}
    {label : WheelStep} {i : ℕ} (h : wheel.step label = some wheel')
    (hprocesses : wheel.processes label = some i) :
    ∃ (started : HTimerWheel) (top : ℕ) (clock : ℤ),
      started.onLevelTickImpl top i clock = some wheel' ∧
      started.levels.map WheelLevel.bucket = wheel.levels.map WheelLevel.bucket := by
  cases label with
  | onLevelTick idx clock =>
      rw [processes] at hprocesses
      split_ifs at hprocesses with hskips
      cases hprocesses
      obtain ⟨-, htick⟩ := step_onLevelTick h
      obtain ⟨level, hlevel, hcases⟩ := onLevelTick_cases htick
      rcases hcases with ⟨hidx, hlast, rfl⟩ | ⟨-, n, -, himpl⟩
      · refine absurd ?_ hskips
        simp [skips, hlevel, hlast]
        omega
      · exact ⟨_, _, _, himpl, map_setCounter hlevel n rfl⟩
  | levelDone clock =>
      obtain ⟨-, hlevels⟩ := step_levelDone h
      rcases hlevels with ⟨top, idx, hphase, himpl⟩ | ⟨top, wheel'', hphase, -⟩
      · simp only [processes, hphase, Option.some.injEq] at hprocesses
        subst hprocesses
        exact ⟨wheel, top, clock, himpl, rfl⟩
      · simp [processes, hphase] at hprocesses
  | _ => cases hprocesses

theorem exists_onAfterTick_of_advances {wheel wheel' : HTimerWheel} {label : WheelStep}
    {top : ℕ} (h : wheel.step label = some wheel')
    (hadvances : wheel.advances label = some top) :
    ∃ clock wheel'', (wheel.advanceBuckets top).onAfterTick clock = some wheel'' ∧
      wheel' = { wheel'' with phase := .idle } := by
  cases label with
  | levelDone clock =>
      obtain ⟨-, hlevels⟩ := step_levelDone h
      rcases hlevels with ⟨top', idx, hphase, -⟩ | ⟨top', wheel'', hphase, hafter, rfl⟩
      · simp [advances, hphase] at hadvances
      · simp only [advances, hphase, Option.some.injEq] at hadvances
        subst hadvances
        exact ⟨clock, wheel'', hafter, rfl⟩
  | _ => cases hadvances

theorem cachedNow_of_onLevelTick {wheel wheel' : HTimerWheel} {idx : ℕ} {clock : ℤ}
    (h : wheel.onLevelTick idx clock = some wheel') (hskips : wheel.skips idx = false) :
    wheel'.cachedNow = clock := by
  obtain ⟨level, hlevel, h⟩ := Option.bind_eq_some_iff.mp h
  unfold skips at hskips
  rw [hlevel] at hskips
  split_ifs at h with htop hlast
  · exact (frame_eq_iff.mp (frame_onLevelTickImpl h)).2.1
  · simp [htop, hlast] at hskips
  · exact (frame_eq_iff.mp (frame_onLevelTickImpl h)).2.1

end HTimerWheel

/-- The wheel under its timers, with what has been done to each ring, and the ticks
that have been processed. -/
structure TracedWheel where
  timed : TimedWheel
  ring : ℕ → List RingEvent := fun _ => []
  handled : List (ℕ × ℤ) := []

namespace TracedWheel

def createNew (settings : List LevelSettings) : TracedWheel where
  timed := TimedWheel.createNew settings

def step (s : TracedWheel) (label : TimedStep) : Option TracedWheel :=
  (s.timed.step label).map fun timed =>
    { timed := timed
      ring := fun i =>
        s.ring i ++ s.timed.wheel.ringEvents (s.timed.wheelStep label) i
      handled := s.handled ++ s.timed.wheel.handles (s.timed.wheelStep label) }

theorem map_timed_run (labels : List TimedStep) (s : TracedWheel) :
    (run step s labels).map timed = run TimedWheel.step s.timed labels := by
  induction labels generalizing s with
  | nil => rfl
  | cons label labels ih =>
      rw [run_cons, run_cons, step]
      cases s.timed.step label with
      | none => rfl
      | some timed => exact ih _

end TracedWheel

/-- The highest level that ticks at a time. -/
def highestAt (settings : List LevelSettings) (time : ℕ) : ℕ :=
  Nat.findGreatest (fun i => i < settings.length ∧ resolutionAt settings i ∣ time)
    settings.length

/-- The ticks that are processed up to a time, one at each multiple of the bottom
resolution. -/
def handledUpTo (settings : List LevelSettings) (n : ℕ) : List (ℕ × ℤ) :=
  (List.range n).map fun k =>
    (highestAt settings ((k + 1) * resolutionAt settings 0),
      ((k + 1) * resolutionAt settings 0 : ℕ))

/-- How often a ring has turned. Those of the levels of a tick have not yet turned for
it. -/
def advancesBy (settings : List LevelSettings) (t : ℕ) : Option (ℕ × ℕ) → ℕ → ℕ
  | none, i => t / resolutionAt settings i
  | some (top, _), i =>
      if i ≤ top then t / resolutionAt settings i - 1 else t / resolutionAt settings i

def slotProcessed : Option (ℕ × ℕ) → ℕ → Bool
  | none, _ => false
  | some (top, idx), i => idx ≤ i && i ≤ top

/-- What has been done to the ring of a level. -/
def ringAt (settings : List LevelSettings) (t : ℕ) (tick : Option (ℕ × ℕ)) (i : ℕ) :
    List RingEvent :=
  turns (slotsAt settings i) (advancesBy settings t tick i) ++
    if slotProcessed tick i
    then [.processed (advancesBy settings t tick i % slotsAt settings i)] else []

section Times

variable {settings : List LevelSettings} {t top idx i : ℕ}

theorem highestAt_eq (hidx : idx < settings.length)
    (hdivides : resolutionAt settings idx ∣ t)
    (habove : ∀ i, idx < i → i < settings.length → ¬ resolutionAt settings i ∣ t) :
    highestAt settings t = idx :=
  Nat.findGreatest_eq_iff.mpr ⟨hidx.le, fun _ => ⟨hidx, hdivides⟩,
    fun i hi _ hboth => habove i hi hboth.1 hboth.2⟩

/-- From a multiple of the bottom resolution to the next one, a level that ticks there
comes to one tick more, and the others do not. -/
theorem div_add_eq (hchained : Chained settings) (hi : i < settings.length)
    (ht : resolutionAt settings 0 ∣ t) :
    (t + resolutionAt settings 0) / resolutionAt settings i =
      if resolutionAt settings i ∣ t + resolutionAt settings 0
      then t / resolutionAt settings i + 1 else t / resolutionAt settings i := by
  have hbottom := hchained.resolutionAt_pos (i.zero_le.trans_lt hi)
  have hres := hchained.resolutionAt_pos hi
  have hmod := mod_add_eq hbottom hres (hchained.dvd i.zero_le hi) ht
  have hdiv := Nat.div_add_mod t (resolutionAt settings i)
  have hlt := Nat.mod_lt (t + resolutionAt settings 0) hres
  split_ifs at hmod ⊢ with hdvd
  · refine Nat.div_eq_of_eq_mul_right hres ?_
    rw [Nat.mul_succ]
    omega
  · have hdiv' := Nat.div_add_mod (t + resolutionAt settings 0) (resolutionAt settings i)
    refine Nat.eq_of_mul_eq_mul_left hres ?_
    omega

/-- In a tick the counts are those from before it. -/
theorem advancesBy_begin (hchained : Chained settings) (hi : i < settings.length)
    (ht : resolutionAt settings 0 ∣ t)
    (hdivides : ∀ i ≤ top, resolutionAt settings i ∣ t + resolutionAt settings 0)
    (habove : ∀ i, top < i → i < settings.length →
      ¬ resolutionAt settings i ∣ t + resolutionAt settings 0) :
    advancesBy settings (t + resolutionAt settings 0) (some (top, idx)) i =
      advancesBy settings t none i := by
  have hdiv := div_add_eq hchained hi ht
  unfold advancesBy
  dsimp only
  split_ifs with htop
  · rw [if_pos (hdivides i htop)] at hdiv
    rw [hdiv, Nat.add_sub_cancel]
  · rw [if_neg (habove i (Nat.not_le.mp htop) hi)] at hdiv
    exact hdiv

theorem advancesBy_end (hchained : Chained settings) (hi : i < settings.length)
    (ht : 0 < t) (hdivides : ∀ i ≤ top, resolutionAt settings i ∣ t) :
    advancesBy settings t none i =
      if i ≤ top then advancesBy settings t (some (top, idx)) i + 1
      else advancesBy settings t (some (top, idx)) i := by
  unfold advancesBy
  dsimp only
  split_ifs with htop
  · have hpos : 0 < t / resolutionAt settings i :=
      Nat.div_pos (Nat.le_of_dvd ht (hdivides i htop)) (hchained.resolutionAt_pos hi)
    omega
  · rfl

theorem ringAt_begin (hchained : Chained settings) (hi : i < settings.length)
    (ht : resolutionAt settings 0 ∣ t)
    (hdivides : ∀ i ≤ top, resolutionAt settings i ∣ t + resolutionAt settings 0)
    (habove : ∀ i, top < i → i < settings.length →
      ¬ resolutionAt settings i ∣ t + resolutionAt settings 0) :
    ringAt settings (t + resolutionAt settings 0) (some (top, top + 1)) i =
      ringAt settings t none i := by
  have hnone : slotProcessed (some (top, top + 1)) i = false := by
    unfold slotProcessed
    simp only [Bool.and_eq_false_iff, decide_eq_false_iff_not]
    omega
  unfold ringAt
  rw [advancesBy_begin hchained hi ht hdivides habove, hnone]
  rfl

theorem ringAt_process (htop : idx ≤ top) :
    ringAt settings t (some (top, idx)) i = ringAt settings t (some (top, idx + 1)) i ++
      if idx = i then [.processed
        (advancesBy settings t (some (top, idx + 1)) i % slotsAt settings i)]
      else [] := by
  have hsame : advancesBy settings t (some (top, idx)) i =
      advancesBy settings t (some (top, idx + 1)) i := rfl
  unfold ringAt
  rw [hsame, List.append_assoc]
  refine congrArg _ ?_
  by_cases hidx : idx = i
  · subst hidx
    simp [slotProcessed, htop]
  · have hprocessed : slotProcessed (some (top, idx)) i =
        slotProcessed (some (top, idx + 1)) i := by
      have hiff : idx ≤ i ↔ idx + 1 ≤ i := by omega
      unfold slotProcessed
      dsimp only
      rw [decide_eq_decide.mpr hiff]
    rw [hprocessed, if_neg hidx, List.append_nil]

theorem ringAt_end (hchained : Chained settings) (hi : i < settings.length)
    (ht : 0 < t) (hdivides : ∀ i ≤ top, resolutionAt settings i ∣ t) :
    ringAt settings t none i =
      ringAt settings t (some (top, 0)) i ++ if i ≤ top then [.advanced] else [] := by
  unfold ringAt
  rw [@advancesBy_end _ _ _ 0 _ hchained hi ht hdivides]
  by_cases htop : i ≤ top
  · simp [slotProcessed, htop, turns]
  · simp [slotProcessed, htop]

end Times

namespace TimedWheel

end TimedWheel

namespace TracedWheel

open TimedWheel

/-- In a tick whose levels have been processed down to one of them, or between ticks:
each ring has turned as often as it should have at the time of the wheel, and the
trace says so. -/
structure Disciplined (settings : List LevelSettings) (tick : Option (ℕ × ℕ))
    (s : TracedWheel) (t : ℕ) : Prop where
  settings_eq : s.timed.settings = settings
  configured : Configured settings s.timed.wheel.levels
  schedule : s.timed.OnSchedule t
  within : ∀ top idx, tick = some (top, idx) → idx ≤ top + 1 ∧ 0 < t ∧
    ∀ i ≤ top, resolutionAt settings i ∣ t
  turned : ∀ i level, s.timed.wheel.levels[i]? = some level →
    level.bucket.buffer.buff.length = slotsAt settings i ∧
      level.bucket.buffer.currentIndex =
        advancesBy settings t tick i % slotsAt settings i
  ring : ∀ i < settings.length, s.ring i = ringAt settings t tick i
  handled : s.handled = handledUpTo settings (t / resolutionAt settings 0)

section Step

variable {settings : List LevelSettings} {s s' : TracedWheel} {t top idx : ℕ}
  {tick : Option (ℕ × ℕ)}

theorem exists_bucket_of_setCounter {wheel : HTimerWheel} {level level' : WheelLevel}
    {n i : ℕ} (hlevel : wheel.levels[idx]? = some level)
    (hlevel' : (wheel.setCounter idx level n).levels[i]? = some level') :
    ∃ old, wheel.levels[i]? = some old ∧ level'.bucket = old.bucket := by
  have hbuckets : ((wheel.setCounter idx level n).levels.map WheelLevel.bucket)[i]? =
      (wheel.levels.map WheelLevel.bucket)[i]? := by
    rw [HTimerWheel.map_setCounter hlevel n rfl]
  rw [List.getElem?_map, List.getElem?_map, hlevel'] at hbuckets
  obtain ⟨old, hold, hsame⟩ := Option.map_eq_some_iff.mp hbuckets.symm
  exact ⟨old, hold, hsame.symm⟩

theorem configured_setCounter {wheel : HTimerWheel} {level : WheelLevel}
    (hlevel : wheel.levels[idx]? = some level) (n : ℕ)
    (h : Configured settings wheel.levels) :
    Configured settings (wheel.setCounter idx level n).levels :=
  (HTimerWheel.map_setCounter hlevel n rfl).trans h

/-- Entries are moved about, and what the trace says is right as before. -/
theorem Disciplined.of_frame (h : Disciplined settings tick s t) {wheel' : HTimerWheel}
    (hframe : wheel'.frame =
      HTimerWheel.frame { s.timed.wheel with phase := wheel'.phase })
    {tick' : Option (ℕ × ℕ)} {ring' : ℕ → List RingEvent}
    (hwithin : ∀ top idx, tick' = some (top, idx) → idx ≤ top + 1 ∧ 0 < t ∧
      ∀ i ≤ top, resolutionAt settings i ∣ t)
    (hadvances : ∀ i < settings.length,
      advancesBy settings t tick' i = advancesBy settings t tick i)
    (hring : ∀ i < settings.length, ring' i = ringAt settings t tick' i) :
    Disciplined settings tick' ⟨⟨wheel', s.timed.ticks⟩, ring', s.handled⟩ t := by
  obtain ⟨hsettings, hnow, -, -⟩ := HTimerWheel.frame_eq_iff.mp hframe
  refine ⟨hsettings.trans h.settings_eq,
    (HTimerWheel.map_levels_of_frame hframe Prod.fst fun level => rfl).trans h.configured,
    h.schedule.congr hsettings rfl hnow
      (HTimerWheel.map_levels_of_frame hframe (fun frame => frame.2.1) fun level => rfl),
    hwithin, fun i level' hlevel' => ?_, hring, h.handled⟩
  obtain ⟨level, hlevel, hsame⟩ := HTimerWheel.exists_level_of_frame hframe hlevel'
  obtain ⟨-, -, hindex, hlength⟩ := WheelLevel.frame_eq_iff.mp hsame
  obtain ⟨hlength', hindex'⟩ := h.turned i level hlevel
  refine ⟨hlength.trans hlength', ?_⟩
  rw [hindex, hindex', hadvances i (h.configured.level_eq hlevel).1]

theorem Disciplined.currentSlot_eq (h : Disciplined settings tick s t) {i : ℕ}
    (hi : i < settings.length) : s.timed.wheel.currentSlot i =
      advancesBy settings t tick i % slotsAt settings i := by
  have hlt : i < s.timed.wheel.levels.length := h.configured.length ▸ hi
  obtain ⟨hlength, hindex⟩ := h.turned i _ (List.getElem?_eq_getElem hlt)
  rw [HTimerWheel.currentSlot, List.getElem?_eq_getElem hlt, Option.map_some,
    Option.getD_some, DynamicWheelBuffer.getRealIndex, hlength, hindex, Nat.add_zero,
    Nat.mod_mod]

theorem Disciplined.process (h : Disciplined settings (some (top, idx + 1)) s t)
    {wheel' : HTimerWheel}
    (hwheel : s.timed.wheel.onLevelTickImpl top idx t = some wheel') :
    Disciplined settings (some (top, idx)) ⟨⟨wheel', s.timed.ticks⟩, fun i =>
      s.ring i ++ if idx = i then [.processed (s.timed.wheel.currentSlot i)] else [],
      s.handled⟩ t := by
  obtain ⟨hle, hpos, hdivides⟩ := h.within top (idx + 1) rfl
  have hframe := HTimerWheel.frame_onLevelTickImpl hwheel
  rw [HTimerWheel.updateNowOffset, ← h.schedule.now] at hframe
  refine h.of_frame ?_ ?_ (fun i hi => rfl) fun i hi => ?_
  · rw [HTimerWheel.phase_of_onLevelTickImpl hwheel]
    exact hframe
  · rintro top' idx' ⟨⟩
    exact ⟨Nat.le_of_succ_le hle, hpos, hdivides⟩
  · rw [h.ring i hi, h.currentSlot_eq hi]
    exact (ringAt_process (Nat.le_of_succ_le_succ hle)).symm

theorem Disciplined.advance (h : Disciplined settings (some (top, 0)) s t)
    (hchained : Chained settings) :
    Disciplined settings none ⟨⟨s.timed.wheel.advanceBuckets top, s.timed.ticks⟩,
      fun i => s.ring i ++ if i ≤ top then [.advanced] else [], s.handled⟩ t := by
  obtain ⟨-, hpos, hdivides⟩ := h.within top 0 rfl
  refine ⟨h.settings_eq,
    (HTimerWheel.map_advanceBuckets (fun _ => rfl) _ top).trans h.configured,
    h.schedule.congr rfl rfl rfl (HTimerWheel.map_advanceBuckets (fun _ => rfl) _ top),
    ?_, fun i level hlevel => ?_, fun i hi => ?_, h.handled⟩
  · rintro top' idx' ⟨⟩
  · rw [HTimerWheel.getElem?_advanceBuckets] at hlevel
    obtain ⟨level', hlevel', rfl⟩ := Option.map_eq_some_iff.mp hlevel
    obtain ⟨hlength, hindex⟩ := h.turned i level' hlevel'
    rw [@advancesBy_end _ _ _ 0 _ hchained (h.configured.level_eq hlevel').1 hpos
      hdivides]
    split_ifs with htop
    · refine ⟨hlength, ?_⟩
      rw [Bucket.advance, DynamicWheelBuffer.advance, hlength, hindex, Nat.mod_add_mod]
    · exact ⟨hlength, hindex⟩
  · rw [ringAt_end hchained hi hpos hdivides, ← h.ring i hi]

theorem Disciplined.skip {level : WheelLevel} {n : ℕ} (h : Disciplined settings none s t)
    (hlevel : s.timed.wheel.levels[idx]? = some level)
    (hschedule : OnSchedule ⟨s.timed.wheel.setCounter idx level n,
      s.timed.ticksAfter (.tick idx)⟩ t) :
    Disciplined settings none ⟨⟨s.timed.wheel.setCounter idx level n,
      s.timed.ticksAfter (.tick idx)⟩, s.ring, s.handled⟩ t := by
  refine ⟨h.settings_eq, configured_setCounter hlevel n h.configured, hschedule,
    h.within, fun i level' hlevel' => ?_, h.ring, h.handled⟩
  obtain ⟨old, hold, hbucket⟩ := exists_bucket_of_setCounter hlevel hlevel'
  rw [hbucket]
  exact h.turned i old hold

theorem Disciplined.begin {level : WheelLevel} {n : ℕ} (h : Disciplined settings none s t)
    (hchained : Chained settings) (hlevel : s.timed.wheel.levels[top]? = some level)
    (hdivides : ∀ i ≤ top, resolutionAt settings i ∣ t + resolutionAt settings 0)
    (habove : ∀ i, top < i → i < settings.length →
      ¬ resolutionAt settings i ∣ t + resolutionAt settings 0)
    (hschedule : OnSchedule ⟨(s.timed.wheel.setCounter top level n).updateNowOffset
      ↑(t + resolutionAt settings 0), s.timed.ticksAfter (.tick top)⟩
        (t + resolutionAt settings 0)) :
    Disciplined settings (some (top, top + 1))
      ⟨⟨(s.timed.wheel.setCounter top level n).updateNowOffset
        ↑(t + resolutionAt settings 0), s.timed.ticksAfter (.tick top)⟩, s.ring,
        s.handled ++ [(top, ((t + resolutionAt settings 0 : ℕ) : ℤ))]⟩
      (t + resolutionAt settings 0) := by
  have htop : top < settings.length := (h.configured.level_eq hlevel).1
  have hbottom := hchained.resolutionAt_pos (top.zero_le.trans_lt htop)
  have hdvd : resolutionAt settings 0 ∣ t := h.settings_eq ▸ h.schedule.divides
  refine ⟨h.settings_eq, configured_setCounter hlevel n h.configured, hschedule, ?_,
    fun i level' hlevel' => ?_, fun i hi => ?_, ?_⟩
  · rintro top' idx' ⟨⟩
    exact ⟨le_rfl, Nat.add_pos_right t hbottom, hdivides⟩
  · obtain ⟨old, hold, hbucket⟩ := exists_bucket_of_setCounter hlevel hlevel'
    rw [hbucket, advancesBy_begin hchained (h.configured.level_eq hold).1 hdvd hdivides
      habove]
    exact h.turned i old hold
  · rw [ringAt_begin hchained hi hdvd hdivides habove, ← h.ring i hi]
  · have hcount : (t + resolutionAt settings 0) / resolutionAt settings 0 =
        t / resolutionAt settings 0 + 1 := Nat.add_div_right t hbottom
    have htime : (t / resolutionAt settings 0 + 1) * resolutionAt settings 0 =
        t + resolutionAt settings 0 := by
      rw [Nat.succ_mul, Nat.div_mul_cancel hdvd]
    rw [hcount, handledUpTo, List.range_succ, List.map_append, List.map_singleton, htime,
      highestAt_eq htop (hdivides top le_rfl) habove, h.handled]
    rfl

theorem step_eq {label : TimedStep} (h : s.step label = some s') :
    ∃ timed', s.timed.step label = some timed' ∧ s' = ⟨timed', fun i =>
      s.ring i ++ s.timed.wheel.ringEvents (s.timed.wheelStep label) i,
      s.handled ++ s.timed.wheel.handles (s.timed.wheelStep label)⟩ := by
  obtain ⟨timed', htimed, rfl⟩ := Option.map_eq_some_iff.mp h
  exact ⟨timed', htimed, rfl⟩

/-- A tick that is skipped leaves the rings as they are. One that is processed comes to
the next multiple of the bottom resolution. -/
theorem Disciplined.of_tick (h : Disciplined settings s.timed.wheel.phase.inTick s t)
    (hchained : Chained settings) (hstep : s.step (.tick idx) = some s') :
    ∃ t', Disciplined settings s'.timed.wheel.phase.inTick s' t' := by
  obtain ⟨timed', htimed, rfl⟩ := step_eq hstep
  obtain ⟨hfirst, wheel', hwheel, rfl⟩ := TimedWheel.step_eq htimed
  obtain ⟨hphase, htick⟩ := HTimerWheel.step_onLevelTick hwheel
  have hphase' := HTimerWheel.phase_of_onLevelTick htick
  rw [hphase] at h hphase'
  obtain ⟨level, hlevel, hticked⟩ := ticked_of_onLevelTick (h.settings_eq ▸ hchained)
    (h.settings_eq ▸ h.configured) h.schedule (of_decide_eq_true hfirst) htick
  cases hticked with
  | skipped hset hschedule =>
      have hskips : s.timed.wheel.skips idx = true := by
        by_contra hnot
        rw [if_neg hnot, hset] at hphase'
        exact Phase.noConfusion (hphase.symm.trans hphase')
      have hring : (fun i => s.ring i ++ s.timed.wheel.ringEvents
          (s.timed.wheelStep (.tick idx)) i) = s.ring :=
        funext fun i => by
          rw [wheelStep, HTimerWheel.ringEvents_of_skips _ hskips, List.append_nil]
      have hhandled : s.handled ++ s.timed.wheel.handles
          (s.timed.wheelStep (.tick idx)) = s.handled := by
        rw [wheelStep, HTimerWheel.handles, if_pos hskips, List.append_nil]
      subst hset
      refine ⟨t, ?_⟩
      rw [hring, hhandled]
      change Disciplined settings s.timed.wheel.phase.inTick _ t
      rw [hphase]
      exact h.skip hlevel hschedule
  | processed n hprocesses hdivides habove hschedule =>
      have hskips : s.timed.wheel.skips idx = false := by
        by_contra hnot
        rw [if_pos (Bool.not_eq_false _ ▸ hnot),
          HTimerWheel.phase_of_onLevelTickImpl hprocesses] at hphase'
        cases hphase'
      have htime : (s.timed.nextTick idx : ℤ) =
          (t + resolutionAt s.timed.settings 0 : ℕ) := by
        rw [← HTimerWheel.cachedNow_of_onLevelTick htick hskips]
        exact (HTimerWheel.frame_eq_iff.mp
          (HTimerWheel.frame_onLevelTickImpl hprocesses)).2.1
      rw [h.settings_eq] at htime hprocesses hdivides habove hschedule
      have hring : (fun i => s.ring i ++ s.timed.wheel.ringEvents
          (s.timed.wheelStep (.tick idx)) i) = fun i => s.ring i ++
            if idx = i then [.processed (s.timed.wheel.currentSlot i)] else [] :=
        funext fun i => by rw [wheelStep, HTimerWheel.ringEvents_of_not_skips _ hskips]
      have hhandled : s.timed.wheel.handles (s.timed.wheelStep (.tick idx)) =
          [(idx, ((t + resolutionAt settings 0 : ℕ) : ℤ))] := by
        rw [wheelStep, HTimerWheel.handles, if_neg (Bool.not_eq_true _ ▸ hskips), htime]
      refine ⟨t + resolutionAt settings 0, ?_⟩
      rw [hring, hhandled, HTimerWheel.phase_of_onLevelTickImpl hprocesses]
      have hbegun := h.begin hchained hlevel hdivides habove hschedule
      have hdone := hbegun.process hprocesses
      simp only [HTimerWheel.currentSlot_updateNowOffset,
        HTimerWheel.currentSlot_setCounter hlevel] at hdone
      exact hdone

theorem Disciplined.of_quiet (h : Disciplined settings s.timed.wheel.phase.inTick s t)
    {label : TimedStep} {wheel' : HTimerWheel}
    (hticks : s.timed.ticksAfter label = s.timed.ticks)
    (hring : ∀ i, s.timed.wheel.ringEvents (s.timed.wheelStep label) i = [])
    (hhandled : s.timed.wheel.handles (s.timed.wheelStep label) = [])
    (hframe : wheel'.frame =
      HTimerWheel.frame { s.timed.wheel with phase := wheel'.phase })
    (hphase : wheel'.phase.inTick = s.timed.wheel.phase.inTick) :
    Disciplined settings wheel'.phase.inTick ⟨⟨wheel', s.timed.ticksAfter label⟩,
      fun i => s.ring i ++ s.timed.wheel.ringEvents (s.timed.wheelStep label) i,
      s.handled ++ s.timed.wheel.handles (s.timed.wheelStep label)⟩ t := by
  simp only [hticks, hring, hhandled, List.append_nil, hphase]
  exact h.of_frame hframe h.within (fun i hi => rfl) h.ring

theorem Disciplined.of_levelDone (h : Disciplined settings s.timed.wheel.phase.inTick s t)
    (hchained : Chained settings) (hstep : s.step .levelDone = some s') :
    Disciplined settings s'.timed.wheel.phase.inTick s' t := by
  obtain ⟨timed', htimed, rfl⟩ := step_eq hstep
  obtain ⟨-, wheel', hwheel, rfl⟩ := TimedWheel.step_eq htimed
  obtain ⟨-, hlevels⟩ := HTimerWheel.step_levelDone hwheel
  rw [h.schedule.now] at hlevels
  have hhandled : s.handled ++ s.timed.wheel.handles (s.timed.wheelStep .levelDone) =
      s.handled := List.append_nil s.handled
  rcases hlevels with ⟨top, idx, hphase, himpl⟩ | ⟨top, wheel'', hphase, hafter, rfl⟩
  · have hring : (fun i => s.ring i ++ s.timed.wheel.ringEvents
        (s.timed.wheelStep .levelDone) i) = fun i => s.ring i ++
          if idx = i then [.processed (s.timed.wheel.currentSlot i)] else [] :=
      funext fun i => by rw [wheelStep, HTimerWheel.ringEvents_of_succ _ hphase]
    rw [hphase] at h
    rw [hring, hhandled, HTimerWheel.phase_of_onLevelTickImpl himpl]
    exact h.process himpl
  · have hring : (fun i => s.ring i ++ s.timed.wheel.ringEvents
        (s.timed.wheelStep .levelDone) i) = fun i => s.ring i ++
          if i ≤ top then [.advanced] else [] :=
      funext fun i => by rw [wheelStep, HTimerWheel.ringEvents_of_zero _ hphase]
    rw [hphase] at h
    rw [hring, hhandled]
    have hadvanced := h.advance hchained
    obtain ⟨hsettings, hnow, -, hlevels⟩ :=
      HTimerWheel.frame_eq_iff.mp (HTimerWheel.frame_onAfterTick hafter)
    have hframe : HTimerWheel.frame { wheel'' with phase := .idle } =
        HTimerWheel.frame { s.timed.wheel.advanceBuckets top with phase := .idle } :=
      HTimerWheel.frame_eq_iff.mpr
        ⟨hsettings, hnow.trans h.schedule.now.symm, rfl, hlevels⟩
    exact hadvanced.of_frame hframe hadvanced.within (fun i hi => rfl) hadvanced.ring

theorem Disciplined.of_step {label : TimedStep}
    (h : Disciplined settings s.timed.wheel.phase.inTick s t)
    (hchained : Chained settings) (hstep : s.step label = some s') :
    ∃ t', Disciplined settings s'.timed.wheel.phase.inTick s' t' := by
  cases label with
  | tick idx => exact h.of_tick hchained hstep
  | levelDone => exact ⟨t, h.of_levelDone hchained hstep⟩
  | add call =>
      obtain ⟨timed', htimed, rfl⟩ := step_eq hstep
      obtain ⟨-, wheel', hwheel, rfl⟩ := TimedWheel.step_eq htimed
      obtain ⟨-, hadd⟩ := HTimerWheel.step_add hwheel
      have hframe := HTimerWheel.frame_add rfl hadd
      obtain ⟨hsettings, hnow, hphase, hlevels⟩ := HTimerWheel.frame_eq_iff.mp hframe
      refine ⟨t, h.of_quiet rfl (fun i => rfl) rfl ?_ (congrArg Phase.inTick hphase)⟩
      exact HTimerWheel.frame_eq_iff.mpr ⟨hsettings, hnow, rfl, hlevels⟩
  | callback =>
      obtain ⟨timed', htimed, rfl⟩ := step_eq hstep
      obtain ⟨-, wheel', hwheel, rfl⟩ := TimedWheel.step_eq htimed
      obtain ⟨top, idx, entry, rest, hphase, -, rfl⟩ := HTimerWheel.step_callback hwheel
      exact ⟨t, h.of_quiet rfl (fun i => rfl) rfl rfl (by rw [hphase]; rfl)⟩
  | callbackReturned =>
      obtain ⟨timed', htimed, rfl⟩ := step_eq hstep
      obtain ⟨-, wheel', hwheel, rfl⟩ := TimedWheel.step_eq htimed
      obtain ⟨top, idx, entry, hphase, rfl⟩ := HTimerWheel.step_callbackReturned hwheel
      exact ⟨t, h.of_quiet rfl (fun i => rfl) rfl rfl (by rw [hphase]; rfl)⟩

end Step

/-- The middle level ticks alone for the bottom one, and all three tick together. -/
def sampleTicks : List TimedStep :=
  [.tick 1, .levelDone, .levelDone, .tick 0, .tick 0, .tick 2, .levelDone, .levelDone,
    .levelDone, .tick 1]

end TracedWheel

end Wheel

end Async

end Kclpp
