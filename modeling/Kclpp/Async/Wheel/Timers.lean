import Kclpp.Async.Wheel.Conservation

/-!
# The wheel under ideal timers

Level `i` ticks at every multiple of its resolution, simultaneous ticks come in any
order, and within a tick the clock shows the time of the tick. At a multiple of the
bottom resolution, the highest level that ticks then does the work for all levels
below it, whose own ticks are skipped, before or after. `OnSchedule` is what holds of
the tick counters and of the next ticks between two such times.
-/

namespace Kclpp

namespace Async

namespace Wheel

def resolutionAt (settings : List LevelSettings) (i : ℕ) : ℕ :=
  (settings[i]?.map LevelSettings.resolution).getD 0

def slotsAt (settings : List LevelSettings) (i : ℕ) : ℕ :=
  (settings[i]?.map LevelSettings.slots).getD 0

/-- Resolutions are positive, and each divides the next one. -/
structure Chained (settings : List LevelSettings) : Prop where
  positive : ∀ setting ∈ settings, 0 < setting.resolution
  divides : ∀ i, i + 1 < settings.length →
    resolutionAt settings i ∣ resolutionAt settings (i + 1)

/-- Each resolution divides the next one, which is within the capacity of the
level. -/
structure Nested (settings : List LevelSettings) : Prop where
  proper : Proper settings
  divides : ∀ i, i + 1 < settings.length →
    resolutionAt settings i ∣ resolutionAt settings (i + 1)
  covers : ∀ i, i + 1 < settings.length →
    resolutionAt settings (i + 1) ≤ resolutionAt settings i * slotsAt settings i

section Settings

variable {settings : List LevelSettings}

theorem Nested.chained (h : Nested settings) : Chained settings :=
  ⟨fun setting hsetting => (h.proper setting hsetting).1, h.divides⟩

theorem Chained.resolutionAt_pos (h : Chained settings) {i : ℕ}
    (hi : i < settings.length) : 0 < resolutionAt settings i := by
  rw [resolutionAt, List.getElem?_eq_getElem hi]
  exact h.positive _ (List.getElem_mem hi)

theorem Chained.dvd (h : Chained settings) {i j : ℕ} (hij : i ≤ j)
    (hj : j < settings.length) : resolutionAt settings i ∣ resolutionAt settings j := by
  induction j, hij using Nat.le_induction with
  | base => exact dvd_rfl
  | succ j hij ih => exact (ih (Nat.lt_of_succ_lt hj)).trans (h.divides j hj)

theorem Configured.level_eq {levels : List WheelLevel} (h : Configured settings levels)
    {i : ℕ} {level : WheelLevel} (hlevel : levels[i]? = some level) :
    i < settings.length ∧ level.bucket.isBottom = true ∧
      level.bucket.resolution = resolutionAt settings i ∧
      level.bucket.nSlots = slotsAt settings i ∧
      (i + 1 < settings.length →
        level.skipTick = resolutionAt settings (i + 1) / resolutionAt settings i) := by
  obtain ⟨setting, hsetting, hbottom, hres, hslots, hskip⟩ := h.config_eq hlevel
  refine ⟨(List.getElem?_eq_some_iff.mp hsetting).1, hbottom, ?_, ?_, fun hi => ?_⟩
  · rw [hres, resolutionAt, hsetting]
    rfl
  · rw [hslots, slotsAt, hsetting]
    rfl
  · rw [hskip, resolutionAt, resolutionAt, hsetting, List.getElem?_eq_getElem hi]
    rfl

end Settings

/-- The wheel, with the number of ticks of each of its timers. -/
structure TimedWheel where
  wheel : HTimerWheel
  ticks : ℕ → ℕ := fun _ => 0

inductive TimedStep where
  | add (call : AddCall)
  | tick (idx : ℕ)
  | callback
  | callbackReturned
  | levelDone
  deriving DecidableEq

namespace TimedWheel

def settings (s : TimedWheel) : List LevelSettings := s.wheel.wheelSettings

def nextTick (s : TimedWheel) (i : ℕ) : ℕ := (s.ticks i + 1) * resolutionAt s.settings i

def createNew (settings : List LevelSettings) : TimedWheel where
  wheel := (HTimerWheel.createNew settings).start 0

/-- The step of the wheel, with the reading of an ideal clock. -/
def wheelStep (s : TimedWheel) : TimedStep → WheelStep
  | .add call => .add s.wheel.cachedNow call
  | .tick idx => .onLevelTick idx (s.nextTick idx)
  | .callback => .callback
  | .callbackReturned => .callbackReturned
  | .levelDone => .levelDone s.wheel.cachedNow

/-- The next tick is one whose time has come first. -/
def ticksNext (s : TimedWheel) : TimedStep → Bool
  | .tick idx => decide (∀ j < s.settings.length, s.nextTick idx ≤ s.nextTick j)
  | _ => true

def ticksAfter (s : TimedWheel) : TimedStep → ℕ → ℕ
  | .tick idx => Function.update s.ticks idx (s.ticks idx + 1)
  | _ => s.ticks

def step (s : TimedWheel) (label : TimedStep) : Option TimedWheel :=
  if s.ticksNext label then
    (s.wheel.step (s.wheelStep label)).map fun wheel =>
      { wheel := wheel, ticks := s.ticksAfter label }
  else none

theorem step_eq {s s' : TimedWheel} {label : TimedStep} (h : s.step label = some s') :
    s.ticksNext label = true ∧ ∃ wheel', s.wheel.step (s.wheelStep label) = some wheel' ∧
      s' = ⟨wheel', s.ticksAfter label⟩ := by
  unfold step at h
  split_ifs at h with hfirst
  obtain ⟨wheel', hwheel, rfl⟩ := Option.map_eq_some_iff.mp h
  exact ⟨hfirst, wheel', hwheel, rfl⟩

/-- The next tick of a level comes at its first multiple after the time of the wheel;
or it is still to come at the time of the wheel, or has come already at the next one,
where a higher level does its work. -/
def NextTick (settings : List LevelSettings) (t : ℕ) (i next : ℕ) : Prop :=
  (t < next ∧ next ≤ t + resolutionAt settings i) ∨
    (i + 1 < settings.length ∧ resolutionAt settings (i + 1) ∣ t ∧ next = t) ∨
    (i + 1 < settings.length ∧
      resolutionAt settings (i + 1) ∣ t + resolutionAt settings 0 ∧
      next = t + resolutionAt settings 0 + resolutionAt settings i)

/-- The timers are on schedule at a time of the wheel. -/
structure OnSchedule (s : TimedWheel) (t : ℕ) : Prop where
  now : s.wheel.cachedNow = t
  divides : resolutionAt s.settings 0 ∣ t
  counters : ∀ i level, s.wheel.levels[i]? = some level →
    i + 1 < s.settings.length →
    level.tickCounter = s.ticks i %
      (resolutionAt s.settings (i + 1) / resolutionAt s.settings i)
  next : ∀ i < s.settings.length, NextTick s.settings t i (s.nextTick i)

section Schedule

variable {settings : List LevelSettings} {next : ℕ → ℕ} {t : ℕ}

/-- A multiple of the resolution that comes first after the time is no later than any
other one. -/
theorem le_of_dvd {R a b t : ℕ} (ha : R ∣ a) (hb : R ∣ b) (hat : a ≤ t + R)
    (hbt : t < b) : a ≤ b := by
  obtain ⟨c, rfl⟩ := ha
  obtain ⟨d, rfl⟩ := hb
  have hlt : R * c < R * (d + 1) := by
    rw [Nat.mul_succ]
    omega
  exact Nat.mul_le_mul_left R (Nat.lt_succ_iff.mp (Nat.lt_of_mul_lt_mul_left hlt))

/-- Some tick comes at the next multiple of the bottom resolution at the latest: of
the levels that divide it, the highest one has not ticked before its time. -/
theorem exists_next_le (hres : 0 < resolutionAt settings 0)
    (hdvd : ∀ i < settings.length, resolutionAt settings i ∣ next i)
    (hnext : ∀ i < settings.length, NextTick settings t i (next i)) :
    ∀ n i, settings.length - i = n → i < settings.length →
      resolutionAt settings i ∣ t + resolutionAt settings 0 →
      ∃ j < settings.length, next j ≤ t + resolutionAt settings 0 := by
  intro n
  induction n with
  | zero =>
      intro i hn hi
      omega
  | succ n ih =>
      intro i hn hi hdiv
      rcases hnext i hi with ⟨hlt, hle⟩ | ⟨-, -, heq⟩ | ⟨hi', hdiv', -⟩
      · exact ⟨i, hi, le_of_dvd (hdvd i hi) hdiv hle (by omega)⟩
      · exact ⟨i, hi, by omega⟩
      · exact ih (i + 1) (by omega) hi' hdiv'

/-- The multiple of the bottom resolution after a multiple of it is the next one. -/
theorem eq_add_of_dvd {R a t : ℕ} (ht : R ∣ t) (ha : R ∣ a) (hlt : t < a)
    (hle : a ≤ t + R) : a = t + R := by
  obtain ⟨c, rfl⟩ := ht
  obtain ⟨d, rfl⟩ := ha
  have hcd : c < d := Nat.lt_of_mul_lt_mul_left hlt
  have hle' : R * (c + 1) ≤ R * d := Nat.mul_le_mul_left R hcd
  rw [Nat.mul_succ] at hle'
  omega

/-- Whether the tick that comes first is skipped: then the schedule goes on at the
same time. -/
theorem next_skipped (hchained : Chained settings)
    (hbottom : resolutionAt settings 0 ∣ t)
    (hdvd : ∀ i < settings.length, resolutionAt settings i ∣ next i)
    (hnext : ∀ i < settings.length, NextTick settings t i (next i)) {idx : ℕ}
    (hfirst : ∀ j < settings.length, next idx ≤ next j)
    (hidx : idx + 1 < settings.length)
    (hskip : resolutionAt settings (idx + 1) ∣ next idx) :
    NextTick settings t idx (next idx + resolutionAt settings idx) := by
  have hres : 0 < resolutionAt settings 0 :=
    hchained.resolutionAt_pos (by omega)
  have hi : idx < settings.length := by omega
  have hdvd0 := (hchained.dvd (Nat.zero_le idx) hi).trans (hdvd idx hi)
  obtain ⟨j, hj, hnextj⟩ := exists_next_le hres hdvd hnext _ 0 rfl (by omega)
    (hbottom.add dvd_rfl)
  have hle := (hfirst j hj).trans hnextj
  have hpos := hchained.resolutionAt_pos hi
  rcases hnext idx hi with ⟨hlt, -⟩ | ⟨-, -, heq⟩ | ⟨-, -, heq⟩
  · rw [eq_add_of_dvd hbottom hdvd0 hlt hle] at hskip ⊢
    exact Or.inr (Or.inr ⟨hidx, hskip, rfl⟩)
  · rw [heq]
    exact Or.inl ⟨by omega, le_rfl⟩
  · omega

/-- Otherwise the wheel comes to the next multiple of the bottom resolution, of which
the level is the highest one. -/
theorem next_processed (hchained : Chained settings)
    (hbottom : resolutionAt settings 0 ∣ t)
    (hdvd : ∀ i < settings.length, resolutionAt settings i ∣ next i)
    (hnext : ∀ i < settings.length, NextTick settings t i (next i)) {idx : ℕ}
    (hfirst : ∀ j < settings.length, next idx ≤ next j) (hi : idx < settings.length)
    (hprocess : idx + 1 < settings.length →
      ¬ resolutionAt settings (idx + 1) ∣ next idx) :
    next idx = t + resolutionAt settings 0 ∧
      ∀ j < settings.length, NextTick settings (t + resolutionAt settings 0) j
        (if j = idx then next idx + resolutionAt settings idx else next j) := by
  have hres : 0 < resolutionAt settings 0 :=
    hchained.resolutionAt_pos (by omega)
  have hdvd0 := (hchained.dvd (Nat.zero_le idx) hi).trans (hdvd idx hi)
  obtain ⟨j, hj, hnextj⟩ := exists_next_le hres hdvd hnext _ 0 rfl (by omega)
    (hbottom.add dvd_rfl)
  have hle := (hfirst j hj).trans hnextj
  have htime : next idx = t + resolutionAt settings 0 := by
    rcases hnext idx hi with ⟨hlt, -⟩ | ⟨hidx, hdiv, heq⟩ | ⟨-, -, heq⟩
    · exact eq_add_of_dvd hbottom hdvd0 hlt hle
    · exact absurd (heq ▸ hdiv) (hprocess hidx)
    · have hpos := hchained.resolutionAt_pos hi
      omega
  refine ⟨htime, fun j hj => ?_⟩
  have hposj := hchained.resolutionAt_pos hj
  split_ifs with hjidx
  · rw [hjidx, htime]
    exact Or.inl ⟨by rw [hjidx] at hposj; omega, le_rfl⟩
  · have hfirstj := hfirst j hj
    rw [htime] at hfirstj
    rcases hnext j hj with ⟨hlt, hlej⟩ | ⟨-, -, heq⟩ | ⟨-, -, heq⟩
    · rcases Nat.lt_or_eq_of_le hfirstj with hlater | hsame
      · exact Or.inl ⟨hlater, by omega⟩
      · -- it ticks at the same time, below the level
        have hbelow : j < idx := by
          by_contra hnot
          have hup : idx + 1 ≤ j := by omega
          refine hprocess (by omega) ?_
          rw [htime, hsame]
          exact (hchained.dvd hup hj).trans (hdvd j hj)
        refine Or.inr (Or.inl ⟨by omega, ?_, hsame.symm⟩)
        rw [← htime]
        exact (hchained.dvd hbelow hi).trans (hdvd idx hi)
    · omega
    · exact Or.inl ⟨by omega, by omega⟩

end Schedule

/-- A counter is at its last but one value exactly before a multiple of the higher
resolution. -/
theorem skips_iff {R R' : ℕ} (hR : 0 < R) (hdvd : R ∣ R') (hR' : 0 < R') (a : ℕ) :
    a % (R' / R) + 1 = R' / R ↔ R' ∣ (a + 1) * R := by
  obtain ⟨n, rfl⟩ := hdvd
  have hn : 0 < n := Nat.pos_of_mul_pos_left hR'
  rw [Nat.mul_div_cancel_left n hR, Nat.mul_comm (a + 1) R,
    Nat.mul_dvd_mul_iff_left hR]
  have hdiv := Nat.div_add_mod a n
  have hlt := Nat.mod_lt a hn
  constructor
  · intro hlast
    exact ⟨a / n + 1, by rw [Nat.mul_succ]; omega⟩
  · intro hdvd
    rw [show a + 1 = n * (a / n) + (a % n + 1) by omega,
      Nat.dvd_add_right (Nat.dvd_mul_right n _)] at hdvd
    exact Nat.le_antisymm hlt (Nat.le_of_dvd (Nat.succ_pos _) hdvd)

theorem mod_succ_eq {n : ℕ} (hn : 0 < n) (a : ℕ) :
    (a + 1) % n = if a % n + 1 = n then 0 else a % n + 1 := by
  have hdiv := Nat.div_add_mod a n
  have hlt := Nat.mod_lt a hn
  rw [show a + 1 = n * (a / n) + (a % n + 1) by omega, Nat.mul_add_mod]
  split_ifs with hlast
  · rw [hlast, Nat.mod_self]
  · exact Nat.mod_eq_of_lt (by omega)

theorem onSchedule_createNew {settings : List LevelSettings}
    (hchained : Chained settings) : (createNew settings).OnSchedule 0 := by
  have hticks : ∀ i, (createNew settings).nextTick i = resolutionAt settings i :=
    fun i => Nat.one_mul _
  refine ⟨rfl, dvd_zero _, fun i level hlevel hi => ?_, fun i hi => ?_⟩
  · change (initLevels settings)[i]? = some level at hlevel
    rw [initLevels_eq] at hlevel
    obtain ⟨setting, -, rfl⟩ := Option.map_eq_some_iff.mp hlevel
    exact (Nat.zero_mod _).symm
  · rw [hticks]
    exact Or.inl ⟨hchained.resolutionAt_pos hi, (Nat.zero_add _).ge⟩

section Tick

variable {s : TimedWheel} {t : ℕ}

theorem dvd_nextTick (s : TimedWheel) (i : ℕ) :
    resolutionAt s.settings i ∣ s.nextTick i := Dvd.intro_left _ rfl

theorem nextTick_update (s : TimedWheel) {idx : ℕ} (wheel : HTimerWheel)
    (hsettings : wheel.wheelSettings = s.settings) (i : ℕ) :
    nextTick ⟨wheel, Function.update s.ticks idx (s.ticks idx + 1)⟩ i =
      if i = idx then s.nextTick idx + resolutionAt s.settings idx
      else s.nextTick i := by
  unfold nextTick settings
  dsimp only
  rw [hsettings]
  split_ifs with hi
  · rw [hi, Function.update_self]
    unfold settings
    ring
  · rw [Function.update_of_ne hi]
    rfl

theorem OnSchedule.congr {s' : TimedWheel} (h : OnSchedule s t)
    (hsettings : s'.settings = s.settings) (hticks : s'.ticks = s.ticks)
    (hnow : s'.wheel.cachedNow = s.wheel.cachedNow)
    (hcounters : s'.wheel.levels.map WheelLevel.tickCounter =
      s.wheel.levels.map WheelLevel.tickCounter) : OnSchedule s' t := by
  refine ⟨hnow.trans h.now, hsettings ▸ h.divides, fun i level hlevel hi => ?_,
    fun i hi => ?_⟩
  · have hcounter : (s'.wheel.levels.map WheelLevel.tickCounter)[i]? =
        (s.wheel.levels.map WheelLevel.tickCounter)[i]? := by rw [hcounters]
    rw [List.getElem?_map, List.getElem?_map, hlevel] at hcounter
    obtain ⟨old, hold, hsame⟩ := Option.map_eq_some_iff.mp hcounter.symm
    rw [hsettings] at hi
    rw [← hsame, h.counters i old hold hi, hsettings, hticks]
  · have hnext := h.next i (hsettings ▸ hi)
    rw [nextTick, hticks, hsettings]
    exact hnext

end Tick

end TimedWheel

def HTimerWheel.setCounter (wheel : HTimerWheel) (idx : ℕ) (level : WheelLevel)
    (n : ℕ) : HTimerWheel :=
  { wheel with levels := wheel.levels.set idx { level with tickCounter := n } }

/-- A tick is skipped where the counter of its level comes to its last value, and
processed otherwise. -/
theorem HTimerWheel.onLevelTick_cases {wheel wheel' : HTimerWheel} {idx : ℕ} {clock : ℤ}
    (h : wheel.onLevelTick idx clock = some wheel') :
    ∃ level, wheel.levels[idx]? = some level ∧
      ((idx + 1 < wheel.levels.length ∧ level.tickCounter + 1 = level.skipTick ∧
          wheel' = wheel.setCounter idx level 0) ∨
        ((idx + 1 < wheel.levels.length → level.tickCounter + 1 ≠ level.skipTick) ∧
          ∃ n, (idx + 1 < wheel.levels.length → n = level.tickCounter + 1) ∧
            (wheel.setCounter idx level n).onLevelTickImpl idx idx clock =
              some wheel')) := by
  obtain ⟨level, hlevel, h⟩ := Option.bind_eq_some_iff.mp h
  obtain ⟨hlt, hget⟩ := List.getElem?_eq_some_iff.mp hlevel
  refine ⟨level, hlevel, ?_⟩
  split_ifs at h with hlast hskip
  · refine Or.inr ⟨fun hidx => by omega, level.tickCounter, fun hidx => by omega, ?_⟩
    have hsame : wheel.setCounter idx level level.tickCounter = wheel := by
      have hset : wheel.levels.set idx level = wheel.levels := by
        rw [← hget, List.set_getElem_self]
      unfold setCounter
      rw [hset]
    rw [hsame]
    exact h
  · exact Or.inl ⟨by omega, hskip, (Option.some.inj h).symm⟩
  · exact Or.inr ⟨fun _ => hskip, level.tickCounter + 1, fun _ => rfl, h⟩

namespace TimedWheel

/-- What a tick comes to: it is skipped, and the schedule goes on at the same time. Or
it is processed, at the next multiple of the bottom resolution, which is a multiple of
the resolutions up to that of its level, and of none above. -/
inductive Ticked (s : TimedWheel) (t idx : ℕ) (level : WheelLevel)
    (wheel' : HTimerWheel) : Prop where
  | skipped (skips : wheel' = s.wheel.setCounter idx level 0)
      (schedule : OnSchedule ⟨wheel', s.ticksAfter (.tick idx)⟩ t)
  | processed (n : ℕ)
      (processes : (s.wheel.setCounter idx level n).onLevelTickImpl idx idx
        ↑(t + resolutionAt s.settings 0) = some wheel')
      (divides : ∀ i ≤ idx,
        resolutionAt s.settings i ∣ t + resolutionAt s.settings 0)
      (above : ∀ i, idx < i → i < s.settings.length →
        ¬ resolutionAt s.settings i ∣ t + resolutionAt s.settings 0)
      (schedule : OnSchedule ⟨(s.wheel.setCounter idx level n).updateNowOffset
        ↑(t + resolutionAt s.settings 0), s.ticksAfter (.tick idx)⟩
          (t + resolutionAt s.settings 0))

section Tick

variable {s : TimedWheel} {t idx : ℕ} {level : WheelLevel}

/-- The counters after a tick, where that of its level has been set to the number of
its ticks. -/
theorem counters_setCounter (h : OnSchedule s t) {n : ℕ}
    (hlevel : s.wheel.levels[idx]? = some level)
    (hn : idx + 1 < s.settings.length → n = (s.ticks idx + 1) %
      (resolutionAt s.settings (idx + 1) / resolutionAt s.settings idx)) {i : ℕ}
    {level' : WheelLevel}
    (hlevel' : (s.wheel.setCounter idx level n).levels[i]? = some level')
    (hi : i + 1 < s.settings.length) :
    level'.tickCounter = s.ticksAfter (.tick idx) i %
      (resolutionAt s.settings (i + 1) / resolutionAt s.settings i) := by
  have hlt := (List.getElem?_eq_some_iff.mp hlevel).1
  unfold HTimerWheel.setCounter at hlevel'
  dsimp only at hlevel'
  unfold ticksAfter
  dsimp only
  by_cases hidx : i = idx
  · rw [hidx, List.getElem?_set_self hlt] at hlevel'
    cases hlevel'
    rw [hidx, Function.update_self]
    exact hn (hidx ▸ hi)
  · rw [List.getElem?_set_ne (Ne.symm hidx)] at hlevel'
    rw [Function.update_of_ne hidx]
    exact h.counters i level' hlevel' hi

theorem ticked_of_onLevelTick {wheel' : HTimerWheel} (hchained : Chained s.settings)
    (hconfigured : Configured s.settings s.wheel.levels) (h : OnSchedule s t)
    (hfirst : ∀ j < s.settings.length, s.nextTick idx ≤ s.nextTick j)
    (htick : s.wheel.onLevelTick idx ↑(s.nextTick idx) = some wheel') :
    ∃ level, s.wheel.levels[idx]? = some level ∧ Ticked s t idx level wheel' := by
  obtain ⟨level, hlevel, hcases⟩ := HTimerWheel.onLevelTick_cases htick
  obtain ⟨hidx, -, -, -, hskip⟩ := hconfigured.level_eq hlevel
  have hres := hchained.resolutionAt_pos hidx
  have hlength : s.wheel.levels.length = s.settings.length := hconfigured.length
  have hdvd : ∀ i < s.settings.length, resolutionAt s.settings i ∣ s.nextTick i :=
    fun i _ => s.dvd_nextTick i
  have hskips : idx + 1 < s.settings.length →
      (level.tickCounter + 1 = level.skipTick ↔
        resolutionAt s.settings (idx + 1) ∣ s.nextTick idx) := by
    intro hidx'
    rw [h.counters idx level hlevel hidx', hskip hidx']
    exact skips_iff hres (hchained.divides idx hidx')
      (hchained.resolutionAt_pos hidx') _
  have hcounter : idx + 1 < s.settings.length → (s.ticks idx + 1) %
        (resolutionAt s.settings (idx + 1) / resolutionAt s.settings idx) =
      if level.tickCounter + 1 = level.skipTick then 0 else level.tickCounter + 1 := by
    intro hidx'
    rw [h.counters idx level hlevel hidx', hskip hidx']
    exact mod_succ_eq (Nat.div_pos (Nat.le_of_dvd
      (hchained.resolutionAt_pos hidx') (hchained.divides idx hidx')) hres) _
  rw [hlength] at hcases
  refine ⟨level, hlevel, ?_⟩
  rcases hcases with ⟨hidx', hlast, rfl⟩ | ⟨hgoes, n, hn, himpl⟩
  · have hnext := next_skipped hchained h.divides hdvd h.next hfirst hidx'
      ((hskips hidx').mp hlast)
    refine Ticked.skipped rfl ⟨h.now, h.divides, fun i level' hlevel' hi => ?_,
      fun i hi => ?_⟩
    · refine counters_setCounter h hlevel (fun _ => ?_) hlevel' hi
      rw [hcounter hidx', if_pos hlast]
    · rw [ticksAfter, nextTick_update s (s.wheel.setCounter idx level 0) rfl]
      split_ifs with hiidx
      · rw [hiidx]
        exact hnext
      · exact h.next i hi
  · obtain ⟨htime, hnext⟩ := next_processed hchained h.divides hdvd h.next hfirst hidx
      fun hidx' => mt (hskips hidx').mpr (hgoes hidx')
    rw [htime] at himpl
    refine Ticked.processed n himpl (fun i hi => ?_) (fun i hi hlt hdiv => ?_)
      ⟨rfl, h.divides.add dvd_rfl, fun i level' hlevel' hi => ?_, fun i hi => ?_⟩
    · rw [← htime]
      exact (hchained.dvd hi hidx).trans (s.dvd_nextTick idx)
    · have hidx' : idx + 1 < s.settings.length := by omega
      refine mt (hskips hidx').mpr (hgoes hidx') ?_
      rw [htime]
      exact (hchained.dvd hi hlt).trans hdiv
    · refine counters_setCounter h hlevel (fun hidx' => ?_) hlevel' hi
      rw [hcounter hidx', if_neg (hgoes hidx'), hn hidx']
    · rw [ticksAfter, nextTick_update s
        ((s.wheel.setCounter idx level n).updateNowOffset _) rfl]
      exact hnext i hi

end Tick

end TimedWheel

end Wheel

end Async

end Kclpp
