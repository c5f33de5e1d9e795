import Kclpp.Async.Wheel.Bucket
import Kclpp.Transition.Run

/-!
# The timer wheel

`HTimerWheel` has one bucket a level. A tick of a level empties slot `0` of the level
and of those below it, from the top down. What is due soon is executed at once, the
rest put aside. Then the rings advance, and what has been put aside is added again,
where it goes to a lower level unless it is far off. A tick of a level at which the
next level ticks too is skipped.

The callbacks run in the middle of a tick, and may add entries. So a tick is a step
for its beginning, one for the beginning and one for the end of each callback, and one
where the callbacks of a level are through; `Phase` says where it stands. Wherever the
code reads the clock, the step has the reading.
-/

namespace Kclpp

namespace Async

namespace Wheel

/-- `HTimerWheel::LevelSettings`. -/
structure LevelSettings where
  resolution : ℕ
  slots : ℕ
  deriving DecidableEq, Repr

/-- `HTimerWheel::WheelLevel`. -/
structure WheelLevel where
  bucket : Bucket
  tickCounter : ℕ := 0
  skipTick : ℕ := 0

/-- Between two ticks; in `executePendingEntries` for a level of a tick, between two
callbacks; or inside a callback. -/
inductive Phase where
  | idle
  | executing (top idx : ℕ)
  | calling (top idx : ℕ) (entry : Entry)

/-- `HTimerWheel`, with the calls of `add` so far, and the executions, each with the
time of the wheel. -/
structure HTimerWheel where
  wheelSettings : List LevelSettings
  levels : List WheelLevel
  cachedNow : ℤ := 0
  nowInitialized : Bool := false
  repeatingEntriesToAdd : List Entry := []
  subEntriesToAdd : List Entry := []
  entriesToExecute : List Entry := []
  phase : Phase := .idle
  added : List AddCall := []
  executed : List (Entry × ℤ) := []

/-- A step of the wheel, with the readings of the clock. -/
inductive WheelStep where
  | start (clock : ℤ)
  | add (clock : ℤ) (call : AddCall)
  | onLevelTick (idx : ℕ) (clock : ℤ)
  | callback
  | callbackReturned
  | levelDone (clock : ℤ)
  deriving DecidableEq

/-- `HTimerWheel::initLevels`. The variable `idx` of its first loop is never
incremented, so that every bucket is made as a bottom one. -/
def initLevels : List LevelSettings → List WheelLevel
  | [] => []
  | [setting] => [{ bucket := Bucket.createNew true setting.resolution setting.slots }]
  | setting :: parent :: rest =>
      { bucket := Bucket.createNew true setting.resolution setting.slots
        skipTick := parent.resolution / setting.resolution } ::
        initLevels (parent :: rest)

/-- The loop of `HTimerWheel::addEntry`, over the levels from the bottom up; `none`
where it throws. -/
def addToLevels (now : ℤ) (entry : Entry) : List WheelLevel → Option (List WheelLevel)
  | [] => none
  | level :: levels =>
      if entry.getRemainingTime now < level.bucket.timeCapacity then
        (level.bucket.addEntry now entry).map fun bucket =>
          { level with bucket := bucket } :: levels
      else (addToLevels now entry levels).map (level :: ·)

namespace HTimerWheel

def createNew (settings : List LevelSettings) : HTimerWheel where
  wheelSettings := settings
  levels := initLevels settings

def updateNowOffset (wheel : HTimerWheel) (clock : ℤ) : HTimerWheel :=
  { wheel with cachedNow := clock, nowInitialized := true }

/-- `HTimerWheel::getNowOffset`, up to the time it returns. -/
def getNowOffset (wheel : HTimerWheel) (clock : ℤ) : HTimerWheel :=
  if wheel.nowInitialized then wheel else wheel.updateNowOffset clock

/-- `HTimerWheel::start`, up to the timers. -/
def start (wheel : HTimerWheel) (clock : ℤ) : HTimerWheel :=
  wheel.updateNowOffset clock

/-- `HTimerWheel::addEntry`, where the wheel has its time. -/
def addEntry (wheel : HTimerWheel) (entry : Entry) : Option HTimerWheel :=
  (addToLevels wheel.cachedNow entry wheel.levels).map fun levels =>
    { wheel with levels := levels }

/-- `HTimerWheel::addNewEntry`, where the wheel has its time. -/
def addNewEntry (wheel : HTimerWheel) (entry : Entry) : Option HTimerWheel :=
  wheel.addEntry (entry.setAddedTime wheel.cachedNow)

/-- The entry that a call of `add` makes. -/
def newEntry (wheel : HTimerWheel) (call : AddCall) : Entry where
  number := wheel.added.length
  hasCallback := call.hasCallback
  interval := call.msecDelay
  addedTime := 0
  repeating := call.repeating

def add (wheel : HTimerWheel) (clock : ℤ) (call : AddCall) : Option HTimerWheel :=
  ((wheel.getNowOffset clock).addNewEntry (wheel.newEntry call)).map fun wheel =>
    { wheel with added := wheel.added ++ [call] }

def addSubEntries (wheel : HTimerWheel) : Option HTimerWheel :=
  (wheel.subEntriesToAdd.foldlM addEntry wheel).map fun wheel =>
    { wheel with subEntriesToAdd := [] }

def reAddRepeatingEntries (wheel : HTimerWheel) : Option HTimerWheel :=
  (wheel.repeatingEntriesToAdd.foldlM addNewEntry wheel).map fun wheel =>
    { wheel with repeatingEntriesToAdd := [] }

def bucket1Res (wheel : HTimerWheel) : ℕ :=
  (wheel.wheelSettings.head?.map LevelSettings.resolution).getD 0

/-- What is left of an entry of an upper bucket is less than half of a bottom
resolution. -/
def dueSoon (wheel : HTimerWheel) (entry : Entry) : Bool :=
  let remaining := entry.getRemainingTime wheel.cachedNow
  remaining < wheel.bucket1Res && remaining < wheel.bucket1Res - remaining

/-- `HTimerWheel::processUpperBucketSlots`; `none` where a `CHECK` fails. -/
def processUpperBucketSlots : HTimerWheel → List Entry → Option HTimerWheel
  | wheel, [] => some wheel
  | wheel, entry :: entries =>
      if wheel.dueSoon entry then
        if entry.hasCallback then
          processUpperBucketSlots
            { wheel with entriesToExecute := wheel.entriesToExecute ++ [entry] } entries
        else none
      else if entry.hasCallback then
        processUpperBucketSlots
          { wheel with subEntriesToAdd := wheel.subEntriesToAdd ++ [entry] } entries
      else processUpperBucketSlots wheel entries

/-- `HTimerWheel::processBucket1` and `HTimerWheel::processBucketN`. -/
def processBucket (wheel : HTimerWheel) (idx : ℕ) : Option HTimerWheel :=
  wheel.levels[idx]?.bind fun level =>
    level.bucket.takeSlot.bind fun (entries, bucket) =>
      let wheel := { wheel with
        levels := wheel.levels.set idx { level with bucket := bucket } }
      if idx = 0 then
        some { wheel with
          entriesToExecute :=
            wheel.entriesToExecute ++ entries.filter Entry.hasCallback }
      else wheel.processUpperBucketSlots entries

/-- `HTimerWheel::onLevelTickImpl`, up to the callbacks. -/
def onLevelTickImpl (wheel : HTimerWheel) (top idx : ℕ) (clock : ℤ) :
    Option HTimerWheel :=
  ((wheel.updateNowOffset clock).processBucket idx).map fun wheel =>
    { wheel with phase := .executing top idx }

def advanceBuckets (wheel : HTimerWheel) (levelIdx : ℕ) : HTimerWheel :=
  { wheel with
    levels := (wheel.levels.take (levelIdx + 1)).map (fun level =>
      { level with bucket := level.bucket.advance }) ++
        wheel.levels.drop (levelIdx + 1) }

/-- `HTimerWheel::onAfterTick`. Nothing waits for execution before it or after it. -/
def onAfterTick (wheel : HTimerWheel) (clock : ℤ) : Option HTimerWheel :=
  (wheel.updateNowOffset clock).addSubEntries.bind reAddRepeatingEntries

/-- `HTimerWheel::onLevelTick`, up to the callbacks of its level. -/
def onLevelTick (wheel : HTimerWheel) (idx : ℕ) (clock : ℤ) : Option HTimerWheel :=
  wheel.levels[idx]?.bind fun level =>
    if idx = wheel.levels.length - 1 then wheel.onLevelTickImpl idx idx clock
    else if level.tickCounter + 1 = level.skipTick then
      some { wheel with levels := wheel.levels.set idx { level with tickCounter := 0 } }
    else
      onLevelTickImpl { wheel with
        levels := wheel.levels.set idx
          { level with tickCounter := level.tickCounter + 1 } } idx idx clock

def step (wheel : HTimerWheel) : WheelStep → Option HTimerWheel
  | .start clock =>
      match wheel.phase with
      | .idle => some (wheel.start clock)
      | _ => none
  | .add clock call =>
      match wheel.phase with
      | .executing _ _ => none
      | _ => wheel.add clock call
  | .onLevelTick idx clock =>
      match wheel.phase with
      | .idle => wheel.onLevelTick idx clock
      | _ => none
  | .callback =>
      match wheel.phase, wheel.entriesToExecute with
      | .executing top idx, entry :: rest =>
          if entry.hasCallback then
            some { wheel with
              entriesToExecute := rest
              phase := .calling top idx entry
              executed := wheel.executed ++ [(entry, wheel.cachedNow)] }
          else none
      | _, _ => none
  | .callbackReturned =>
      match wheel.phase with
      | .calling top idx entry =>
          some { wheel with
            phase := .executing top idx
            repeatingEntriesToAdd :=
              if entry.repeating then wheel.repeatingEntriesToAdd ++ [entry]
              else wheel.repeatingEntriesToAdd }
      | _ => none
  | .levelDone clock =>
      match wheel.phase, wheel.entriesToExecute with
      | .executing top (idx + 1), [] => wheel.onLevelTickImpl top idx clock
      | .executing top 0, [] =>
          ((wheel.advanceBuckets top).onAfterTick clock).map fun wheel =>
            { wheel with phase := .idle }
      | _, _ => none

section Steps

variable {wheel wheel' : HTimerWheel}

theorem phase_of_onLevelTickImpl {top idx : ℕ} {clock : ℤ}
    (h : wheel.onLevelTickImpl top idx clock = some wheel') :
    wheel'.phase = .executing top idx := by
  obtain ⟨wheel'', -, rfl⟩ := Option.map_eq_some_iff.mp h
  rfl

theorem step_start {clock : ℤ} (h : wheel.step (.start clock) = some wheel') :
    wheel.phase = .idle ∧ wheel' = wheel.start clock := by
  simp only [step] at h
  split at h
  · exact ⟨‹_›, (Option.some.inj h).symm⟩
  · cases h

theorem step_add {clock : ℤ} {call : AddCall}
    (h : wheel.step (.add clock call) = some wheel') :
    (∀ top idx, wheel.phase ≠ .executing top idx) ∧
      wheel.add clock call = some wheel' := by
  simp only [step] at h
  split at h
  · cases h
  · exact ⟨‹_›, h⟩

theorem step_onLevelTick {idx : ℕ} {clock : ℤ}
    (h : wheel.step (.onLevelTick idx clock) = some wheel') :
    wheel.phase = .idle ∧ wheel.onLevelTick idx clock = some wheel' := by
  simp only [step] at h
  split at h
  · exact ⟨‹_›, h⟩
  · cases h

theorem step_callback (h : wheel.step .callback = some wheel') :
    ∃ top idx entry rest, wheel.phase = .executing top idx ∧
      wheel.entriesToExecute = entry :: rest ∧ wheel' = { wheel with
        entriesToExecute := rest
        phase := .calling top idx entry
        executed := wheel.executed ++ [(entry, wheel.cachedNow)] } := by
  simp only [step] at h
  split at h
  · rename_i top idx entry rest hphase hexecute
    split_ifs at h
    exact ⟨top, idx, entry, rest, hphase, hexecute, (Option.some.inj h).symm⟩
  · cases h

theorem step_callbackReturned (h : wheel.step .callbackReturned = some wheel') :
    ∃ top idx entry, wheel.phase = .calling top idx entry ∧ wheel' = { wheel with
      phase := .executing top idx
      repeatingEntriesToAdd :=
        if entry.repeating then wheel.repeatingEntriesToAdd ++ [entry]
        else wheel.repeatingEntriesToAdd } := by
  simp only [step] at h
  split at h
  · exact ⟨_, _, _, ‹_›, (Option.some.inj h).symm⟩
  · cases h

theorem step_levelDone {clock : ℤ} (h : wheel.step (.levelDone clock) = some wheel') :
    wheel.entriesToExecute = [] ∧
      ((∃ top idx, wheel.phase = .executing top (idx + 1) ∧
          wheel.onLevelTickImpl top idx clock = some wheel') ∨
        ∃ top wheel'', wheel.phase = .executing top 0 ∧
          (wheel.advanceBuckets top).onAfterTick clock = some wheel'' ∧
          wheel' = { wheel'' with phase := .idle }) := by
  simp only [step] at h
  split at h
  · exact ⟨‹_›, Or.inl ⟨_, _, ‹_›, h⟩⟩
  · obtain ⟨wheel'', hafter, rfl⟩ := Option.map_eq_some_iff.mp h
    exact ⟨‹_›, Or.inr ⟨_, wheel'', ‹_›, hafter, rfl⟩⟩
  · cases h

end Steps

end HTimerWheel

end Wheel

end Async

end Kclpp
