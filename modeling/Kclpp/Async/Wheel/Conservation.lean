import Kclpp.Async.Wheel.Levels

/-!
# No entry is lost or duplicated

An entry that is held is in a slot, in one of the pending vectors, or it is a
repeating one whose callback is running. Every call of `add` has made one entry: a
one-shot entry is held or has been executed, and just once, and a repeating one is
held. `Sound` is the invariant that carries this through the middle of a tick; it also
says why no step fails.
-/

namespace Kclpp

namespace Async

namespace Wheel

open Transition (run Meets run_invariant_of_meets)

/-- What `add` was called with for the entry. -/
def Entry.call (entry : Entry) : AddCall :=
  ⟨entry.hasCallback, entry.interval, entry.repeating⟩

namespace HTimerWheel

def pendingEntries (wheel : HTimerWheel) : List Entry :=
  wheel.entriesToExecute ++ wheel.subEntriesToAdd ++ wheel.repeatingEntriesToAdd

/-- The repeating entry whose callback is running. -/
def calledEntries (wheel : HTimerWheel) : List Entry :=
  match wheel.phase with
  | .calling _ _ entry => if entry.repeating then [entry] else []
  | _ => []

def held (wheel : HTimerWheel) : List Entry :=
  slotEntries wheel.levels ++ wheel.pendingEntries ++ wheel.calledEntries

def oneShotsExecuted (wheel : HTimerWheel) : List Entry :=
  (wheel.executed.map Prod.fst).filter fun entry => !entry.repeating

def timesExecuted (wheel : HTimerWheel) (n : ℕ) : ℕ :=
  (wheel.executed.map fun execution => execution.1.number).count n

def timesHeld (wheel : HTimerWheel) (n : ℕ) : ℕ :=
  (wheel.held.map Entry.number).count n

/-- Between ticks the entries are in the slots. A one-shot entry is held or has been
executed, just once, and a repeating one is held once. -/
structure Conserved (wheel : HTimerWheel) : Prop where
  settled : wheel.phase = .idle → wheel.pendingEntries = [] ∧
    wheel.held = slotEntries wheel.levels
  oneShot : ∀ n call, wheel.added[n]? = some call → call.repeating = false →
    wheel.timesExecuted n + wheel.timesHeld n = 1
  repeating : ∀ n call, wheel.added[n]? = some call → call.repeating = true →
    wheel.timesHeld n = 1

/-- An entry is added with a callback and a delay within the capacity of the top
level. The clock does not go back. -/
def admits (wheel : HTimerWheel) : WheelStep → Bool
  | .add _ call =>
      call.hasCallback && call.msecDelay < (topCapacity wheel.wheelSettings : ℤ)
  | .start clock | .onLevelTick _ clock | .levelDone clock =>
      !wheel.nowInitialized || wheel.cachedNow ≤ clock
  | _ => true

/-- It is the turn of the step: nothing is added between two callbacks, the timers are
started between ticks, where a tick begins at a level that there is, and the steps of
a tick follow each other. -/
def inTurn (wheel : HTimerWheel) : WheelStep → Bool
  | .start _ =>
      match wheel.phase with
      | .idle => true
      | _ => false
  | .add _ _ =>
      match wheel.phase with
      | .executing _ _ => false
      | _ => true
  | .onLevelTick idx _ =>
      match wheel.phase with
      | .idle => idx < wheel.levels.length
      | _ => false
  | .callback =>
      match wheel.phase with
      | .executing _ _ => !wheel.entriesToExecute.isEmpty
      | _ => false
  | .callbackReturned =>
      match wheel.phase with
      | .calling _ _ _ => true
      | _ => false
  | .levelDone _ =>
      match wheel.phase with
      | .executing _ _ => wheel.entriesToExecute.isEmpty
      | _ => false

/-- The entry is one that has been added, by the time of the wheel, and can be put
into a slot. -/
structure Known (wheel : HTimerWheel) (entry : Entry) : Prop where
  added : wheel.added[entry.number]? = some entry.call
  hasCallback : entry.hasCallback = true
  interval : entry.interval < topCapacity wheel.wheelSettings
  addedTime : entry.addedTime ≤ wheel.cachedNow

def phaseWithin (levels : ℕ) : Phase → Prop
  | .idle => True
  | .executing top idx => idx ≤ top ∧ top < levels
  | .calling top idx _ => idx ≤ top ∧ top < levels

structure Sound (wheel : HTimerWheel) : Prop where
  capacity : 0 < topCapacity wheel.wheelSettings
  shaped : Shaped wheel.wheelSettings wheel.levels
  numbers : ((wheel.held ++ wheel.oneShotsExecuted).map Entry.number).Perm
    (List.range wheel.added.length)
  known : ∀ entry ∈ wheel.held, wheel.Known entry
  executed : ∀ execution ∈ wheel.executed,
    wheel.added[execution.1.number]? = some execution.1.call
  idle : wheel.phase = .idle → wheel.pendingEntries = []
  within : phaseWithin wheel.levels.length wheel.phase
  fresh : wheel.nowInitialized = false → wheel.held = []

theorem Known.fits {wheel : HTimerWheel} {entry : Entry} (h : wheel.Known entry)
    (hcapacity : 0 < topCapacity wheel.wheelSettings) {now : ℤ}
    (hnow : wheel.cachedNow ≤ now) :
    entry.getRemainingTime now < topCapacity wheel.wheelSettings := by
  have hadded := h.addedTime
  have hinterval := h.interval
  rw [Entry.getRemainingTime_eq, Entry.endTime]
  omega

theorem Known.updateNowOffset {wheel : HTimerWheel} {entry : Entry}
    (h : wheel.Known entry) {clock : ℤ} (hclock : wheel.cachedNow ≤ clock) :
    (wheel.updateNowOffset clock).Known entry :=
  ⟨h.added, h.hasCallback, h.interval, h.addedTime.trans hclock⟩

theorem Sound.updateNowOffset {wheel : HTimerWheel} (h : wheel.Sound) {clock : ℤ}
    (hclock : wheel.nowInitialized = true → wheel.cachedNow ≤ clock) :
    (wheel.updateNowOffset clock).Sound := by
  refine ⟨h.capacity, h.shaped, h.numbers, fun entry hentry => ?_, h.executed, h.idle,
    h.within, fun hfresh => by cases hfresh⟩
  cases hinit : wheel.nowInitialized with
  | true => exact (h.known entry hentry).updateNowOffset (hclock hinit)
  | false =>
      have hentry' : entry ∈ wheel.held := hentry
      rw [h.fresh hinit] at hentry'
      cases hentry'

theorem Sound.getNowOffset {wheel : HTimerWheel} (h : wheel.Sound) (clock : ℤ) :
    (wheel.getNowOffset clock).Sound ∧
      (wheel.getNowOffset clock).nowInitialized = true := by
  unfold HTimerWheel.getNowOffset
  split_ifs with hinit
  · exact ⟨h, hinit⟩
  · exact ⟨h.updateNowOffset fun hinit' => absurd hinit' hinit, rfl⟩

theorem Sound.of_perm {wheel wheel' : HTimerWheel} (h : wheel.Sound)
    (hsettings : wheel'.wheelSettings = wheel.wheelSettings)
    (hadded : wheel'.added = wheel.added) (hexecuted : wheel'.executed = wheel.executed)
    (hnow : wheel'.cachedNow = wheel.cachedNow)
    (hinit : wheel'.nowInitialized = wheel.nowInitialized)
    (hshaped : Shaped wheel.wheelSettings wheel'.levels)
    (hheld : wheel'.held.Perm wheel.held)
    (hidle : wheel'.phase = .idle → wheel'.pendingEntries = [])
    (hwithin : phaseWithin wheel'.levels.length wheel'.phase) : wheel'.Sound := by
  refine ⟨hsettings ▸ h.capacity, hsettings ▸ hshaped, ?_, fun entry hentry => ?_, ?_,
    hidle, hwithin, fun hfresh => ?_⟩
  · rw [hadded, oneShotsExecuted, hexecuted]
    exact ((hheld.append_right _).map _).trans h.numbers
  · obtain ⟨hcall, hcallback, hinterval, htime⟩ :=
      h.known entry (hheld.mem_iff.mp hentry)
    exact ⟨hadded ▸ hcall, hcallback, hsettings ▸ hinterval, hnow ▸ htime⟩
  · rw [hadded, hexecuted]
    exact h.executed
  · rw [h.fresh (hinit ▸ hfresh)] at hheld
    exact hheld.eq_nil

theorem sound_add {wheel : HTimerWheel} (h : wheel.Sound) {clock : ℤ} {call : AddCall}
    (hadmits : wheel.admits (.add clock call) = true) :
    ∃ wheel', wheel.add clock call = some wheel' ∧ wheel'.Sound := by
  simp only [admits, Bool.and_eq_true, decide_eq_true_eq] at hadmits
  obtain ⟨h', hinit⟩ := h.getNowOffset clock
  have hadded : (wheel.getNowOffset clock).added = wheel.added := by
    unfold HTimerWheel.getNowOffset
    split_ifs <;> rfl
  have hsettings : (wheel.getNowOffset clock).wheelSettings = wheel.wheelSettings := by
    unfold HTimerWheel.getNowOffset
    split_ifs <;> rfl
  unfold add addNewEntry
  generalize wheel.getNowOffset clock = wheel' at h' hinit hadded hsettings ⊢
  have hcapacity := h'.capacity
  rw [← hsettings] at hadmits
  have hfits : ((wheel.newEntry call).setAddedTime wheel'.cachedNow).getRemainingTime
      wheel'.cachedNow < topCapacity wheel'.wheelSettings := by
    rw [Entry.getRemainingTime_eq, Entry.endTime, Entry.setAddedTime, newEntry]
    dsimp only
    omega
  obtain ⟨i, level, hplaced, heq⟩ := addEntry_eq h'.shaped hfits
  rw [heq]
  refine ⟨_, rfl, ?_⟩
  generalize hentry : (wheel.newEntry call).setAddedTime wheel'.cachedNow = entry at *
  have hnumber : entry.number = wheel'.added.length := by
    rw [← hentry, hadded]
    rfl
  have hcall : entry.call = call := by
    rw [← hentry]
    rfl
  have hheld : (held { wheel' with
      levels := wheel'.levels.set i (level.withEntry wheel'.cachedNow entry)
      added := wheel'.added ++ [call] }).Perm (entry :: wheel'.held) :=
    ((hplaced.perm h'.shaped).append_right _).append_right _
  refine ⟨h'.capacity, hplaced.shaped h'.shaped, ?_, fun e he => ?_, ?_, h'.idle, ?_,
    fun hfresh => ?_⟩
  · have hperm := ((hheld.append_right wheel'.oneShotsExecuted).map Entry.number)
    refine hperm.trans ?_
    rw [List.cons_append, List.map_cons, hnumber, List.length_append,
      List.length_singleton, List.range_succ]
    exact (h'.numbers.cons _).trans (List.perm_append_singleton _ _).symm
  · rcases List.mem_cons.mp (hheld.mem_iff.mp he) with rfl | he
    · refine ⟨?_, ?_, ?_, ?_⟩
      · dsimp only
        rw [hnumber, List.getElem?_concat_length, hcall]
      · rw [← hentry]
        exact hadmits.1
      · rw [← hentry]
        exact hadmits.2
      · rw [← hentry]
        exact le_rfl
    · obtain ⟨hadded', hcallback, hinterval, htime⟩ := h'.known e he
      refine ⟨?_, hcallback, hinterval, htime⟩
      exact (List.getElem?_append_left
        (List.getElem?_eq_some_iff.mp hadded').1).trans hadded'
  · intro execution hexecution
    have hknown := h'.executed execution hexecution
    exact (List.getElem?_append_left
      (List.getElem?_eq_some_iff.mp hknown).1).trans hknown
  · dsimp only
    rw [List.length_set]
    exact h'.within
  · dsimp only at hfresh
    rw [hinit] at hfresh
    cases hfresh

theorem Sound.onLevelTickImpl_eq {wheel : HTimerWheel} (h : wheel.Sound) {idx : ℕ}
    {level : WheelLevel} (hlevel : wheel.levels[idx]? = some level) (top : ℕ)
    (clock : ℤ) :
    ∃ entries, level.bucket.buffer.getAt 0 = some entries ∧
      wheel.onLevelTickImpl top idx clock = some { wheel.updateNowOffset clock with
        levels := wheel.levels.set idx
          (level.withBuffer (level.bucket.buffer.modifyAt 0 fun _ => []))
        entriesToExecute := wheel.entriesToExecute ++ entries.filter fun entry =>
          idx = 0 || (wheel.updateNowOffset clock).dueSoon entry
        subEntriesToAdd := wheel.subEntriesToAdd ++ entries.filter fun entry =>
          !(idx = 0 || (wheel.updateNowOffset clock).dueSoon entry)
        phase := .executing top idx } := by
  have hmem := List.mem_of_getElem? hlevel
  have hgood : ∀ entry ∈ level.entries, entry.hasCallback = true := fun entry hentry =>
    (h.known entry (List.mem_append_left _ (List.mem_append_left _
      (List.mem_flatMap.mpr ⟨level, hmem, hentry⟩)))).hasCallback
  have hlevel' : (wheel.updateNowOffset clock).levels[idx]? = some level := hlevel
  obtain ⟨entries, hentries, heq⟩ :=
    processBucket_eq hlevel' (h.shaped.formed level hmem) hgood
  refine ⟨entries, hentries, ?_⟩
  rw [onLevelTickImpl, heq]
  rfl

theorem sound_onLevelTickImpl {wheel : HTimerWheel} (h : wheel.Sound) {top idx : ℕ}
    {clock : ℤ} (hclock : wheel.nowInitialized = true → wheel.cachedNow ≤ clock)
    (hcalled : wheel.calledEntries = []) (hidx : idx ≤ top)
    (htop : top < wheel.levels.length) :
    ∃ wheel', wheel.onLevelTickImpl top idx clock = some wheel' ∧ wheel'.Sound := by
  have h' := h.updateNowOffset hclock
  obtain ⟨level, hlevel⟩ : ∃ level, wheel.levels[idx]? = some level :=
    ⟨_, List.getElem?_eq_getElem (hidx.trans_lt htop)⟩
  have hformed := h.shaped.formed level (List.mem_of_getElem? hlevel)
  obtain ⟨entries, hentries, heq⟩ := h.onLevelTickImpl_eq hlevel top clock
  refine ⟨_, heq, ?_⟩
  have hslots : (slotEntries wheel.levels).Perm (entries ++ slotEntries
      (wheel.levels.set idx
        (level.withBuffer (level.bucket.buffer.modifyAt 0 fun _ => [])))) := by
    have hbefore := level.bucket.buffer.perm_flatten hentries
    have hafter := level.bucket.buffer.perm_flatten_modifyAt hentries fun _ => []
    refine (perm_slotEntries hlevel).trans ?_
    refine List.Perm.trans ?_ ((perm_slotEntries_set hlevel _).append_left entries).symm
    rw [← List.append_assoc]
    exact (hbefore.trans (hafter.symm.append_left entries)).append_right _
  refine h'.of_perm rfl rfl rfl rfl rfl ?_ ?_ ?_ ?_
  · exact h.shaped.set hlevel rfl (Bucket.formed_modifyAt hformed 0 _)
  · refine List.perm_iff_count.mpr fun entry => ?_
    have hsplit := (List.filter_append_perm (fun entry =>
      idx = 0 || (wheel.updateNowOffset clock).dueSoon entry) entries).count_eq entry
    have hmoved := hslots.count_eq entry
    have hcalled' : (wheel.updateNowOffset clock).calledEntries = [] := hcalled
    rw [List.count_append] at hsplit hmoved
    simp only [held, hcalled', pendingEntries, List.count_append, List.count_nil]
    simp only [calledEntries, HTimerWheel.updateNowOffset, List.count_nil] at hsplit ⊢
    omega
  · intro hphase
    cases hphase
  · refine ⟨hidx, ?_⟩
    dsimp only
    rw [List.length_set]
    exact htop

theorem Sound.set_tickCounter {wheel : HTimerWheel} (h : wheel.Sound) {idx : ℕ}
    {level : WheelLevel} (hlevel : wheel.levels[idx]? = some level) (n : ℕ) :
    Sound { wheel with
      levels := wheel.levels.set idx { level with tickCounter := n } } := by
  refine h.of_perm rfl rfl rfl rfl rfl ?_ ?_ h.idle ?_
  · exact h.shaped.set hlevel rfl
      (h.shaped.formed level (List.mem_of_getElem? hlevel))
  · refine List.Perm.append_right _ (List.Perm.append_right _ ?_)
    exact (perm_slotEntries_set hlevel _).trans (perm_slotEntries hlevel).symm
  · dsimp only
    rw [List.length_set]
    exact h.within

theorem sound_onLevelTick {wheel : HTimerWheel} (h : wheel.Sound) {idx : ℕ} {clock : ℤ}
    (hclock : wheel.nowInitialized = true → wheel.cachedNow ≤ clock)
    (hphase : wheel.phase = .idle) (hidx : idx < wheel.levels.length) :
    ∃ wheel', wheel.onLevelTick idx clock = some wheel' ∧ wheel'.Sound := by
  have hcalled : wheel.calledEntries = [] := by rw [calledEntries, hphase]
  have hlevel := List.getElem?_eq_getElem hidx
  rw [onLevelTick, hlevel, Option.bind_some]
  split_ifs with htop hskip
  · exact sound_onLevelTickImpl h hclock hcalled le_rfl hidx
  · exact ⟨_, rfl, h.set_tickCounter hlevel 0⟩
  · refine sound_onLevelTickImpl (h.set_tickCounter hlevel _) hclock hcalled le_rfl ?_
    dsimp only
    rw [List.length_set]
    exact hidx

/-- At the beginning of its callback, a one-shot entry is executed and no longer
held. -/
theorem sound_callback {wheel : HTimerWheel} (h : wheel.Sound) {top idx : ℕ}
    (hphase : wheel.phase = .executing top idx)
    (hentries : wheel.entriesToExecute ≠ []) :
    ∃ wheel', wheel.step .callback = some wheel' ∧ wheel'.Sound := by
  obtain ⟨entry, rest, hexecute⟩ := List.exists_cons_of_ne_nil hentries
  have hcalled : wheel.calledEntries = [] := by rw [calledEntries, hphase]
  have hmem : entry ∈ wheel.held := by
    refine List.mem_append_left _ (List.mem_append_right _ ?_)
    rw [pendingEntries, hexecute]
    exact List.mem_cons_self
  have hknown := h.known entry hmem
  have hwithin := h.within
  rw [hphase] at hwithin
  simp only [step, hphase, hexecute, hknown.hasCallback, if_true]
  refine ⟨_, rfl, h.capacity, h.shaped, ?_, ?_, ?_, fun hidle => (by cases hidle),
    hwithin, fun hfresh => ?_⟩
  · refine List.Perm.trans (List.Perm.map _ ?_) h.numbers
    refine List.perm_iff_count.mpr fun e => ?_
    simp only [held, hcalled, pendingEntries, hexecute, oneShotsExecuted,
      List.map_append, List.filter_append, List.count_append, List.count_nil,
      List.cons_append, List.count_cons]
    simp only [calledEntries, List.map_cons, List.map_nil]
    cases hrepeating : entry.repeating <;>
      simp only [hrepeating, Bool.not_true, Bool.not_false, Bool.false_eq_true,
        if_true, if_false, List.filter_cons, List.filter_nil, List.count_cons,
        List.count_nil] <;>
      omega
  · intro e he
    have hmem' : e ∈ wheel.held := by
      rw [held, hcalled, pendingEntries, hexecute]
      simp only [held, pendingEntries, calledEntries] at he
      cases hrepeating : entry.repeating <;> simp [hrepeating] at he ⊢ <;> tauto
    obtain ⟨hadded, hcallback, hinterval, htime⟩ := h.known e hmem'
    exact ⟨hadded, hcallback, hinterval, htime⟩
  · intro execution hexecution
    rcases List.mem_append.mp hexecution with hexecution | hexecution
    · exact h.executed execution hexecution
    · rw [List.mem_singleton] at hexecution
      rw [hexecution]
      exact hknown.added
  · rw [h.fresh hfresh] at hmem
    cases hmem

theorem sound_callbackReturned {wheel : HTimerWheel} (h : wheel.Sound) {top idx : ℕ}
    {entry : Entry} (hphase : wheel.phase = .calling top idx entry) :
    ∃ wheel', wheel.step .callbackReturned = some wheel' ∧ wheel'.Sound := by
  have hwithin := h.within
  rw [hphase] at hwithin
  simp only [step, hphase]
  refine ⟨_, rfl, h.of_perm rfl rfl rfl rfl rfl h.shaped ?_
    (fun hidle => by cases hidle) hwithin⟩
  refine List.perm_iff_count.mpr fun e => ?_
  simp only [held, calledEntries, hphase, pendingEntries, List.count_append,
    List.count_nil]
  cases entry.repeating with
  | true =>
      simp only [if_true, List.count_append]
      omega
  | false =>
      simp only [Bool.false_eq_true, if_false, List.count_nil]

theorem sound_advanceBuckets {wheel : HTimerWheel} (h : wheel.Sound) (top : ℕ) :
    (wheel.advanceBuckets top).Sound := by
  have hlength : (wheel.advanceBuckets top).levels.length = wheel.levels.length :=
    (shaped_advanceBuckets h.shaped top).length.trans h.shaped.length.symm
  refine h.of_perm rfl rfl rfl rfl rfl (shaped_advanceBuckets h.shaped top) ?_
    h.idle ?_
  · have hslots := slotEntries_advanceBuckets wheel top
    unfold held
    rw [hslots]
    exact List.Perm.refl _
  · rw [hlength]
    exact h.within

theorem Sound.known_afterTick {wheel : HTimerWheel} (h : wheel.Sound) {clock : ℤ}
    (hclock : wheel.nowInitialized = true → wheel.cachedNow ≤ clock) :
    ∀ entry ∈ wheel.subEntriesToAdd ++
        wheel.repeatingEntriesToAdd.map fun entry => entry.setAddedTime clock,
      (wheel.updateNowOffset clock).Known entry := by
  have h' := h.updateNowOffset hclock
  intro entry hentry
  rcases List.mem_append.mp hentry with hentry | hentry
  · refine h'.known entry (List.mem_append_left _ (List.mem_append_right _ ?_))
    exact List.mem_append_left _ (List.mem_append_right _ hentry)
  · obtain ⟨e, he, rfl⟩ := List.mem_map.mp hentry
    obtain ⟨hadded, hcallback, hinterval, -⟩ := h'.known e
      (List.mem_append_left _ (List.mem_append_right _ (List.mem_append_right _ he)))
    exact ⟨hadded, hcallback, hinterval, le_rfl⟩

theorem sound_onAfterTick {wheel : HTimerWheel} (h : wheel.Sound) {top idx : ℕ}
    {clock : ℤ} (hclock : wheel.nowInitialized = true → wheel.cachedNow ≤ clock)
    (hphase : wheel.phase = .executing top idx) (hexecute : wheel.entriesToExecute = []) :
    ∃ wheel', wheel.onAfterTick clock = some wheel' ∧
      Sound { wheel' with phase := .idle } := by
  have hheld : wheel.held = slotEntries wheel.levels ++
      (wheel.subEntriesToAdd ++ wheel.repeatingEntriesToAdd) := by
    rw [held, pendingEntries, calledEntries, hphase, hexecute, List.nil_append,
      List.append_nil]
  have hpending := h.known_afterTick hclock
  have hknown : ∀ entry ∈ slotEntries wheel.levels ++ (wheel.subEntriesToAdd ++
      wheel.repeatingEntriesToAdd.map fun entry => entry.setAddedTime clock),
      (wheel.updateNowOffset clock).Known entry := by
    intro entry hentry
    rcases List.mem_append.mp hentry with hentry | hentry
    · exact (h.updateNowOffset hclock).known entry
        (List.mem_append_left _ (List.mem_append_left _ hentry))
    · exact hpending entry hentry
  obtain ⟨levels, heq, hshaped, hnumbers, hknown'⟩ := onAfterTick_eq
    (P := fun entries levels =>
      ((slotEntries levels ++ entries).map Entry.number).Perm
          (wheel.held.map Entry.number) ∧
        ∀ entry ∈ slotEntries levels ++ entries,
          (wheel.updateNowOffset clock).Known entry)
    (fun entry entries levels i level hshaped hP hplaced => by
      have hperm : (slotEntries (levels.set i (level.withEntry clock entry)) ++
          entries).Perm (slotEntries levels ++ entry :: entries) :=
        ((hplaced.perm hshaped).append_right entries).trans List.perm_middle.symm
      exact ⟨(hperm.map _).trans hP.1, fun e he => hP.2 e (hperm.mem_iff.mp he)⟩)
    h.shaped
    (fun entry hentry => (hpending entry hentry).fits h.capacity le_rfl)
    ⟨by
      rw [hheld, List.map_append, List.map_append, List.map_append, List.map_append,
        List.map_map]
      exact List.Perm.refl _, hknown⟩
  rw [List.append_nil] at hnumbers hknown'
  have hafter : held { wheel with
      cachedNow := clock
      nowInitialized := true
      levels := levels
      subEntriesToAdd := []
      repeatingEntriesToAdd := []
      phase := .idle } = slotEntries levels := by
    simp only [held, pendingEntries, calledEntries, hexecute, List.append_nil]
  refine ⟨_, heq, h.capacity, hshaped, ?_, ?_, h.executed, fun _ => ?_, trivial,
    fun hfresh => by cases hfresh⟩
  · refine List.Perm.trans ?_ h.numbers
    rw [hafter, List.map_append, List.map_append]
    exact hnumbers.append_right _
  · intro entry hentry
    rw [hafter] at hentry
    obtain ⟨hadded, hcallback, hinterval, htime⟩ := hknown' entry hentry
    exact ⟨hadded, hcallback, hinterval, htime⟩
  · simp only [pendingEntries, hexecute, List.append_nil]

theorem sound_levelDone {wheel : HTimerWheel} (h : wheel.Sound) {top idx : ℕ}
    {clock : ℤ} (hclock : wheel.nowInitialized = true → wheel.cachedNow ≤ clock)
    (hphase : wheel.phase = .executing top idx) (hexecute : wheel.entriesToExecute = []) :
    ∃ wheel', wheel.step (.levelDone clock) = some wheel' ∧ wheel'.Sound := by
  have hwithin := h.within
  rw [hphase] at hwithin
  cases idx with
  | zero =>
      obtain ⟨wheel', heq, hsound⟩ := sound_onAfterTick
        (sound_advanceBuckets h top) hclock hphase hexecute
      refine ⟨_, ?_, hsound⟩
      simp only [step, hphase, hexecute, heq, Option.map_some]
  | succ idx =>
      have hcalled : wheel.calledEntries = [] := by rw [calledEntries, hphase]
      obtain ⟨wheel', heq, hsound⟩ := sound_onLevelTickImpl h hclock hcalled
        (Nat.le_of_succ_le hwithin.1) hwithin.2
      refine ⟨wheel', ?_, hsound⟩
      simp only [step, hphase, hexecute, heq]

theorem le_of_admits {wheel : HTimerWheel} {clock : ℤ}
    (h : (!wheel.nowInitialized || decide (wheel.cachedNow ≤ clock)) = true) :
    wheel.nowInitialized = true → wheel.cachedNow ≤ clock := by
  intro hinit
  rw [hinit, Bool.not_true, Bool.false_or, decide_eq_true_eq] at h
  exact h

section InTurn

variable {wheel : HTimerWheel} {clock : ℤ}

theorem phase_of_inTurn_start (h : wheel.inTurn (.start clock) = true) :
    wheel.phase = .idle := by
  simp only [inTurn] at h
  split at h
  · assumption
  · cases h

theorem phase_of_inTurn_add {call : AddCall}
    (h : wheel.inTurn (.add clock call) = true) (top idx : ℕ) :
    wheel.phase ≠ .executing top idx := by
  simp only [inTurn] at h
  split at h
  · cases h
  · rename_i hphase
    exact hphase top idx

theorem phase_of_inTurn_onLevelTick {idx : ℕ}
    (h : wheel.inTurn (.onLevelTick idx clock) = true) :
    wheel.phase = .idle ∧ idx < wheel.levels.length := by
  simp only [inTurn] at h
  split at h
  · exact ⟨‹_›, of_decide_eq_true h⟩
  · cases h

theorem phase_of_inTurn_callback (h : wheel.inTurn .callback = true) :
    ∃ top idx, wheel.phase = .executing top idx ∧ wheel.entriesToExecute ≠ [] := by
  simp only [inTurn] at h
  split at h
  · refine ⟨_, _, ‹_›, fun hnone => ?_⟩
    rw [hnone] at h
    cases h
  · cases h

theorem phase_of_inTurn_callbackReturned (h : wheel.inTurn .callbackReturned = true) :
    ∃ top idx entry, wheel.phase = .calling top idx entry := by
  simp only [inTurn] at h
  split at h
  · exact ⟨_, _, _, ‹_›⟩
  · cases h

theorem phase_of_inTurn_levelDone (h : wheel.inTurn (.levelDone clock) = true) :
    ∃ top idx, wheel.phase = .executing top idx ∧ wheel.entriesToExecute = [] := by
  simp only [inTurn] at h
  split at h
  · exact ⟨_, _, ‹_›, List.isEmpty_iff.mp h⟩
  · cases h

end InTurn

theorem sound_step {wheel : HTimerWheel} (h : wheel.Sound) {label : WheelStep}
    (hadmits : wheel.admits label = true) (hturn : wheel.inTurn label = true) :
    ∃ wheel', wheel.step label = some wheel' ∧ wheel'.Sound := by
  cases label with
  | start clock =>
      have hphase := phase_of_inTurn_start hturn
      refine ⟨wheel.start clock, ?_, h.updateNowOffset (le_of_admits hadmits)⟩
      simp only [step, hphase]
  | add clock call =>
      obtain ⟨wheel', heq, hsound⟩ := sound_add h hadmits
      refine ⟨wheel', ?_, hsound⟩
      unfold step
      cases hphase : wheel.phase with
      | executing top idx => exact absurd hphase (phase_of_inTurn_add hturn top idx)
      | idle => exact heq
      | calling top idx entry => exact heq
  | onLevelTick idx clock =>
      obtain ⟨hphase, hidx⟩ := phase_of_inTurn_onLevelTick hturn
      obtain ⟨wheel', heq, hsound⟩ :=
        sound_onLevelTick h (le_of_admits hadmits) hphase hidx
      refine ⟨wheel', ?_, hsound⟩
      simp only [step, hphase, heq]
  | callback =>
      obtain ⟨top, idx, hphase, hexecute⟩ := phase_of_inTurn_callback hturn
      exact sound_callback h hphase hexecute
  | callbackReturned =>
      obtain ⟨top, idx, entry, hphase⟩ := phase_of_inTurn_callbackReturned hturn
      exact sound_callbackReturned h hphase
  | levelDone clock =>
      obtain ⟨top, idx, hphase, hexecute⟩ := phase_of_inTurn_levelDone hturn
      exact sound_levelDone h (le_of_admits hadmits) hphase hexecute

theorem inTurn_of_step {wheel wheel' : HTimerWheel} {label : WheelStep}
    (h : wheel.step label = some wheel') : wheel.inTurn label = true := by
  cases label with
  | start clock =>
      obtain ⟨hphase, -⟩ := step_start h
      rw [inTurn, hphase]
  | add clock call =>
      obtain ⟨hphase, -⟩ := step_add h
      unfold inTurn
      cases hwheel : wheel.phase with
      | executing top idx => exact absurd hwheel (hphase top idx)
      | _ => rfl
  | onLevelTick idx clock =>
      obtain ⟨hphase, htick⟩ := step_onLevelTick h
      obtain ⟨level, hlevel, -⟩ := Option.bind_eq_some_iff.mp htick
      rw [inTurn, hphase]
      exact decide_eq_true (List.getElem?_eq_some_iff.mp hlevel).1
  | callback =>
      obtain ⟨top, idx, entry, rest, hphase, hexecute, -⟩ := step_callback h
      rw [inTurn, hphase, hexecute]
      rfl
  | callbackReturned =>
      obtain ⟨top, idx, entry, hphase, -⟩ := step_callbackReturned h
      rw [inTurn, hphase]
  | levelDone clock =>
      obtain ⟨hexecute, hlevels⟩ := step_levelDone h
      rcases hlevels with ⟨top, idx, hphase, -⟩ | ⟨top, -, hphase, -⟩
      · rw [inTurn, hphase, hexecute]
        rfl
      · rw [inTurn, hphase, hexecute]
        rfl

theorem sound_of_step {wheel wheel' : HTimerWheel} {label : WheelStep}
    (h : wheel.Sound) (hadmits : wheel.admits label = true)
    (hstep : wheel.step label = some wheel') : wheel'.Sound := by
  obtain ⟨wheel'', heq, hsound⟩ := sound_step h hadmits (inTurn_of_step hstep)
  rw [hstep] at heq
  cases heq
  exact hsound

theorem topCapacity_pos {settings : List LevelSettings} (hsettings : settings ≠ [])
    (hproper : Proper settings) : 0 < topCapacity settings := by
  rw [topCapacity, List.getLast?_eq_getLast_of_ne_nil hsettings]
  obtain ⟨hres, hslots⟩ := hproper _ (List.getLast_mem hsettings)
  exact Nat.mul_pos hres (Nat.lt_of_lt_of_le Nat.two_pos hslots)

theorem sound_createNew {settings : List LevelSettings} (hsettings : settings ≠ [])
    (hproper : Proper settings) : (createNew settings).Sound := by
  have hheld : (createNew settings).held = [] := by
    simp only [held, createNew, slotEntries_initLevels, pendingEntries, calledEntries,
      List.append_nil]
  refine ⟨topCapacity_pos hsettings hproper, shaped_initLevels hproper, ?_,
    fun entry hentry => ?_, List.forall_mem_nil _, fun _ => rfl, trivial,
    fun _ => hheld⟩
  · rw [hheld]
    exact List.Perm.nil
  · rw [hheld] at hentry
    cases hentry

theorem Sound.conserved {wheel : HTimerWheel} (h : wheel.Sound) : wheel.Conserved := by
  have hcount : ∀ n call, wheel.added[n]? = some call →
      wheel.timesHeld n + (wheel.oneShotsExecuted.map Entry.number).count n = 1 := by
    intro n call hcall
    have hn := (List.getElem?_eq_some_iff.mp hcall).1
    have hperm := h.numbers.count_eq n
    rw [List.map_append, List.count_append] at hperm
    rw [timesHeld, hperm, List.count_range, if_pos hn]
  have hcall_eq : ∀ n call, wheel.added[n]? = some call →
      ∀ execution ∈ wheel.executed, execution.1.number = n →
        execution.1.repeating = call.repeating := by
    rintro n call hcall execution hexecution rfl
    have hexecuted := h.executed execution hexecution
    rw [hcall] at hexecuted
    cases hexecuted
    rfl
  refine ⟨fun hidle => ⟨h.idle hidle, ?_⟩, fun n call hcall hrepeating => ?_,
    fun n call hcall hrepeating => ?_⟩
  · rw [held, h.idle hidle, calledEntries, hidle, List.append_nil, List.append_nil]
  · have hsame : (wheel.oneShotsExecuted.map Entry.number).count n =
        wheel.timesExecuted n := by
      rw [oneShotsExecuted, timesExecuted, List.count_eq_countP, List.count_eq_countP,
        List.countP_map, List.countP_filter, List.countP_map, List.countP_map]
      refine List.countP_congr fun execution hexecution => ?_
      have heq := hcall_eq n call hcall execution hexecution
      simp only [Function.comp_apply, Bool.and_eq_true, beq_iff_eq,
        Bool.not_eq_true']
      exact ⟨fun hnumber => hnumber.1, fun hnumber =>
        ⟨hnumber, (heq hnumber).trans hrepeating⟩⟩
    have hone := hcount n call hcall
    rw [hsame] at hone
    omega
  · have hnone : (wheel.oneShotsExecuted.map Entry.number).count n = 0 := by
      refine List.count_eq_zero.mpr fun hmem => ?_
      obtain ⟨entry, hentry, hnumber⟩ := List.mem_map.mp hmem
      obtain ⟨hexecuted, honeShot⟩ := List.mem_filter.mp hentry
      obtain ⟨execution, hexecution, rfl⟩ := List.mem_map.mp hexecuted
      rw [hcall_eq n call hcall execution hexecution hnumber, hrepeating] at honeShot
      cases honeShot
    have hone := hcount n call hcall
    rwa [hnone] at hone

/-- Whatever is added and whatever ticks, nothing is lost or duplicated, and in its
turn every further step can be taken. -/
theorem conserved_of_run (settings : List LevelSettings) (hsettings : settings ≠ [])
    (hproper : Proper settings) (labels : List WheelStep) (wheel : HTimerWheel)
    (hadmits : Meets step (fun wheel label => wheel.admits label = true)
      (createNew settings) labels)
    (h : run step (createNew settings) labels = some wheel) :
    wheel.Conserved ∧ ∀ label, wheel.admits label = true →
      wheel.inTurn label = true → ∃ wheel', wheel.step label = some wheel' := by
  have hsound : wheel.Sound := run_invariant_of_meets
    (fun wheel label wheel' hs hadmits hstep => sound_of_step hs hadmits hstep)
    (sound_createNew hsettings hproper) hadmits h
  refine ⟨hsound.conserved, fun label hadmits hturn => ?_⟩
  obtain ⟨wheel', heq, -⟩ := sound_step hsound hadmits hturn
  exact ⟨wheel', heq⟩

/-- Two levels, and steps in which a repeating entry is executed and its callback adds
an entry. -/
def sampleSettings : List LevelSettings := [⟨10, 3⟩, ⟨30, 2⟩]

def sampleTicks : List WheelStep :=
  [.start 0, .add 0 ⟨true, 45, false⟩, .add 0 ⟨true, 20, true⟩, .onLevelTick 0 10,
    .levelDone 10, .onLevelTick 0 20, .levelDone 20, .onLevelTick 0 30,
    .onLevelTick 1 30, .levelDone 30, .callback, .add 30 ⟨true, 12, false⟩,
    .callbackReturned, .levelDone 30]

theorem conserved_of_run_sampleTicks :
    ∃ wheel, run step (createNew sampleSettings) sampleTicks = some wheel ∧
      wheel.Conserved := by
  have hproper : Proper sampleSettings := by
    unfold Proper
    decide
  have hrun : (run step (createNew sampleSettings) sampleTicks).isSome = true := by
    decide +kernel
  obtain ⟨wheel, h⟩ := Option.isSome_iff_exists.mp hrun
  exact ⟨wheel, h, (conserved_of_run sampleSettings (by decide) hproper sampleTicks
    wheel (by decide +kernel) h).1⟩

end HTimerWheel

end Wheel

end Async

end Kclpp
