import Kclpp.Async.TimerEvent
import Kclpp.Containers.TakenOut
import Kclpp.Dynamo.Service
import Kclpp.Transition.Run

/-!
# Starting and stopping a coordinator

`start` and `stop` flip the running flag at once, and leave the timers to what
runs later: `start` to the end of the renewer's `initialize`, which arms them,
and `stop` to a message, which deletes them. Neither looks at the flag when it
runs. What is still to run is a list, of which any element may be next.
`sound_of_inOrder` says which orders do no harm.
-/

namespace Kclpp

namespace Leases

open Async Dynamo

open Transition (run Meets Throughout)

/-- `util::casLoop`: whether the value was the expected one, and the value
afterwards. -/
def casLoop {α : Type*} [DecidableEq α] (current expected desired : α) :
    Bool × α :=
  if current = expected then (true, desired) else (false, current)

/-- `LeaseCoordinatorOptions`, in milliseconds. -/
structure LeaseCoordinatorOptions where
  epsilon : ℤ := 0
  leaseDurationMsec : ℤ := 0
  deriving DecidableEq, Repr

namespace LeaseCoordinatorOptions

/-- `LeaseCoordinatorOptions::getRenewerInterval`; `none` where its `DCHECK`
fails. -/
def getRenewerInterval (dchecks : Bool) (options : LeaseCoordinatorOptions) :
    Option ℤ :=
  let base := options.leaseDurationMsec.tdiv 3
  if dchecks ∧ base < options.epsilon then none
  else some (base - options.epsilon)

def getTakerInterval (options : LeaseCoordinatorOptions) : ℤ :=
  (options.leaseDurationMsec + options.epsilon) * 2

end LeaseCoordinatorOptions

inductive TimerHandler where
  | runTaker
  | runRenewer
  deriving DecidableEq, Repr

/-- `LeaseCoordinatorState`, without the objects that `start` and `stop` pass
on. -/
structure LeaseCoordinatorState where
  options : LeaseCoordinatorOptions
  takerTimer : Option (TimerEvent TimerHandler) := none
  renewerTimer : Option (TimerEvent TimerHandler) := none
  running : Bool := false
  deriving DecidableEq, Repr

def LeaseCoordinatorState.setRunning (state : LeaseCoordinatorState)
    (isCurrentlyRunning : Bool) : Bool × LeaseCoordinatorState :=
  let swapped := casLoop state.running (!isCurrentlyRunning) isCurrentlyRunning
  (swapped.1, { state with running := swapped.2 })

namespace Lifecycle

/-- What is still to run: the callback that `start` gives to `initialize`, and
the message that `stop` posts. -/
inductive Pending where
  | initializing
  | stopping
  deriving DecidableEq, Repr

/-- What ends the process: the `DCHECK` of `getRenewerInterval`, or a timer that
`stop` does not find. -/
inductive Ending where
  | intervalCheck
  | missingTimer
  deriving DecidableEq, Repr

end Lifecycle

/-- A coordinator, what is still to run, what its callbacks have been told, latest
first, what has ended the process, and, for the record, whether an `initialize`
has succeeded. -/
structure Lifecycle where
  state : LeaseCoordinatorState
  pending : List Lifecycle.Pending := []
  answers : List (Lifecycle.Pending × Except DynamoDBErrors Unit) := []
  ending : Option Lifecycle.Ending := none
  initialized : Bool := false
  deriving DecidableEq

namespace Lifecycle

def answer (c : Lifecycle) (pending : Pending)
    (outcome : Except DynamoDBErrors Unit) : Lifecycle :=
  { c with answers := (pending, outcome) :: c.answers }

/-- The callback of `LeaseCoordinator::start`. -/
def onInitialize (dchecks : Bool) (c : Lifecycle) :
    Except DynamoDBErrors Unit → Lifecycle
  | .error e => c.answer .initializing (.error e)
  | .ok () =>
      let takerTimer := ((TimerEvent.createNew true).setHandler .runTaker).add
        c.state.options.getTakerInterval
      let c := { c with state := { c.state with takerTimer := some takerTimer } }
      let renewerTimer := (TimerEvent.createNew true).setHandler .runRenewer
      match c.state.options.getRenewerInterval dchecks with
      | none => { c with ending := some .intervalCheck }
      | some interval =>
          { c with
            state := { c.state with
              renewerTimer := some (renewerTimer.add interval) }
            initialized := true }.answer .initializing (.ok ())

/-- The message of `LeaseCoordinator::stop`. Where a timer is missing, its `DCHECK`s end
the process; without them it calls `del` through a null pointer, which is undefined, and
`missingTimer` stands for that too, also where a real process would go on. -/
def onStop (dchecks : Bool) (c : Lifecycle) : Lifecycle :=
  match c.state.renewerTimer, c.state.takerTimer with
  | some renewerTimer, some takerTimer =>
      { c with
        state := { c.state with
          renewerTimer := some (renewerTimer.del dchecks)
          takerTimer := some (takerTimer.del dchecks) } }.answer .stopping (.ok ())
  | _, _ => { c with ending := some .missingTimer }

inductive Step where
  | start
  | stop
  | initialized (i : ℕ) (outcome : Except DynamoDBErrors Unit)
  | stopped (i : ℕ)

/-- Take something from what is still to run. -/
def without (c : Lifecycle) (i : ℕ) : Lifecycle :=
  { c with pending := c.pending.eraseIdx i }

/-- One step. A call that its `CHECK` does not admit is none. -/
def step (dchecks : Bool) (c : Lifecycle) : Step → Option Lifecycle
  | .start =>
      let swapped := c.state.setRunning true
      if c.ending = none ∧ swapped.1 then
        some { c with state := swapped.2, pending := c.pending ++ [.initializing] }
      else none
  | .stop =>
      let swapped := c.state.setRunning false
      if c.ending = none ∧ swapped.1 then
        some { c with state := swapped.2, pending := c.pending ++ [.stopping] }
      else none
  | .initialized i outcome =>
      if c.ending = none ∧ c.pending[i]? = some .initializing then
        some ((c.without i).onInitialize dchecks outcome)
      else none
  | .stopped i =>
      if c.ending = none ∧ c.pending[i]? = some .stopping then
        some ((c.without i).onStop dchecks)
      else none

/-- A coordinator that has just been made. -/
structure Fresh (c : Lifecycle) : Prop where
  takerTimer : c.state.takerTimer = none
  renewerTimer : c.state.renewerTimer = none
  running : c.state.running = false
  pending : c.pending = []
  ending : c.ending = none
  initialized : c.initialized = false

def armed (c : Lifecycle) : Bool :=
  c.state.takerTimer.any TimerEvent.isPending ||
    c.state.renewerTimer.any TimerEvent.isPending

/-- No message of `stop` has come upon a timer that is not there, and no timer is
armed once the coordinator is stopped and everything has run. -/
structure Sound (c : Lifecycle) : Prop where
  found : c.ending ≠ some .missingTimer
  atRest : c.ending = none → c.state.running = false → c.pending = [] →
    c.armed = false

/-- After an `initialize` that has failed the running flag is clear, and `start`
is admitted. -/
def ClearsFlag (dchecks : Bool) (c : Lifecycle) : Step → Prop
  | .initialized i (.error e) =>
      ∀ c', c.step dchecks (.initialized i (.error e)) = some c' →
        c'.state.running = false ∧ c'.step dchecks .start ≠ none
  | _ => True

/-- `stop` is not followed by the success of an `initialize`, unless there is a
message of `stop` still to run, nor does its message run before any success; an
`initialize` fails only after a `stop`. The messages of `stop` need the
`DCHECK`s. -/
def InOrder (dchecks : Bool) (c : Lifecycle) : Step → Prop
  | .initialized _ (.ok ()) => c.state.running = true ∨ .stopping ∈ c.pending
  | .initialized _ (.error _) => c.state.running = false
  | .stopped _ => dchecks = true ∧ c.initialized = true
  | _ => True

@[simp] theorem setRunning_eq (state : LeaseCoordinatorState)
    (isCurrentlyRunning : Bool) :
    (state.setRunning isCurrentlyRunning).1 =
      (state.running == !isCurrentlyRunning) := by
  unfold LeaseCoordinatorState.setRunning casLoop
  cases state.running <;> cases isCurrentlyRunning <;> rfl

theorem setRunning_of_ne {state : LeaseCoordinatorState} {isCurrentlyRunning : Bool}
    (h : (state.setRunning isCurrentlyRunning).1 = true) :
    (state.setRunning isCurrentlyRunning).2 =
      { state with running := isCurrentlyRunning } := by
  unfold LeaseCoordinatorState.setRunning casLoop at *
  split_ifs at h ⊢ with heq
  rfl

theorem step_eq_some {dchecks : Bool} {c c' : Lifecycle} {l : Step}
    (h : c.step dchecks l = some c') :
    c.ending = none ∧
    ((l = .start ∧ c.state.running = false ∧
        c' = { c with
          state := { c.state with running := true }
          pending := c.pending ++ [.initializing] }) ∨
      (l = .stop ∧ c.state.running = true ∧
        c' = { c with
          state := { c.state with running := false }
          pending := c.pending ++ [.stopping] }) ∨
      (∃ i outcome, l = .initialized i outcome ∧
        c.pending[i]? = some .initializing ∧
        c' = (c.without i).onInitialize dchecks outcome) ∨
      ∃ i, l = .stopped i ∧ c.pending[i]? = some .stopping ∧
        c' = (c.without i).onStop dchecks) := by
  cases l with
  | start =>
      simp only [step] at h
      split_ifs at h with hand
      cases h
      refine ⟨hand.1, Or.inl ⟨rfl, ?_, ?_⟩⟩
      · simpa using hand.2
      · rw [setRunning_of_ne hand.2]
  | stop =>
      simp only [step] at h
      split_ifs at h with hand
      cases h
      refine ⟨hand.1, Or.inr (Or.inl ⟨rfl, ?_, ?_⟩)⟩
      · simpa using hand.2
      · rw [setRunning_of_ne hand.2]
  | initialized i outcome =>
      simp only [step] at h
      split_ifs at h with hand
      cases h
      exact ⟨hand.1, Or.inr (Or.inr (Or.inl ⟨i, outcome, rfl, hand.2, rfl⟩))⟩
  | stopped i =>
      simp only [step] at h
      split_ifs at h with hand
      cases h
      exact ⟨hand.1, Or.inr (Or.inr (Or.inr ⟨i, rfl, hand.2, rfl⟩))⟩

/-- Once an `initialize` has succeeded the timers are there; and an armed one
belongs to a coordinator that runs, or to one for which the message of `stop` is
still to run. -/
structure Kept (c : Lifecycle) : Prop where
  found : c.ending ≠ some .missingTimer
  timers : c.initialized = true → c.state.takerTimer.isSome = true ∧
    c.state.renewerTimer.isSome = true
  armed : c.ending = none → c.armed = true →
    c.state.running = true ∨ .stopping ∈ c.pending

theorem Kept.sound {c : Lifecycle} (h : c.Kept) : c.Sound where
  found := h.found
  atRest := by
    intro hending hrunning hpending
    by_contra harmed
    rw [Bool.not_eq_false] at harmed
    rcases h.armed hending harmed with hrun | hstop
    · rw [hrunning] at hrun
      cases hrun
    · rw [hpending] at hstop
      cases hstop

theorem Fresh.kept {c : Lifecycle} (h : c.Fresh) : c.Kept where
  found := by
    rw [h.ending]
    exact nofun
  timers := by
    rw [h.initialized]
    exact nofun
  armed := by
    intro _ harmed
    simp [Lifecycle.armed, h.takerTimer, h.renewerTimer] at harmed

theorem kept_initialized {dchecks : Bool} {c : Lifecycle} {i : ℕ}
    {outcome : Except DynamoDBErrors Unit} (h : c.Kept)
    (hi : c.pending[i]? = some .initializing) (hending : c.ending = none)
    (hok : c.InOrder dchecks (.initialized i outcome)) :
    ((c.without i).onInitialize dchecks outcome).Kept := by
  cases outcome with
  | error e =>
      refine ⟨h.found, h.timers, fun _ harmed => ?_⟩
      exact (h.armed hending harmed).imp_right fun hstop =>
        TakenOut.mem_eraseIdx_of_ne hi hstop (by decide)
  | ok u =>
      have hstays : (c.without i).state.running = true ∨
          Pending.stopping ∈ (c.without i).pending :=
        Or.imp_right (fun hstop =>
          TakenOut.mem_eraseIdx_of_ne hi hstop (by decide)) hok
      unfold onInitialize
      dsimp only
      split
      · exact ⟨nofun, fun hinit => ⟨rfl, (h.timers hinit).2⟩, nofun⟩
      · exact ⟨h.found, fun _ => ⟨rfl, rfl⟩, fun _ _ => hstays⟩

theorem kept_stopped {c : Lifecycle} {i : ℕ} (h : c.Kept)
    (hinit : c.initialized = true) : ((c.without i).onStop true).Kept := by
  obtain ⟨htaker, hrenewer⟩ := h.timers hinit
  obtain ⟨takerTimer, htaker⟩ := Option.isSome_iff_exists.mp htaker
  obtain ⟨renewerTimer, hrenewer⟩ := Option.isSome_iff_exists.mp hrenewer
  have hstop : (c.without i).onStop true =
      { c.without i with
        state := { c.state with
          renewerTimer := some (renewerTimer.del true)
          takerTimer := some (takerTimer.del true) } }.answer .stopping
        (.ok ()) := by
    unfold onStop
    have hrenewer' : (c.without i).state.renewerTimer = some renewerTimer :=
      hrenewer
    have htaker' : (c.without i).state.takerTimer = some takerTimer := htaker
    rw [hrenewer', htaker']
    rfl
  rw [hstop]
  refine ⟨h.found, fun _ => ⟨rfl, rfl⟩, fun _ harmed => ?_⟩
  simp [Lifecycle.armed, answer] at harmed

theorem kept_step {dchecks : Bool} {c c' : Lifecycle} {l : Step} (h : c.Kept)
    (hok : c.InOrder dchecks l) (hstep : c.step dchecks l = some c') : c'.Kept := by
  obtain ⟨hending, ⟨rfl, -, rfl⟩ | ⟨rfl, -, rfl⟩ | ⟨i, outcome, rfl, hi, rfl⟩ |
    ⟨i, rfl, hi, rfl⟩⟩ := step_eq_some hstep
  · exact ⟨h.found, h.timers, fun _ _ => Or.inl rfl⟩
  · exact ⟨h.found, h.timers, fun _ _ =>
      Or.inr (List.mem_append_right _ (List.mem_singleton.mpr rfl))⟩
  · exact kept_initialized h hi hending hok
  · obtain ⟨rfl, hinit⟩ := hok
    exact kept_stopped h hinit

theorem clearsFlag_of_inOrder {dchecks : Bool} {c : Lifecycle} {l : Step}
    (hok : c.InOrder dchecks l) : c.ClearsFlag dchecks l := by
  cases l with
  | initialized i outcome =>
      cases outcome with
      | error e =>
          intro c' hstep
          simp only [step] at hstep
          split_ifs at hstep with hand
          cases hstep
          have hrunning : ((c.without i).onInitialize dchecks
              (.error e)).state.running = false := hok
          have hending : ((c.without i).onInitialize dchecks
              (.error e)).ending = none := hand.1
          refine ⟨hrunning, ?_⟩
          simp [step, hrunning, hending]
      | ok u => trivial
  | _ => trivial

/-- In a run in which everything comes in order, `stop` finds its timers, no timer
is armed once the coordinator is stopped and everything has run, and an
`initialize` that fails leaves the running flag clear. -/
theorem sound_of_inOrder (dchecks : Bool) {c : Lifecycle} (hc : c.Fresh)
    {steps : List Step} (h : Meets (step dchecks) (InOrder dchecks) c steps) :
    Throughout (step dchecks) Sound c steps ∧
      Meets (step dchecks) (ClearsFlag dchecks) c steps := by
  constructor
  · intro before after c' heq hc'
    exact (Transition.throughout_of_meets (I := Kept)
      (fun _ _ _ hkept hok hstep => kept_step hkept hok hstep) hc.kept h
      before after c' heq hc').sound
  · exact Transition.meets_mono (fun _ _ hok => clearsFlag_of_inOrder hok) h

instance (dchecks : Bool) (c : Lifecycle) : DecidablePred (InOrder dchecks c)
  | .initialized _ (.ok ()) =>
      inferInstanceAs (Decidable (c.state.running = true ∨ _ ∈ c.pending))
  | .initialized _ (.error _) =>
      inferInstanceAs (Decidable (c.state.running = false))
  | .stopped _ =>
      inferInstanceAs (Decidable (dchecks = true ∧ c.initialized = true))
  | .start => isTrue trivial
  | .stop => isTrue trivial

def sampleCoordinator : Lifecycle where
  state := { options := { leaseDurationMsec := 10000 } }

theorem fresh_sampleCoordinator : sampleCoordinator.Fresh := by
  constructor <;> rfl

/-- A coordinator is started, stopped and started again before the message of
`stop` has run, and stopped in the end. -/
def sampleRestart : List Step :=
  [.start, .initialized 0 (.ok ()), .stop, .start, .stopped 0,
    .initialized 0 (.ok ()), .stop, .stopped 0]

theorem sound_of_inOrder_sampleRestart :
    (∃ c ∈ run (step true) sampleCoordinator sampleRestart,
        c.state.running = false ∧ c.pending = []) ∧
      Throughout (step true) Sound sampleCoordinator sampleRestart ∧
      Meets (step true) (ClearsFlag true) sampleCoordinator sampleRestart :=
  ⟨by decide, sound_of_inOrder true fresh_sampleCoordinator (by decide)⟩

/-- An `initialize` fails and the flag stays set, so that `start` is not admitted.
The message of `stop` runs before the `initialize` is over, and finds no timer. An
`initialize` succeeds after the message of `stop`, and the timers of a stopped
coordinator are armed for good. -/
theorem start_stop_unsound :
    (∃ c ∈ run (step true) sampleCoordinator
        [.start, .initialized 0 (.error .throttling)],
      c.state.running = true ∧ c.step true .start = none) ∧
    (∃ c ∈ run (step true) sampleCoordinator [.start, .stop, .stopped 1],
      c.ending = some .missingTimer) ∧
    ∃ c ∈ run (step true) sampleCoordinator
        [.start, .initialized 0 (.ok ()), .stop, .stopped 0, .start, .stop,
          .stopped 1, .initialized 0 (.ok ())],
      c.ending = none ∧ c.state.running = false ∧ c.pending = [] ∧
        c.armed = true := by
  decide

end Lifecycle

end Leases

end Kclpp
